import Wayfarer.Composer.Tabs
import Wayfarer.Model.Documents
import Wayfarer.Send.Composed
import Wayfarer.Variables.AsksVault

/-!
# What a model proposes

`requestProposal` reads a request out of a model's answer, and refuses an answer that names a vault
secret: on the answer as it is written, and again on the texts its JSON gave. The headers are looked
at as JSON once more, where a tab, a line tabulation or a form feed is an escape, so a reference
with one of these between its braces and its name passes, and the resolver trims it.
`proposal_asks_nothing_iff` says that nothing else passes.
-/

set_option autoImplicit false

namespace Wayfarer

open Library

/-! ## The answer -/

/-- Two braces, white space, and what every reference starts with, in letters of either case. -/
def referenceAt (t : Text) : Bool :=
  [openBrace, openBrace].isPrefixOf t &&
    secretPrefix.isPrefixOf ((trimStart (t.drop 2)).map asciiLower)

/-- Whether a text matches `SECRET_REFERENCE` anywhere. -/
def testSecretReference : Text → Bool
  | [] => false
  | c :: rest => referenceAt (c :: rest) || testSecretReference rest

/-- From the first opening brace of an answer to its last closing one. -/
def jsonPart (answer : Text) : Option Text :=
  let upToLast := ((answer.dropWhile fun c => c ≠ openBrace).reverse.dropWhile fun c =>
    c ≠ closeBrace).reverse
  if upToLast = [] then none else some upToLast

/-- The members of the JSON in an answer. A list has no members of a request's names; none where the
answer holds no object and no list. -/
def answeredFields (P : Platform) (answer : Text) : Option Fields :=
  match (jsonPart answer).bind P.parseJson with
  | some (.object members) => some members
  | some (.array _) => some []
  | _ => none

/-- The pairs of texts in a list. Anything else in it is left out. -/
def headerPairs (headers : Option Json) : List (Text × Text) :=
  match headers with
  | some (.array items) => items.flatMap fun pair =>
      match pair with
      | .array (.string key :: .string value :: _) => [(key, value)]
      | _ => []
  | _ => []

/-! ## The request -/

/-- What every refusal of a secret's name says. -/
def namesVaultSecret : Text :=
  units "The answer names a vault secret, and is not shown."

/-- What the refusal of anything but a request says. -/
def noRequest : Text :=
  units "The answer is not a request the app can read."

/-- The request in an answer, as it is put together. -/
def proposedRequest (P : Platform) (members : Fields) : RequestContent :=
  { emptyRequest with
    method := ((textOf (field members (units "method"))).map P.toUpperCase).getD []
    url := (textOf (field members (units "url"))).getD []
    headers := (headerPairs (field members (units "headers"))).map fun pair =>
      { key := pair.1, value := pair.2, enabled := true }
    body :=
      match textOf (field members (units "body")) with
      | some (c :: text) => { mode := .raw, raw := some { language := .text, text := c :: text } }
      | _ => emptyRequest.body }

/-- A proposed request, as the check of an imported one is given it. -/
def proposalJson (request : RequestContent) : Json :=
  .object [(units "method", .string request.method), (units "url", .string request.url),
    (units "params", rowsJson request.params), (units "headers", rowsJson request.headers),
    (units "body", .object (match request.body.raw with
      | some raw => [(units "mode", .string (units "raw")),
          (units "raw", .object [(units "language", .string (units "text")),
            (units "text", .string raw.text)])]
      | none => [(units "mode", .string (units "none"))])),
    (units "auth", .object [(units "type", .string (units "none"))]),
    (units "scripts", .object [(units "pre", .string request.scripts.pre),
      (units "post", .string request.scripts.post)]),
    (units "tests", .array []), (units "settings", .object [])]

/-- A character that ends a line. -/
def isLineBreak (c : CodeUnit) : Bool :=
  c = 0x0D || c = 0x0A

/-- A proposed request, as the wire check is given it. -/
def proposalWire (request : RequestContent) : WireRequest :=
  { url := request.url
    headers := request.headers.map fun row => (row.key, row.value)
    body := request.body.raw.map fun raw => .text raw.text }

/-- The request a model proposes, or why it is not shown. -/
def requestProposal (P : Platform) (answer : Text) : Except Text RequestContent :=
  if testSecretReference answer then .error namesVaultSecret
  else
    match answeredFields P answer with
    | none => .error noRequest
    | some members =>
        let request := proposedRequest P members
        -- A line break in a header would be a second header on the wire.
        if request.url = [] ∨
            validateRequestContent P (some (proposalJson request)) (units "request") ≠ [] ∨
            request.headers.any (fun row => (row.key ++ row.value).any isLineBreak) then
          .error noRequest
        -- On the values that the JSON gave: the dollar may have been an escape in the answer.
        else if containsSecretPlaceholder (proposalWire request) then .error namesVaultSecret
        else .ok request

/-! ## What passes -/

/-- Every text of a request that could be resolved: its address, parameters, headers, body and
auth. -/
def resolvableTexts (request : RequestContent) : List Text :=
  request.url :: (request.params ++ request.headers).flatMap (fun row => [row.key, row.value]) ++
    bodyTexts request.body ++ authTexts request.auth

/-- Each way an answer is shown as a request. -/
theorem requestProposal_eq_ok {P : Platform} {answer : Text} {request : RequestContent}
    (h : requestProposal P answer = .ok request) :
    ∃ members, answeredFields P answer = some members ∧ request = proposedRequest P members ∧
      containsSecretPlaceholder (proposalWire request) = false := by
  rw [requestProposal] at h
  split_ifs at h with htest
  cases hfields : answeredFields P answer with
  | none =>
      rw [hfields] at h
      cases h
  | some members =>
      simp only [hfields] at h
      split_ifs at h with hbad hnames
      refine ⟨members, rfl, (Except.ok.inj h).symm, ?_⟩
      rw [← Except.ok.inj h]
      simpa using hnames

/-- Nothing that a check of the wire reads opens a reference. -/
theorem not_opens_of_checked {wire : WireRequest} (h : containsSecretPlaceholder wire = false)
    {t : Text} (ht : t ∈ wireTexts wire) : ¬ Opens t := by
  intro hopens
  rw [containsSecretPlaceholder, List.any_eq_false] at h
  exact h t ht ((testSecretPlaceholder_iff t).mpr hopens)

/-- The texts of a proposed request: its address, its headers, and its body. -/
theorem mem_resolvableTexts {P : Platform} {members : Fields} {t : Text} :
    t ∈ resolvableTexts (proposedRequest P members) ↔
      t = (proposedRequest P members).url ∨
        (∃ pair ∈ headerPairs (field members (units "headers")), t = pair.1 ∨ t = pair.2) ∨
        t ∈ bodyTexts (proposedRequest P members).body := by
  have hauth : authTexts (proposedRequest P members).auth = [] := rfl
  have hparams : (proposedRequest P members).params = [] := rfl
  rw [resolvableTexts, hauth, hparams, List.append_nil, List.nil_append, List.mem_append,
    List.mem_cons, or_assoc, List.mem_flatMap]
  refine or_congr_right (or_congr_left ⟨?_, ?_⟩)
  · rintro ⟨row, hrow, ht⟩
    obtain ⟨pair, hpair, rfl⟩ := List.mem_map.mp hrow
    exact ⟨pair, hpair, by simpa using ht⟩
  · rintro ⟨pair, hpair, ht⟩
    exact ⟨_, List.mem_map_of_mem hpair, by simpa using ht⟩

/-- A body that is proposed is read by the wire check as it is. -/
theorem mem_wireTexts_of_body {P : Platform} {members : Fields} {t : Text}
    (h : t ∈ bodyTexts (proposedRequest P members).body) :
    t ∈ wireTexts (proposalWire (proposedRequest P members)) := by
  rw [wireTexts]
  apply List.mem_append_right
  have hbody : (proposedRequest P members).body = emptyRequest.body ∨
      ∃ text, (proposedRequest P members).body =
        { mode := .raw, raw := some { language := .text, text } } := by
    simp only [proposedRequest]
    split
    · exact .inr ⟨_, rfl⟩
    · exact .inl rfl
  rcases hbody with hbody | ⟨text, hbody⟩
  · rw [hbody] at h
    cases h
  · rw [hbody] at h
    obtain rfl := List.mem_singleton.mp h
    rw [proposalWire, hbody]
    exact List.mem_cons_self

/-- A request that is shown names a secret in a header at most, and hides it there. -/
theorem hidesSecret_of_proposal {P : Platform} {answer : Text} {request : RequestContent}
    (h : requestProposal P answer = .ok request) {t : Text} (ht : t ∈ resolvableTexts request)
    (hnames : NamesSecret t) :
    ∃ members, answeredFields P answer = some members ∧
      ∃ pair ∈ headerPairs (field members (units "headers")),
        (t = pair.1 ∨ t = pair.2) ∧ HidesSecret t := by
  obtain ⟨members, hfields, rfl, hwire⟩ := requestProposal_eq_ok h
  refine ⟨members, hfields, ?_⟩
  rcases mem_resolvableTexts.mp ht with hurl | ⟨pair, hpair, hside⟩ | hbody
  · have hmem : t ∈ wireTexts (proposalWire (proposedRequest P members)) := by
      rw [hurl]
      simp [wireTexts, proposalWire]
    exact absurd hnames.opens (not_opens_of_checked hwire hmem)
  · refine ⟨pair, hpair, hside, hnames.opensWith_or.resolve_left ?_⟩
    intro hopens
    have hmem : (headersJson (proposalWire (proposedRequest P members)).headers).stringify ∈
        wireTexts (proposalWire (proposedRequest P members)) := by
      simp [wireTexts]
    apply not_opens_of_checked hwire hmem
    rw [opens_headersJson_iff]
    refine ⟨pair, by simpa [proposalWire, proposedRequest] using hpair, ?_⟩
    rcases hside with rfl | rfl
    · exact .inl hopens
    · exact .inr hopens
  · exact absurd hnames.opens (not_opens_of_checked hwire (mem_wireTexts_of_body hbody))

/-- Resolving a request that a model proposed asks the vault for nothing, under scopes that name no
secret, exactly when no header of the answer names one after white space that JSON escapes. -/
theorem proposal_asks_nothing_iff {P : Platform} {answer : Text} {request : RequestContent}
    (h : requestProposal P answer = .ok request) :
    (∀ r : Resolver, r.BareScopes → ∀ t ∈ resolvableTexts request, r.AsksNothing t) ↔
      ∀ members, answeredFields P answer = some members →
        ∀ pair ∈ headerPairs (field members (units "headers")),
          ¬ HidesSecret pair.1 ∧ ¬ HidesSecret pair.2 := by
  constructor
  · intro hasks members hfields pair hpair
    obtain ⟨_, hfields', rfl, -⟩ := requestProposal_eq_ok h
    obtain rfl := Option.some.inj (hfields.symm.trans hfields')
    have hbare : ∀ t, t = pair.1 ∨ t = pair.2 → ¬ NamesSecret t := by
      intro t ht
      have hmem := mem_resolvableTexts (P := P).mpr (.inr (.inl ⟨pair, hpair, ht⟩))
      exact (hasks _ Resolver.bareScopes_new t hmem).bare
    exact ⟨fun hhides => hbare _ (.inl rfl) hhides.names,
      fun hhides => hbare _ (.inr rfl) hhides.names⟩
  · intro hheaders r hr t ht
    apply Resolver.asksNothing_of_bare hr
    intro hnames
    obtain ⟨members, hfields, pair, hpair, hside, hhides⟩ := hidesSecret_of_proposal h ht hnames
    obtain ⟨hname, hvalue⟩ := hheaders members hfields pair hpair
    rcases hside with rfl | rfl
    · exact hname hhides
    · exact hvalue hhides

/-! ## An answer that passes -/

/-- A model's answer: one header's value is a reference with an escaped tab in it. -/
def tabbedAnswer : Text :=
  units ("Here: \x7b\"method\":\"get\",\"url\":\"https://a.test/\"," ++
    "\"headers\":[[\"X-Key\",\"\x7b\x7b\\t$secret.k\x7d\x7d\"]]\x7d")

/-- An answer whose header names a variable. -/
def variableAnswer : Text :=
  units ("\x7b\"method\":\"get\",\"url\":\"https://a.test/\"," ++
    "\"headers\":[[\"X-Key\",\"\x7b\x7bkey\x7d\x7d\"]]\x7d")

/-- The members of an answer with one header. -/
def oneHeaderFields (value : Text) : Fields :=
  [(units "method", .string (units "get")), (units "url", .string (units "https://a.test/")),
    (units "headers", .array [.array [.string (units "X-Key"), .string value]])]

/-- A reference with a tab in front of its name. -/
def tabbedReference : Text :=
  units "\x7b\x7b\t$secret.k\x7d\x7d"

/-- A placeholder of a variable. -/
def keyPlaceholder : Text :=
  units "\x7b\x7bkey\x7d\x7d"

/-- A platform that reads the JSON of the two answers. -/
def answersPlatform : Platform :=
  { plainPlatform with
    parseJson := fun t =>
      if some t = jsonPart tabbedAnswer then some (.object (oneHeaderFields tabbedReference))
      else if some t = jsonPart variableAnswer then
        some (.object (oneHeaderFields keyPlaceholder))
      else none }

/-- The vault that knows one secret. -/
def oneSecretVault (id : Text) : Option Text :=
  if id = units "k" then some (units "hunter2") else none

/-- Resolving this proposal asks the vault for nothing. -/
theorem variableProposal_asks_nothing : ∃ request,
    requestProposal answersPlatform variableAnswer = .ok request ∧
      keyPlaceholder ∈ resolvableTexts request ∧
      ∀ r : Resolver, r.BareScopes → ∀ t ∈ resolvableTexts request, r.AsksNothing t := by
  have hproposal : requestProposal answersPlatform variableAnswer =
      .ok (proposedRequest answersPlatform (oneHeaderFields keyPlaceholder)) := by
    decide +kernel
  refine ⟨_, hproposal, by decide +kernel, (proposal_asks_nothing_iff hproposal).mpr ?_⟩
  intro members hfields pair hpair
  have hread : (answeredFields answersPlatform variableAnswer).all (fun members =>
      headerPairs (field members (units "headers")) = [(units "X-Key", keyPlaceholder)]) =
        true := by
    decide +kernel
  rw [hfields] at hread
  rw [of_decide_eq_true hread] at hpair
  obtain rfl := List.mem_singleton.mp hpair
  have hname : segments (units "X-Key") = (units "X-Key").map .literal := by decide +kernel
  have hvalue : segments keyPlaceholder = [.placeholder (units "key")] := by decide +kernel
  constructor
  · rintro ⟨inside, hinside, -⟩
    rw [hname] at hinside
    obtain ⟨_, -, hliteral⟩ := List.mem_map.mp hinside
    cases hliteral
  · rintro ⟨inside, hinside, hsecret, -⟩
    rw [hvalue] at hinside
    cases List.mem_singleton.mp hinside
    exact absurd hsecret (by decide +kernel)

/-- The proposal is shown, and resolving it sends the vault's plaintext. -/
theorem tabbedProposal_asks : ∃ request,
    requestProposal answersPlatform tabbedAnswer = .ok request ∧
      (Resolver.new {}).BareScopes ∧
      ∃ t ∈ resolvableTexts request, ¬ (Resolver.new {}).AsksNothing t ∧
        (((Resolver.new {} oneSecretVault).resolve t).run {}).map Prod.fst =
          .ok (units "hunter2") := by
  refine ⟨proposedRequest answersPlatform (oneHeaderFields tabbedReference), by decide +kernel,
    Resolver.bareScopes_new, tabbedReference, by decide +kernel, ?_, by decide +kernel⟩
  intro hasks
  have hmem : .placeholder (units "\t$secret.k") ∈ segments tabbedReference := by decide +kernel
  exact hasks.bare ⟨_, hmem, by decide +kernel⟩

end Wayfarer
