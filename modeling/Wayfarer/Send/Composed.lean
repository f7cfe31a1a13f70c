import Wayfarer.Send.Build
import Wayfarer.Variables.ResolverRuns

/-!
# A request and the host it goes to

Before a request is built, a probe without the vault says which secrets it needs
(`probeSecrets`), and the host its address resolves to is compared with the host of the
request as it was composed. The request itself is built later, with what the vault gave.

`Draft.sentHost_eq` says when the two agree: a request built with a resolver goes to the host
that `hostOf` gives for that resolver, as long as the address draws no dynamic value.
`Draft.secrets_eq_nil` says that a request built without the vault and without a token holds
no secret.
-/

set_option autoImplicit false

namespace Wayfarer

open Library

/-! ## What the user is told -/

/-- Variables that refer to each other, in words. -/
def VariableNestingError.message (error : VariableNestingError) : Text :=
  let path := joinWith (units " → ") (error.chain.map placeholderText)
  match error.chain.getLast? with
  | none => []
  | some last =>
      if error.chain.idxOf last + 1 < error.chain.length then
        units "Variables refer to each other in a circle: " ++ path ++ units "."
      else units "Variables are nested more than 10 deep: " ++ path ++ units "."

/-- Why a request was not sent, in words. -/
def SendError.message : SendError → Text
  | .nesting error => error.message
  | .blocked message => message
  | .declined message => message
  | .unresolved names =>
      bracedNames names ++ (if names.length = 1 then units " has" else units " have") ++
        units " no value. The request was not sent."

/-- The refusal of a request that refers to a secret the vault does not have. -/
def secretPlaceholderBlocked : Text :=
  units ("This request refers to a vault secret that could not be read (it may have been " ++
    "deleted), so it was not sent. Give the variable a value again.")

/-- The refusal of a request whose new host the user declined. -/
def hostDeclined : Text :=
  units "The request was not sent, and what the pre-request script set was undone."

/-! ## The probe -/

/-- A request as it was before its pre-request script ran: its address and the variables. -/
structure Composed where
  url : Text
  scopes : ScopeStack

/-- Every text of a body that may hold a variable. -/
def bodyTexts (body : RequestBody) : List Text :=
  match body.mode with
  | .none => []
  | .raw => [(body.raw.map RawBody.text).getD []]
  | .graphql =>
      [(body.graphql.map GraphqlBody.query).getD [],
        (body.graphql.map GraphqlBody.variablesText).getD []]
  | .urlencoded => (body.urlencoded.getD []).flatMap fun row => [row.key, row.value]
  | .multipart => (body.multipart.getD []).flatMap fun part =>
      [part.key, match part.value with
        | .text value => value
        | .file _ => []]
  | .binary => []

/-- Every text of a request that is resolved, its auth apart. -/
def requestTexts (content : RequestContent) : List Text :=
  content.url :: (sentHeaders content.headers).flatMap (fun header => [header.1, header.2]) ++
    bodyTexts content.body

/-- The ids of the secrets a request needs: a pass without the vault. -/
def probeSecrets (content : RequestContent) (ancestors : List Ancestor) (probe : Resolver) :
    Except VariableNestingError (List Text) :=
  let pass : Resolve Unit := do
    for t in requestTexts content do
      let _ ← probe.resolve t
    let _ ← resolveAuth probe.resolve (effectiveAuth content.auth ancestors)
  (pass.run {}).map fun result => result.2.lockedSecrets.members

/-- The host that a request was composed for. -/
def homeOf (P : Platform) (composed : Option Composed) (dynamic : Nat → Text → Text) :
    Option (Except VariableNestingError Text) :=
  composed.map fun c => hostOf P c.url (Resolver.new c.scopes (fun _ => none) dynamic)

/-- What a comparison of hosts comes to. -/
inductive Comparison where
  | refused (error : VariableNestingError)
  /-- The vault may be read for a request to `host`. -/
  | clear (host : Text)
  /-- The user is asked first. -/
  | ask (home away : Text)

/-- The host a request goes to, compared with the host it was composed for. A host the user has
accepted is not asked about. -/
def compareHosts (home : Option (Except VariableNestingError Text))
    (away : Except VariableNestingError Text) (accepted : List Text) : Comparison :=
  match home, away with
  | some (.error error), _ => .refused error
  | _, .error error => .refused error
  | none, .ok away => .clear away
  | some (.ok home), .ok away =>
      if home = away ∨ away ∈ accepted then .clear away else .ask home away

/-- What the vault gives of the secrets it was asked for. -/
def vaultRead (ids : List Text) (vault : Text → Option Text) (id : Text) : Option Text :=
  if ids.contains id then vault id else none

/-- A host that is clear is the composed one or an accepted one, where there is a composed one. -/
theorem compareHosts_clear {home : Option (Except VariableNestingError Text)}
    {away : Except VariableNestingError Text} {accepted : List Text} {host : Text}
    (h : compareHosts home away accepted = .clear host) :
    home = none ∨ home = some (.ok host) ∨ host ∈ accepted := by
  unfold compareHosts at h
  split at h
  · cases h
  · cases h
  · exact Or.inl rfl
  · split at h
    · next hsame =>
        cases h
        exact Or.inr (hsame.imp (fun heq => by rw [heq]) id)
    · cases h

/-- A host that is asked about is not an accepted one. -/
theorem compareHosts_ask {home : Option (Except VariableNestingError Text)}
    {away : Except VariableNestingError Text} {accepted : List Text} {from' to' : Text}
    (h : compareHosts home away accepted = .ask from' to') : to' ∉ accepted := by
  unfold compareHosts at h
  split at h
  · cases h
  · cases h
  · cases h
  · split at h
    · cases h
    · next hdiffers =>
        cases h
        exact fun haccepted => hdiffers (Or.inr haccepted)

/-! ## The host of what is sent -/

/-- The host of an address as it is sent. An address that is no URL stands for itself. -/
def sentHost (P : Platform) (url : Text) : Text :=
  ((P.parseUrl url).map UrlRecord.host).getD url

/-- An address written back with another query is read with the same host. -/
def Platform.KeepsHost (P : Platform) : Prop :=
  ∀ url parsed pairs, P.parseUrl (normalizeUrl url) = some parsed →
    ∃ again, P.parseUrl (parsed.withQuery pairs) = some again ∧ again.host = parsed.host

/-- A percent-encoded byte holds no tab or line break. -/
theorem isTabOrBreak_percentByte {c d : CodeUnit} (hc : isTabOrBreak c = true)
    (h : d ∈ percentByte c.toNat) : isTabOrBreak d = false := by
  simp only [isTabOrBreak, Bool.or_eq_true, decide_eq_true_eq] at hc
  obtain (rfl | rfl) | rfl := hc <;> revert d <;> decide

/-- An address whose breaks are encoded holds none. -/
theorem isTabOrBreak_of_mem_encodeBreaks {t : Text} {c : CodeUnit} (h : c ∈ encodeBreaks t) :
    isTabOrBreak c = false := by
  obtain ⟨d, -, hc⟩ := List.mem_flatMap.mp h
  cases hd : isTabOrBreak d with
  | true => exact isTabOrBreak_percentByte hd (by simpa [hd] using hc)
  | false =>
      simp only [hd, Bool.false_eq_true, if_false, List.mem_singleton] at hc
      rwa [hc]

/-- A text without breaks is encoded as itself. -/
theorem encodeBreaks_eq_self {t : Text} (h : ∀ c ∈ t, isTabOrBreak c = false) :
    encodeBreaks t = t := by
  induction t with
  | nil => rfl
  | cons c t ih =>
      have hrest := ih fun d hd => h d (List.mem_cons_of_mem c hd)
      unfold encodeBreaks at hrest ⊢
      rw [List.flatMap_cons, hrest, h c List.mem_cons_self]
      rfl

theorem normalizeUrl_eq (t : Text) :
    normalizeUrl t = if hasExplicitScheme (encodeBreaks t) then encodeBreaks t
      else units "https://" ++ encodeBreaks t := rfl

/-- Normalising an address twice is normalising it once. -/
theorem normalizeUrl_normalizeUrl (t : Text) : normalizeUrl (normalizeUrl t) = normalizeUrl t := by
  have hbreaks : ∀ c ∈ normalizeUrl t, isTabOrBreak c = false := by
    intro c hc
    rw [normalizeUrl_eq] at hc
    split at hc
    · exact isTabOrBreak_of_mem_encodeBreaks hc
    · obtain h | h := List.mem_append.mp hc
      · exact (show ∀ c ∈ units "https://", isTabOrBreak c = false by decide) c h
      · exact isTabOrBreak_of_mem_encodeBreaks h
  have hscheme : hasExplicitScheme (normalizeUrl t) = true := by
    rw [normalizeUrl_eq]
    split
    · assumption
    · simp only [hasExplicitScheme, List.map_append]
      exact Bool.or_eq_true_iff.mpr (Or.inr (by
        rw [show (units "https://").map asciiLower = units "https://" by decide]
        exact List.isPrefixOf_iff_prefix.mpr (List.prefix_append _ _)))
  rw [normalizeUrl_eq (normalizeUrl t), encodeBreaks_eq_self hbreaks, if_pos hscheme]

/-- The query of an API key leaves the host of an address as it is. -/
theorem sentHost_appendQueryParam {P : Platform} (hkeeps : P.KeepsHost) (address key value : Text) :
    sentHost P (appendQueryParam P (normalizeUrl address) key value) =
      sentHost P (normalizeUrl address) := by
  unfold appendQueryParam
  rw [normalizeUrl_normalizeUrl]
  cases hparsed : P.parseUrl (normalizeUrl address) with
  | none => rfl
  | some parsed =>
      obtain ⟨again, hagain, hhost⟩ :=
        hkeeps address parsed (parsed.searchParams ++ [(key, value)]) hparsed
      simp [sentHost, hparsed, hagain, hhost]

/-- A request goes to the host of its resolved address. -/
theorem sentHost_url {P : Platform} (hkeeps : P.KeepsHost) (parts : ResolvedRequest) :
    sentHost P (parts.url P) = sentHost P (normalizeUrl parts.address) := by
  unfold ResolvedRequest.url
  cases buildAuthQueryParam parts.auth with
  | none => rfl
  | some param => exact sentHost_appendQueryParam hkeeps parts.address param.1 param.2

/-! ## A plain platform -/

/-- A character that ends the host of an address. -/
def endsHost (c : CodeUnit) : Bool :=
  c = 0x2F || c = 0x3F || c = 0x23

/-- A character that ends the path of an address. -/
def endsPath (c : CodeUnit) : Bool :=
  c = 0x3F || c = 0x23

/-- The host that a text begins with. -/
def plainHost (rest : Text) : Text :=
  rest.takeWhile fun c => !endsHost c

/-- The address of what follows the scheme; its query and fragment are left out. -/
def plainRecord (rest : Text) : UrlRecord where
  head := units "https://" ++ rest.takeWhile fun c => !endsPath c
  searchParams := []
  fragment := none
  host := plainHost rest
  hostname := plainHost rest
  protocol := units "https:"
  origin := units "https://" ++ plainHost rest

/-- An `https` address with a host. -/
def parsePlainUrl (t : Text) : Option UrlRecord :=
  if (units "https://").isPrefixOf t ∧ plainHost (t.drop 8) ≠ [] then
    some (plainRecord (t.drop 8))
  else none

/-- A platform that reads `https` addresses without a query, and no JSON. -/
def plainPlatform : Platform where
  parseUrl := parsePlainUrl
  parseJson _ := none
  toLowerCase t := t.map asciiLower
  toUpperCase t := t.map asciiUpper
  toFixedSeconds n := units (toString (n / 1000) ++ "." ++ toString (n % 1000 / 100))
  subtle := true
  signV4 _ _ _ _ _ := []

/-- What is read of a text cut at one kind of character and then written on is what is read of the
text, where reading stops at that kind too. -/
theorem takeWhile_takeWhile_append {p q : CodeUnit → Bool} (sep : CodeUnit) (rest after : Text)
    (hpq : ∀ c, p c = true → q c = true) (hsep : p sep = false) :
    (rest.takeWhile q ++ sep :: after).takeWhile p = rest.takeWhile p := by
  induction rest with
  | nil => simp [hsep]
  | cons c rest ih =>
      cases hp : p c with
      | true => simp [hp, hpq c hp, ih]
      | false =>
          cases hq : q c with
          | true => simp [hp, hq]
          | false => simp [hp, hq, hsep]

/-- The plain platform reads an address written back with the same host. -/
theorem plainPlatform_keepsHost : plainPlatform.KeepsHost := by
  intro url parsed pairs hparsed
  change parsePlainUrl (normalizeUrl url) = some parsed at hparsed
  unfold parsePlainUrl at hparsed
  split at hparsed
  · next hplain =>
      cases hparsed
      -- What follows the scheme of the address written back, and the host it begins with.
      let rest := (normalizeUrl url).drop 8
      let written := rest.takeWhile (fun c => !endsPath c) ++ 0x3F :: formSerialize pairs
      have hwritten : (plainRecord rest).withQuery pairs = units "https://" ++ written := by
        simp only [UrlRecord.withQuery, plainRecord, List.append_nil, List.append_assoc]
        rfl
      have hhost : plainHost written = plainHost rest :=
        takeWhile_takeWhile_append 0x3F rest (formSerialize pairs)
          (fun c hc => by simp_all [endsHost, endsPath]) (by decide)
      have hdrop : (units "https://" ++ written).drop 8 = written := rfl
      refine ⟨plainRecord written, ?_, hhost⟩
      show parsePlainUrl ((plainRecord rest).withQuery pairs) = _
      rw [hwritten, parsePlainUrl, hdrop, if_pos]
      exact ⟨List.isPrefixOf_iff_prefix.mpr (List.prefix_append _ _), hhost ▸ hplain.2⟩
  · cases hparsed

/-! ## The request that is built -/

/-- A resolver's computation, while a request is built, is the same computation. -/
theorem run_liftResolve_eq_ok {α : Type} {x : Resolve α} {f f' : Findings} {a : α} :
    (liftResolve x).run f = .ok (a, f') ↔ x.run f = .ok (a, f') := by
  show liftResolve x f = .ok (a, f') ↔ x f = .ok (a, f')
  unfold liftResolve
  cases x f with
  | error error => simp
  | ok result => simp

/-- Resolving while a request is built gives what it gives. -/
theorem gives_liftResolve {α : Type} {x : Resolve α} {a : α} (h : Gives x a) :
    Gives (liftResolve x) a := by
  intro findings
  obtain ⟨after, hrun⟩ := h findings
  exact ⟨after, run_liftResolve_eq_ok.mpr hrun⟩

theorem canGive_of_liftResolve {α : Type} {x : Resolve α} {a : α}
    (h : CanGive (liftResolve x) a) : CanGive x a := by
  obtain ⟨findings, after, hrun⟩ := h
  exact ⟨findings, after, run_liftResolve_eq_ok.mp hrun⟩

/-- The address of a request is its text, resolved after everything else. -/
theorem resolveRest_address {content : RequestContent} {r : Resolver} {context : BuildContext}
    {body : Option ResolvedBody} {token : Option Text} {parts : ResolvedRequest}
    {f f' : Findings} (h : (resolveRest content r context body token).run f = .ok (parts, f')) :
    ∃ g, (r.resolve (trim content.url)).run g = .ok (parts.address, f') := by
  unfold resolveRest at h
  simp only [run_bind_eq_ok] at h
  obtain ⟨auth, f₁, -, headers, f₂, -, address, f₃, haddress, hparts⟩ := h
  cases hparts
  exact ⟨f₂, run_liftResolve_eq_ok.mp haddress⟩

/-- Where no token is refused nothing is noted down. -/
theorem refusesFirst_eq_ok {context : BuildContext} {r : Resolver} {own auth : AuthConfig}
    {withoutValue : List Text} {mode : BodyMode} {f f' : Findings}
    (h : (refusesFirst context r own auth withoutValue mode).run f = .ok ((), f')) : f' = f := by
  unfold refusesFirst at h
  split at h
  · cases h
    rfl
  · split_ifs at h
    · cases h
    · cases h
      rfl

/-- A request is resolved in four steps; a token is asked for where the auth it is sent with is
OAuth 2.0. -/
theorem resolveRequest_cases {P : Platform} {content : RequestContent} {r : Resolver}
    {context : BuildContext} {parts : ResolvedRequest} {f f' : Findings}
    (h : (resolveRequest P content r context).run f = .ok (parts, f')) :
    ∃ auth f₁ body f₂ token f₃,
      (resolveAuth r.resolve (effectiveAuth content.auth context.ancestors)).run f =
        .ok (auth, f₁) ∧
      (if isBodyMethod content.method then resolveBody P content.body r context
        else pure none : Build (Option ResolvedBody)).run f₁ = .ok (body, f₂) ∧
      (tokenOf context r (effectiveAuth content.auth context.ancestors) auth
        f₁.unresolved.members).run f₂ = .ok (token, f₃) ∧
      (resolveRest content r context body token).run f₃ = .ok (parts, f') := by
  unfold resolveRequest at h
  simp only [run_bind_eq_ok, run_liftResolve_eq_ok] at h
  obtain ⟨auth, f₁, hauth, seen, f₂, hseen, hrest⟩ := h
  cases hseen
  obtain ⟨_, f₂, hfirst, hrest⟩ := hrest
  obtain rfl := refusesFirst_eq_ok hfirst
  refine ⟨auth, f₂, ?_⟩
  split at hrest <;>
  · simp only [run_bind_eq_ok] at hrest
    obtain ⟨body, f₃, hbody, token, f₄, htoken, hrest⟩ := hrest
    exact ⟨body, f₃, token, f₄, hauth, by simp [*], htoken, hrest⟩

/-- A request that is built was resolved, from no findings. -/
theorem resolveRequest_of_checked {P : Platform} {content : RequestContent} {r : Resolver}
    {context : BuildContext} {draft : Draft} (h : checked P content r context = .ok draft) :
    (resolveRequest P content r context).run {} = .ok (draft.parts, draft.findings) := by
  unfold checked build at h
  cases hresolve : (resolveRequest P content r context).run {} with
  | error error => simp [hresolve, bind, Except.bind] at h
  | ok result =>
      cases hsignature : signatureOf P (result.1.built P result.2) result.1.auth with
      | error error => simp [hresolve, hsignature, bind, Except.bind] at h
      | ok signature =>
          simp only [hresolve, hsignature, bind, Except.bind, pure, Except.pure] at h
          split at h <;> cases h
          rfl

/-- A request built with a resolver goes to the host of that resolver, where its address draws no
dynamic value. -/
theorem Draft.sentHost_eq {P : Platform} (hkeeps : P.KeepsHost) {content : RequestContent}
    {r : Resolver} {context : BuildContext} {draft : Draft} {alone : Text} {f : Findings}
    (hbuilt : checked P content r context = .ok draft)
    (halone : (r.resolve (trim content.url)).run {} = .ok (alone, f)) (hdrawn : f.drawn = 0) :
    sentHost P (draft.request P).url = sentHost P (normalizeUrl alone) := by
  obtain ⟨auth, f₁, body, f₂, token, f₃, -, -, -, hrest⟩ :=
    resolveRequest_cases (resolveRequest_of_checked hbuilt)
  obtain ⟨g', haddress⟩ := resolveRest_address hrest
  have hsame := Resolver.resolve_eq_of_undrawn halone hdrawn haddress
  rw [Draft.request_url, sentHost_url hkeeps, hsame]

/-! ## A request built without the vault -/

theorem keeps_liftResolve {α : Type} {R : Findings → Findings → Prop} {x : Resolve α}
    (h : Keeps R x) : Keeps R (liftResolve x) :=
  fun f a f' hrun => h f a f' (run_liftResolve_eq_ok.mp hrun)

/-- Reading the variables of a GraphQL body notes nothing down. -/
theorem keeps_graphqlValues {R : Findings → Findings → Prop} (hrefl : ∀ f, R f f) (P : Platform)
    (t : Text) : Keeps R (graphqlValues P t) := by
  unfold graphqlValues
  split
  · exact keeps_pure hrefl _
  · split
    · exact keeps_throw _
    · exact keeps_pure hrefl _
    · exact keeps_throw _

theorem keeps_readFileOf {R : Findings → Findings → Prop} (hrefl : ∀ f, R f f)
    (context : BuildContext) (ref : FileRef) : Keeps R (readFileOf context ref) := by
  unfold readFileOf
  split
  · exact keeps_pure hrefl _
  · exact keeps_throw _

/-- A body keeps what its texts keep. -/
theorem keeps_resolveBody {R : Findings → Findings → Prop} (hrefl : ∀ f, R f f)
    (htrans : ∀ a b c, R a b → R b c → R a c) (P : Platform) (body : RequestBody) {r : Resolver}
    (context : BuildContext) (h : ∀ t, Keeps R (r.resolve t)) :
    Keeps R (resolveBody P body r context) := by
  have hlift : ∀ t, Keeps R (liftResolve (r.resolve t)) := fun t => keeps_liftResolve (h t)
  unfold resolveBody
  split
  · exact keeps_pure hrefl _
  · refine keeps_bind htrans (hlift _) fun t => ?_
    split <;> exact keeps_pure hrefl _
  · exact keeps_bind htrans (hlift _) fun query => keeps_bind htrans (hlift _) fun text =>
      keeps_bind htrans (keeps_graphqlValues hrefl P text) fun _ => keeps_pure hrefl _
  · refine keeps_bind htrans (keeps_mapM hrefl htrans (fun row => ?_) _) fun _ =>
      keeps_pure hrefl _
    exact keeps_bind htrans (hlift _) fun _ => keeps_bind htrans (hlift _) fun _ =>
      keeps_pure hrefl _
  · refine keeps_bind htrans (keeps_mapM hrefl htrans (fun part => ?_) _) fun _ =>
      keeps_pure hrefl _
    split
    · exact keeps_bind htrans (hlift _) fun _ => keeps_bind htrans (hlift _) fun _ =>
        keeps_pure hrefl _
    · exact keeps_bind htrans (hlift _) fun _ =>
        keeps_bind htrans (keeps_readFileOf hrefl context _) fun _ => keeps_pure hrefl _
  · split
    · exact keeps_throw _
    · exact keeps_bind htrans (keeps_readFileOf hrefl context _) fun _ => keeps_pure hrefl _

/-- Asking for a token notes nothing down. -/
theorem keeps_tokenOf {R : Findings → Findings → Prop} (hrefl : ∀ f, R f f)
    (htrans : ∀ a b c, R a b → R b c → R a c) (context : BuildContext) (r : Resolver)
    (own auth : AuthConfig) (withoutValue : List Text) :
    Keeps R (tokenOf context r own auth withoutValue) := by
  unfold tokenOf
  split
  · next resolved written =>
      split
      · exact keeps_pure hrefl _
      · next key _ =>
          dsimp only
          split
          · refine keeps_bind htrans (keeps_throw _) fun _ => ?_
            split
            · exact keeps_throw _
            · split
              · exact keeps_pure hrefl _
              · exact keeps_throw _
          · split
            · exact keeps_throw _
            · split
              · exact keeps_pure hrefl _
              · exact keeps_throw _
  · exact keeps_pure hrefl _

/-- Only an OAuth 2.0 auth has a token. -/
theorem tokenOf_eq_none {context : BuildContext} {r : Resolver} {own auth : AuthConfig}
    {withoutValue : List Text} {f f' : Findings} {token : Option Text}
    (hown : ∀ written, own ≠ .oauth2 written)
    (h : (tokenOf context r own auth withoutValue).run f = .ok (token, f')) : token = none := by
  unfold tokenOf at h
  split at h
  · next written => exact absurd rfl (hown written)
  · cases h
    rfl

/-- The token a request is put together with; an empty one is none. -/
theorem resolveRest_token {content : RequestContent} {r : Resolver} {context : BuildContext}
    {body : Option ResolvedBody} {token : Option Text} {parts : ResolvedRequest}
    {f f' : Findings} (h : (resolveRest content r context body token).run f = .ok (parts, f')) :
    parts.token = token.filter fun t => t ≠ [] := by
  unfold resolveRest at h
  simp only [run_bind_eq_ok] at h
  obtain ⟨auth, f₁, -, headers, f₂, -, address, f₃, -, hparts⟩ := h
  cases hparts
  rfl

theorem keeps_resolveRest {R : Findings → Findings → Prop} (hrefl : ∀ f, R f f)
    (htrans : ∀ a b c, R a b → R b c → R a c) (content : RequestContent) {r : Resolver}
    (context : BuildContext) (body : Option ResolvedBody) (token : Option Text)
    (h : ∀ t, Keeps R (r.resolve t)) : Keeps R (resolveRest content r context body token) := by
  have hlift : ∀ t, Keeps R (liftResolve (r.resolve t)) := fun t => keeps_liftResolve (h t)
  refine keeps_bind htrans (keeps_liftResolve (keeps_resolveAuth hrefl htrans h _)) fun auth => ?_
  refine keeps_bind htrans (keeps_mapM hrefl htrans (fun header => ?_) _) fun headers =>
    keeps_bind htrans (hlift _) fun address => keeps_pure hrefl _
  exact keeps_bind htrans (hlift _) fun _ => keeps_bind htrans (hlift _) fun _ => keeps_pure hrefl _

/-- A request built with no vault secret and no OAuth 2.0 auth holds no secret. -/
theorem Draft.secrets_eq_nil {P : Platform} {content : RequestContent} {r : Resolver}
    {context : BuildContext} {draft : Draft} (hbuilt : checked P content r context = .ok draft)
    (hnone : ∀ id, r.secret id = none)
    (hauth : ∀ written, effectiveAuth content.auth context.ancestors ≠ .oauth2 written) :
    (draft.request P).secrets = [] := by
  obtain ⟨auth, f₁, body, f₂, token, f₃, hauthRun, hbody, htoken, hrest⟩ :=
    resolveRequest_cases (resolveRequest_of_checked hbuilt)
  have hkeeps : ∀ t, Keeps Resolver.SameTaint (r.resolve t) := Resolver.resolve_taint hnone
  have h₁ : f₁.taint = .empty := keeps_resolveAuth Resolver.SameTaint.refl
    Resolver.SameTaint.trans hkeeps _ _ _ _ hauthRun
  have h₂ : f₂.taint = f₁.taint := by
    split at hbody
    · exact keeps_resolveBody Resolver.SameTaint.refl Resolver.SameTaint.trans P _ context hkeeps
        _ _ _ hbody
    · cases hbody
      rfl
  have h₃ : f₃.taint = f₂.taint :=
    keeps_tokenOf Resolver.SameTaint.refl Resolver.SameTaint.trans context r _ _ _ _ _ _ htoken
  have h₄ : draft.findings.taint = f₃.taint := keeps_resolveRest Resolver.SameTaint.refl
    Resolver.SameTaint.trans content context body token hkeeps _ _ _ hrest
  have htokenNone := tokenOf_eq_none hauth htoken
  rw [Draft.request_secrets, resolveRest_token hrest, htokenNone, h₄, h₃, h₂, h₁]
  rfl

end Wayfarer
