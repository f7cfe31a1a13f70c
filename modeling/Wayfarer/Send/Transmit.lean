import Wayfarer.Send.Wire

/-!
# What an exchange hands to the transport

An exchange builds its request, looks it over with `containsSecretPlaceholder` and hands it
to the transport; after a 401 it builds once more and looks again. Here the texts a request
was built from (`Draft.texts`) are compared with what the check sees of them
(`Draft.InSight`): `containsSecretPlaceholder_iff_inSight` says the check is true exactly
when some text is in sight, and `transmitted_holds_no_secret_iff` that an exchange hands over
no placeholder exactly when none is left out of sight.
-/

set_option autoImplicit false

namespace Wayfarer

open Library

/-! ## The texts of a request -/

/-- A text holds a placeholder that the resolver reads as a secret. -/
def holdsSecret (t : Text) : Bool :=
  (segments t).any fun
    | .literal _ => false
    | .placeholder inside => secretPrefix.isPrefixOf (trim inside)

/-- Both texts of each pair. -/
def pairTexts (pairs : List (Text × Text)) : List Text :=
  pairs.flatMap fun pair => [pair.1, pair.2]

/-- The texts a body was written from, as whoever reads the body has them back. -/
def ResolvedBody.texts : ResolvedBody → List Text
  | .raw _ t => [t]
  | .graphql query values => query :: (values.map Json.strings).getD []
  | .urlencoded pairs => pairTexts (pairs.map fun pair => (scrub pair.1, scrub pair.2))
  | .multipart parts => parts.flatMap fun part =>
      [part.entry.1, match part.entry.2 with
        | .text value => value
        | .file name _ => name]
  | .binary _ _ => []

/-- The pairs of an address that an API key was appended to. -/
def appendedPairs (url : UrlRecord) (key value : Text) : List (Text × Text) :=
  (url.searchParams ++ [(key, value)]).map fun pair => (scrub pair.1, scrub pair.2)

/-- The texts of an address: as it was resolved or, where an API key was appended and the whole
was encoded again, what stands before the query, the pairs and the fragment. -/
def ResolvedRequest.addressTexts (P : Platform) (parts : ResolvedRequest) : List Text :=
  match buildAuthQueryParam parts.auth with
  | none => [parts.address]
  | some (key, value) =>
      match P.parseUrl (normalizeUrl (normalizeUrl parts.address)) with
      | none => [parts.address]
      | some url =>
          percentUndone url.head :: (url.fragment.map percentUndone).toList ++
            pairTexts (appendedPairs url key value)

/-- Every text of a built request, the encodings of the builder undone. -/
def Draft.texts (P : Platform) (draft : Draft) : List Text :=
  draft.parts.addressTexts P ++ pairTexts (draft.request P).headers ++
    (draft.parts.body.map ResolvedBody.texts).getD []

/-- A built request still holds a placeholder of a secret. -/
def Draft.holdsSecret (P : Platform) (draft : Draft) : Bool :=
  (draft.texts P).any Wayfarer.holdsSecret

/-! ## What is in sight -/

/-- A header in sight: its name or its value opens a reference with no control character on the
way, or the credentials inside it do. -/
def HeaderInSight (header : Text × Text) : Prop :=
  OpensWith isPrintable header.1 ∨ OpensWith isPrintable header.2 ∨
    Opens (decodeBasicCredentials header.2) ∨
    Opens (percentDecoded (decodeBasicCredentials header.2))

/-- A text sent as it is, in sight: it opens a reference, or does when it is decoded and every
escape in it is well-formed. -/
def PlainInSight (t : Text) : Prop :=
  Opens t ∨ ∃ u, decodeURIComponent (plusTo space t) = some u ∧ Opens u

/-- An address nothing was appended to, in sight: it opens a reference with no tab or line
break on the way, or every escape in it is well-formed and it does when it is decoded. -/
def AddressInSight (address : Text) : Prop :=
  OpensWith (fun c => !isTabOrBreak c) address ∨
    ∃ u, decodeURIComponent (normalizeUrl address) = some u ∧ Opens u

/-- An address that pairs were appended to, in sight: before the query or in the fragment as
they are written or, when every escape in both is well-formed, in one of the two as it is
decoded or in a pair with no space on the way. -/
def AppendedInSight (url : UrlRecord) (pairs : List (Text × Text)) : Prop :=
  Opens url.head ∨ Opens (url.fragment.getD []) ∨
    ∃ head fragment, decodeURIComponent url.head = some head ∧
      decodeURIComponent (url.fragment.getD []) = some fragment ∧
      (Opens head ∨ Opens fragment ∨
        ∃ pair ∈ pairs, OpensWith (fun c => c ≠ space) pair.1 ∨
          OpensWith (fun c => c ≠ space) pair.2)

/-- The address of a request in sight. -/
def ResolvedRequest.AddressSeen (P : Platform) (parts : ResolvedRequest) : Prop :=
  match buildAuthQueryParam parts.auth with
  | none => AddressInSight parts.address
  | some (key, value) =>
      match P.parseUrl (normalizeUrl (normalizeUrl parts.address)) with
      | none => AddressInSight parts.address
      | some url => AppendedInSight url (appendedPairs url key value)

/-- A body in sight. A form hides nothing; a GraphQL text hides what a header does. -/
def ResolvedBody.InSight : ResolvedBody → Prop
  | .raw _ t => PlainInSight t
  | .graphql query values =>
      (∃ t ∈ query :: (values.map Json.strings).getD [], OpensWith isPrintable t) ∨
        ∃ u, decodeURIComponent (plusTo space (graphqlJson query values).stringify) = some u ∧
          Opens u
  | .urlencoded pairs => ∃ t ∈ (ResolvedBody.urlencoded pairs).texts, Opens t
  | .multipart parts => ∃ t ∈ (ResolvedBody.multipart parts).texts, Opens t
  | .binary _ _ => False

/-- A built request in sight of the check. -/
def Draft.InSight (P : Platform) (draft : Draft) : Prop :=
  draft.parts.AddressSeen P ∨ (∃ header ∈ (draft.request P).headers, HeaderInSight header) ∨
    ∃ body, draft.parts.body = some body ∧ body.InSight

/-! ## The check sees what is in sight -/

theorem not_opens_nil :
    ¬ Opens [] := by
  rintro ⟨w, -, hin⟩
  simp [openingWord] at hin

theorem opens_percentDecoded_iff (t : Text) :
    Opens (percentDecoded t) ↔ ∃ u, decodeURIComponent t = some u ∧ Opens u := by
  unfold percentDecoded
  cases h : decodeURIComponent t with
  | none => simp [not_opens_nil]
  | some u => simp

/-- An address with pairs as its query opens a reference when a part of it does. -/
theorem opens_withQuery_iff (url : UrlRecord) (pairs : List (Text × Text)) :
    Opens (url.withQuery pairs) ↔ Opens url.head ∨ Opens (url.fragment.getD []) := by
  have hmark : units "?" = [0x3F] := by decide
  have hhash : units "#" = [0x23] := by decide
  unfold UrlRecord.withQuery
  cases hfrag : url.fragment with
  | none =>
      have hsplit : url.head ++ units "?" ++ formSerialize pairs ++ [] =
          url.head ++ 0x3F :: formSerialize pairs := by simp [hmark]
      rw [hsplit, opens_append_cons (by decide) (by decide) (by decide)]
      simp [not_opens_formSerialize, not_opens_nil]
  | some fragment =>
      have hsplit : url.head ++ units "?" ++ formSerialize pairs ++ (units "#" ++ fragment) =
          url.head ++ 0x3F :: (formSerialize pairs ++ 0x23 :: fragment) := by simp [hmark, hhash]
      rw [hsplit, opens_append_cons (by decide) (by decide) (by decide),
        opens_append_cons (by decide) (by decide) (by decide)]
      simp [not_opens_formSerialize]

/-- Such an address is decoded part by part, the spaces of its pairs left as plus signs. -/
theorem decodeURIComponent_withQuery (url : UrlRecord) (pairs : List (Text × Text)) :
    decodeURIComponent (url.withQuery pairs) =
      (decodeURIComponent url.head).bind fun head =>
        (decodeURIComponent (url.fragment.getD [])).map fun fragment =>
          head ++ 0x3F :: (joinWith (units "&") (pairs.map (pairText plusSign)) ++
            if url.fragment.isSome then 0x23 :: fragment else []) := by
  have hmark : units "?" = [0x3F] := by decide
  have hhash : units "#" = [0x23] := by decide
  have hplus : ∀ t, plusTo plusSign t = t := by
    intro t
    refine (List.map_congr_left fun c _ => ?_).trans (List.map_id' t)
    split_ifs with h
    · exact h.symm
    · rfl
  have hform : decodeURIComponent (formSerialize pairs) =
      some (joinWith (units "&") (pairs.map (pairText plusSign))) := by
    have h := decodeURIComponent_formSerialize (s := plusSign) (by decide) pairs
    rwa [hplus] at h
  unfold UrlRecord.withQuery
  cases hfrag : url.fragment with
  | none =>
      have hsplit : url.head ++ units "?" ++ formSerialize pairs ++ [] =
          url.head ++ 0x3F :: formSerialize pairs := by simp [hmark]
      have hnil : decodeURIComponent [] = some [] := rfl
      rw [hsplit, decodeURIComponent_append_cons (by decide), hform]
      simp [hnil]
  | some fragment =>
      have hsplit : url.head ++ units "?" ++ formSerialize pairs ++ (units "#" ++ fragment) =
          url.head ++ 0x3F :: (formSerialize pairs ++ 0x23 :: fragment) := by simp [hmark, hhash]
      rw [hsplit, decodeURIComponent_append_cons (by decide),
        decodeURIComponent_append_cons (by decide), hform]
      simp [Function.comp_def]

theorem opens_percentDecoded_withQuery_iff (url : UrlRecord) (pairs : List (Text × Text)) :
    Opens (percentDecoded (url.withQuery pairs)) ↔
      ∃ head fragment, decodeURIComponent url.head = some head ∧
        decodeURIComponent (url.fragment.getD []) = some fragment ∧
        (Opens head ∨ Opens fragment ∨
          ∃ pair ∈ pairs.map fun pair => (scrub pair.1, scrub pair.2),
            OpensWith (fun c => c ≠ space) pair.1 ∨ OpensWith (fun c => c ≠ space) pair.2) := by
  have hpairs : Opens (joinWith (units "&") (pairs.map (pairText plusSign))) ↔
      ∃ pair ∈ pairs.map fun pair => (scrub pair.1, scrub pair.2),
        OpensWith (fun c => c ≠ space) pair.1 ∨ OpensWith (fun c => c ≠ space) pair.2 := by
    rw [opens_pairTexts_iff]
    simp only [opens_spaceTo_plus_iff, List.mem_map, exists_exists_and_eq_and]
  rw [opens_percentDecoded_iff, decodeURIComponent_withQuery, ← hpairs]
  cases hhead : decodeURIComponent url.head with
  -- An address that does not decode is not looked into.
  | none => simp
  | some head =>
      cases hfrag : decodeURIComponent (url.fragment.getD []) with
      | none => simp
      | some fragment =>
          -- A placeholder holds no ampersand and no hash, so it stands in one part of the address.
          have hrest : Opens (joinWith (units "&") (pairs.map (pairText plusSign)) ++
              if url.fragment.isSome then 0x23 :: fragment else []) ↔
                Opens (joinWith (units "&") (pairs.map (pairText plusSign))) ∨ Opens fragment := by
            cases hsome : url.fragment with
            | none =>
                have hempty : fragment = [] := by
                  have hnil : decodeURIComponent [] = some [] := rfl
                  rw [hsome, Option.getD_none, hnil] at hfrag
                  exact (Option.some.inj hfrag).symm
                simp [hempty, not_opens_nil]
            | some f =>
                rw [Option.isSome_some, if_pos rfl,
                  opens_append_cons (by decide) (by decide) (by decide)]
          simp only [Option.bind_some, Option.map_some, Option.some.injEq, exists_eq_left',
            opens_append_cons (show (0x3F : CodeUnit) ≠ openBrace by decide) (by decide)
              (by decide), hrest]
          constructor
          · rintro (h | h | h)
            · exact ⟨head, fragment, rfl, rfl, Or.inl h⟩
            · exact ⟨head, fragment, rfl, rfl, Or.inr (Or.inr h)⟩
            · exact ⟨head, fragment, rfl, rfl, Or.inr (Or.inl h)⟩
          · rintro ⟨_, _, rfl, rfl, h | h | h⟩
            · exact Or.inl h
            · exact Or.inr (Or.inr h)
            · exact Or.inr (Or.inl h)

/-- The check sees an address exactly when it is in sight. -/
theorem opens_url_iff (P : Platform) (parts : ResolvedRequest) :
    Opens (parts.url P) ∨ Opens (percentDecoded (parts.url P)) ↔ parts.AddressSeen P := by
  have hwritten : Opens (normalizeUrl parts.address) ∨
      Opens (percentDecoded (normalizeUrl parts.address)) ↔ AddressInSight parts.address := by
    rw [opens_normalizeUrl_iff, opens_percentDecoded_iff]
    exact Iff.rfl
  unfold ResolvedRequest.url ResolvedRequest.AddressSeen
  cases hparam : buildAuthQueryParam parts.auth with
  | none => exact hwritten
  | some pair =>
      obtain ⟨key, value⟩ := pair
      unfold appendQueryParam
      cases hparse : P.parseUrl (normalizeUrl (normalizeUrl parts.address)) with
      | none => simpa [hparse] using hwritten
      | some url =>
          simp only [hparse]
          rw [opens_withQuery_iff, opens_percentDecoded_withQuery_iff, or_assoc]
          exact Iff.rfl

/-- The check sees a body exactly when it is in sight. -/
theorem opens_bodyTexts_iff (body : ResolvedBody) :
    (∃ t ∈ wireBodyTexts (some body.data), Opens t) ↔ body.InSight := by
  have hplain : ∀ t, (∃ u ∈ [t, percentDecoded (plusTo space t)], Opens u) ↔ PlainInSight t := by
    intro t
    simp only [List.mem_cons, List.not_mem_nil, or_false, exists_eq_or_imp, exists_eq_left,
      opens_percentDecoded_iff]
    exact Iff.rfl
  cases body with
  | raw language t => exact hplain t
  | graphql query values =>
      -- The names in the JSON hold no brace: what opens is the query or a value.
      have hjson : Opens (graphqlJson query values).stringify ↔
          ∃ t ∈ query :: (values.map Json.strings).getD [], OpensWith isPrintable t := by
        have hnames :
            ∀ name ∈ [units "query", units "variables"], ¬ OpensWith isPrintable name := by
          intro name hname hopen
          have hall : ∀ name ∈ [units "query", units "variables"], openBrace ∉ name := by decide
          exact not_opens_of_not_mem (hall name hname) hopen.opens
        have hquery := hnames (units "query") (by simp)
        have hvariables := hnames (units "variables") (by simp)
        rw [opens_stringify_iff]
        cases values with
        | none => simp [graphqlJson, or_and_right, exists_or, hquery]
        | some v =>
            simp [graphqlJson, or_and_right, exists_or, hquery, hvariables]
      have h := hplain (graphqlJson query values).stringify
      unfold PlainInSight at h
      rw [hjson] at h
      exact h
  | urlencoded pairs =>
      have h := hplain (formSerialize pairs)
      -- Written, a form holds no brace; decoded, its pairs are back.
      have hdecode := decodeURIComponent_formSerialize (s := space) (by decide) pairs
      unfold PlainInSight at h
      rw [hdecode] at h
      refine h.trans ?_
      simp only [not_opens_formSerialize, false_or, Option.some.injEq, exists_eq_left',
        opens_pairTexts_iff, spaceTo_space]
      simp only [ResolvedBody.InSight, ResolvedBody.texts, pairTexts, List.mem_flatMap,
        List.mem_map, List.mem_cons, List.not_mem_nil, or_false]
      constructor
      · rintro ⟨pair, hpair, hopen | hopen⟩
        · exact ⟨_, ⟨_, ⟨pair, hpair, rfl⟩, Or.inl rfl⟩, hopen⟩
        · exact ⟨_, ⟨_, ⟨pair, hpair, rfl⟩, Or.inr rfl⟩, hopen⟩
      · rintro ⟨_, ⟨_, ⟨pair, hpair, rfl⟩, rfl | rfl⟩, hopen⟩
        · exact ⟨pair, hpair, Or.inl hopen⟩
        · exact ⟨pair, hpair, Or.inr hopen⟩
  | multipart parts =>
      simp only [ResolvedBody.data, wireBodyTexts, List.flatMap_map]
      exact Iff.rfl
  | binary data contentType => simp [ResolvedBody.data, wireBodyTexts, ResolvedBody.InSight]

/-- The check is true of a built request exactly when some text of it is in sight. -/
theorem containsSecretPlaceholder_iff_inSight (P : Platform) (draft : Draft) :
    containsSecretPlaceholder (draft.request P).wire = true ↔ draft.InSight P := by
  have hheaders : (Opens (headersJson (draft.request P).headers).stringify ∨
      (∃ header ∈ (draft.request P).headers, Opens (decodeBasicCredentials header.2)) ∨
      ∃ header ∈ (draft.request P).headers,
        Opens (percentDecoded (decodeBasicCredentials header.2))) ↔
      ∃ header ∈ (draft.request P).headers, HeaderInSight header := by
    rw [opens_headersJson_iff]
    simp only [HeaderInSight]
    constructor
    · rintro (⟨h, hm, ho⟩ | ⟨h, hm, ho⟩ | ⟨h, hm, ho⟩)
      · exact ⟨h, hm, ho.imp_right Or.inl⟩
      · exact ⟨h, hm, Or.inr (Or.inr (Or.inl ho))⟩
      · exact ⟨h, hm, Or.inr (Or.inr (Or.inr ho))⟩
    · rintro ⟨h, hm, ho⟩
      rcases ho with ho | ho | ho | ho
      · exact Or.inl ⟨h, hm, Or.inl ho⟩
      · exact Or.inl ⟨h, hm, Or.inr ho⟩
      · exact Or.inr (Or.inl ⟨h, hm, ho⟩)
      · exact Or.inr (Or.inr ⟨h, hm, ho⟩)
  have hbody : (∃ t ∈ wireBodyTexts (draft.request P).body, Opens t) ↔
      ∃ body, draft.parts.body = some body ∧ body.InSight := by
    rw [draft.request_body P]
    cases hsome : draft.parts.body with
    | none => simp [wireBodyTexts]
    | some body => simpa using opens_bodyTexts_iff body
  rw [Draft.InSight, ← opens_url_iff, ← hheaders, ← hbody, ← draft.request_url P]
  simp only [containsSecretPlaceholder, wireTexts, BuiltRequest.wire, List.any_append,
    List.any_cons, List.any_nil, List.any_map, Bool.or_eq_true, Bool.or_false, List.any_eq_true,
    Function.comp_apply, testSecretPlaceholder_iff, or_assoc]

/-! ## The exchange -/

/-- The requests one exchange hands to the transport, in order: the one that was built, when the
check lets it through, and after a 401 the one that was built again, when the check lets that
one through. -/
def transmitted (P : Platform) (first again : Except SendError Draft) (unauthorized : Bool) :
    List Draft :=
  match first with
  | .error _ => []
  | .ok draft =>
      if containsSecretPlaceholder (draft.request P).wire then []
      else draft ::
        match unauthorized, again with
        | true, .ok draft =>
            if containsSecretPlaceholder (draft.request P).wire then [] else [draft]
        | _, _ => []

/-- Every placeholder that is left in a built request is left in sight: if one of its texts holds
a secret's placeholder, some text of it opens a reference where the check reads it. -/
def Draft.LeftInSight (P : Platform) (draft : Draft) : Prop :=
  draft.holdsSecret P = true → draft.InSight P

/-- An exchange hands no placeholder of a secret to the transport exactly when every placeholder
that is left is left in sight, in the request and, where there is one, in its retry. -/
theorem transmitted_holds_no_secret_iff (P : Platform) (content : RequestContent)
    (scopes scopes' : ScopeStack) (secret secret' : Text → Option Text)
    (dynamic dynamic' : Nat → Text → Text) (context context' : BuildContext)
    (unauthorized : Bool) :
    (∀ draft ∈ transmitted P
        (checked P content (Resolver.new scopes secret dynamic) context)
        (checked P content (Resolver.new scopes' secret' dynamic') context') unauthorized,
      draft.holdsSecret P = false) ↔
    (∀ draft, checked P content (Resolver.new scopes secret dynamic) context = .ok draft →
      draft.LeftInSight P ∧
      (¬ draft.InSight P → unauthorized = true →
        ∀ draft', checked P content (Resolver.new scopes' secret' dynamic') context' = .ok draft' →
          draft'.LeftInSight P)) := by
  generalize checked P content (Resolver.new scopes secret dynamic) context = first
  generalize checked P content (Resolver.new scopes' secret' dynamic') context' = again
  -- What the check before the send sees is what is in sight.
  have hpass : ∀ draft : Draft,
      (containsSecretPlaceholder (draft.request P).wire = false → draft.holdsSecret P = false) ↔
        draft.LeftInSight P := by
    intro draft
    have h := containsSecretPlaceholder_iff_inSight P draft
    unfold Draft.LeftInSight
    rw [← h]
    cases containsSecretPlaceholder (draft.request P).wire <;>
      cases draft.holdsSecret P <;> simp
  cases first with
  | error error => simp [transmitted]
  | ok draft =>
      have hcheck := containsSecretPlaceholder_iff_inSight P draft
      simp only [Except.ok.injEq, forall_eq', ← hpass draft, ← hcheck, Bool.not_eq_true]
      cases hseen : containsSecretPlaceholder (draft.request P).wire with
      | true => simp [transmitted, hseen]
      | false =>
          -- Only a 401 builds the request a second time.
          cases unauthorized with
          | false => simp [transmitted, hseen]
          | true =>
              cases again with
              | error error => simp [transmitted, hseen]
              | ok draft' =>
                  simp only [Except.ok.injEq, forall_eq', ← hpass draft', forall_const]
                  cases hseen' : containsSecretPlaceholder (draft'.request P).wire with
                  | true => simp [transmitted, hseen, hseen']
                  | false => simp [transmitted, hseen, hseen']

/-! ## A placeholder out of sight -/

/-- A platform that reads one address, and no JSON. -/
def oneAddressPlatform : Platform where
  parseUrl t :=
    if t = units "https://api.test/" then
      some { head := t, searchParams := [], fragment := none, host := units "api.test",
             hostname := units "api.test", protocol := units "https:",
             origin := units "https://api.test" }
    else none
  parseJson _ := none
  toLowerCase t := t.map asciiLower
  toUpperCase t := t.map asciiUpper
  toFixedSeconds n := units (toString (n / 1000) ++ "." ++ toString (n % 1000 / 100))
  subtle := true
  signV4 _ _ _ _ _ := []

/-- A request whose API key, a query parameter, is a reference with a space inside its braces. -/
def spacedKeyRequest : RequestContent where
  method := units "GET"
  url := units "https://api.test/"
  headers := []
  body := { mode := .none }
  auth := .apikey (units "key") (units "\x7b\x7b $secret.gone \x7d\x7d") .query

/-- A request on its own: in no collection, with no files and no tokens. -/
def loneContext : BuildContext where
  ancestors := []
  scopes := {}
  readFile _ := .error (.blocked [])
  blockUnresolved := true
  oauthToken := none

/-- The space is written as a plus sign, and the check does not read the placeholder: a request
that refers to a secret the vault does not have is handed to the transport. -/
theorem spacedKeyRequest_is_transmitted :
    ∃ draft ∈ transmitted oneAddressPlatform
        (checked oneAddressPlatform spacedKeyRequest (Resolver.new {}) loneContext)
        (.error (.blocked [])) false,
      draft.holdsSecret oneAddressPlatform = true := by
  have h : (transmitted oneAddressPlatform
      (checked oneAddressPlatform spacedKeyRequest (Resolver.new {}) loneContext)
      (.error (.blocked [])) false).any
        (fun draft => draft.holdsSecret oneAddressPlatform) = true := by
    decide +kernel
  exact List.any_eq_true.mp h

end Wayfarer
