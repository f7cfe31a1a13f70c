import Wayfarer.Send.Build

/-!
# The wire check

`containsSecretPlaceholder` is the last look at a built request: one that still carries a
reference to a vault secret is not handed to the transport. The check reads the request
as it goes out, and the builder has encoded texts on their way there; what the check sees
of a text depends on how it was encoded.

`Draft.InSight` says what it sees in terms of the texts the request was built from, and
`containsSecretPlaceholder_iff_inSight` is the characterisation. A placeholder is out of
sight in a header or a GraphQL text when a tab or a line break stands between its braces
and its name (the headers are read as JSON, which escapes those), in a parameter that was
appended to the address when a space stands there (it is written as a plus sign), and
wherever an address was percent-encoded when one other escape of it is malformed.
`transmitted_holds_no_secret_iff` is what that means for an exchange and its retry.
-/

set_option autoImplicit false

namespace Wayfarer

open Library

/-! ## The check -/

/-- What a request puts on the wire, as far as the check reads it. -/
structure WireRequest where
  url : Text
  headers : List (Text × Text)
  body : Option WireBody

/-- Two braces, white space, and what every reference starts with. -/
def opensAt (t : Text) : Bool :=
  [openBrace, openBrace].isPrefixOf t && secretPrefix.isPrefixOf (trimStart (t.drop 2))

/-- Whether a text matches `SECRET_PLACEHOLDER` anywhere. -/
def testSecretPlaceholder : Text → Bool
  | [] => false
  | c :: rest => opensAt (c :: rest) || testSecretPlaceholder rest

/-- A text percent-decoded; empty where an escape is malformed. -/
def percentDecoded (t : Text) : Text :=
  (decodeURIComponent t).getD []

/-- What follows `Basic` and white space in a header value, up to the next white space. -/
def basicCredentials (value : Text) : Option Text :=
  let rest := trimStart value
  let after := rest.drop 5
  if (rest.take 5).map asciiLower = units "basic" ∧ after.takeWhile isWhite ≠ [] then
    let encoded := (trimStart after).takeWhile fun c => !isWhite c
    if encoded = [] then none else some encoded
  else none

/-- The credentials inside a `Basic` header value; empty for another value. -/
def decodeBasicCredentials (value : Text) : Text :=
  ((basicCredentials value).bind base64Decode).getD []

/-- The texts a body puts on the wire: itself, also percent-decoded, and every name, value and
file name of a multipart form. A file's own bytes are not read. -/
def wireBodyTexts : Option WireBody → List Text
  | some (.text t) => [t, percentDecoded (plusTo space t)]
  | some (.form entries) => entries.flatMap fun entry =>
      [entry.1, match entry.2 with
        | .text value => value
        | .file name _ => name]
  | _ => []

/-- The headers as the list of lists they are. -/
def headersJson (headers : List (Text × Text)) : Json :=
  .array (headers.map fun header => .array [.string header.1, .string header.2])

/-- Every text the check looks at. -/
def wireTexts (request : WireRequest) : List Text :=
  [request.url, percentDecoded request.url, (headersJson request.headers).stringify] ++
    request.headers.map (fun header => decodeBasicCredentials header.2) ++
    request.headers.map (fun header => percentDecoded (decodeBasicCredentials header.2)) ++
    wireBodyTexts request.body

/-- Whether a built request still carries a reference to a vault secret anywhere it would go
on the wire. -/
def containsSecretPlaceholder (request : WireRequest) : Bool :=
  (wireTexts request).any testSecretPlaceholder

/-- A built request as the check reads it. -/
def BuiltRequest.wire (request : BuiltRequest) : WireRequest :=
  { url := request.url, headers := request.headers, body := request.body }

/-! ## What a match is -/

/-- A match of `SECRET_PLACEHOLDER`, with `w` between the braces and the name. -/
def openingWord (w : Text) : Text :=
  openBrace :: openBrace :: w ++ secretPrefix

/-- A text opens a reference with white space that is `allowed`. -/
def OpensWith (allowed : CodeUnit → Bool) (t : Text) : Prop :=
  ∃ w, (∀ c ∈ w, isWhite c = true ∧ allowed c = true) ∧ openingWord w <:+: t

/-- A text opens a reference. -/
def Opens (t : Text) : Prop :=
  OpensWith (fun _ => true) t

/-- The dollar sign, which every reference's name starts with. -/
def dollarSign : CodeUnit := 0x24

theorem secretPrefix_eq :
    secretPrefix = [dollarSign, 0x73, 0x65, 0x63, 0x72, 0x65, 0x74, 0x2E] := by decide

theorem mem_openingWord {w : Text} {c : CodeUnit} :
    c ∈ openingWord w ↔ c = openBrace ∨ c ∈ w ∨ c ∈ secretPrefix := by
  simp [openingWord]

/-- A character that is no white space, no brace and not in the name is in no match. -/
theorem not_mem_openingWord {w : Text} (hw : ∀ c ∈ w, isWhite c = true) {c : CodeUnit}
    (hbrace : c ≠ openBrace) (hwhite : isWhite c = false) (hname : c ∉ secretPrefix) :
    c ∉ openingWord w := by
  rw [mem_openingWord]
  rintro (h | h | h)
  · exact hbrace h
  · exact absurd (hw c h) (by simp [hwhite])
  · exact hname h

theorem opensAt_iff (t : Text) :
    opensAt t = true ↔ ∃ w, (∀ c ∈ w, isWhite c = true) ∧ openingWord w <+: t := by
  constructor
  · intro h
    rw [opensAt, Bool.and_eq_true, List.isPrefixOf_iff_prefix, List.isPrefixOf_iff_prefix] at h
    obtain ⟨⟨rest, rfl⟩, hname⟩ := h
    obtain ⟨w, hw, hrest⟩ := exists_white_append_trimStart rest
    obtain ⟨after, hafter⟩ := hname
    refine ⟨w, hw, after, ?_⟩
    have hdrop : trimStart rest = secretPrefix ++ after := by simpa using hafter.symm
    rw [hdrop] at hrest
    simp [openingWord, hrest]
  · rintro ⟨w, hw, after, rfl⟩
    have hdollar : isWhite dollarSign = false := by decide
    have htrim : trimStart (w ++ (secretPrefix ++ after)) = secretPrefix ++ after := by
      rw [secretPrefix_eq]
      exact trimStart_append hw hdollar
    simp [opensAt, openingWord, htrim]

/-- The check matches a text exactly when it opens a reference. -/
theorem testSecretPlaceholder_iff (t : Text) :
    testSecretPlaceholder t = true ↔ Opens t := by
  induction t with
  | nil => simp [testSecretPlaceholder, Opens, OpensWith, openingWord]
  | cons c rest ih =>
      rw [testSecretPlaceholder, Bool.or_eq_true, opensAt_iff, ih]
      constructor
      · rintro (⟨w, hw, hpre⟩ | ⟨w, hw, hin⟩)
        · exact ⟨w, fun d hd => ⟨hw d hd, rfl⟩, hpre.isInfix⟩
        · exact ⟨w, hw, hin.trans (List.suffix_cons c rest).isInfix⟩
      · rintro ⟨w, hw, hin⟩
        rcases List.infix_cons_iff.mp hin with hpre | hin
        · exact Or.inl ⟨w, fun d hd => (hw d hd).1, hpre⟩
        · exact Or.inr ⟨w, hw, hin⟩

/-- A text that opens a reference with some white space opens one. -/
theorem OpensWith.opens {allowed : CodeUnit → Bool} {t : Text} (h : OpensWith allowed t) :
    Opens t := by
  obtain ⟨w, hw, hin⟩ := h
  exact ⟨w, fun c hc => ⟨(hw c hc).1, rfl⟩, hin⟩

/-- A text opens a reference on one side of a character that is in no match. -/
theorem opens_append_cons {c : CodeUnit} (hbrace : c ≠ openBrace) (hwhite : isWhite c = false)
    (hname : c ∉ secretPrefix) (s t : Text) :
    Opens (s ++ c :: t) ↔ Opens s ∨ Opens t := by
  constructor
  · rintro ⟨w, hw, hin⟩
    have hc : c ∉ openingWord w :=
      not_mem_openingWord (fun d hd => (hw d hd).1) hbrace hwhite hname
    rcases infix_of_infix_append_cons hc hin with h | h
    · exact Or.inl ⟨w, hw, h⟩
    · exact Or.inr ⟨w, hw, h⟩
  · rintro (⟨w, hw, hin⟩ | ⟨w, hw, hin⟩)
    · exact ⟨w, hw, hin.trans (List.prefix_append _ _).isInfix⟩
    · exact ⟨w, hw, hin.trans ((List.suffix_cons c t).trans (List.suffix_append s _)).isInfix⟩

/-- A text without braces opens nothing. -/
theorem not_opens_of_not_mem {t : Text} (h : openBrace ∉ t) :
    ¬ Opens t := by
  rintro ⟨w, -, hin⟩
  exact h (hin.subset (by simp [openingWord]))

/-! ## Headers -/

/-- A character that JSON holds as it is, as far as white space goes: no control character. -/
def isPrintable (c : CodeUnit) : Bool :=
  decide (0x20 ≤ c.toNat)

/-- A match with printable white space is copied by a JSON writer. -/
theorem isJsonPlain_openingWord {w : Text}
    (hw : ∀ c ∈ w, isWhite c = true ∧ isPrintable c = true) :
    ∀ c ∈ openingWord w, isJsonPlain c = true := by
  have hwhite : ∀ c ∈ whiteSpace, isPrintable c = true → isJsonPlain c = true := by decide
  have hname : ∀ c ∈ secretPrefix, isJsonPlain c = true := by decide
  have hbrace : isJsonPlain openBrace = true := by decide
  intro c hc
  rcases mem_openingWord.mp hc with rfl | hc | hc
  · exact hbrace
  · exact hwhite c (by simpa [isWhite] using (hw c hc).1) (hw c hc).2
  · exact hname c hc

/-- A JSON string opens a reference when the text does, with printable white space. -/
theorem opens_jsonEscape_iff (t : Text) :
    Opens (jsonEscape t) ↔ OpensWith isPrintable t := by
  have hfirst : openBrace ∉ jsonEscapeLetters := by decide
  constructor
  · rintro ⟨w, hw, hin⟩
    have hprint : ∀ c ∈ w, isWhite c = true ∧ isPrintable c = true := by
      intro c hc
      refine ⟨(hw c hc).1, ?_⟩
      have hmem : c ∈ jsonEscape t := hin.subset (mem_openingWord.mpr (Or.inr (Or.inl hc)))
      simpa [isPrintable] using le_toNat_of_mem_jsonEscape hmem
    exact ⟨w, hprint, (infix_jsonEscape_iff hfirst (isJsonPlain_openingWord hprint) t).mp hin⟩
  · rintro ⟨w, hw, hin⟩
    exact ⟨w, fun c hc => ⟨(hw c hc).1, rfl⟩,
      (infix_jsonEscape_iff hfirst (isJsonPlain_openingWord hw) t).mpr hin⟩

/-- A written JSON value opens a reference when one of its strings does, with printable white
space. -/
theorem opens_stringify_iff (v : Json) :
    Opens v.stringify ↔ ∃ t ∈ v.strings, OpensWith isPrintable t := by
  have hdollar : dollarSign ∉ jsonMarks := by decide
  have hquote : ∀ w : Text, (∀ c ∈ w, isWhite c = true) → quotationMark ∉ openingWord w :=
    fun w hw => not_mem_openingWord hw (by decide) (by decide) (by decide)
  have hmem : ∀ w, dollarSign ∈ openingWord w := fun w =>
    mem_openingWord.mpr (Or.inr (Or.inr (by decide)))
  constructor
  · rintro ⟨w, hw, hin⟩
    obtain ⟨t, ht, hin⟩ :=
      (infix_stringify_iff (hmem w) hdollar (hquote w fun c hc => (hw c hc).1) v).mp hin
    exact ⟨t, ht, (opens_jsonEscape_iff t).mp ⟨w, hw, hin⟩⟩
  · rintro ⟨t, ht, hopen⟩
    obtain ⟨w, hw, hin⟩ := (opens_jsonEscape_iff t).mpr hopen
    exact ⟨w, hw,
      (infix_stringify_iff (hmem w) hdollar (hquote w fun c hc => (hw c hc).1) v).mpr
        ⟨t, ht, hin⟩⟩

theorem opens_headersJson_iff (headers : List (Text × Text)) :
    Opens (headersJson headers).stringify ↔
      ∃ header ∈ headers, OpensWith isPrintable header.1 ∨ OpensWith isPrintable header.2 := by
  rw [opens_stringify_iff]
  constructor
  · rintro ⟨t, ht, hopen⟩
    simp only [headersJson, Json.mem_strings_array, List.mem_map] at ht
    obtain ⟨_, ⟨header, hheader, rfl⟩, ht⟩ := ht
    refine ⟨header, hheader, ?_⟩
    rcases (show t = header.1 ∨ t = header.2 by simpa using ht) with rfl | rfl
    · exact Or.inl hopen
    · exact Or.inr hopen
  · rintro ⟨header, hheader, hopen⟩
    have hmem : ∀ t, t = header.1 ∨ t = header.2 → t ∈ (headersJson headers).strings := by
      intro t ht
      simp only [headersJson, Json.mem_strings_array, List.mem_map]
      exact ⟨_, ⟨header, hheader, rfl⟩, by simpa using ht⟩
    rcases hopen with hopen | hopen
    · exact ⟨header.1, hmem _ (Or.inl rfl), hopen⟩
    · exact ⟨header.2, hmem _ (Or.inr rfl), hopen⟩

/-! ## Addresses and forms -/

/-- What `encodeBreaks` does to one character. -/
theorem encodeBreaks_escapes (c : CodeUnit) :
    EscapesItem percentSign openBrace [c]
      (if isTabOrBreak c then percentByte c.toNat else [c]) := by
  refine ⟨?_⟩
  split_ifs with h
  · simp only [isTabOrBreak, Bool.or_eq_true, decide_eq_true_eq] at h
    right
    rcases h with (rfl | rfl) | rfl
    · exact ⟨_, rfl, by decide⟩
    · exact ⟨_, rfl, by decide⟩
    · exact ⟨_, rfl, by decide⟩
  · exact Or.inl rfl

/-- No tab or line break is left in an encoded address. -/
theorem not_isTabOrBreak_of_mem {t : Text} {c : CodeUnit} (hc : c ∈ encodeBreaks t) :
    isTabOrBreak c = false := by
  obtain ⟨d, -, hc⟩ := List.mem_flatMap.mp hc
  split_ifs at hc with h
  · simp only [isTabOrBreak, Bool.or_eq_true, decide_eq_true_eq] at h
    have hall : ∀ e ∈ [(0x09 : CodeUnit), 0x0A, 0x0D], ∀ c ∈ percentByte e.toNat,
        isTabOrBreak c = false := by decide
    exact hall d (by simpa [or_assoc] using h) c hc
  · rw [List.mem_singleton.mp hc]
    simpa using h

/-- A text without tabs and line breaks is left as it is. -/
theorem encodeBreaks_of_none {t : Text} (h : ∀ c ∈ t, isTabOrBreak c = false) :
    encodeBreaks t = t := by
  induction t with
  | nil => rfl
  | cons c t ih =>
      have hc : isTabOrBreak c = false := h c (by simp)
      have ih := ih fun d hd => h d (by simp [hd])
      unfold encodeBreaks at ih ⊢
      rw [List.flatMap_cons, ih]
      simp [hc]

/-- A normalised address opens a reference when the address does, with white space that is no
tab and no line break. -/
theorem opens_normalizeUrl_iff (t : Text) :
    Opens (normalizeUrl t) ↔ OpensWith (fun c => !isTabOrBreak c) t := by
  have hencode : Opens (normalizeUrl t) ↔ Opens (encodeBreaks t) := by
    unfold normalizeUrl
    dsimp only
    split_ifs with h
    · exact Iff.rfl
    · constructor
      · rintro ⟨w, hw, hin⟩
        exact ⟨w, hw, infix_of_head_not_mem (by decide) hin⟩
      · rintro ⟨w, hw, hin⟩
        exact ⟨w, hw, hin.trans (List.suffix_append _ _).isInfix⟩
  rw [hencode]
  constructor
  · rintro ⟨w, hw, hin⟩
    have hpercent : percentSign ∉ openingWord w :=
      not_mem_openingWord (fun c hc => (hw c hc).1) (by decide) (by decide) (by decide)
    refine ⟨w, fun c hc => ⟨(hw c hc).1, ?_⟩, ?_⟩
    · have hmem : c ∈ encodeBreaks t := hin.subset (mem_openingWord.mpr (Or.inr (Or.inl hc)))
      simpa using not_isTabOrBreak_of_mem hmem
    · have h := infix_of_escaped hpercent t (fun c _ => encodeBreaks_escapes c) hin
      simpa [openingWord] using h
  · rintro ⟨w, hw, s, u, rfl⟩
    have hword : encodeBreaks (openingWord w) = openingWord w := by
      apply encodeBreaks_of_none
      intro c hc
      rcases mem_openingWord.mp hc with rfl | hc | hc
      · decide
      · simpa using (hw c hc).2
      · have hall : ∀ c ∈ secretPrefix, isTabOrBreak c = false := by decide
        exact hall c hc
    refine ⟨w, fun c hc => ⟨(hw c hc).1, rfl⟩, encodeBreaks s, encodeBreaks u, ?_⟩
    nth_rewrite 1 [← hword]
    simp [encodeBreaks]

/-- A text with its spaces written as plus signs opens a reference when the text does, with
white space that is no space. -/
theorem opens_spaceTo_plus_iff (t : Text) :
    Opens (spaceTo plusSign t) ↔ OpensWith (fun c => c ≠ space) t := by
  constructor
  · rintro ⟨w, hw, s, u, hsplit⟩
    obtain ⟨front, u', rfl, hfront, rfl⟩ := List.map_eq_append_iff.mp hsplit.symm
    obtain ⟨s', word, rfl, rfl, hword⟩ := List.map_eq_append_iff.mp hfront
    have hplus : plusSign ∉ openingWord w :=
      not_mem_openingWord (fun c hc => (hw c hc).1) (by decide) (by decide) (by decide)
    have hnone : ∀ c ∈ word, c ≠ space := by
      rintro c hc rfl
      refine hplus ?_
      rw [← hword]
      exact List.mem_map.mpr ⟨space, hc, by simp⟩
    have hsame : word = openingWord w := by
      rw [← hword]
      refine (List.map_id' word).symm.trans (List.map_congr_left fun c hc => ?_)
      simp [hnone c hc]
    refine ⟨w, fun c hc => ⟨(hw c hc).1, ?_⟩, ⟨s', u', by rw [← hsame]⟩⟩
    simpa using hnone c (by rw [hsame]; exact mem_openingWord.mpr (Or.inr (Or.inl hc)))
  · rintro ⟨w, hw, s, u, rfl⟩
    have hword : spaceTo plusSign (openingWord w) = openingWord w := by
      refine (List.map_congr_left fun c hc => ?_).trans (List.map_id' _)
      have hne : c ≠ space := by
        rcases mem_openingWord.mp hc with rfl | hc | hc
        · decide
        · simpa using (hw c hc).2
        · rintro rfl
          exact absurd hc (by decide)
      simp [hne]
    refine ⟨w, fun c hc => ⟨(hw c hc).1, rfl⟩, spaceTo plusSign s, spaceTo plusSign u, ?_⟩
    nth_rewrite 1 [← hword]
    simp [spaceTo]

theorem spaceTo_space (t : Text) :
    spaceTo space t = t := by
  refine (List.map_congr_left fun c _ => ?_).trans (List.map_id' t)
  split_ifs with h
  · exact h.symm
  · rfl

/-- Pairs as a form joins them open a reference when a name or a value does. -/
theorem opens_pairTexts_iff (s : CodeUnit) (pairs : List (Text × Text)) :
    Opens (joinWith (units "&") (pairs.map (pairText s))) ↔
      ∃ pair ∈ pairs, Opens (spaceTo s (scrub pair.1)) ∨ Opens (spaceTo s (scrub pair.2)) := by
  have hpair : ∀ pair : Text × Text, Opens (pairText s pair) ↔
      Opens (spaceTo s (scrub pair.1)) ∨ Opens (spaceTo s (scrub pair.2)) := by
    intro pair
    have hunits : units "=" = [0x3D] := by decide
    have hsplit : pairText s pair =
        spaceTo s (scrub pair.1) ++ 0x3D :: spaceTo s (scrub pair.2) := by
      simp [pairText, hunits]
    rw [hsplit, opens_append_cons (by decide) (by decide) (by decide)]
  have hunits : units "&" = [0x26] := by decide
  simp only [← hpair]
  constructor
  · rintro ⟨w, hw, hin⟩
    have hand : (0x26 : CodeUnit) ∉ openingWord w :=
      not_mem_openingWord (fun c hc => (hw c hc).1) (by decide) (by decide) (by decide)
    rw [joinWith, hunits] at hin
    obtain ⟨piece, hpiece, hin⟩ := exists_infix_of_infix_intercalate hand _ hin
    obtain ⟨pair, hmem, rfl⟩ := List.mem_map.mp hpiece
    exact ⟨pair, hmem, w, hw, hin⟩
  · rintro ⟨pair, hmem, w, hw, hin⟩
    exact ⟨w, hw, hin.trans (infix_intercalate_of_mem (List.mem_map.mpr ⟨pair, hmem, rfl⟩))⟩

theorem not_opens_formSerialize (pairs : List (Text × Text)) :
    ¬ Opens (formSerialize pairs) := by
  exact not_opens_of_not_mem
    (not_mem_formSerialize (by decide) (by decide) (by decide) pairs)

end Wayfarer
