import Wayfarer.Library.FetchStandard
import Wayfarer.Redact.Redactor
import Wayfarer.Send.Transmit
import Wayfarer.Transport.Limits

/-!
# Forbidden headers and preflights, as the standard has them

`browserLimits` restates rules of the Fetch standard as patterns over text. Here each rule is
compared with the standard's own algorithm, on every header that `fetch` takes.

A header is misjudged in one of three ways: an override of the method is taken for forbidden because
a word in it is a forbidden method (`OddOverride`), a header is read as safelisted that is not
(`Missed`), or as one that needs a preflight though it is safelisted (`Overcalled`).
`limits_readAlike_iff` says that these are all, and when they show.
-/

set_option autoImplicit false

namespace Wayfarer

open Library

/-! ## Case changes on bytes -/

/-- A letter of one byte in lower case. -/
def latinLower (c : CodeUnit) : CodeUnit :=
  if (0x41 ≤ c.toNat ∧ c.toNat ≤ 0x5A) ∨ (0xC0 ≤ c.toNat ∧ c.toNat ≤ 0xDE ∧ c.toNat ≠ 0xD7) then
    c + 0x20
  else c

/-- The language's case changes, on byte strings and on ASCII. -/
structure ByteCase (P : Platform) : Prop where
  lower : ∀ t : Text, (∀ c ∈ t, c.toNat ≤ 0xFF) → P.toLowerCase t = t.map latinLower
  upper : ∀ t : Text, (∀ c ∈ t, c.toNat < 0x80) → P.toUpperCase t = t.map asciiUpper

theorem asciiLower_eq_byteLower : asciiLower = FetchStandard.byteLower := rfl

theorem toNat_asciiLower (c : CodeUnit) :
    (asciiLower c).toNat = if 0x41 ≤ c.toNat ∧ c.toNat ≤ 0x5A then c.toNat + 0x20 else c.toNat := by
  rw [asciiLower]
  split_ifs with h
  · rw [UInt16.toNat_add]
    have : (0x20 : UInt16).toNat = 0x20 := rfl
    omega
  · rfl

theorem toNat_asciiUpper (c : CodeUnit) :
    (asciiUpper c).toNat = if 0x61 ≤ c.toNat ∧ c.toNat ≤ 0x7A then c.toNat - 0x20 else c.toNat := by
  rw [asciiUpper]
  split_ifs with h
  · have hle : (0x20 : UInt16) ≤ c := by
      rw [UInt16.le_iff_toNat_le]
      have : (0x20 : UInt16).toNat = 0x20 := rfl
      omega
    rw [UInt16.toNat_sub_of_le _ _ hle]
    rfl
  · rfl

theorem toNat_latinLower (c : CodeUnit) :
    (latinLower c).toNat = if (0x41 ≤ c.toNat ∧ c.toNat ≤ 0x5A) ∨
      (0xC0 ≤ c.toNat ∧ c.toNat ≤ 0xDE ∧ c.toNat ≠ 0xD7) then c.toNat + 0x20 else c.toNat := by
  rw [latinLower]
  split_ifs with h
  · rw [UInt16.toNat_add]
    have : (0x20 : UInt16).toNat = 0x20 := rfl
    omega
  · rfl

/-- Two characters are one letter in small letters exactly when they are one in capitals. -/
theorem asciiLower_eq_iff (c d : CodeUnit) :
    asciiLower c = asciiLower d ↔ asciiUpper c = asciiUpper d := by
  rw [← UInt16.toNat_inj, ← UInt16.toNat_inj, toNat_asciiLower, toNat_asciiLower, toNat_asciiUpper,
    toNat_asciiUpper]
  split_ifs <;> omega

/-- A small letter of ASCII comes from ASCII. -/
theorem latinLower_eq {c : CodeUnit}
    (h : (latinLower c).toNat < 0x80 ∨ (asciiLower c).toNat < 0x80) :
    latinLower c = asciiLower c := by
  rw [← UInt16.toNat_inj]
  rw [toNat_latinLower, toNat_asciiLower] at *
  split_ifs at * <;> omega

theorem ByteCase.lower_ascii {P : Platform} (h : ByteCase P) {t : Text}
    (ht : ∀ c ∈ t, c.toNat < 0x80) : P.toLowerCase t = t.map asciiLower := by
  rw [h.lower t fun c hc => Nat.le_of_lt (Nat.lt_trans (ht c hc) (by decide))]
  refine List.map_congr_left fun c hc => latinLower_eq (.inr ?_)
  have := ht c hc
  rw [toNat_asciiLower]
  split_ifs <;> omega

/-! ## Headers as fetch takes them -/

/-- A header that `fetch` takes: a token, and a byte string with no NUL and no line break inside. -/
structure Taken (header : Text × Text) : Prop where
  name : ∀ c ∈ header.1, FetchStandard.isTokenByte c = true
  value : ∀ c ∈ header.2, c.toNat ≤ 0xFF
  inside : ∀ c ∈ FetchStandard.normalize header.2, c ≠ 0x00 ∧ c ≠ 0x0A ∧ c ≠ 0x0D

theorem toNat_of_isTokenByte {c : CodeUnit} (h : FetchStandard.isTokenByte c = true) :
    c.toNat < 0x80 := by
  have hmarks : ∀ d ∈ units "!#$%&'*+-.^_`|~", d.toNat < 0x80 := by decide
  simp only [FetchStandard.isTokenByte, Bool.or_eq_true, Bool.and_eq_true,
    decide_eq_true_eq] at h
  rcases h with ((h | h) | h) | h
  · omega
  · omega
  · omega
  · exact hmarks c (List.contains_iff_mem.mp h)

theorem Taken.lower_name {P : Platform} (hcase : ByteCase P) {header : Text × Text}
    (h : Taken header) : P.toLowerCase header.1 = header.1.map asciiLower :=
  hcase.lower_ascii fun c hc => toNat_of_isTokenByte (h.name c hc)

/-- A list of small names holds a name in small letters where one of the standard's is that name. -/
theorem contains_map_byteLower (names : List Text) (name : Text) :
    (names.map fun n => n.map FetchStandard.byteLower).contains (name.map asciiLower) =
      names.any (FetchStandard.sameName name) := by
  rw [Bool.eq_iff_iff, List.contains_iff_mem, List.mem_map, List.any_eq_true]
  constructor
  · rintro ⟨n, hn, hsame⟩
    exact ⟨n, hn, decide_eq_true hsame.symm⟩
  · rintro ⟨n, hn, hsame⟩
    exact ⟨n, hn, (of_decide_eq_true hsame).symm⟩

theorem forbidden_eq :
    forbidden = FetchStandard.forbiddenNames.map fun n => n.map FetchStandard.byteLower := by
  decide +kernel

theorem methodOverrides_eq :
    methodOverrides = FetchStandard.overrideNames.map fun n => n.map FetchStandard.byteLower := by
  decide +kernel

theorem forbiddenMethods_eq :
    forbiddenMethods =
      ["CONNECT", "TRACE", "TRACK"].map fun n => (units n).map FetchStandard.byteLower := by
  decide +kernel

/-- A word that stands on its own is found. -/
theorem holdsWord_append {words : List Text} {inWord : Bool} {a word b : Text}
    (hword : word ∈ words) (hne : word ≠ []) (hstart : a = [] → inWord = false)
    (hfront : ∀ c ∈ a.getLast?, isWordUnit c = false)
    (hback : ∀ c ∈ b.head?, isWordUnit c = false) :
    holdsWord words inWord (a ++ word ++ b) = true := by
  induction a generalizing inWord with
  | nil =>
      obtain ⟨c, rest, rfl⟩ := List.exists_cons_of_ne_nil hne
      rw [List.nil_append, List.cons_append, holdsWord, hstart rfl, Bool.or_eq_true]
      left
      rw [Bool.not_false, Bool.true_and, List.any_eq_true]
      refine ⟨c :: rest, hword, ?_⟩
      rw [← List.cons_append, List.drop_left, Bool.and_eq_true]
      refine ⟨List.isPrefixOf_iff_prefix.mpr (List.prefix_append _ _), ?_⟩
      cases b with
      | nil => rfl
      | cons d b =>
          rw [List.head?_cons, Option.any_some, hback d rfl]
          rfl
  | cons d a ih =>
      rw [List.cons_append, List.cons_append, holdsWord, Bool.or_eq_true]
      right
      apply ih
      · rintro rfl
        exact hfront d rfl
      · intro c hc
        refine hfront c ?_
        cases a with
        | nil => cases hc
        | cons e a => rwa [List.getLast?_cons_cons]

/-- A method of the list of an override is found as a word of the value. -/
theorem holdsWord_of_mem_valuesOf {value method : Text}
    (hmem : method ∈ FetchStandard.valuesOf (FetchStandard.normalize value))
    (hmethod : FetchStandard.isForbiddenMethod method = true) :
    holdsWord forbiddenMethods false (value.map asciiLower) = true := by
  -- what stands beside a value of a list is no part of a word, in small letters as well
  have hapart : ∀ c, FetchStandard.isBetween c = true ∨ FetchStandard.isHttpWhite c = true →
      isWordUnit (asciiLower c) = false := by
    intro c hc
    have hplain : ∀ d ∈ ([0x2C, 0x09, 0x20, 0x0A, 0x0D] : Text),
        isWordUnit (asciiLower d) = false := by
      decide
    apply hplain
    simp only [FetchStandard.isBetween, FetchStandard.isTabOrSpace, FetchStandard.isHttpWhite,
      Bool.or_eq_true, decide_eq_true_eq] at hc
    simp only [List.mem_cons, List.not_mem_nil]
    tauto
  obtain ⟨w, w', hw, hw', hvalue⟩ :=
    FetchStandard.exists_append_strip FetchStandard.isHttpWhite value
  obtain ⟨a, b, hlist, ha, hb⟩ := FetchStandard.exists_of_mem_valuesFrom hmem
  rw [List.nil_append, FetchStandard.normalize] at hlist
  have hlower : method.map asciiLower ∈ forbiddenMethods := by
    rw [forbiddenMethods_eq]
    rw [FetchStandard.isForbiddenMethod, List.any_eq_true] at hmethod
    obtain ⟨m, hm, hsame⟩ := hmethod
    obtain ⟨text, htext, rfl⟩ := List.mem_map.mp hm
    exact List.mem_map.mpr ⟨text, htext, (of_decide_eq_true hsame).symm⟩
  have hne : ∀ m ∈ forbiddenMethods, m ≠ [] := by decide
  have hsplit : value.map asciiLower =
      (w ++ a).map asciiLower ++ method.map asciiLower ++ (b ++ w').map asciiLower := by
    rw [hvalue, hlist]
    simp only [List.map_append, List.append_assoc]
  rw [hsplit]
  refine holdsWord_append hlower (hne _ hlower) (fun _ => rfl) ?_ ?_
  · intro c hc
    rw [List.getLast?_map] at hc
    obtain ⟨d, hd, rfl⟩ := Option.map_eq_some_iff.mp hc
    rw [List.getLast?_append] at hd
    rcases Option.or_eq_some_iff.mp hd with hd | ⟨-, hd⟩
    · exact hapart d (.inl (ha d hd))
    · exact hapart d (.inr (hw d (List.mem_of_getLast? hd)))
  · intro c hc
    rw [List.head?_map] at hc
    obtain ⟨d, hd, rfl⟩ := Option.map_eq_some_iff.mp hc
    rw [List.head?_append] at hd
    rcases Option.or_eq_some_iff.mp hd with hd | ⟨-, hd⟩
    · exact hapart d (.inl (hb d hd))
    · exact hapart d (.inr (hw' d (List.mem_of_head? hd)))

/-- A header that overrides the method, in whose value a forbidden method is a word, though no value
of its list is one. -/
def OddOverride (header : Text × Text) : Prop :=
  FetchStandard.overrideNames.any (FetchStandard.sameName header.1) = true ∧
    holdsWord forbiddenMethods false (header.2.map asciiLower) = true ∧
    (FetchStandard.valuesOf (FetchStandard.normalize header.2)).any
      FetchStandard.isForbiddenMethod = false

/-- Whether the standard forbids a header, as a page's `Headers` hold it. -/
def isRefused (header : Text × Text) : Bool :=
  FetchStandard.isForbidden header.1 (FetchStandard.normalize header.2)

/-- What is taken for forbidden is forbidden, but for an odd override. -/
theorem isForbidden_iff {P : Platform} (hcase : ByteCase P) {header : Text × Text}
    (h : Taken header) :
    isForbidden P header.1 header.2 = true ↔ isRefused header = true ∨ OddOverride header := by
  have hmethods : (FetchStandard.valuesOf (FetchStandard.normalize header.2)).any
      FetchStandard.isForbiddenMethod = true →
      holdsWord forbiddenMethods false (header.2.map asciiLower) = true := by
    intro hany
    obtain ⟨method, hmem, hmethod⟩ := List.any_eq_true.mp hany
    exact holdsWord_of_mem_valuesOf hmem hmethod
  rw [isForbidden, isRefused, FetchStandard.isForbidden, OddOverride, h.lower_name hcase,
    forbidden_eq, methodOverrides_eq, contains_map_byteLower, contains_map_byteLower,
    ← asciiLower_eq_byteLower]
  simp only [Bool.or_eq_true, Bool.and_eq_true]
  cases hlisted : (FetchStandard.valuesOf (FetchStandard.normalize header.2)).any
      FetchStandard.isForbiddenMethod with
  | true =>
      rw [hmethods hlisted]
      simp only [and_true, Bool.true_eq_false, and_false, or_false]
  | false => simp only [Bool.false_eq_true, and_false, and_true, or_false]

/-! ## Headers read as safelisted -/

/-- Whether the standard safelists a header, as a page's `Headers` hold it. -/
def isSafe (header : Text × Text) : Bool :=
  FetchStandard.isSafelisted header.1 (FetchStandard.normalize header.2)

/-- A name, whatever its letters' case. -/
abbrev Named (name : String) (header : Text × Text) : Prop :=
  header.1.map asciiLower = units name

/-- A no-break space, which the language trims and the standard does not. -/
def noBreakSpace : CodeUnit := 0xA0

/-- One of the types of a form stands before the first semicolon, with characters of a kind around
it. -/
def TypeBetween (front type back value : Text) : Prop :=
  value.takeWhile (fun c => c ≠ 0x3B) = front ++ type ++ back ∧
    type.map asciiLower ∈ FetchStandard.formTypes

/-- A range of digits. -/
def RangeOf (first last value : Text) : Prop :=
  value = units "bytes=" ++ (first ++ 0x2D :: last) ∧ first ≠ [] ∧
    (∀ c ∈ first, FetchStandard.isDigit c = true) ∧ ∀ c ∈ last, FetchStandard.isDigit c = true

/-- A header read as safelisted that is not: a range that ends before it starts or is longer than
128 bytes, or a type of a form between no-break spaces. -/
def Missed (header : Text × Text) : Prop :=
  (Named "range" header ∧ ∃ first last, RangeOf first last header.2 ∧
    ((last ≠ [] ∧ FetchStandard.decimalValue last < FetchStandard.decimalValue first) ∨
      128 < header.2.length)) ∨
  (Named "content-type" header ∧ header.2.any isUnsafeByte = false ∧ byteLength header.2 ≤ 128 ∧
    ∃ front type back, TypeBetween front type back header.2 ∧
      (∀ c ∈ front ++ back, c = 0x09 ∨ c = 0x20 ∨ c = noBreakSpace) ∧ noBreakSpace ∈ front ++ back)

/-- A safelisted header read as one that is not: white space around a range, line
breaks around another value (around languages tabs as well), or more than 128 bytes
when it is written as UTF-8. -/
def Overcalled (header : Text × Text) : Prop :=
  isSafe header = true ∧
    ((Named "range" header ∧ FetchStandard.normalize header.2 ≠ header.2) ∨
      ((Named "accept" header ∨ Named "content-type" header) ∧
        ((∃ c ∈ header.2, c = 0x0A ∨ c = 0x0D) ∨ 128 < byteLength header.2)) ∨
      ((Named "accept-language" header ∨ Named "content-language" header) ∧
        ((∃ c ∈ header.2, c = 0x09 ∨ c = 0x0A ∨ c = 0x0D) ∨ 128 < byteLength header.2)))

theorem length_normalize_le (value : Text) :
    (FetchStandard.normalize value).length ≤ byteLength value :=
  (FetchStandard.length_strip_le _ value).trans (length_utf8Bytes value)

theorem isUnsafe_eq (c : CodeUnit) : FetchStandard.isUnsafe c = isUnsafeByte c := by
  have hmarks : units "\"():<>?@[\\]" =
      [0x22, 0x28, 0x29, 0x3A, 0x3C, 0x3E, 0x3F, 0x40, 0x5B, 0x5C, 0x5D] := by
    decide
  rw [Bool.eq_iff_iff, FetchStandard.isUnsafe, isUnsafeByte, hmarks]
  simp only [Bool.or_eq_true, Bool.and_eq_true, decide_eq_true_eq, List.contains_iff_mem,
    List.mem_cons, List.not_mem_nil, or_false, UInt16.le_iff_toNat_le, ne_eq, ← UInt16.toNat_inj,
    UInt16.reduceToNat]
  omega

theorem isLanguageByte_eq (c : CodeUnit) : FetchStandard.isLanguageByte c = isLanguageUnit c := by
  have hmarks : units " *,-.;=" = [0x20, 0x2A, 0x2C, 0x2D, 0x2E, 0x3B, 0x3D] := by decide
  rw [Bool.eq_iff_iff, FetchStandard.isLanguageByte, isLanguageUnit, isDigitUnit, hmarks]
  simp only [Bool.or_eq_true, Bool.and_eq_true, decide_eq_true_eq, UInt16.le_iff_toNat_le,
    UInt16.reduceToNat]

theorem isDigit_eq (c : CodeUnit) : FetchStandard.isDigit c = isDigitUnit c := by
  rw [Bool.eq_iff_iff, FetchStandard.isDigit, isDigitUnit]
  simp only [Bool.and_eq_true, decide_eq_true_eq, UInt16.le_iff_toNat_le, UInt16.reduceToNat]

/-- All of a value is of a kind where what a header holds of it is, and the white
space around that. -/
theorem all_iff_normalize (q : CodeUnit → Bool) (value : Text) :
    value.all q = true ↔ (FetchStandard.normalize value).all q = true ∧
      ¬ ∃ c ∈ value, FetchStandard.isHttpWhite c = true ∧ q c = false := by
  obtain ⟨w, w', hw, hw', hvalue⟩ :=
    FetchStandard.exists_append_strip FetchStandard.isHttpWhite value
  rw [← FetchStandard.normalize] at hvalue
  constructor
  · intro hall
    rw [List.all_eq_true] at hall ⊢
    refine ⟨fun c hc => hall c ?_, ?_⟩
    · rw [hvalue]
      exact List.mem_append_left _ (List.mem_append_right _ hc)
    · rintro ⟨c, hc, -, hq⟩
      rw [hall c hc] at hq
      cases hq
  · rintro ⟨hinside, hnone⟩
    have hends : ∀ c ∈ value, FetchStandard.isHttpWhite c = true → q c = true := by
      intro c hc hwhite
      by_contra hq
      exact hnone ⟨c, hc, hwhite, Bool.eq_false_iff.mpr hq⟩
    rw [List.all_eq_true] at hinside ⊢
    intro c hc
    have hwhere := hc
    rw [hvalue] at hwhere
    rcases List.mem_append.mp hwhere with hwhere | hwhere
    · rcases List.mem_append.mp hwhere with hwhere | hwhere
      · exact hends c hc (hw c hwhere)
      · exact hinside c hwhere
    · exact hends c hc (hw' c hwhere)

theorem exists_of_isHttpWhite {c : CodeUnit} :
    FetchStandard.isHttpWhite c = true ↔ c ∈ ([0x09, 0x0A, 0x0D, 0x20] : Text) := by
  simp only [FetchStandard.isHttpWhite, Bool.or_eq_true, decide_eq_true_eq, List.mem_cons,
    List.not_mem_nil, or_false, or_assoc]

/-- White space that an unread value may not hold: line breaks. -/
theorem unsafeWhite_iff (c : CodeUnit) :
    (FetchStandard.isHttpWhite c = true ∧ (!isUnsafeByte c) = false) ↔ c = 0x0A ∨ c = 0x0D := by
  rw [exists_of_isHttpWhite]
  constructor
  · rintro ⟨hwhite, hq⟩
    have hcases : ∀ d ∈ ([0x09, 0x0A, 0x0D, 0x20] : Text), (!isUnsafeByte d) = false →
        d = 0x0A ∨ d = 0x0D := by decide
    exact hcases c hwhite hq
  · rintro (rfl | rfl) <;> decide

theorem languageWhite_iff (c : CodeUnit) :
    (FetchStandard.isHttpWhite c = true ∧ isLanguageUnit c = false) ↔
      c = 0x09 ∨ c = 0x0A ∨ c = 0x0D := by
  rw [exists_of_isHttpWhite]
  constructor
  · rintro ⟨hwhite, hq⟩
    have hcases : ∀ d ∈ ([0x09, 0x0A, 0x0D, 0x20] : Text), isLanguageUnit d = false →
        d = 0x09 ∨ d = 0x0A ∨ d = 0x0D := by decide
    exact hcases c hwhite hq
  · rintro (rfl | rfl | rfl) <;> decide

/-! ## Types of a body -/

theorem cutAt_fst (sep : CodeUnit) (t : Text) :
    (cutAt sep t).1 = t.takeWhile fun c => c ≠ sep := by
  induction t with
  | nil => rfl
  | cons c t ih =>
      rw [cutAt, List.takeWhile_cons]
      by_cases hc : c = sep
      · rw [if_pos hc, if_neg (by simpa using hc)]
      · rw [if_neg hc, if_pos (by simpa using hc), ← ih]

/-- The types of a form: a token, a slash and a token, with letters at the ends. -/
theorem formTypes_shape {t : Text} (h : t ∈ FetchStandard.formTypes) :
    ∃ type subtype : Text, t = type ++ 0x2F :: subtype ∧ type ≠ [] ∧ subtype ≠ [] ∧
      ∀ c ∈ type ++ subtype, FetchStandard.isTokenByte c = true ∧ c.toNat < 0x80 := by
  have hform : FetchStandard.formTypes =
      [units "application" ++ 0x2F :: units "x-www-form-urlencoded",
        units "multipart" ++ 0x2F :: units "form-data", units "text" ++ 0x2F :: units "plain"] := by
    decide
  rw [hform] at h
  simp only [List.mem_cons, List.not_mem_nil, or_false] at h
  rcases h with rfl | rfl | rfl
  · exact ⟨_, _, rfl, by decide, by decide, by decide⟩
  · exact ⟨_, _, rfl, by decide, by decide, by decide⟩
  · exact ⟨_, _, rfl, by decide, by decide, by decide⟩

theorem isTokenByte_of_lower {c : CodeUnit}
    (h : FetchStandard.isTokenByte (asciiLower c) = true) : FetchStandard.isTokenByte c = true := by
  by_cases hcapital : 0x41 ≤ c.toNat ∧ c.toNat ≤ 0x5A
  · simp only [FetchStandard.isTokenByte, Bool.or_eq_true, Bool.and_eq_true, decide_eq_true_eq]
    exact .inl (.inl (.inr hcapital))
  · rwa [asciiLower, if_neg hcapital] at h

/-- A type of a form in letters of any case, cut at its slash. -/
theorem exists_of_formType {t : Text} (h : t.map asciiLower ∈ FetchStandard.formTypes) :
    ∃ type subtype : Text, t = type ++ 0x2F :: subtype ∧ type ≠ [] ∧ subtype ≠ [] ∧
      (∀ c ∈ type, FetchStandard.isTokenByte c = true) ∧
      ∀ c ∈ subtype, FetchStandard.isTokenByte c = true := by
  obtain ⟨type, subtype, heq, htype, hsubtype, htokens⟩ := formTypes_shape h
  obtain ⟨front, rest, rfl, rfl, hrest⟩ := List.map_eq_append_iff.mp heq
  obtain ⟨c, back, rfl, hc, rfl⟩ := List.map_eq_cons_iff.mp hrest
  have hslash : c = 0x2F := by
    have hnat := congrArg UInt16.toNat hc
    rw [toNat_asciiLower] at hnat
    have : (0x2F : UInt16).toNat = 0x2F := rfl
    rw [← UInt16.toNat_inj]
    split_ifs at hnat <;> omega
  subst hslash
  refine ⟨front, back, rfl, fun h => htype (by rw [h]; rfl), fun h => hsubtype (by rw [h]; rfl),
    fun d hd => isTokenByte_of_lower (htokens _ ?_).1,
    fun d hd => isTokenByte_of_lower (htokens _ ?_).1⟩
  · exact List.mem_append_left _ (List.mem_map_of_mem hd)
  · exact List.mem_append_right _ (List.mem_map_of_mem hd)

theorem isWhite_of_isTokenByte {c : CodeUnit} (h : FetchStandard.isTokenByte c = true) :
    isWhite c = false := by
  have hplain : ∀ d ∈ whiteSpace, FetchStandard.isTokenByte d = false := by decide
  rw [Bool.eq_false_iff, isWhite]
  intro hwhite
  rw [hplain c (List.contains_iff_mem.mp hwhite)] at h
  cases h

/-- A type of a form has no white space at its ends. -/
theorem ends_of_formType {t : Text} (h : t.map asciiLower ∈ FetchStandard.formTypes) :
    t ≠ [] ∧ ∀ c ∈ t, c ∈ t.head? ∨ c ∈ t.getLast? → isWhite c = false := by
  obtain ⟨type, subtype, rfl, htype, hsubtype, htokens, htokens'⟩ := exists_of_formType h
  refine ⟨List.append_ne_nil_of_right_ne_nil _ (List.cons_ne_nil _ _), fun c _ hc => ?_⟩
  apply isWhite_of_isTokenByte
  rcases hc with hc | hc
  · rw [List.head?_append_of_ne_nil _ htype] at hc
    exact htokens c (List.mem_of_head? hc)
  · rw [List.getLast?_append_of_ne_nil _ (List.cons_ne_nil _ _),
      List.getLast?_cons_of_ne_nil hsubtype] at hc
    exact htokens' c (List.mem_of_getLast? hc)

theorem map_latinLower_mem_iff {t : Text} :
    t.map latinLower ∈ FetchStandard.formTypes ↔ t.map asciiLower ∈ FetchStandard.formTypes := by
  have hascii : ∀ n ∈ FetchStandard.formTypes, ∀ c ∈ n, c.toNat < 0x80 := by decide
  constructor
  · intro h
    have hsame : t.map latinLower = t.map asciiLower :=
      List.map_congr_left fun c hc =>
        latinLower_eq (.inl (hascii _ h _ (List.mem_map_of_mem hc)))
    rwa [← hsame]
  · intro h
    have hsame : t.map latinLower = t.map asciiLower :=
      List.map_congr_left fun c hc =>
        latinLower_eq (.inr (hascii _ h _ (List.mem_map_of_mem hc)))
    rwa [hsame]

theorem essence_iff {P : Platform} (hcase : ByteCase P) {value : Text}
    (hbytes : ∀ c ∈ value, c.toNat ≤ 0xFF) :
    safeContentTypes.contains (essence P value) = true ↔ ∃ front type back,
      TypeBetween front type back value ∧ ∀ c ∈ front ++ back, isWhite c = true := by
  have hnames : safeContentTypes = FetchStandard.formTypes := rfl
  have htrim : ∀ t : Text, trim t = FetchStandard.strip isWhite t := fun _ => rfl
  have hcut : ∀ c ∈ value.takeWhile (fun c => c ≠ 0x3B), c.toNat ≤ 0xFF := fun c hc =>
    hbytes c ((List.takeWhile_prefix _).subset hc)
  obtain ⟨w, w', hw, hw', hsplit⟩ := FetchStandard.exists_append_strip isWhite
    (value.takeWhile fun c => c ≠ 0x3B)
  have hinside : ∀ c ∈ FetchStandard.strip isWhite (value.takeWhile fun c => c ≠ 0x3B),
      c.toNat ≤ 0xFF := by
    intro c hc
    apply hcut
    rw [hsplit]
    exact List.mem_append_left _ (List.mem_append_right _ hc)
  rw [essence, cutAt_fst, htrim, hcase.lower _ hinside, List.contains_iff_mem, hnames,
    map_latinLower_mem_iff]
  constructor
  · intro h
    refine ⟨w, _, w', ⟨hsplit, h⟩, fun c hc => ?_⟩
    rcases List.mem_append.mp hc with hc | hc
    · exact hw c hc
    · exact hw' c hc
  · rintro ⟨front, type, back, ⟨hbetween, htype⟩, hwhite⟩
    obtain ⟨hne, hends⟩ := ends_of_formType htype
    rw [hbetween, FetchStandard.strip_append (fun c hc => hwhite c (List.mem_append_left _ hc))
      (fun c hc => hwhite c (List.mem_append_right _ hc)) hne hends]
    exact htype

theorem mimeEssence_iff {value : Text} :
    (FetchStandard.mimeEssence (FetchStandard.normalize value)).any
        FetchStandard.formTypes.contains = true ↔
      ∃ front type back, TypeBetween front type back value ∧
        ∀ c ∈ front ++ back, FetchStandard.isHttpWhite c = true := by
  have hsame : FetchStandard.mimeEssence (FetchStandard.normalize value) =
      FetchStandard.mimeEssence value := by
    rw [FetchStandard.mimeEssence, FetchStandard.mimeEssence, FetchStandard.normalize,
      FetchStandard.strip_strip]
  rw [hsame, Option.any_eq_true]
  constructor
  · rintro ⟨e, he, hform⟩
    obtain ⟨front, type, subtype, back, hnames, rfl, hvalue⟩ :=
      FetchStandard.mimeEssence_eq_some_iff.mp he
    refine ⟨front, type ++ 0x2F :: subtype, back, ⟨hvalue, ?_⟩, fun c hc => ?_⟩
    · rw [List.map_append, List.map_cons, asciiLower_eq_byteLower]
      exact List.contains_iff_mem.mp hform
    · rcases List.mem_append.mp hc with hc | hc
      · exact hnames.front c hc
      · exact hnames.back c hc
  · rintro ⟨front, t, back, ⟨hvalue, hform⟩, hwhite⟩
    obtain ⟨type, subtype, rfl, htype, hsubtype, htokens, htokens'⟩ := exists_of_formType hform
    refine ⟨type.map asciiLower ++ 0x2F :: subtype.map asciiLower,
      FetchStandard.mimeEssence_eq_some_iff.mpr ⟨front, type, subtype, back, ?_, rfl, hvalue⟩, ?_⟩
    · exact
        { front := fun c hc => hwhite c (List.mem_append_left _ hc)
          type := ⟨htype, htokens⟩
          subtype := ⟨hsubtype, htokens'⟩
          back := fun c hc => hwhite c (List.mem_append_right _ hc) }
    · rw [List.map_append, List.map_cons] at hform
      exact List.contains_iff_mem.mpr hform

/-- White space stands around a type of a form in one way. -/
theorem white_of_typeBetween {front type back front' type' back' value : Text}
    (h : TypeBetween front type back value) (h' : TypeBetween front' type' back' value)
    (hwhite : ∀ c ∈ front ++ back, isWhite c = true)
    (hwhite' : ∀ c ∈ front' ++ back', isWhite c = true) : front = front' ∧ back = back' := by
  have hcut : ∀ {front type back : Text}, TypeBetween front type back value →
      (∀ c ∈ front ++ back, isWhite c = true) →
      front = (value.takeWhile fun c => c ≠ 0x3B).takeWhile isWhite ∧
        type = FetchStandard.strip isWhite (value.takeWhile fun c => c ≠ 0x3B) := by
    rintro front type back ⟨hbetween, htype⟩ hwhite
    have hfront := fun c hc => hwhite c (List.mem_append_left back hc)
    obtain ⟨hne, hends⟩ := ends_of_formType htype
    constructor
    · obtain ⟨c, rest, rfl⟩ := List.exists_cons_of_ne_nil hne
      rw [hbetween, List.append_assoc, List.cons_append]
      exact (FetchStandard.takeWhile_append_cons _ hfront
        (hends c List.mem_cons_self (.inl rfl))).1.symm
    · rw [hbetween]
      exact (FetchStandard.strip_append hfront
        (fun c hc => hwhite c (List.mem_append_right front hc)) hne hends).symm
  obtain ⟨hfront, htype⟩ := hcut h hwhite
  obtain ⟨hfront', htype'⟩ := hcut h' hwhite'
  have hsame : front = front' := hfront.trans hfront'.symm
  refine ⟨hsame, ?_⟩
  have hboth := h.1.symm.trans h'.1
  rw [hsame, htype.trans htype'.symm] at hboth
  exact List.append_cancel_left hboth

theorem isSimpleRange_iff {value : Text} :
    isSimpleRange value = true ↔ ∃ first last, RangeOf first last value := by
  have hdigit : isDigitUnit = FetchStandard.isDigit := funext fun c => (isDigit_eq c).symm
  rw [isSimpleRange, hdigit, Bool.and_eq_true]
  constructor
  · rintro ⟨hbytes, h⟩
    obtain ⟨range, rfl⟩ := List.isPrefixOf_iff_prefix.mp hbytes
    have hdrop : (units "bytes=" ++ range).drop 6 = range := rfl
    rw [hdrop, Bool.and_eq_true, decide_eq_true_eq] at h
    have hsplit := List.takeWhile_append_dropWhile (p := FetchStandard.isDigit) (l := range)
    cases hrest : range.dropWhile FetchStandard.isDigit with
    | nil =>
        rw [hrest] at h
        exact absurd h.2 (by decide)
    | cons dash rest =>
        rw [hrest, Bool.and_eq_true, decide_eq_true_eq] at h
        obtain ⟨hne, rfl, hlast⟩ := h
        rw [hrest] at hsplit
        refine ⟨range.takeWhile FetchStandard.isDigit, rest, ?_, hne,
          fun c hc => List.mem_takeWhile_imp hc, List.all_eq_true.mp hlast⟩
        rw [hsplit]
  · rintro ⟨first, last, rfl, hne, hfirst, hlast⟩
    obtain ⟨htake, hdrop⟩ := FetchStandard.takeWhile_append_cons (c := 0x2D) last hfirst
      (by decide)
    have hrange : (units "bytes=" ++ (first ++ 0x2D :: last)).drop 6 = first ++ 0x2D :: last := rfl
    refine ⟨List.isPrefixOf_iff_prefix.mpr (List.prefix_append _ _), ?_⟩
    rw [hrange]
    dsimp only
    rw [htake, hdrop, Bool.and_eq_true, decide_eq_true_eq]
    exact ⟨hne, (Bool.true_and _).trans (List.all_eq_true.mpr hlast)⟩

/-- A range is read in one way, and has no white space at its ends. -/
theorem RangeOf.unique {first last first' last' value : Text} (h : RangeOf first last value)
    (h' : RangeOf first' last' value) : first = first' ∧ last = last' := by
  obtain ⟨rfl, -, hfirst, -⟩ := h
  obtain ⟨heq, -, hfirst', -⟩ := h'
  have hboth := List.append_cancel_left heq
  have hcut := FetchStandard.takeWhile_append_cons (c := 0x2D) last hfirst (by decide)
  have hcut' := FetchStandard.takeWhile_append_cons (c := 0x2D) last' hfirst' (by decide)
  rw [hboth] at hcut
  exact ⟨hcut.1.symm.trans hcut'.1, (List.cons.inj (hcut.2.symm.trans hcut'.2)).2⟩

theorem RangeOf.normalized {first last value : Text} (h : RangeOf first last value) :
    FetchStandard.normalize value = value := by
  obtain ⟨rfl, -, -, hlast⟩ := h
  have hdigit : ∀ c, FetchStandard.isDigit c = true → FetchStandard.isHttpWhite c = false := by
    intro c hc
    rw [Bool.eq_false_iff]
    intro hwhite
    have hcases : ∀ d ∈ ([0x09, 0x0A, 0x0D, 0x20] : Text),
        FetchStandard.isDigit d = false := by decide
    rw [hcases c (exists_of_isHttpWhite.mp hwhite)] at hc
    cases hc
  have hnone : ∀ c ∈ ([] : Text), FetchStandard.isHttpWhite c = true :=
    fun c hc => absurd hc List.not_mem_nil
  have hstrip := FetchStandard.strip_append (p := FetchStandard.isHttpWhite)
    (x := units "bytes=" ++ (first ++ 0x2D :: last)) hnone hnone
    (List.append_ne_nil_of_left_ne_nil (by decide) _)
  rw [List.nil_append, List.append_nil] at hstrip
  apply hstrip
  rintro c - (hc | hc)
  · have hhead : (units "bytes=" ++ (first ++ 0x2D :: last)).head? = some 0x62 := rfl
    rw [hhead] at hc
    cases hc
    decide
  · rw [← List.append_assoc, List.getLast?_append_of_ne_nil _ (List.cons_ne_nil _ _)] at hc
    cases last with
    | nil =>
        cases hc
        decide
    | cons d last =>
        rw [List.getLast?_cons_of_ne_nil (List.cons_ne_nil _ _)] at hc
        exact hdigit c (hlast c (List.mem_of_getLast? hc))

/-! ## Each header -/

/-- A header is judged rightly, or it is of one of the two kinds; one that is missed
is not safelisted. -/
structure Judged (P : Platform) (header : Text × Text) : Prop where
  read : (unsafeHeader P header.1 header.2).isNone = true ↔
    (isSafe header = true ∧ ¬ Overcalled header) ∨ Missed header
  missed : Missed header → isSafe header = false

section Judging

variable {P : Platform} {header : Text × Text}

theorem named_ne {a b : String} (h : Named a header) (hne : units a ≠ units b) : ¬ Named b header :=
  fun h' => hne (h.symm.trans h')

theorem unreadable_iff (value : Text) :
    (value.any isUnsafeByte || decide (128 < byteLength value)) = false ↔
      (value.all fun c => !isUnsafeByte c) = true ∧ byteLength value ≤ 128 := by
  rw [Bool.or_eq_false_iff, decide_eq_false_iff_not, Nat.not_lt, List.any_eq_false,
    List.all_eq_true]
  simp only [Bool.not_eq_true, Bool.not_eq_true']

theorem safe_unread_iff (value : Text) :
    ((value.all fun c => !isUnsafeByte c) = true ∧ byteLength value ≤ 128) ↔
      ((FetchStandard.normalize value).length ≤ 128 ∧
        ((FetchStandard.normalize value).all fun c => !isUnsafeByte c) = true) ∧
      ¬ ((∃ c ∈ value, c = 0x0A ∨ c = 0x0D) ∨ 128 < byteLength value) := by
  have hlength := length_normalize_le value
  rw [all_iff_normalize]
  simp only [unsafeWhite_iff, not_or, Nat.not_lt]
  constructor
  · rintro ⟨⟨hinside, hnone⟩, hcap⟩
    exact ⟨⟨hlength.trans hcap, hinside⟩, hnone, hcap⟩
  · rintro ⟨⟨-, hinside⟩, hnone, hcap⟩
    exact ⟨⟨hinside, hnone⟩, hcap⟩

theorem isSafe_eq (header : Text × Text) : isSafe header =
    (decide ((FetchStandard.normalize header.2).length ≤ 128) &&
      if header.1.map asciiLower = units "accept" then
        (FetchStandard.normalize header.2).all fun c => !isUnsafeByte c
      else if header.1.map asciiLower = units "accept-language" ∨
          header.1.map asciiLower = units "content-language" then
        (FetchStandard.normalize header.2).all isLanguageUnit
      else if header.1.map asciiLower = units "content-type" then
        ((FetchStandard.normalize header.2).all fun c => !isUnsafeByte c) &&
          (FetchStandard.mimeEssence (FetchStandard.normalize header.2)).any
            FetchStandard.formTypes.contains
      else if header.1.map asciiLower = units "range" then
        (FetchStandard.singleRange (FetchStandard.normalize header.2)).any fun range =>
          range.1.isSome
      else false) := by
  have hunsafe : FetchStandard.isUnsafe = isUnsafeByte := funext isUnsafe_eq
  have hlanguage : FetchStandard.isLanguageByte = isLanguageUnit := funext isLanguageByte_eq
  rw [isSafe, FetchStandard.isSafelisted, hunsafe, hlanguage]
  rfl

theorem judged_accept (hcase : ByteCase P) (h : Taken header) (hname : Named "accept" header) :
    Judged P header := by
  have hmissed : ¬ Missed header := by
    rintro (⟨hother, -⟩ | ⟨hother, -⟩)
    · exact named_ne hname (by decide) hother
    · exact named_ne hname (by decide) hother
  have hsafe : isSafe header = true ↔ (FetchStandard.normalize header.2).length ≤ 128 ∧
      ((FetchStandard.normalize header.2).all fun c => !isUnsafeByte c) = true := by
    rw [isSafe_eq, if_pos hname, Bool.and_eq_true, decide_eq_true_eq]
  have hover : Overcalled header ↔ isSafe header = true ∧
      ((∃ c ∈ header.2, c = 0x0A ∨ c = 0x0D) ∨ 128 < byteLength header.2) := by
    refine and_congr_right fun _ => ?_
    constructor
    · rintro (⟨hother, -⟩ | ⟨-, hvalue⟩ | ⟨hother | hother, -⟩)
      · exact absurd hother (named_ne hname (by decide))
      · exact hvalue
      · exact absurd hother (named_ne hname (by decide))
      · exact absurd hother (named_ne hname (by decide))
    · exact fun hvalue => .inr (.inl ⟨.inl hname, hvalue⟩)
  have hread : (unsafeHeader P header.1 header.2).isNone = true ↔
      (header.2.any isUnsafeByte || decide (128 < byteLength header.2)) = false := by
    rw [unsafeHeader, h.lower_name hcase, if_pos hname]
    split_ifs with hbad
    · constructor
      · intro hnone
        cases hnone
      · intro hclean
        exact absurd (hbad.symm.trans hclean) (by decide)
    · exact ⟨fun _ => Bool.eq_false_iff.mpr hbad, fun _ => rfl⟩
  refine ⟨?_, fun hm => absurd hm hmissed⟩
  rw [hread, unreadable_iff, safe_unread_iff, hover, hsafe, or_iff_left hmissed, not_and]
  exact ⟨fun ⟨hs, ho⟩ => ⟨hs, fun _ => ho⟩, fun ⟨hs, ho⟩ => ⟨hs, ho hs⟩⟩

theorem judged_language (hcase : ByteCase P) (h : Taken header)
    (hname : Named "accept-language" header ∨ Named "content-language" header) :
    Judged P header := by
  -- The two names of a language differ from all others the standard knows.
  have hne : ∀ {name : String}, units "accept-language" ≠ units name →
      units "content-language" ≠ units name → ¬ Named name header := by
    intro name hfirst hsecond
    rcases hname with hname | hname
    · exact named_ne hname hfirst
    · exact named_ne hname hsecond
  have hmissed : ¬ Missed header := by
    rintro (⟨hother, -⟩ | ⟨hother, -⟩)
    · exact hne (by decide) (by decide) hother
    · exact hne (by decide) (by decide) hother
  have hsafe : isSafe header = true ↔ (FetchStandard.normalize header.2).length ≤ 128 ∧
      (FetchStandard.normalize header.2).all isLanguageUnit = true := by
    rw [isSafe_eq, if_neg (hne (by decide) (by decide)), if_pos hname, Bool.and_eq_true,
      decide_eq_true_eq]
  have hover : Overcalled header ↔ isSafe header = true ∧
      ((∃ c ∈ header.2, c = 0x09 ∨ c = 0x0A ∨ c = 0x0D) ∨ 128 < byteLength header.2) := by
    refine and_congr_right fun _ => ?_
    constructor
    · rintro (⟨hother, -⟩ | ⟨hother | hother, -⟩ | ⟨-, hvalue⟩)
      · exact absurd hother (hne (by decide) (by decide))
      · exact absurd hother (hne (by decide) (by decide))
      · exact absurd hother (hne (by decide) (by decide))
      · exact hvalue
    · exact fun hvalue => .inr (.inr ⟨hname, hvalue⟩)
  -- The code looks at the value as it is written, the standard at what is left without white space.
  have hread : (unsafeHeader P header.1 header.2).isNone = true ↔
      header.2.all isLanguageUnit = true ∧ byteLength header.2 ≤ 128 := by
    rw [unsafeHeader, h.lower_name hcase, if_neg (hne (by decide) (by decide)), if_pos hname,
      ← Nat.not_lt]
    cases header.2.all isLanguageUnit <;> by_cases hcap : 128 < byteLength header.2 <;> simp [hcap]
  refine ⟨?_, fun hm => absurd hm hmissed⟩
  have hlength := length_normalize_le header.2
  rw [hread, all_iff_normalize, hover, hsafe, or_iff_left hmissed]
  simp only [languageWhite_iff, not_and, not_or, Nat.not_lt]
  constructor
  · rintro ⟨⟨hinside, hnone⟩, hcap⟩
    exact ⟨⟨hlength.trans hcap, hinside⟩, fun _ => ⟨hnone, hcap⟩⟩
  · rintro ⟨hs, ho⟩
    exact ⟨⟨hs.2, (ho hs).1⟩, (ho hs).2⟩

theorem judged_contentType (hcase : ByteCase P) (h : Taken header)
    (hname : Named "content-type" header) : Judged P header := by
  have hsafe : isSafe header = true ↔ ((FetchStandard.normalize header.2).length ≤ 128 ∧
      ((FetchStandard.normalize header.2).all fun c => !isUnsafeByte c) = true) ∧
      ∃ front type back, TypeBetween front type back header.2 ∧
        ∀ c ∈ front ++ back, FetchStandard.isHttpWhite c = true := by
    rw [isSafe_eq, if_neg (named_ne hname (by decide)),
      if_neg (not_or.mpr ⟨named_ne hname (by decide), named_ne hname (by decide)⟩), if_pos hname,
      Bool.and_eq_true, Bool.and_eq_true, decide_eq_true_eq, mimeEssence_iff, and_assoc]
  have hmissed : Missed header ↔
      ((header.2.all fun c => !isUnsafeByte c) = true ∧ byteLength header.2 ≤ 128) ∧
      ∃ front type back, TypeBetween front type back header.2 ∧
        (∀ c ∈ front ++ back, c = 0x09 ∨ c = 0x20 ∨ c = noBreakSpace) ∧
        noBreakSpace ∈ front ++ back := by
    have hany : header.2.any isUnsafeByte = false ↔
        (header.2.all fun c => !isUnsafeByte c) = true := by
      rw [List.any_eq_false, List.all_eq_true]
      simp only [Bool.not_eq_true, Bool.not_eq_true']
    rw [← hany, and_assoc]
    constructor
    · rintro (⟨hother, -⟩ | ⟨-, hvalue⟩)
      · exact absurd hother (named_ne hname (by decide))
      · exact hvalue
    · exact fun hvalue => .inr ⟨hname, hvalue⟩
  have hover : Overcalled header ↔ isSafe header = true ∧
      ((∃ c ∈ header.2, c = 0x0A ∨ c = 0x0D) ∨ 128 < byteLength header.2) := by
    refine and_congr_right fun _ => ?_
    constructor
    · rintro (⟨hother, -⟩ | ⟨-, hvalue⟩ | ⟨hother | hother, -⟩)
      · exact absurd hother (named_ne hname (by decide))
      · exact hvalue
      · exact absurd hother (named_ne hname (by decide))
      · exact absurd hother (named_ne hname (by decide))
    · exact fun hvalue => .inr (.inl ⟨.inr hname, hvalue⟩)
  have hread : (unsafeHeader P header.1 header.2).isNone = true ↔
      ((header.2.all fun c => !isUnsafeByte c) = true ∧ byteLength header.2 ≤ 128) ∧
      ∃ front type back, TypeBetween front type back header.2 ∧
        ∀ c ∈ front ++ back, isWhite c = true := by
    rw [unsafeHeader, h.lower_name hcase, if_neg (named_ne hname (by decide)),
      if_neg (not_or.mpr ⟨named_ne hname (by decide), named_ne hname (by decide)⟩), if_pos hname,
      ← essence_iff hcase h.value, ← unreadable_iff]
    cases (header.2.any isUnsafeByte || decide (128 < byteLength header.2)) <;>
      cases safeContentTypes.contains (essence P header.2) <;> simp
  have hspace : ∀ c : CodeUnit, c = 0x09 ∨ c = 0x20 ∨ c = noBreakSpace → isWhite c = true := by
    rintro c (rfl | rfl | rfl) <;> decide
  have hhttp : ∀ c, FetchStandard.isHttpWhite c = true → isWhite c = true := by
    intro c hc
    have hcases : ∀ d ∈ ([0x09, 0x0A, 0x0D, 0x20] : Text), isWhite d = true := by decide
    exact hcases c (exists_of_isHttpWhite.mp hc)
  refine ⟨?_, fun hm => ?_⟩
  · rw [hread, hover]
    constructor
    · rintro ⟨hvalue, front, type, back, hbetween, hwhite⟩
      by_cases hall : ∀ c ∈ front ++ back, FetchStandard.isHttpWhite c = true
      · obtain ⟨hinside, hplain⟩ := (safe_unread_iff header.2).mp hvalue
        exact .inl ⟨hsafe.mpr ⟨hinside, front, type, back, hbetween, hall⟩, fun ho => hplain ho.2⟩
      · -- white space of the language that is no white space of HTTP is a no-break space
        have hthere : ∀ c ∈ front ++ back, c ∈ header.2 := by
          intro c hc
          apply (List.takeWhile_prefix fun c => decide (c ≠ 0x3B)).subset
          rw [hbetween.1]
          rcases List.mem_append.mp hc with hc | hc
          · exact List.mem_append_left _ (List.mem_append_left _ hc)
          · exact List.mem_append_right _ hc
        have hkind : ∀ c ∈ front ++ back, c = 0x09 ∨ c = 0x20 ∨ c = noBreakSpace := by
          intro c hc
          have hcases : ∀ d ∈ whiteSpace, d.toNat ≤ 0xFF → (!isUnsafeByte d) = true →
              d = 0x09 ∨ d = 0x20 ∨ d = noBreakSpace := by decide
          exact hcases c (List.contains_iff_mem.mp (hwhite c hc)) (h.value c (hthere c hc))
            (List.all_eq_true.mp hvalue.1 c (hthere c hc))
        refine .inr (hmissed.mpr ⟨hvalue, front, type, back, hbetween, hkind, ?_⟩)
        by_contra hnone
        apply hall
        intro c hc
        rcases hkind c hc with rfl | rfl | rfl
        · decide
        · decide
        · exact absurd hc hnone
    · rintro (⟨hs, ho⟩ | hm)
      · obtain ⟨hinside, front, type, back, hbetween, hwhite⟩ := hsafe.mp hs
        exact ⟨(safe_unread_iff header.2).mpr ⟨hinside, fun hbad => ho ⟨hs, hbad⟩⟩,
          front, type, back, hbetween, fun c hc => hhttp c (hwhite c hc)⟩
      · obtain ⟨hvalue, front, type, back, hbetween, hkind, -⟩ := hmissed.mp hm
        exact ⟨hvalue, front, type, back, hbetween, fun c hc => hspace c (hkind c hc)⟩
  · rw [Bool.eq_false_iff]
    intro hs
    obtain ⟨-, front, type, back, hbetween, hwhite⟩ := hsafe.mp hs
    obtain ⟨-, front', type', back', hbetween', hkind, hmem⟩ := hmissed.mp hm
    obtain ⟨rfl, rfl⟩ := white_of_typeBetween hbetween hbetween'
      (fun c hc => hhttp c (hwhite c hc)) (fun c hc => hspace c (hkind c hc))
    exact absurd (hwhite _ hmem) (by decide)

theorem judged_range (hcase : ByteCase P) (h : Taken header) (hname : Named "range" header) :
    Judged P header := by
  have hsafe : isSafe header = true ↔ (FetchStandard.normalize header.2).length ≤ 128 ∧
      ∃ first last, RangeOf first last (FetchStandard.normalize header.2) ∧
        (last = [] ∨ FetchStandard.decimalValue first ≤ FetchStandard.decimalValue last) := by
    rw [isSafe_eq, if_neg (named_ne hname (by decide)),
      if_neg (not_or.mpr ⟨named_ne hname (by decide), named_ne hname (by decide)⟩),
      if_neg (named_ne hname (by decide)), if_pos hname, Bool.and_eq_true, decide_eq_true_eq,
      FetchStandard.singleRange_isSome_iff]
    simp only [RangeOf, and_assoc]
  have hmissed : Missed header ↔ ∃ first last, RangeOf first last header.2 ∧
      ((last ≠ [] ∧ FetchStandard.decimalValue last < FetchStandard.decimalValue first) ∨
        128 < header.2.length) := by
    constructor
    · rintro (⟨-, hvalue⟩ | ⟨hother, -⟩)
      · exact hvalue
      · exact absurd hother (named_ne hname (by decide))
    · exact fun hvalue => .inl ⟨hname, hvalue⟩
  have hover : Overcalled header ↔
      isSafe header = true ∧ FetchStandard.normalize header.2 ≠ header.2 := by
    refine and_congr_right fun _ => ?_
    constructor
    · rintro (⟨-, hvalue⟩ | ⟨hother | hother, -⟩ | ⟨hother | hother, -⟩)
      · exact hvalue
      · exact absurd hother (named_ne hname (by decide))
      · exact absurd hother (named_ne hname (by decide))
      · exact absurd hother (named_ne hname (by decide))
      · exact absurd hother (named_ne hname (by decide))
    · exact fun hvalue => .inl ⟨hname, hvalue⟩
  have hread : (unsafeHeader P header.1 header.2).isNone = true ↔
      ∃ first last, RangeOf first last header.2 := by
    rw [unsafeHeader, h.lower_name hcase, if_neg (named_ne hname (by decide)),
      if_neg (not_or.mpr ⟨named_ne hname (by decide), named_ne hname (by decide)⟩),
      if_neg (named_ne hname (by decide)), if_pos hname, ← isSimpleRange_iff]
    cases isSimpleRange header.2 <;> simp
  refine ⟨?_, fun hm => ?_⟩
  · rw [hread, hover]
    constructor
    · rintro ⟨first, last, hrange⟩
      have hsame := hrange.normalized
      -- The standard refuses a range that ends before it starts, and a long one; the code takes
      -- both.
      by_cases hbad : (last ≠ [] ∧
          FetchStandard.decimalValue last < FetchStandard.decimalValue first) ∨
            128 < header.2.length
      · exact .inr (hmissed.mpr ⟨first, last, hrange, hbad⟩)
      · refine .inl ⟨hsafe.mpr ?_, fun ho => ho.2 hsame⟩
        rw [hsame]
        rw [not_or, not_and, Nat.not_lt, Nat.not_lt] at hbad
        refine ⟨hbad.2, first, last, hrange, ?_⟩
        by_cases hlast : last = []
        · exact .inl hlast
        · exact .inr (hbad.1 hlast)
    · rintro (⟨hs, ho⟩ | hm)
      · obtain ⟨-, first, last, hrange, -⟩ := hsafe.mp hs
        have hsame : FetchStandard.normalize header.2 = header.2 := by
          by_contra hne
          exact ho ⟨hs, hne⟩
        rw [hsame] at hrange
        exact ⟨first, last, hrange⟩
      · obtain ⟨first, last, hrange, -⟩ := hmissed.mp hm
        exact ⟨first, last, hrange⟩
  · rw [Bool.eq_false_iff]
    intro hs
    obtain ⟨first, last, hrange, hbad⟩ := hmissed.mp hm
    obtain ⟨hlength, first', last', hrange', horder⟩ := hsafe.mp hs
    rw [hrange.normalized] at hlength hrange'
    -- A text is a range in one way, so both read the same two numbers.
    obtain ⟨rfl, rfl⟩ := hrange.unique hrange'
    rcases hbad with ⟨hne, hlt⟩ | hlong
    · rcases horder with hnil | hle
      · exact hne hnil
      · omega
    · omega

theorem judged_other (hcase : ByteCase P) (h : Taken header)
    (hnames : ∀ name ∈ ["accept", "accept-language", "content-language", "content-type", "range"],
      ¬ Named name header) : Judged P header := by
  have haccept := hnames "accept" (by decide)
  have hlanguages := hnames "accept-language" (by decide)
  have hlanguagec := hnames "content-language" (by decide)
  have htype := hnames "content-type" (by decide)
  have hrange := hnames "range" (by decide)
  have hmissed : ¬ Missed header := by
    rintro (⟨hother, -⟩ | ⟨hother, -⟩)
    · exact hrange hother
    · exact htype hother
  have hsafe : isSafe header = false := by
    rw [isSafe_eq, if_neg haccept, if_neg (not_or.mpr ⟨hlanguages, hlanguagec⟩), if_neg htype,
      if_neg hrange, Bool.and_false]
  refine ⟨?_, fun hm => absurd hm hmissed⟩
  rw [unsafeHeader, h.lower_name hcase, if_neg haccept,
    if_neg (not_or.mpr ⟨hlanguages, hlanguagec⟩), if_neg htype, if_neg hrange, hsafe]
  constructor
  · intro hnone
    cases hnone
  · rintro (⟨hs, -⟩ | hm)
    · cases hs
    · exact absurd hm hmissed

theorem judged (hcase : ByteCase P) (h : Taken header) : Judged P header := by
  by_cases haccept : Named "accept" header
  · exact judged_accept hcase h haccept
  by_cases hlanguage : Named "accept-language" header ∨ Named "content-language" header
  · exact judged_language hcase h hlanguage
  by_cases htype : Named "content-type" header
  · exact judged_contentType hcase h htype
  by_cases hrange : Named "range" header
  · exact judged_range hcase h hrange
  · apply judged_other hcase h
    intro name hname
    rw [not_or] at hlanguage
    simp only [List.mem_cons, List.not_mem_nil, or_false] at hname
    rcases hname with rfl | rfl | rfl | rfl | rfl
    · exact haccept
    · exact hlanguage.1
    · exact hlanguage.2
    · exact htype
    · exact hrange

end Judging

/-! ## The whole statement -/

/-- The names a page's `Headers` refuse. -/
def refusedNames (headers : List (Text × Text)) : List Text :=
  (headers.filter isRefused).map Prod.fst

/-- The headers that are left. -/
def settableHeaders (headers : List (Text × Text)) : List (Text × Text) :=
  headers.filter fun header => !isRefused header

/-- The bytes of the values, as fetch counts them and as the app does. -/
def heldBytes (headers : List (Text × Text)) : Nat :=
  (headers.map fun header => (FetchStandard.normalize header.2).length).sum

def utf8Count (headers : List (Text × Text)) : Nat :=
  (headers.map fun header => byteLength header.2).sum

/-- Where the app's patterns and the standard come to the same. No override of the method is
odd; and where a preflight is a question of the headers, one of them needs it whichever way
it is read, or one is missed exactly when one is overcalled, or all are when their values
are written as UTF-8. -/
def ReadAlike (request : LimitsRequest) (origin : Text) (target : UrlRecord) : Prop :=
  (∀ header ∈ request.headers, ¬ OddOverride header) ∧
    (target.origin ≠ origin → FetchStandard.isSafelistedMethod request.method = true →
      let kept := settableHeaders request.headers
      ((∃ header ∈ kept, isSafe header = false ∧ ¬ Missed header) ∨ 1024 < heldBytes kept) ∨
        ((∃ header ∈ kept, Missed header) ↔
          (∃ header ∈ kept, Overcalled header) ∨ 1024 < utf8Count kept))

theorem safelistedBytes_of_safe {P : Platform} {headers : List (Text × Text)}
    (h : ∀ header ∈ headers, (unsafeHeader P header.1 header.2).isNone = true) :
    safelistedBytes P headers = utf8Count headers := by
  rw [safelistedBytes, List.filter_eq_self.mpr h, utf8Count]

/-- No reason for a preflight is given where the method is plain, every header is read as safelisted
and they are not too long together. -/
theorem preflightReasons_eq_nil_iff {P : Platform} {method : Text} {headers : List (Text × Text)} :
    preflightReasons P method headers = [] ↔ plainMethods.contains method = true ∧
      (∀ header ∈ headers, (unsafeHeader P header.1 header.2).isNone = true) ∧
      utf8Count headers ≤ 1024 := by
  rw [preflightReasons, List.append_eq_nil_iff, List.append_eq_nil_iff, List.filterMap_eq_nil_iff,
    and_assoc]
  refine and_congr ?_ ?_
  · split_ifs with hplain
    · exact ⟨fun _ => hplain, fun _ => rfl⟩
    · exact ⟨fun h => h.elim, fun h => absurd h hplain⟩
  · have hnone : (∀ header ∈ headers, unsafeHeader P header.1 header.2 = none) ↔
        ∀ header ∈ headers, (unsafeHeader P header.1 header.2).isNone = true := by
      simp only [Option.isNone_iff_eq_none]
    rw [hnone]
    refine and_congr_right fun hsafe => ?_
    rw [safelistedBytes_of_safe hsafe]
    split_ifs with hlong
    · exact ⟨fun h => h.elim, fun h => absurd hlong (Nat.not_lt.mpr h)⟩
    · exact ⟨fun _ => Nat.not_lt.mp hlong, fun _ => rfl⟩

theorem preflightNames_eq_nil_iff {headers : List (Text × Text)} :
    FetchStandard.preflightNames headers = [] ↔
      (∀ header ∈ headers, FetchStandard.isSafelisted header.1 header.2 = true) ∧
      (headers.map fun header => header.2.length).sum ≤ 1024 := by
  have hsafe : headers.filter (fun header => !FetchStandard.isSafelisted header.1 header.2) = [] ↔
      ∀ header ∈ headers, FetchStandard.isSafelisted header.1 header.2 = true := by
    simp only [List.filter_eq_nil_iff, Bool.not_eq_true', Bool.not_eq_false]
  rw [FetchStandard.preflightNames, List.append_eq_nil_iff, List.map_eq_nil_iff, hsafe]
  refine and_congr_right fun hall => ?_
  rw [List.filter_eq_self.mpr hall]
  split_ifs with hlong
  · constructor
    · intro hnil
      rw [List.map_eq_nil_iff.mp hnil] at hlong ⊢
      exact Nat.zero_le _
    · exact fun h => absurd hlong (Nat.not_lt.mpr h)
  · exact ⟨fun _ => Nat.not_lt.mp hlong, fun _ => rfl⟩

theorem map_asciiLower_eq_iff {s t : Text} :
    s.map asciiLower = t.map asciiLower ↔ s.map asciiUpper = t.map asciiUpper := by
  induction s generalizing t with
  | nil =>
      cases t with
      | nil => exact Iff.rfl
      | cons d t => exact ⟨fun h => (nomatch h), fun h => (nomatch h)⟩
  | cons c s ih =>
      cases t with
      | nil => exact ⟨fun h => (nomatch h), fun h => (nomatch h)⟩
      | cons d t =>
          rw [List.map_cons, List.map_cons, List.map_cons, List.map_cons, List.cons.injEq,
            List.cons.injEq, asciiLower_eq_iff, ih]

theorem isSafelistedMethod_eq {P : Platform} (hcase : ByteCase P) {method : Text}
    (hmethod : ∀ c ∈ method, FetchStandard.isTokenByte c = true) :
    FetchStandard.isSafelistedMethod method = plainMethods.contains (P.toUpperCase method) := by
  have hplain : ∀ n ∈ plainMethods, n.map asciiUpper = n ∧
      n ∈ ["DELETE", "GET", "HEAD", "OPTIONS", "POST", "PUT"].map units := by decide
  have hone : ∀ m ∈ ["DELETE", "GET", "HEAD", "OPTIONS", "POST", "PUT"].map units,
      ∀ n ∈ plainMethods, FetchStandard.sameName n m = true → m = n := by decide
  have hupper : plainMethods.contains (P.toUpperCase method) = true ↔
      ∃ n ∈ plainMethods, FetchStandard.sameName method n = true := by
    rw [hcase.upper method fun c hc => toNat_of_isTokenByte (hmethod c hc), List.contains_iff_mem]
    constructor
    · intro hmem
      refine ⟨_, hmem, decide_eq_true ?_⟩
      exact map_asciiLower_eq_iff.mpr (hplain _ hmem).1.symm
    · rintro ⟨n, hn, hsame⟩
      have hletters := map_asciiLower_eq_iff.mp (of_decide_eq_true hsame)
      rwa [hletters, (hplain n hn).1]
  rw [Bool.eq_iff_iff, hupper, FetchStandard.isSafelistedMethod, FetchStandard.normalizeMethod,
    List.contains_iff_mem]
  cases hfound : (["DELETE", "GET", "HEAD", "OPTIONS", "POST", "PUT"].map units).find?
      (FetchStandard.sameName method) with
  | some m =>
      have hsame := List.find?_some hfound
      constructor
      · intro hmem
        exact ⟨m, hmem, hsame⟩
      · rintro ⟨n, hn, hother⟩
        have hletters : FetchStandard.sameName n m = true :=
          decide_eq_true ((of_decide_eq_true hother).symm.trans (of_decide_eq_true hsame))
        rw [Option.getD_some, hone m (List.mem_of_find?_eq_some hfound) n hn hletters]
        exact hn
  | none =>
      rw [List.find?_eq_none] at hfound
      constructor
      · intro hmem
        exact absurd (decide_eq_true rfl) (hfound method (hplain method hmem).2)
      · rintro ⟨n, hn, hsame⟩
        exact absurd hsame (hfound n (hplain n hn).2)

/-- The headers kept, as the standard lists them. -/
theorem guarded_eq (headers : List (Text × Text)) :
    FetchStandard.guarded headers =
      (settableHeaders headers).map fun header => (header.1, FetchStandard.normalize header.2) := by
  rw [FetchStandard.guarded, List.filter_map, settableHeaders]
  rfl

/-- Two tests, one of which passes more, leave the same names exactly where they pass the same. -/
theorem map_filter_eq_iff {headers : List (Text × Text)} {wide narrow : Text × Text → Bool}
    (h : ∀ header ∈ headers, narrow header = true → wide header = true) :
    (headers.filter wide).map Prod.fst = (headers.filter narrow).map Prod.fst ↔
      ∀ header ∈ headers, wide header = true → narrow header = true := by
  have hsub : (headers.filter wide).filter narrow = headers.filter narrow := by
    rw [List.filter_filter]
    refine List.filter_congr fun header hmem => ?_
    rw [Bool.and_eq_left_iff_imp]
    exact h header hmem
  constructor
  · intro heq header hmem hwide
    have hlength := congrArg List.length heq
    rw [List.length_map, List.length_map, ← hsub] at hlength
    have hall : headers.filter wide = (headers.filter wide).filter narrow :=
      (List.filter_sublist.eq_of_length hlength.symm).symm
    have hthere : header ∈ (headers.filter wide).filter narrow := by
      rw [← hall]
      exact List.mem_filter.mpr ⟨hmem, hwide⟩
    exact (List.mem_filter.mp hthere).2
  · intro hsame
    rw [List.filter_congr fun header hmem =>
      Bool.eq_iff_iff.mpr ⟨hsame header hmem, h header hmem⟩]

/-- An odd override is not refused. -/
theorem not_refused_of_odd {header : Text × Text} (h : OddOverride header) :
    isRefused header = false := by
  obtain ⟨hname, -, hlist⟩ := h
  obtain ⟨name, hmem, hsame⟩ := List.any_eq_true.mp hname
  have hletters : header.1.map FetchStandard.byteLower = name.map FetchStandard.byteLower :=
    of_decide_eq_true hsame
  have hfree : ∀ n ∈ FetchStandard.overrideNames,
      (FetchStandard.forbiddenNames.map fun n => n.map FetchStandard.byteLower).contains
          (n.map FetchStandard.byteLower) = false ∧
        (units "proxy-").isPrefixOf (n.map FetchStandard.byteLower) = false ∧
        (units "sec-").isPrefixOf (n.map FetchStandard.byteLower) = false := by
    decide +kernel
  obtain ⟨hforbidden, hproxy, hsec⟩ := hfree name hmem
  rw [isRefused, FetchStandard.isForbidden, hlist, ← contains_map_byteLower,
    asciiLower_eq_byteLower, hletters, hforbidden, hproxy, hsec, Bool.and_false]
  rfl

theorem heldBytes_le (headers : List (Text × Text)) : heldBytes headers ≤ utf8Count headers := by
  induction headers with
  | nil => exact Nat.le_refl 0
  | cons header headers ih =>
      rw [heldBytes, utf8Count, List.map_cons, List.map_cons, List.sum_cons, List.sum_cons]
      exact Nat.add_le_add (length_normalize_le header.2) ih

theorem guarded_names_iff {headers : List (Text × Text)} :
    FetchStandard.preflightNames (FetchStandard.guarded headers) = [] ↔
      (∀ header ∈ settableHeaders headers, isSafe header = true) ∧
        heldBytes (settableHeaders headers) ≤ 1024 := by
  rw [preflightNames_eq_nil_iff, guarded_eq, List.forall_mem_map, List.map_map]
  rfl

/-- The two answers on the headers, with what each header is read as. -/
theorem headers_readAlike_iff {P : Platform} {kept : List (Text × Text)}
    (hjudged : ∀ header ∈ kept, Judged P header) :
    (((∀ header ∈ kept, (unsafeHeader P header.1 header.2).isNone = true) ∧
        utf8Count kept ≤ 1024) ↔
      ((∀ header ∈ kept, isSafe header = true) ∧ heldBytes kept ≤ 1024)) ↔
    (((∃ header ∈ kept, isSafe header = false ∧ ¬ Missed header) ∨ 1024 < heldBytes kept) ∨
      ((∃ header ∈ kept, Missed header) ↔
        (∃ header ∈ kept, Overcalled header) ∨ 1024 < utf8Count kept)) := by
  have hcounts := heldBytes_le kept
  have hread := fun header hmem => (hjudged header hmem).read
  by_cases hanyway : (∃ header ∈ kept, isSafe header = false ∧ ¬ Missed header) ∨
      1024 < heldBytes kept
  · -- a header that needs a preflight whichever way it is read settles both
    refine iff_of_true ?_ (.inl hanyway)
    rcases hanyway with ⟨header, hmem, hsafe, hmissed⟩ | hlong
    · refine iff_of_false (fun h => ?_) (fun h => ?_)
      · rcases (hread header hmem).mp (h.1 header hmem) with ⟨hs, -⟩ | hm
        · exact absurd (hs.symm.trans hsafe) (by decide)
        · exact hmissed hm
      · exact absurd ((h.1 header hmem).symm.trans hsafe) (by decide)
    · exact iff_of_false (fun h => by omega) (fun h => by omega)
  · rw [or_iff_right hanyway]
    rw [not_or, Nat.not_lt] at hanyway
    obtain ⟨hnone, hheld⟩ := hanyway
    have hcode : ((∀ header ∈ kept, (unsafeHeader P header.1 header.2).isNone = true) ∧
        utf8Count kept ≤ 1024) ↔
        ¬ ((∃ header ∈ kept, Overcalled header) ∨ 1024 < utf8Count kept) := by
      rw [not_or, Nat.not_lt]
      refine and_congr_left fun _ => ?_
      constructor
      · rintro hall ⟨header, hmem, hover⟩
        rcases (hread header hmem).mp (hall header hmem) with ⟨-, ho⟩ | hm
        · exact ho hover
        · exact absurd (hover.1.symm.trans ((hjudged header hmem).missed hm)) (by decide)
      · intro hover header hmem
        apply (hread header hmem).mpr
        cases hsafe : isSafe header with
        | true => exact .inl ⟨rfl, fun ho => hover ⟨header, hmem, ho⟩⟩
        | false =>
            by_contra hm
            exact hnone ⟨header, hmem, hsafe, fun h => hm (.inr h)⟩
    have hstandard : ((∀ header ∈ kept, isSafe header = true) ∧ heldBytes kept ≤ 1024) ↔
        ¬ ∃ header ∈ kept, Missed header := by
      rw [and_iff_left hheld]
      constructor
      · rintro hall ⟨header, hmem, hm⟩
        exact absurd ((hall header hmem).symm.trans ((hjudged header hmem).missed hm)) (by decide)
      · intro hmissed header hmem
        by_contra hsafe
        exact hnone
          ⟨header, hmem, Bool.eq_false_iff.mpr hsafe, fun hm => hmissed ⟨header, hmem, hm⟩⟩
    rw [hcode, hstandard, not_iff_not]
    exact iff_comm

/-- What is said of the headers and of the preflight is what fetch does, exactly where the app's
patterns and the standard come to the same. -/
theorem limits_readAlike_iff {P : Platform} (hcase : ByteCase P) {request : LimitsRequest}
    {origin : Text} {target : UrlRecord} (htarget : P.parseUrl request.url = some target)
    (hmethod : ∀ c ∈ request.method, FetchStandard.isTokenByte c = true)
    (htaken : ∀ header ∈ request.headers, Taken header) :
    ((browserLimits P request origin .direct).dropped = refusedNames request.headers ∧
      ((browserLimits P request origin .direct).preflight = [] ↔
        FetchStandard.sendsPreflight (target.origin = origin) request.method
          (FetchStandard.guarded request.headers) = false)) ↔
      ReadAlike request origin target := by
  have hforbidden := fun header hmem => isForbidden_iff hcase (htaken header hmem)
  have hdropped : (browserLimits P request origin .direct).dropped =
      refusedNames request.headers ↔ ∀ header ∈ request.headers, ¬ OddOverride header := by
    rw [browserLimits, refusedNames]
    refine (map_filter_eq_iff fun header hmem hrefused =>
      (hforbidden header hmem).mpr (.inl hrefused)).trans ?_
    refine forall₂_congr fun header hmem => ?_
    rw [hforbidden header hmem]
    constructor
    · intro h hodd
      exact absurd ((h (.inr hodd)).symm.trans (not_refused_of_odd hodd)) (by decide)
    · rintro hodd (hrefused | h)
      · exact hrefused
      · exact absurd h hodd
  rw [hdropped, ReadAlike]
  refine and_congr_right fun hodd => ?_
  have hsent : (request.headers.filter fun header => !isForbidden P header.1 header.2) =
      settableHeaders request.headers := by
    refine List.filter_congr fun header hmem => ?_
    rw [Bool.not_inj_iff, Bool.eq_iff_iff, hforbidden header hmem, or_iff_left (hodd header hmem)]
  have hpreflight : (browserLimits P request origin .direct).preflight =
      if target.origin ≠ origin then
        preflightReasons P (P.toUpperCase request.method) (settableHeaders request.headers)
      else [] := by
    rw [browserLimits, htarget]
    dsimp only
    rw [hsent, Option.any_some]
    simp only [decide_eq_true_eq]
  have hjudged : ∀ header ∈ settableHeaders request.headers, Judged P header :=
    fun header hmem => judged hcase (htaken header (List.mem_of_mem_filter hmem))
  rw [hpreflight]
  by_cases hsame : target.origin = origin
  · -- a target of the page's own origin needs no preflight
    rw [if_neg (not_not.mpr hsame)]
    refine iff_of_true (iff_of_true rfl ?_) (fun hcross => absurd hsame hcross)
    rw [FetchStandard.sendsPreflight, decide_eq_true hsame]
    rfl
  · rw [if_pos hsame, FetchStandard.sendsPreflight, decide_eq_false hsame,
      preflightReasons_eq_nil_iff, ← isSafelistedMethod_eq hcase hmethod]
    cases hplain : FetchStandard.isSafelistedMethod request.method with
    | false =>
        refine iff_of_true (iff_of_false (fun h => absurd h.1 (by decide)) (fun h => by cases h)) ?_
        exact fun _ h => absurd h (by decide)
    | true =>
        have hnames : (!false && (!true ||
            decide (FetchStandard.preflightNames (FetchStandard.guarded request.headers) ≠ []))) =
              false ↔
            FetchStandard.preflightNames (FetchStandard.guarded request.headers) = [] := by
          rw [Bool.not_false, Bool.true_and, Bool.not_true, Bool.false_or, decide_eq_false_iff_not,
            not_not]
        rw [hnames, guarded_names_iff, and_iff_right rfl, headers_readAlike_iff hjudged]
        exact ⟨fun h _ _ => h, fun h => h hsame rfl⟩

/-- A platform whose case changes are the language's on bytes. -/
def latinPlatform : Platform :=
  { oneAddressPlatform with
    toLowerCase := fun t => t.map latinLower
    toUpperCase := fun t => t.map asciiUpper }

/-- A request of another origin with one header. -/
def headerRequest (name value : Text) : LimitsRequest where
  method := units "GET"
  url := units "https://api.test/"
  headers := [(name, value)]

/-- A header of the user's own needs a preflight, and the app says so. -/
theorem ownHeader_readAlike :
    (browserLimits latinPlatform (headerRequest (units "X-Id") (units "1"))
        (units "https://app.test") .direct).dropped =
      refusedNames (headerRequest (units "X-Id") (units "1")).headers ∧
    ((browserLimits latinPlatform (headerRequest (units "X-Id") (units "1"))
        (units "https://app.test") .direct).preflight = [] ↔
      FetchStandard.sendsPreflight false (units "GET")
        (FetchStandard.guarded (headerRequest (units "X-Id") (units "1")).headers) = false) := by
  have htaken : ∀ header ∈ (headerRequest (units "X-Id") (units "1")).headers, Taken header := by
    intro header hmem
    rw [List.mem_singleton.mp hmem]
    exact ⟨by decide +kernel, by decide +kernel, by decide +kernel⟩
  have hother : ¬ Missed (units "X-Id", units "1") := by
    rintro (⟨hname, -⟩ | ⟨hname, -⟩)
    · exact absurd hname (by decide +kernel)
    · exact absurd hname (by decide +kernel)
  have halike : ReadAlike (headerRequest (units "X-Id") (units "1")) (units "https://app.test")
      { head := units "https://api.test/", searchParams := [], fragment := none,
        host := units "api.test", hostname := units "api.test", protocol := units "https:",
        origin := units "https://api.test" } := by
    refine ⟨fun header hmem hodd => ?_, fun _ _ => .inl (.inl ⟨_, ?_, ?_, hother⟩)⟩
    · rw [List.mem_singleton.mp hmem] at hodd
      exact absurd hodd.1 (by decide +kernel)
    · decide +kernel
    · decide +kernel
  exact (limits_readAlike_iff (P := latinPlatform) ⟨fun _ _ => rfl, fun _ _ => rfl⟩ rfl
    (by decide +kernel) htaken).mpr halike

/-- A range that ends before it starts is not safelisted, and the app says that it is. -/
theorem backwardRange_not_preflighted :
    (browserLimits latinPlatform (headerRequest (units "Range") (units "bytes=9-1"))
        (units "https://app.test") .direct).preflight = [] ∧
      FetchStandard.sendsPreflight false (units "GET")
        (FetchStandard.guarded (headerRequest (units "Range") (units "bytes=9-1")).headers) =
        true := by
  decide +kernel

end Wayfarer
