import Wayfarer.Library.Base64
import Wayfarer.Library.Json
import Wayfarer.Library.Percent
import Wayfarer.Library.Replace
import Wayfarer.Model.Variables
import Mathlib.Data.List.Sort

/-!
# The redactor

Secrets are masked in what is about to be stored, exported or copied. The redactor works on the
output, not on where a value came from: every secret it is given is looked for as text,
percent-encoded, JSON-escaped and inside base64 (`formsOf`), and each form is replaced by the
mask, the longest first.

`text_masks` is what masking promises: of a secret that does not hold the mask's own character no
form is left, and whatever base64 writes with the secret in it holds one of the forms.
-/

set_option autoImplicit false

namespace Wayfarer

open Library

/-! ## The forms of a value -/

/-- What stands where a secret or a credential was. -/
def mask : Text := units "***"

/-- The mask's character. -/
def star : CodeUnit := 0x2A

/-- A secret shorter than this is not looked for. -/
def minSecretLength : Nat := 6

/-- The base64 text a value gives when it stands inside longer encoded data: where it starts in a
group of three bytes decides its characters. -/
def base64Forms (value : Text) : List Text :=
  [0, 1, 2].map fun offset => base64Core offset (utf8Bytes value)

/-- A character of one of the ranges. -/
def inRanges (ranges : List (Nat × Nat)) (p : Nat) : Bool :=
  ranges.any fun range => range.1 ≤ p && p ≤ range.2

/-- A character, percent-encoded. Half of a surrogate pair cannot be, and stays. -/
def percentPoint (p : Nat) : Text :=
  if p < 0x80 then percentByte p
  else if isSurrogate p then unitsOf p
  else (encodeUtf8 p).flatMap percentByte

/-- A value with every character that is not to be kept percent-encoded. -/
def percentEncode (kept : Nat → Bool) (value : Text) : Text :=
  (codePoints value).flatMap fun p => if kept p then unitsOf p else percentPoint p

/-- What `encodeURIComponent` leaves as it is. -/
def keptInComponent (p : Nat) : Bool :=
  isAlphanumeric p || inRanges (componentMarks.map fun c => (c.toNat, c.toNat)) p

/-- What a browser leaves in a query. -/
def keptInQuery : Nat → Bool :=
  inRanges [(0x21, 0x21), (0x24, 0x26), (0x28, 0x3B), (0x3D, 0x3D), (0x3F, 0x7E)]

/-- What a browser leaves in a path. -/
def keptInPath : Nat → Bool :=
  inRanges [(0x21, 0x21), (0x24, 0x3B), (0x3D, 0x3D), (0x40, 0x5F), (0x61, 0x7A), (0x7C, 0x7C),
    (0x7E, 0x7E)]

/-- What a browser of today leaves in a path: not the caret. -/
def keptInPathOfToday : Nat → Bool :=
  inRanges [(0x21, 0x21), (0x24, 0x3B), (0x3D, 0x3D), (0x40, 0x5D), (0x5F, 0x5F), (0x61, 0x7A),
    (0x7C, 0x7C), (0x7E, 0x7E)]

/-- A digit of an escape as it is written here. -/
def isUpperHex (c : CodeUnit) : Bool :=
  (0x30 ≤ c.toNat && c.toNat ≤ 0x39) || (0x41 ≤ c.toNat && c.toNat ≤ 0x46)

/-- A text with the digits of its escapes in lower case. -/
def lowerEscapes : List CodeUnit → Text
  | c :: d :: e :: rest =>
      if c = percentSign ∧ isUpperHex d ∧ isUpperHex e then
        c :: asciiLower d :: asciiLower e :: lowerEscapes rest
      else c :: lowerEscapes (d :: e :: rest)
  | t => t

/-- A text with what is not ASCII escaped, as some writers of JSON do. -/
def escapeWide (t : Text) : Text :=
  t.flatMap fun c => if 0x80 ≤ c.toNat then unicodeEscape c.toNat else [c]

/-- Every text a value can take on its way into a request or back in a response. -/
def formsOf (value : Text) : List Text :=
  let component := percentEncode keptInComponent value
  let json := jsonEscape value
  let b64 := base64Forms value
  [value, component, lowerEscapes component, percentEncode keptInQuery value,
    percentEncode keptInPath value, percentEncode keptInPathOfToday value, formText value, json,
    escapeWide json] ++ b64 ++ b64.map (List.map urlSafe)

/-! ## The redactor -/

/-- The texts to look for, longest first. -/
structure Redactor where
  needles : List Text

/-- The redactor of a list of secrets: vault values that went into a request, and its
credentials. -/
def Redactor.new (secrets : List Text) : Redactor where
  needles :=
    let forms := (secrets.filter fun secret => minSecretLength ≤ secret.length).flatMap formsOf
    (forms.eraseDups.filter fun form => minSecretLength - 1 ≤ form.length).insertionSort
      fun a b => b.length ≤ a.length

/-- A text with every form masked. -/
def Redactor.text (redactor : Redactor) (t : Text) : Text :=
  redactor.needles.foldl (fun masked needle => replaceAll needle mask masked) t

/-! ## How long a form is -/

/-- A text written point by point is no shorter than the text. -/
theorem length_le_flatMap {β : Type} {f : Nat → List β} {t : Text}
    (hf : ∀ p, (unitsOf p).length ≤ (f p).length) :
    t.length ≤ ((codePoints t).flatMap f).length := by
  have hall : ∀ points : List Nat,
      (points.flatMap unitsOf).length ≤ (points.flatMap f).length := by
    intro points
    induction points with
    | nil => exact le_rfl
    | cons p points ih =>
        rw [List.flatMap_cons, List.flatMap_cons, List.length_append, List.length_append]
        exact Nat.add_le_add (hf p) ih
  have ht : (codePoints t).flatMap unitsOf = t := ofCodePoints_codePoints t
  calc t.length = ((codePoints t).flatMap unitsOf).length := by rw [ht]
    _ ≤ ((codePoints t).flatMap f).length := hall (codePoints t)

theorem length_unitsOf_le (p : Nat) : (unitsOf p).length ≤ 2 := by
  unfold unitsOf
  split_ifs <;> simp

theorem length_percentEncode (kept : Nat → Bool) (value : Text) :
    value.length ≤ (percentEncode kept value).length := by
  refine length_le_flatMap fun p => ?_
  split_ifs with hkept
  · exact le_rfl
  · unfold percentPoint
    split_ifs with hascii hlone
    · exact (length_unitsOf_le p).trans (by simp [percentByte])
    · exact le_rfl
    · refine (length_unitsOf_le p).trans ?_
      unfold encodeUtf8
      split_ifs <;> simp [percentByte]

theorem length_lowerEscapes (t : Text) : (lowerEscapes t).length = t.length := by
  induction t using lowerEscapes.induct with
  | case1 c d e rest h ih => simp [lowerEscapes, h, ih]
  | case2 c d e rest h ih =>
      rw [lowerEscapes, if_neg h, List.length_cons, ih]
      rfl
  | case3 t h =>
      unfold lowerEscapes
      split
      · exact absurd rfl (h _ _ _ _)
      · rfl

/-- A character has no fewer bytes than units. -/
theorem length_unitsOf_le_scalar (p : Nat) :
    (unitsOf p).length ≤ (encodeUtf8 (scalar p)).length := by
  unfold unitsOf
  split_ifs with hplane
  · unfold encodeUtf8
    split_ifs <;> simp
  · have hscalar : scalar p = p := by
      have hnot : isSurrogate p = false := by
        simp only [isSurrogate, Bool.and_eq_false_iff, decide_eq_false_iff_not]
        omega
      simp [scalar, hnot]
    rw [hscalar, encodeUtf8, if_neg (by omega), if_neg (by omega), if_neg hplane]
    simp

theorem length_formByte_pos (b : Nat) : 0 < (formByte b).length := by
  unfold formByte escapeByte
  split_ifs <;> simp [percentByte]

/-- A text written item by item, none of them by nothing, is no shorter than the text. -/
theorem length_le_flatMap_of_pos {α β : Type} {f : α → List β} (hf : ∀ a, 0 < (f a).length)
    (as : List α) : as.length ≤ (as.flatMap f).length := by
  induction as with
  | nil => exact le_rfl
  | cons a as ih =>
      rw [List.flatMap_cons, List.length_append, List.length_cons]
      have := hf a
      omega

theorem length_formText (value : Text) : value.length ≤ (formText value).length := by
  unfold formText
  rw [List.flatMap_map]
  refine length_le_flatMap fun p => ?_
  exact (length_unitsOf_le_scalar p).trans (length_le_flatMap_of_pos length_formByte_pos _)

theorem length_utf8Bytes (value : Text) : value.length ≤ (utf8Bytes value).length := by
  unfold utf8Bytes
  rw [List.flatMap_map]
  exact length_le_flatMap length_unitsOf_le_scalar

theorem length_jsonEscape (value : Text) : value.length ≤ (jsonEscape value).length := by
  refine length_le_flatMap fun p => ?_
  unfold jsonPoint
  split_ifs
  all_goals first
    | exact le_rfl
    | exact (length_unitsOf_le p).trans (by simp [unicodeEscape])

theorem length_escapeWide (t : Text) : t.length ≤ (escapeWide t).length := by
  refine length_le_flatMap_of_pos (fun c => ?_) t
  split_ifs <;> simp [unicodeEscape]

/-- Three bytes fill four characters, and what is left over one less than it is long. -/
theorem length_base64Whole (bytes : List Nat) :
    (base64Whole bytes).length = 4 * (bytes.length / 3) + bytes.length % 3 := by
  induction bytes using base64Whole.induct with
  | case1 => rfl
  | case2 a => simp [base64Whole]
  | case3 a b => simp [base64Whole]
  | case4 a b c rest ih =>
      have hlength :
          (base64Whole (a :: b :: c :: rest)).length = (base64Whole rest).length + 4 := by
        simp [base64Whole]
      rw [hlength, ih]
      simp only [List.length_cons]
      omega

theorem length_base64Core {offset : Nat} (hoffset : offset < 3) {bytes : List Nat}
    (h : minSecretLength ≤ bytes.length) : minSecretLength ≤ (base64Core offset bytes).length := by
  rw [base64Core_eq, List.length_drop, length_base64Whole, List.length_append,
    List.length_replicate]
  unfold minSecretLength at *
  have hstart : sharedStart offset ≤ offset + 1 := by
    match offset with
    | 0 => decide
    | 1 => decide
    | 2 => decide
  omega

/-- No form of a secret is shorter than the secrets that are looked for. -/
theorem length_of_mem_formsOf {secret form : Text} (hsecret : minSecretLength ≤ secret.length)
    (hform : form ∈ formsOf secret) : minSecretLength ≤ form.length := by
  have hcores : ∀ core ∈ base64Forms secret, minSecretLength ≤ core.length := by
    intro core hcore
    obtain ⟨offset, hoffset, rfl⟩ := List.mem_map.mp hcore
    have hlt : offset < 3 := by
      simp only [List.mem_cons, List.not_mem_nil, or_false] at hoffset
      omega
    exact length_base64Core hlt (hsecret.trans (length_utf8Bytes secret))
  simp only [formsOf, List.cons_append, List.nil_append, List.mem_cons, List.mem_append,
    List.mem_map] at hform
  obtain rfl | rfl | rfl | rfl | rfl | rfl | rfl | rfl | rfl | hcore | ⟨core, hcore, rfl⟩ := hform
  · exact hsecret
  · exact hsecret.trans (length_percentEncode _ _)
  · rw [length_lowerEscapes]
    exact hsecret.trans (length_percentEncode _ _)
  · exact hsecret.trans (length_percentEncode _ _)
  · exact hsecret.trans (length_percentEncode _ _)
  · exact hsecret.trans (length_percentEncode _ _)
  · exact hsecret.trans (length_formText _)
  · exact hsecret.trans (length_jsonEscape _)
  · exact hsecret.trans ((length_jsonEscape _).trans (length_escapeWide _))
  · exact hcores _ hcore
  · rw [List.length_map]
    exact hcores core hcore

/-! ## The mask's character -/

/-- A text written point by point has the mask's character only where it had it before. -/
theorem star_mem_of_flatMap {f : Nat → Text} {t : Text}
    (hf : ∀ p < 0x110000, star ∈ f p → star ∈ unitsOf p) (h : star ∈ (codePoints t).flatMap f) :
    star ∈ t := by
  obtain ⟨p, hp, hmem⟩ := List.mem_flatMap.mp h
  have ht : (codePoints t).flatMap unitsOf = t := ofCodePoints_codePoints t
  rw [← ht]
  exact List.mem_flatMap.mpr ⟨p, hp, hf p (codePoints_lt t p hp) hmem⟩

theorem star_not_mem_percentByte {b : Nat} (hb : b < 0x100) : star ∉ percentByte b := by
  have hdigit : ∀ n < 16, star ≠ hexDigit n := by decide
  have hsign : star ≠ percentSign := by decide
  simp only [percentByte, List.mem_cons, List.not_mem_nil, or_false, not_or]
  exact ⟨hsign, hdigit _ (by omega), hdigit _ (by omega)⟩

theorem star_mem_of_percentEncode {kept : Nat → Bool} {value : Text}
    (h : star ∈ percentEncode kept value) : star ∈ value := by
  refine star_mem_of_flatMap (fun p hp hmem => ?_) h
  split_ifs at hmem with hkept
  · exact hmem
  · unfold percentPoint at hmem
    split_ifs at hmem with hascii hlone
    · exact absurd hmem (star_not_mem_percentByte (by omega))
    · exact hmem
    · obtain ⟨b, hb, hstar⟩ := List.mem_flatMap.mp hmem
      exact absurd hstar (star_not_mem_percentByte (encodeUtf8_lt hp b hb))

theorem asciiLower_eq_star {c : CodeUnit} (h : isUpperHex c = true) : asciiLower c ≠ star := by
  intro hlower
  have hvalue := congrArg UInt16.toNat hlower
  simp only [isUpperHex, Bool.or_eq_true, Bool.and_eq_true, decide_eq_true_eq] at h
  unfold asciiLower star at hvalue
  split_ifs at hvalue with hletter
  · rw [UInt16.toNat_add] at hvalue
    simp at hvalue
    omega
  · simp at hvalue
    omega

theorem star_mem_of_lowerEscapes {t : Text} (h : star ∈ lowerEscapes t) : star ∈ t := by
  induction t using lowerEscapes.induct with
  | case1 c d e rest hescape ih =>
      rw [lowerEscapes, if_pos hescape] at h
      simp only [List.mem_cons] at h ⊢
      obtain rfl | hd | he | hrest := h
      · exact Or.inl rfl
      · exact absurd hd.symm (asciiLower_eq_star hescape.2.1)
      · exact absurd he.symm (asciiLower_eq_star hescape.2.2)
      · exact Or.inr (Or.inr (Or.inr (ih hrest)))
  | case2 c d e rest hescape ih =>
      rw [lowerEscapes, if_neg hescape, List.mem_cons] at h
      exact List.mem_cons.mpr (h.imp id ih)
  | case3 t hshort =>
      unfold lowerEscapes at h
      split at h
      · exact absurd rfl (hshort _ _ _ _)
      · exact h

/-- Only the character's own byte is written as it is. -/
theorem eq_of_star_mem_formByte {b : Nat} (hb : b < 0x100) (h : star ∈ formByte b) : b = 0x2A := by
  rw [formByte, escapeByte] at h
  split_ifs at h
  · cases List.mem_singleton.mp h
  · have hsame := congrArg UInt16.toNat (List.mem_singleton.mp h)
    rw [toNat_toUInt16 (by omega)] at hsame
    exact hsame.symm
  · have hdigit : ∀ n < 16, star ≠ hexDigit n := by decide
    simp only [percentByte, List.mem_cons, List.not_mem_nil, or_false] at h
    rcases h with h | h | h
    · cases h
    · exact absurd h (hdigit _ (by omega))
    · exact absurd h (hdigit _ (by omega))

theorem eq_of_star_mem_encodeUtf8 {p : Nat} (h : 0x2A ∈ encodeUtf8 p) : p = 0x2A := by
  unfold encodeUtf8 at h
  split_ifs at h <;> simp at h <;> omega

theorem star_mem_of_formText {value : Text} (h : star ∈ formText value) : star ∈ value := by
  unfold formText at h
  rw [List.flatMap_map] at h
  refine star_mem_of_flatMap (fun p hp hmem => ?_) h
  obtain ⟨b, hb, hstar⟩ := List.mem_flatMap.mp hmem
  have hbyte := eq_of_star_mem_formByte (encodeUtf8_lt (isScalar_scalar hp).2 b hb) hstar
  rw [hbyte] at hb
  have hscalar := eq_of_star_mem_encodeUtf8 hb
  unfold scalar replacement at hscalar
  split_ifs at hscalar with hlone
  · cases hscalar
  · rw [hscalar]
    decide

theorem star_mem_of_jsonEscape {value : Text} (h : star ∈ jsonEscape value) : star ∈ value := by
  have hfirst : star ∉ jsonEscapeLetters := by decide
  have hplain : ∀ c ∈ star :: [], isJsonPlain c = true := by decide
  rw [← List.singleton_infix_iff] at h ⊢
  exact (infix_jsonEscape_iff hfirst hplain value).mp h

theorem star_mem_of_escapeWide {t : Text} (h : star ∈ escapeWide t) : star ∈ t := by
  obtain ⟨c, hc, hmem⟩ := List.mem_flatMap.mp h
  split_ifs at hmem with hwide
  · have hdigit : ∀ n < 16, star ≠ lowerHexDigit n := by decide
    have hback : star ≠ backslash := by decide
    have hletter : star ≠ 0x75 := by decide
    simp only [unicodeEscape, List.mem_cons, List.not_mem_nil, or_false] at hmem
    obtain h | h | h | h | h | h := hmem
    · exact absurd h hback
    · exact absurd h hletter
    all_goals exact absurd h (hdigit _ (Nat.mod_lt _ (by decide)))
  · rw [List.mem_singleton.mp hmem]
    exact hc

/-- A form has the mask's character only where the value has it. -/
theorem star_mem_of_form {value form : Text} (hform : form ∈ formsOf value) (h : star ∈ form) :
    star ∈ value := by
  have hcores : ∀ core ∈ base64Forms value, ∀ c ∈ core, c ∈ base64Alphabet := by
    intro core hcore c hc
    obtain ⟨offset, -, rfl⟩ := List.mem_map.mp hcore
    exact mem_base64Core hc
  simp only [formsOf, List.cons_append, List.nil_append, List.mem_cons, List.mem_append,
    List.mem_map] at hform
  obtain rfl | rfl | rfl | rfl | rfl | rfl | rfl | rfl | rfl | hcore | ⟨core, hcore, rfl⟩ := hform
  · exact h
  · exact star_mem_of_percentEncode h
  · exact star_mem_of_percentEncode (star_mem_of_lowerEscapes h)
  · exact star_mem_of_percentEncode h
  · exact star_mem_of_percentEncode h
  · exact star_mem_of_percentEncode h
  · exact star_mem_of_formText h
  · exact star_mem_of_jsonEscape h
  · exact star_mem_of_jsonEscape (star_mem_of_escapeWide h)
  · exact absurd (hcores _ hcore star h) (by decide)
  · obtain ⟨c, hc, hsafe⟩ := List.mem_map.mp h
    have hnone : ∀ c ∈ base64Alphabet, urlSafe c ≠ star := by decide
    exact absurd hsafe (hnone c (hcores core hcore c hc))

/-! ## What masking leaves -/

/-- A text that holds none of the forms is left as it is. -/
theorem Redactor.text_of_clean {redactor : Redactor} {t : Text}
    (h : ∀ needle ∈ redactor.needles, ¬ needle <:+: t) : redactor.text t = t := by
  unfold Redactor.text
  obtain ⟨needles⟩ := redactor
  induction needles with
  | nil => rfl
  | cons needle needles ih =>
      rw [List.foldl_cons, replaceAll_of_not_infix (h needle List.mem_cons_self)]
      exact ih fun other hother => h other (List.mem_cons_of_mem needle hother)

/-- The needles of a redactor are the forms of its secrets. -/
theorem mem_needles {secrets : List Text} {secret form : Text} (hmem : secret ∈ secrets)
    (hlength : minSecretLength ≤ secret.length) (hform : form ∈ formsOf secret) :
    form ∈ (Redactor.new secrets).needles := by
  have hlong := length_of_mem_formsOf hlength hform
  have hall : form ∈ (secrets.filter fun secret => minSecretLength ≤ secret.length).flatMap
      formsOf := by
    refine List.mem_flatMap.mpr ⟨secret, List.mem_filter.mpr ⟨hmem, ?_⟩, hform⟩
    exact decide_eq_true hlength
  simp only [Redactor.new, List.mem_insertionSort, List.mem_filter, List.mem_eraseDups, hall,
    true_and, decide_eq_true_eq]
  omega

/-- Of a secret that does not hold the mask's character, masking leaves no form. -/
theorem not_infix_text {secrets : List Text} {secret form : Text} (hmem : secret ∈ secrets)
    (hlength : minSecretLength ≤ secret.length) (hstar : star ∉ secret)
    (hform : form ∈ formsOf secret) (t : Text) :
    ¬ form <:+: (Redactor.new secrets).text t := by
  have hne : form ≠ [] := by
    intro hnil
    have hlong := length_of_mem_formsOf hlength hform
    rw [hnil] at hlong
    exact absurd hlong (by decide)
  have hapart : Apart form mask := by
    intro c hc hmem
    have hmask : ∀ c ∈ mask, c = star := by decide
    rw [hmask c hc] at hmem
    exact hstar (star_mem_of_form hform hmem)
  exact not_infix_foldl_replaceAll (by decide) (mem_needles hmem hlength hform) hne hapart

/-- What holds a text's bytes in base64, of either alphabet and padded or not, holds one of the
text's forms. -/
def HoldsCore (value : Text) (bytes : List Nat) : Prop :=
  ∃ core ∈ base64Forms value, core ∈ formsOf value ∧ core.map urlSafe ∈ formsOf value ∧
    core <:+: base64 bytes ∧ core <:+: unpadded (base64 bytes) ∧
    core.map urlSafe <:+: (base64 bytes).map urlSafe ∧
    core.map urlSafe <:+: (unpadded (base64 bytes)).map urlSafe

/-- Wherever a value stands inside encoded data, one of its cores is there. -/
theorem holdsCore_of_bytes (value : Text) (before after : List Nat) :
    HoldsCore value (before ++ utf8Bytes value ++ after) := by
  have hoffset : before.length % 3 ∈ [0, 1, 2] := by
    have hlt := Nat.mod_lt before.length (show 0 < 3 by decide)
    simp only [List.mem_cons, List.not_mem_nil, or_false]
    omega
  have hcore : base64Core (before.length % 3) (utf8Bytes value) ∈ base64Forms value :=
    List.mem_map.mpr ⟨_, hoffset, rfl⟩
  have hpadded := core_infix_base64 before (utf8Bytes value) after
  have hbare := core_infix_unpadded before (utf8Bytes value) after
  refine ⟨_, hcore, ?_, ?_, hpadded, hbare, hpadded.map urlSafe, hbare.map urlSafe⟩
  · exact List.mem_append_left _ (List.mem_append_right _ hcore)
  · exact List.mem_append_right _ (List.mem_map_of_mem hcore)

/-- Masking leaves no form of a secret that is long enough and does not hold the mask's character;
and what base64 makes of data with a secret in it holds one of the forms. -/
theorem text_masks {secrets : List Text}
    (h : ∀ secret ∈ secrets, minSecretLength ≤ secret.length ∧ star ∉ secret) :
    (∀ t, ∀ secret ∈ secrets, ∀ form ∈ formsOf secret,
      ¬ form <:+: (Redactor.new secrets).text t) ∧
    ∀ secret ∈ secrets, ∀ before after : List Nat,
      HoldsCore secret (before ++ utf8Bytes secret ++ after) := by
  refine ⟨fun t secret hmem form hform => ?_, fun secret _ before after => ?_⟩
  · exact not_infix_text hmem (h secret hmem).1 (h secret hmem).2 hform t
  · exact holdsCore_of_bytes secret before after

/-- Two secrets, one inside the other. -/
def nestedSecrets : List Text := [units "abcdef", units "abcdef-and-more"]

/-- Neither is left of a text that holds both. -/
theorem nestedSecrets_masked :
    (∀ form ∈ formsOf (units "abcdef"),
      ¬ form <:+: (Redactor.new nestedSecrets).text (units "x abcdef-and-more abcdef y")) ∧
    (Redactor.new nestedSecrets).text (units "x abcdef-and-more abcdef y") =
      units "x *** *** y" :=
  ⟨(text_masks (by decide)).1 _ _ List.mem_cons_self, by decide +kernel⟩

end Wayfarer
