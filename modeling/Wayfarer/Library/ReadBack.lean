import Mathlib.Data.Nat.Digits.Defs
import Wayfarer.Library.Base64
import Wayfarer.Library.Effects
import Wayfarer.Library.Form
import Wayfarer.Library.Json

/-!
# Bytes and numbers read back

Bytes written as base64 are read back (`base64Decode_base64`), and a natural number written in
decimal digits is read back as a number in JSON (`JsonNumber.whole_ofNat`).
-/

set_option autoImplicit false

namespace Library

/-! ## Base64 -/

/-- Bytes as groups of six bits. -/
def sextets : List Nat → List Nat
  | [] => []
  | [a] => [a / 4, a % 4 * 16]
  | [a, b] => [a / 4, a % 4 * 16 + b / 16, b % 16 * 4]
  | a :: b :: c :: rest =>
      [a / 4, a % 4 * 16 + b / 16, b % 16 * 4 + c / 64, c % 64] ++ sextets rest

/-- The padding of so many bytes. -/
def paddingOf (bytes : List Nat) : Text :=
  if bytes.length % 3 = 0 then []
  else if bytes.length % 3 = 1 then [base64Padding, base64Padding]
  else [base64Padding]

theorem base64_eq (bytes : List Nat) :
    base64 bytes = (sextets bytes).map base64Digit ++ paddingOf bytes := by
  induction bytes using base64.induct with
  | case1 => rfl
  | case2 a => rfl
  | case3 a b => rfl
  | case4 a b c rest ih =>
      have hpad : paddingOf (a :: b :: c :: rest) = paddingOf rest := by
        simp only [paddingOf, List.length_cons, Nat.add_assoc, Nat.reduceAdd, Nat.add_mod_right]
      rw [base64, sextets, ih, hpad, List.map_append, List.append_assoc]
      rfl

theorem length_sextets (bytes : List Nat) :
    ((sextets bytes).length + (paddingOf bytes).length) % 4 = 0 ∧
      (sextets bytes).length % 4 ≠ 1 := by
  induction bytes using sextets.induct with
  | case1 => decide
  | case2 a => simp [sextets, paddingOf]
  | case3 a b => simp [sextets, paddingOf]
  | case4 a b c rest ih =>
      have hpad : paddingOf (a :: b :: c :: rest) = paddingOf rest := by
        simp only [paddingOf, List.length_cons, Nat.add_assoc, Nat.reduceAdd, Nat.add_mod_right]
      rw [hpad, sextets, List.length_append]
      simp only [List.length_cons, List.length_nil]
      omega

theorem sextets_lt {bytes : List Nat} (h : ∀ b ∈ bytes, b < 0x100) :
    ∀ n ∈ sextets bytes, n < 64 := by
  induction bytes using sextets.induct with
  | case1 => simp [sextets]
  | case2 a =>
      have ha := h a (by simp)
      intro n hn
      simp only [sextets, List.mem_cons, List.not_mem_nil, or_false] at hn
      omega
  | case3 a b =>
      have ha := h a (by simp)
      have hb := h b (by simp)
      intro n hn
      simp only [sextets, List.mem_cons, List.not_mem_nil, or_false] at hn
      omega
  | case4 a b c rest ih =>
      have ha := h a (by simp)
      have hb := h b (by simp)
      have hc := h c (by simp)
      intro n hn
      rw [sextets] at hn
      rcases List.mem_append.mp hn with hn | hn
      · simp only [List.mem_cons, List.not_mem_nil, or_false] at hn
        omega
      · exact ih (fun b hb => h b (by simp [hb])) n hn

/-- Groups of six bits, read back as bytes. -/
theorem base64Bytes_sextets {bytes : List Nat} (h : ∀ b ∈ bytes, b < 0x100) :
    base64Bytes (sextets bytes) = bytes := by
  induction bytes using sextets.induct with
  | case1 => rfl
  | case2 a =>
      have ha := h a (by simp)
      rw [sextets, base64Bytes]
      congr 1
      omega
  | case3 a b =>
      have ha := h a (by simp)
      have hb := h b (by simp)
      rw [sextets, base64Bytes]
      have hfirst : a / 4 * 4 + (a % 4 * 16 + b / 16) / 16 = a := by omega
      have hsecond : (a % 4 * 16 + b / 16) % 16 * 16 + b % 16 * 4 / 4 = b := by omega
      rw [hfirst, hsecond]
  | case4 a b c rest ih =>
      have ha := h a (by simp)
      have hb := h b (by simp)
      have hc := h c (by simp)
      have hfirst : a / 4 * 4 + (a % 4 * 16 + b / 16) / 16 = a := by omega
      have hsecond : (a % 4 * 16 + b / 16) % 16 * 16 + (b % 16 * 4 + c / 64) / 4 = b := by omega
      have hthird : (b % 16 * 4 + c / 64) % 4 * 64 + c % 64 = c := by omega
      rw [sextets, List.cons_append, List.cons_append, List.cons_append, List.cons_append,
        List.nil_append, base64Bytes, ih fun b hb => h b (by simp [hb]), hfirst, hsecond, hthird]

theorem base64Value_digit {n : Nat} (h : n < 64) : base64Value (base64Digit n) = some n := by
  have hall : ∀ n : Fin 64, base64Value (base64Digit n) = some n.val := by decide +kernel
  exact hall ⟨n, h⟩

/-- The padding, and nothing else, is taken off. -/
theorem withoutPadding_base64 (bytes : List Nat) :
    withoutPadding (base64 bytes) = (sextets bytes).map base64Digit := by
  have hdigits : base64Padding ∉ (sextets bytes).map base64Digit := by
    intro hmem
    obtain ⟨n, -, hn⟩ := List.mem_map.mp hmem
    exact base64Digit_ne_padding n hn
  have hlength := (length_sextets bytes).1
  rw [← List.length_map (f := base64Digit), ← List.length_append, ← base64_eq] at hlength
  have hunits : units "=" = [base64Padding] ∧ units "==" = [base64Padding, base64Padding] := by
    decide
  rw [withoutPadding, if_pos hlength, base64_eq, hunits.1, hunits.2]
  generalize (sextets bytes).map base64Digit = digits at hdigits
  have hone : ¬ [base64Padding] <:+ digits := fun h => hdigits (h.subset List.mem_cons_self)
  have htwo : ¬ [base64Padding, base64Padding] <:+ digits := fun h =>
    hdigits (h.subset List.mem_cons_self)
  have hboth : ¬ [base64Padding, base64Padding] <:+ digits ++ [base64Padding] := by
    rintro ⟨front, hfront⟩
    have hsplit : (front ++ [base64Padding]) ++ [base64Padding] = digits ++ [base64Padding] := by
      simpa using hfront
    exact hone ⟨front, (List.append_inj' hsplit rfl).1⟩
  have hcases : paddingOf bytes = [] ∨ paddingOf bytes = [base64Padding, base64Padding] ∨
      paddingOf bytes = [base64Padding] := by
    rw [paddingOf]
    split_ifs <;> simp
  simp only [List.isSuffixOf_iff_suffix]
  rcases hcases with hpad | hpad | hpad
  · rw [hpad, List.append_nil, if_neg htwo, if_neg hone]
  · rw [hpad, if_pos (List.suffix_append _ _)]
    simp
  · rw [hpad, if_neg hboth, if_pos (List.suffix_append _ _)]
    simp

/-- Bytes written as base64 are read back. -/
theorem base64Decode_base64 {bytes : List Nat} (h : ∀ b ∈ bytes, b < 0x100) :
    base64Decode (base64 bytes) = some (bytes.map Nat.toUInt16) := by
  have hfilter : (base64 bytes).filter (fun c => !isAsciiWhite c) = base64 bytes := by
    have halphabet : ∀ c ∈ base64Alphabet, isAsciiWhite c = false := by decide
    have hpadding : isAsciiWhite base64Padding = false := by decide
    apply List.filter_eq_self.mpr
    intro c hc
    rcases mem_base64 hc with hmem | rfl
    · rw [halphabet c hmem]
      rfl
    · rw [hpadding]
      rfl
  have hlength : ((sextets bytes).map base64Digit).length % 4 ≠ 1 := by
    rw [List.length_map]
    exact (length_sextets bytes).2
  have hvalues : ((sextets bytes).map base64Digit).mapM base64Value = some (sextets bytes) := by
    rw [mapM_eq_some_iff, List.forall₂_map_left_iff, List.forall₂_same]
    exact fun n hn => base64Value_digit (sextets_lt h n hn)
  rw [base64Decode, hfilter, withoutPadding_base64, if_neg hlength, hvalues, Option.map_some,
    base64Bytes_sextets h]

/-! ## Numbers -/

/-- A natural number in decimal digits. -/
def decimalText (n : Nat) : Text :=
  if n = 0 then units "0" else (Nat.digits 10 n).reverse.map fun d => (0x30 + d).toUInt16

/-- The value of a digit. -/
theorem digit_value {d : Nat} (h : d < 10) : ((0x30 + d).toUInt16).toNat - 0x30 = d := by
  rw [toNat_toUInt16 (by omega)]
  omega

theorem digitsValue_decimalText (n : Nat) : digitsValue (decimalText n) = n := by
  rw [decimalText]
  split_ifs with hzero
  · rw [hzero]
    decide
  · have hdigits : ∀ d ∈ Nat.digits 10 n, d < 10 := fun d hd => Nat.digits_lt_base (by decide) hd
    have hread : ∀ digits : List Nat, (∀ d ∈ digits, d < 10) →
        digitsValue (digits.reverse.map fun d => (0x30 + d).toUInt16) = Nat.ofDigits 10 digits := by
      intro digits hdigits
      induction digits with
      | nil => rfl
      | cons d digits ih =>
          obtain ⟨hd, hrest⟩ := List.forall_mem_cons.mp hdigits
          rw [List.reverse_cons, List.map_append, digitsValue, List.foldl_append,
            ← digitsValue, ih hrest, Nat.ofDigits_cons]
          simp only [List.map_cons, List.map_nil, List.foldl_cons, List.foldl_nil, digit_value hd]
          omega
    rw [hread _ hdigits, Nat.ofDigits_digits]

theorem mem_decimalText {n : Nat} {c : CodeUnit} (h : c ∈ decimalText n) :
    c ∈ units "0123456789" := by
  rw [decimalText] at h
  split_ifs at h with hzero
  · have hsub : ∀ c ∈ units "0", c ∈ units "0123456789" := by decide
    exact hsub c h
  · obtain ⟨d, hd, rfl⟩ := List.mem_map.mp h
    have hlt : d < 10 := Nat.digits_lt_base (by decide) (List.mem_reverse.mp hd)
    have hall : ∀ d : Fin 10, (0x30 + d.val).toUInt16 ∈ units "0123456789" := by decide
    exact hall ⟨d, hlt⟩

/-- A natural number as a number in JSON. -/
def JsonNumber.ofNat (n : Nat) : JsonNumber where
  text := decimalText n
  marks c hc := by
    have hsub : ∀ c ∈ units "0123456789", c ∈ numberMarks := by decide
    exact hsub c (mem_decimalText hc)

/-- A number that is whole, and 0 or more. -/
def JsonNumber.whole (n : JsonNumber) : Option Nat :=
  let (mantissa, exponent) := n.decimal
  if mantissa < 0 then none
  else if 0 ≤ exponent then some (mantissa.toNat * 10 ^ exponent.toNat)
  else if 10 ^ (-exponent).toNat ∣ mantissa.toNat then
    some (mantissa.toNat / 10 ^ (-exponent).toNat)
  else none

/-- A natural number written in digits is read back. -/
theorem JsonNumber.whole_ofNat (n : Nat) : (JsonNumber.ofNat n).whole = some n := by
  have hdigit : ∀ c ∈ decimalText n, c ≠ 0x65 ∧ c ≠ 0x2E ∧ c ≠ 0x2D ∧ c ≠ 0x2B := by
    have hall : ∀ c ∈ units "0123456789", c ≠ 0x65 ∧ c ≠ 0x2E ∧ c ≠ 0x2D ∧ c ≠ 0x2B := by decide
    exact fun c hc => hall c (mem_decimalText hc)
  have hsigned : signedValue (decimalText n) = (n : Int) := by
    rw [signedValue.eq_def]
    split
    · next digits htext => exact absurd rfl (hdigit 0x2D (htext ▸ List.mem_cons_self)).2.2.1
    · next digits htext => exact absurd rfl (hdigit 0x2B (htext ▸ List.mem_cons_self)).2.2.2
    · rw [digitsValue_decimalText]
  have hdecimal : (JsonNumber.ofNat n).decimal = ((n : Int), 0) := by
    rw [JsonNumber.decimal]
    have htext : (JsonNumber.ofNat n).text = decimalText n := rfl
    rw [htext, cutAt_of_not_mem fun h => (hdigit _ h).1 rfl]
    dsimp only
    rw [cutAt_of_not_mem fun h => (hdigit _ h).2.1 rfl]
    simp [hsigned]
  rw [JsonNumber.whole, hdecimal]
  simp

example : (JsonNumber.ofNat 60000).text = units "60000" := by decide

end Library
