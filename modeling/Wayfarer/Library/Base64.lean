import Wayfarer.Library.CodePoints
import Wayfarer.Library.Replace

/-!
# Base64

`base64` writes bytes as `btoa` does, padding included. `base64Decode` reads them as
`atob` does: white space is left out first, padding may be missing, and the bits that
are left over at the end are dropped.

Bytes that stand inside longer data are written with the characters that hold bits of theirs only,
and, at either end, one that they share. `base64Core` is the former, by where in a group of three
the bytes start: it occurs in what is written, whatever surrounds the bytes
(`core_infix_base64`).
-/

set_option autoImplicit false

namespace Library

/-- The sixty-four characters. -/
def base64Alphabet : Text :=
  units "ABCDEFGHIJKLMNOPQRSTUVWXYZabcdefghijklmnopqrstuvwxyz0123456789+/"

/-- The padding character. -/
def base64Padding : CodeUnit := 0x3D

/-- The character of six bits. -/
def base64Digit (n : Nat) : CodeUnit :=
  base64Alphabet.getD (n % 64) 0

/-- The six bits a character stands for. -/
def base64Value (c : CodeUnit) : Option Nat :=
  base64Alphabet.idxOf? c

/-- Bytes as base64, padded to a multiple of four characters. -/
def base64 : List Nat → Text
  | [] => []
  | [a] => [base64Digit (a / 4), base64Digit (a % 4 * 16), base64Padding, base64Padding]
  | [a, b] =>
      [base64Digit (a / 4), base64Digit (a % 4 * 16 + b / 16), base64Digit (b % 16 * 4),
        base64Padding]
  | a :: b :: c :: rest =>
      [base64Digit (a / 4), base64Digit (a % 4 * 16 + b / 16), base64Digit (b % 16 * 4 + c / 64),
        base64Digit (c % 64)] ++ base64 rest

/-- The bytes of a text, its lone surrogates replaced: what a text encoder gives. -/
def utf8Bytes (t : Text) : List Nat :=
  ((codePoints t).map scalar).flatMap encodeUtf8

/-- The bytes of groups of six bits, what is left over dropped. -/
def base64Bytes : List Nat → List Nat
  | p :: q :: r :: s :: rest =>
      (p * 4 + q / 16) :: (q % 16 * 16 + r / 4) :: (r % 4 * 64 + s) :: base64Bytes rest
  | [p, q, r] => [p * 4 + q / 16, q % 16 * 16 + r / 4]
  | [p, q] => [p * 4 + q / 16]
  | _ => []

/-- ASCII white space: what a forgiving reader leaves out. -/
def isAsciiWhite (c : CodeUnit) : Bool :=
  [0x09, 0x0A, 0x0C, 0x0D, 0x20].contains c

/-- A text without the padding at its end, where its length is a multiple of four. -/
def withoutPadding (t : Text) : Text :=
  if t.length % 4 = 0 then
    if (units "==").isSuffixOf t then t.take (t.length - 2)
    else if (units "=").isSuffixOf t then t.take (t.length - 1)
    else t
  else t

/-- The bytes that are written as `t`, as a text of one unit a byte; `none` where `atob` throws. -/
def base64Decode (t : Text) : Option Text :=
  let digits := withoutPadding (t.filter fun c => !isAsciiWhite c)
  if digits.length % 4 = 1 then none
  else (digits.mapM base64Value).map fun values => (base64Bytes values).map Nat.toUInt16

/-! ## The characters of bytes inside longer data -/

/-- A text without the padding characters it ends with. -/
def unpadded (t : Text) : Text :=
  (t.reverse.dropWhile fun c => c = base64Padding).reverse

/-- The characters all of whose bits are of the bytes, where those start a group. -/
def base64Whole : List Nat → Text
  | [] => []
  | [a] => [base64Digit (a / 4)]
  | [a, b] => [base64Digit (a / 4), base64Digit (a % 4 * 16 + b / 16)]
  | a :: b :: c :: rest =>
      [base64Digit (a / 4), base64Digit (a % 4 * 16 + b / 16), base64Digit (b % 16 * 4 + c / 64),
        base64Digit (c % 64)] ++ base64Whole rest

/-- How many characters hold bits of what stands in front of the bytes. -/
def sharedStart (offset : Nat) : Nat :=
  [0, 2, 3].getD offset 0

/-- The characters of bytes that start `offset` bytes into a group: those that also carry bits of
the bytes around them are left out. -/
def base64Core (offset : Nat) (bytes : List Nat) : Text :=
  let encoded := unpadded (base64 (List.replicate offset 0 ++ bytes))
  let sharedEnd := if (offset + bytes.length) % 3 = 0 then 0 else 1
  (encoded.take (encoded.length - sharedEnd)).drop (sharedStart offset)

/-- The URL-safe alphabet writes two characters in another way. -/
def urlSafe (c : CodeUnit) : CodeUnit :=
  if c = 0x2B then 0x2D else if c = 0x2F then 0x5F else c

theorem base64Digit_mem (n : Nat) : base64Digit n ∈ base64Alphabet := by
  have hlength : base64Alphabet.length = 64 := by decide
  have hlt : n % 64 < base64Alphabet.length := by
    rw [hlength]
    exact Nat.mod_lt n (by decide)
  rw [base64Digit, List.getD_eq_getElem?_getD, List.getElem?_eq_getElem hlt, Option.getD_some]
  exact List.getElem_mem hlt

theorem base64Digit_ne_padding (n : Nat) : base64Digit n ≠ base64Padding := by
  intro h
  have hmem := base64Digit_mem n
  rw [h] at hmem
  exact absurd hmem (by decide)

/-- What is written: the characters of the bytes alone, the one they do not fill, and padding. -/
theorem exists_base64_eq (bytes : List Nat) :
    ∃ last pad, base64 bytes = base64Whole bytes ++ last ++ pad ∧
      last.length = (if bytes.length % 3 = 0 then 0 else 1) ∧
      (∀ c ∈ base64Whole bytes ++ last, c ∈ base64Alphabet) ∧ ∀ c ∈ pad, c = base64Padding := by
  induction bytes using base64.induct with
  | case1 => exact ⟨[], [], rfl, rfl, by simp [base64Whole], by simp⟩
  | case2 a =>
      refine ⟨[base64Digit (a % 4 * 16)], [base64Padding, base64Padding], rfl, rfl, ?_, by simp⟩
      simp [base64Whole, base64Digit_mem]
  | case3 a b =>
      refine ⟨[base64Digit (b % 16 * 4)], [base64Padding], rfl, rfl, ?_, by simp⟩
      simp [base64Whole, base64Digit_mem]
  | case4 a b c rest ih =>
      obtain ⟨last, pad, heq, hlength, hdigits, hpad⟩ := ih
      refine ⟨last, pad, by simp [base64, base64Whole, heq], ?_, ?_, hpad⟩
      · simp only [List.length_cons, Nat.add_mod_right, Nat.add_assoc]
        exact hlength
      · intro d hd
        simp only [base64Whole, List.cons_append, List.nil_append, List.mem_cons] at hd
        obtain rfl | rfl | rfl | rfl | hd := hd
        · exact base64Digit_mem _
        · exact base64Digit_mem _
        · exact base64Digit_mem _
        · exact base64Digit_mem _
        · exact hdigits d hd

theorem mem_base64 {bytes : List Nat} {c : CodeUnit} (h : c ∈ base64 bytes) :
    c ∈ base64Alphabet ∨ c = base64Padding := by
  obtain ⟨last, pad, heq, -, hdigits, hpad⟩ := exists_base64_eq bytes
  rw [heq, List.mem_append] at h
  exact h.imp (hdigits c) (hpad c)

theorem padding_not_mem_alphabet : base64Padding ∉ base64Alphabet := by
  decide

/-- The padding is all that is taken off. -/
theorem unpadded_append {t pad : Text} (ht : ∀ c ∈ t, c ∈ base64Alphabet)
    (hpad : ∀ c ∈ pad, c = base64Padding) : unpadded (t ++ pad) = t := by
  unfold unpadded
  rw [List.reverse_append, List.dropWhile_append_of_pos fun c hc => by
    simpa using hpad c (List.mem_reverse.mp hc)]
  have hstays : t.reverse.dropWhile (fun c => c = base64Padding) = t.reverse := by
    cases hback : t.reverse with
    | nil => rfl
    | cons c rest =>
        have hc : c ∈ base64Alphabet := ht c (List.mem_reverse.mp (hback ▸ List.mem_cons_self))
        have hne : c ≠ base64Padding := fun h => padding_not_mem_alphabet (h ▸ hc)
        simp [hne]
  rw [hstays, List.reverse_reverse]

/-- A core is what the bytes alone fill, from where they start. -/
theorem base64Core_eq (offset : Nat) (bytes : List Nat) :
    base64Core offset bytes =
      (base64Whole (List.replicate offset 0 ++ bytes)).drop (sharedStart offset) := by
  obtain ⟨last, pad, heq, hlength, hdigits, hpad⟩ :=
    exists_base64_eq (List.replicate offset 0 ++ bytes)
  have hcount : (List.replicate offset 0 ++ bytes).length = offset + bytes.length := by simp
  rw [hcount] at hlength
  rw [base64Core, heq, unpadded_append hdigits hpad, ← hlength]
  simp

/-- Whole groups are written by themselves. -/
theorem base64_append {a : List Nat} (h : a.length % 3 = 0) (b : List Nat) :
    base64 (a ++ b) = base64 a ++ base64 b := by
  induction a using base64.induct with
  | case1 => rfl
  | case2 x => simp at h
  | case3 x y => simp at h
  | case4 x y z rest ih =>
      have hrest : rest.length % 3 = 0 := by
        simpa [Nat.add_assoc, Nat.add_mod_right] using h
      simp [base64, ih hrest]

/-- What bytes fill starts what is written of them and of what follows them. -/
theorem base64Whole_starts (bytes after : List Nat) :
    base64Whole bytes <+: base64 (bytes ++ after) := by
  induction bytes using base64.induct with
  | case1 => exact List.nil_prefix
  | case2 a =>
      match after with
      | [] => exact ⟨_, rfl⟩
      | [_] => exact ⟨_, rfl⟩
      | _ :: _ :: _ => exact ⟨_, rfl⟩
  | case3 a b =>
      match after with
      | [] => exact ⟨_, rfl⟩
      | _ :: _ => exact ⟨_, rfl⟩
  | case4 a b c rest ih =>
      obtain ⟨tail, htail⟩ := ih
      exact ⟨tail, by simp [base64, base64Whole, ← htail]⟩

/-- The core does not depend on the bytes in front, which are `offset` of a group. -/
theorem core_infix_of_length (before bytes after : List Nat) (h : before.length < 3) :
    base64Core before.length bytes <:+: base64 (before ++ (bytes ++ after)) := by
  rw [base64Core_eq]
  match before, bytes with
  | [], bytes => exact (base64Whole_starts bytes after).isInfix
  | [_], [] => exact List.nil_infix
  | [_], [_] => exact List.nil_infix
  | [x], b :: c :: rest =>
      obtain ⟨tail, htail⟩ := base64Whole_starts rest after
      refine ⟨[base64Digit (x / 4), base64Digit (x % 4 * 16 + b / 16)], tail, ?_⟩
      simp [base64, base64Whole, sharedStart, ← htail]
  | [_, _], [] => exact List.nil_infix
  | [x, y], c :: rest =>
      obtain ⟨tail, htail⟩ := base64Whole_starts rest after
      refine ⟨[base64Digit (x / 4), base64Digit (x % 4 * 16 + y / 16),
        base64Digit (y % 16 * 4 + c / 64)], tail, ?_⟩
      simp [base64, base64Whole, sharedStart, ← htail]
  | _ :: _ :: _ :: _, _ =>
      simp only [List.length_cons] at h
      omega

/-- Bytes inside longer data are written with one of their cores in it. -/
theorem core_infix_base64 (before bytes after : List Nat) :
    base64Core (before.length % 3) bytes <:+: base64 (before ++ bytes ++ after) := by
  have hlt : before.length % 3 ≤ before.length := Nat.mod_le _ _
  have hgroups : (before.take (before.length - before.length % 3)).length % 3 = 0 := by
    rw [List.length_take]
    omega
  have hrest : (before.drop (before.length - before.length % 3)).length = before.length % 3 := by
    rw [List.length_drop]
    omega
  have hcore := core_infix_of_length (before.drop (before.length - before.length % 3)) bytes after
    (by omega)
  rw [hrest] at hcore
  have hsplit : before ++ bytes ++ after =
      before.take (before.length - before.length % 3) ++
        (before.drop (before.length - before.length % 3) ++ (bytes ++ after)) := by
    rw [← List.append_assoc, List.take_append_drop, List.append_assoc]
  rw [hsplit, base64_append hgroups]
  exact hcore.trans (List.suffix_append _ _).isInfix

theorem mem_base64Core {offset : Nat} {bytes : List Nat} {c : CodeUnit}
    (h : c ∈ base64Core offset bytes) : c ∈ base64Alphabet := by
  rw [base64Core_eq] at h
  obtain ⟨last, _, _, _, hdigits, _⟩ := exists_base64_eq (List.replicate offset 0 ++ bytes)
  exact hdigits c (List.mem_append_left last (List.mem_of_mem_drop h))

/-- The padding can be left out. -/
theorem core_infix_unpadded (before bytes after : List Nat) :
    base64Core (before.length % 3) bytes <:+: unpadded (base64 (before ++ bytes ++ after)) := by
  obtain ⟨last, pad, heq, -, hdigits, hpad⟩ := exists_base64_eq (before ++ bytes ++ after)
  have hcore := core_infix_base64 before bytes after
  rw [heq] at hcore ⊢
  rw [unpadded_append hdigits hpad]
  by_cases hnil : base64Core (before.length % 3) bytes = []
  · rw [hnil]
    exact List.nil_infix
  · refine infix_of_infix_mask_append hnil (fun c hc hmem => ?_) hcore
    rw [hpad c hc] at hmem
    exact padding_not_mem_alphabet (mem_base64Core hmem)

end Library
