import Wayfarer.Library.Text

/-!
# Code points and UTF-8

A text read as code points: a high and a low surrogate side by side are one point,
and a surrogate without its other half stands for itself. `scrub` puts the
replacement character in the place of such a half, as every interface that takes
well-formed text does.

The UTF-8 of a point is one to four bytes. `decodeUtf8_encodeUtf8` is the round
trip, and `decodeUtf8` accepts nothing else: no overlong form, no surrogate and
nothing above the last plane.
-/

set_option autoImplicit false

namespace Library

/-! ## Surrogates -/

/-- The first half of a pair. -/
def isHigh (c : CodeUnit) : Bool :=
  0xD800 ≤ c.toNat && c.toNat ≤ 0xDBFF

/-- The second half of a pair. -/
def isLow (c : CodeUnit) : Bool :=
  0xDC00 ≤ c.toNat && c.toNat ≤ 0xDFFF

/-- A code point that is half of a pair without the other half. -/
def isSurrogate (p : Nat) : Bool :=
  0xD800 ≤ p && p ≤ 0xDFFF

/-- What stands for something that is no character. -/
def replacement : Nat := 0xFFFD

/-- The code points of a text. -/
def codePoints : Text → List Nat
  | [] => []
  | [c] => [c.toNat]
  | c :: d :: rest =>
      if isHigh c && isLow d then
        (0x10000 + (c.toNat - 0xD800) * 0x400 + (d.toNat - 0xDC00)) :: codePoints rest
      else c.toNat :: codePoints (d :: rest)

/-- The code units of a code point: one, or a pair above the basic plane. -/
def unitsOf (p : Nat) : Text :=
  if p < 0x10000 then [p.toUInt16]
  else [(0xD800 + (p - 0x10000) / 0x400).toUInt16, (0xDC00 + (p - 0x10000) % 0x400).toUInt16]

/-- The text of a list of code points. -/
def ofCodePoints (points : List Nat) : Text :=
  points.flatMap unitsOf

/-- A code point, a lone surrogate replaced. -/
def scalar (p : Nat) : Nat :=
  if isSurrogate p then replacement else p

/-- A text with its lone surrogates replaced: what a parameter that takes only
well-formed text is given. -/
def scrub (t : Text) : Text :=
  ofCodePoints ((codePoints t).map scalar)

/-- A unit of the basic plane that is no half of a pair. -/
def isPlain (c : CodeUnit) : Bool :=
  !(isHigh c) && !(isLow c)

theorem toNat_toUInt16 {n : Nat} (h : n < 0x10000) :
    n.toUInt16.toNat = n := by
  simp [Nat.toUInt16, Nat.mod_eq_of_lt h]

theorem unitsOf_toNat (c : CodeUnit) :
    unitsOf c.toNat = [c] := by
  have h : c.toNat < 0x10000 := c.toNat_lt
  simp [unitsOf, h, Nat.toUInt16]

/-- A pair is written as the two halves it was read from. -/
theorem unitsOf_pair {c d : CodeUnit} (hc : isHigh c = true) (hd : isLow d = true) :
    unitsOf (0x10000 + (c.toNat - 0xD800) * 0x400 + (d.toNat - 0xDC00)) = [c, d] := by
  simp only [isHigh, isLow, Bool.and_eq_true, decide_eq_true_eq] at hc hd
  have hbig : ¬ 0x10000 + (c.toNat - 0xD800) * 0x400 + (d.toNat - 0xDC00) < 0x10000 := by omega
  have hfirst : 0xD800 + (0x10000 + (c.toNat - 0xD800) * 0x400 + (d.toNat - 0xDC00) - 0x10000)
      / 0x400 = c.toNat := by omega
  have hsecond : 0xDC00 + (0x10000 + (c.toNat - 0xD800) * 0x400 + (d.toNat - 0xDC00) - 0x10000)
      % 0x400 = d.toNat := by omega
  rw [unitsOf, if_neg hbig, hfirst, hsecond]
  simp [Nat.toUInt16]

/-- Reading a text as code points loses nothing. -/
theorem ofCodePoints_codePoints (t : Text) :
    ofCodePoints (codePoints t) = t := by
  induction t using codePoints.induct with
  | case1 => rfl
  | case2 c => simp [codePoints, ofCodePoints, unitsOf_toNat]
  | case3 c d rest hpair ih =>
      have hc : isHigh c = true := by simp_all
      have hd : isLow d = true := by simp_all
      rw [codePoints, if_pos hpair, ofCodePoints, List.flatMap_cons, unitsOf_pair hc hd]
      exact congrArg (fun s => c :: d :: s) ih
  | case4 c d rest hpair ih =>
      rw [codePoints, if_neg hpair, ofCodePoints, List.flatMap_cons, unitsOf_toNat]
      exact congrArg (fun s => c :: s) ih

/-- A unit that opens no pair is a code point of its own. -/
theorem codePoints_cons {c : CodeUnit} (hc : isHigh c = false) (t : Text) :
    codePoints (c :: t) = c.toNat :: codePoints t := by
  cases t with
  | nil => rfl
  | cons d rest => simp [codePoints, hc]

/-- A text is cut into code points on either side of a unit that is no half of a pair. -/
theorem codePoints_append_cons {c : CodeUnit} (hc : isPlain c = true) (s t : Text) :
    codePoints (s ++ c :: t) = codePoints s ++ c.toNat :: codePoints t := by
  have hhigh : isHigh c = false := by simp_all [isPlain]
  have hlow : isLow c = false := by simp_all [isPlain]
  induction s using codePoints.induct with
  | case1 => simp [codePoints, codePoints_cons hhigh]
  | case2 d => simp [codePoints, hlow, codePoints_cons hhigh]
  | case3 d e rest hpair ih =>
      rw [List.cons_append, List.cons_append, codePoints, if_pos hpair, ih, codePoints,
        if_pos hpair, List.cons_append]
  | case4 d e rest hpair ih =>
      rw [List.cons_append, List.cons_append, codePoints, if_neg hpair, codePoints,
        if_neg hpair, List.cons_append]
      exact congrArg _ ih

/-- A word of units that are no halves of pairs is read unit by unit, wherever it stands. -/
theorem codePoints_append_plain {w : Text} (hw : ∀ c ∈ w, isPlain c = true) (hne : w ≠ [])
    (s t : Text) :
    codePoints (s ++ w ++ t) = codePoints s ++ w.map UInt16.toNat ++ codePoints t := by
  induction w generalizing s with
  | nil => exact absurd rfl hne
  | cons c w ih =>
      have hc : isPlain c = true := hw c (by simp)
      have hhigh : isHigh c = false := by simp_all [isPlain]
      have hrest : ∀ d ∈ w, isPlain d = true := fun d hd => hw d (by simp [hd])
      rw [List.append_assoc, List.cons_append, codePoints_append_cons hc]
      by_cases hempty : w = []
      · simp [hempty]
      · have h := ih hrest hempty []
        simp only [List.nil_append, codePoints] at h
        simp [h]

/-! ## UTF-8 -/

/-- The UTF-8 of a code point. -/
def encodeUtf8 (p : Nat) : List Nat :=
  if p < 0x80 then [p]
  else if p < 0x800 then [0xC0 + p / 0x40, 0x80 + p % 0x40]
  else if p < 0x10000 then [0xE0 + p / 0x1000, 0x80 + p / 0x40 % 0x40, 0x80 + p % 0x40]
  else [0xF0 + p / 0x40000, 0x80 + p / 0x1000 % 0x40, 0x80 + p / 0x40 % 0x40, 0x80 + p % 0x40]

/-- A byte that goes on with a character. -/
def isTail (b : Nat) : Bool :=
  0x80 ≤ b && b ≤ 0xBF

/-- How many bytes the character that starts with `b` has; `none` when no character does. -/
def utf8Length (b : Nat) : Option Nat :=
  if b < 0x80 then some 1
  else if 0xC2 ≤ b ∧ b ≤ 0xDF then some 2
  else if 0xE0 ≤ b ∧ b ≤ 0xEF then some 3
  else if 0xF0 ≤ b ∧ b ≤ 0xF4 then some 4
  else none

/-- The code point whose UTF-8 these bytes are. -/
def decodeUtf8 : List Nat → Option Nat
  | [a] => if a < 0x80 then some a else none
  | [a, b] =>
      if utf8Length a = some 2 ∧ isTail b then some ((a - 0xC0) * 0x40 + (b - 0x80)) else none
  | [a, b, c] =>
      let p := (a - 0xE0) * 0x1000 + (b - 0x80) * 0x40 + (c - 0x80)
      if utf8Length a = some 3 ∧ isTail b ∧ isTail c ∧ 0x800 ≤ p ∧ isSurrogate p = false then some p
      else none
  | [a, b, c, d] =>
      let p := (a - 0xF0) * 0x40000 + (b - 0x80) * 0x1000 + (c - 0x80) * 0x40 + (d - 0x80)
      if utf8Length a = some 4 ∧ isTail b ∧ isTail c ∧ isTail d ∧ 0x10000 ≤ p ∧ p < 0x110000 then
        some p
      else none
  | _ => none

/-- A code point that UTF-8 can write. -/
def IsScalar (p : Nat) : Prop :=
  isSurrogate p = false ∧ p < 0x110000

instance (p : Nat) : Decidable (IsScalar p) :=
  inferInstanceAs (Decidable (_ ∧ _))

/-- The bytes of a character are as many as its first byte says. -/
theorem utf8Length_encodeUtf8 {p : Nat} (hp : IsScalar p) :
    ∃ b rest, encodeUtf8 p = b :: rest ∧ utf8Length b = some (rest.length + 1) ∧
      ∀ x ∈ rest, isTail x = true := by
  obtain ⟨-, hlt⟩ := hp
  unfold encodeUtf8
  split_ifs with h1 h2 h3
  · exact ⟨p, [], rfl, by simp [utf8Length, h1], by simp⟩
  · refine ⟨_, _, rfl, ?_, ?_⟩
    · simp only [utf8Length, List.length_cons, List.length_nil]
      rw [if_neg (by omega), if_pos (by omega)]
    · simp [isTail]; omega
  · refine ⟨_, _, rfl, ?_, ?_⟩
    · simp only [utf8Length, List.length_cons, List.length_nil]
      rw [if_neg (by omega), if_neg (by omega), if_pos (by omega)]
    · simp [isTail]; omega
  · refine ⟨_, _, rfl, ?_, ?_⟩
    · simp only [utf8Length, List.length_cons, List.length_nil]
      rw [if_neg (by omega), if_neg (by omega), if_neg (by omega), if_pos (by omega)]
    · simp [isTail]; omega

/-- Every byte is below 256. -/
theorem encodeUtf8_lt {p : Nat} (hp : p < 0x110000) :
    ∀ b ∈ encodeUtf8 p, b < 0x100 := by
  unfold encodeUtf8
  split_ifs <;> simp <;> omega

/-- What was written as UTF-8 is read back. -/
theorem decodeUtf8_encodeUtf8 {p : Nat} (hp : IsScalar p) :
    decodeUtf8 (encodeUtf8 p) = some p := by
  obtain ⟨hsur, hlt⟩ := hp
  unfold encodeUtf8
  split_ifs with h1 h2 h3
  · simp [decodeUtf8, h1]
  · have hback : (0xC0 + p / 0x40 - 0xC0) * 0x40 + (0x80 + p % 0x40 - 0x80) = p := by omega
    have hlen : utf8Length (0xC0 + p / 0x40) = some 2 := by
      rw [utf8Length, if_neg (by omega), if_pos (by omega)]
    have htail : isTail (0x80 + p % 0x40) = true := by simp [isTail]; omega
    simp only [decodeUtf8, hback, hlen, htail, and_self, if_true]
  · have hback : (0xE0 + p / 0x1000 - 0xE0) * 0x1000 + (0x80 + p / 0x40 % 0x40 - 0x80) * 0x40
        + (0x80 + p % 0x40 - 0x80) = p := by omega
    have hlen : utf8Length (0xE0 + p / 0x1000) = some 3 := by
      rw [utf8Length, if_neg (by omega), if_neg (by omega), if_pos (by omega)]
    have htail₁ : isTail (0x80 + p / 0x40 % 0x40) = true := by simp [isTail]; omega
    have htail₂ : isTail (0x80 + p % 0x40) = true := by simp [isTail]; omega
    simp only [decodeUtf8, hback, hlen, htail₁, htail₂, hsur, true_and]
    rw [if_pos ⟨by omega, trivial⟩]
  · have hback : (0xF0 + p / 0x40000 - 0xF0) * 0x40000 + (0x80 + p / 0x1000 % 0x40 - 0x80) * 0x1000
        + (0x80 + p / 0x40 % 0x40 - 0x80) * 0x40 + (0x80 + p % 0x40 - 0x80) = p := by omega
    have hlen : utf8Length (0xF0 + p / 0x40000) = some 4 := by
      rw [utf8Length, if_neg (by omega), if_neg (by omega), if_neg (by omega), if_pos (by omega)]
    have htail₁ : isTail (0x80 + p / 0x1000 % 0x40) = true := by simp [isTail]; omega
    have htail₂ : isTail (0x80 + p / 0x40 % 0x40) = true := by simp [isTail]; omega
    have htail₃ : isTail (0x80 + p % 0x40) = true := by simp [isTail]; omega
    simp only [decodeUtf8, hback, hlen, htail₁, htail₂, htail₃, true_and]
    rw [if_pos ⟨by omega, hlt⟩]

/-- A text's code points are below the end of the last plane. -/
theorem codePoints_lt (t : Text) :
    ∀ p ∈ codePoints t, p < 0x110000 := by
  induction t using codePoints.induct with
  | case1 => simp [codePoints]
  | case2 c =>
      intro p hp
      have h : c.toNat < 0x10000 := c.toNat_lt
      have hpc : p = c.toNat := List.mem_singleton.mp hp
      omega
  | case3 c d rest hpair ih =>
      intro p hp
      rw [codePoints, if_pos hpair] at hp
      rcases List.mem_cons.mp hp with hp | hp
      · simp only [isHigh, isLow, Bool.and_eq_true, decide_eq_true_eq] at hpair
        omega
      · exact ih p hp
  | case4 c d rest hpair ih =>
      intro p hp
      rw [codePoints, if_neg hpair] at hp
      rcases List.mem_cons.mp hp with rfl | hp
      · have h : c.toNat < 0x10000 := c.toNat_lt
        omega
      · exact ih p hp

/-- A scrubbed code point is one that UTF-8 can write. -/
theorem isScalar_scalar {p : Nat} (hp : p < 0x110000) :
    IsScalar (scalar p) := by
  unfold scalar
  split_ifs with h
  · exact ⟨by decide, by decide⟩
  · exact ⟨by simpa using h, hp⟩

end Library
