import Wayfarer.Library.Form

/-!
# Text in a query

`encodeURIComponent` is read back by a form (`spells_points`). What is read of two pieces of a query
one after the other is put together from what is read of each (`Spells.append`).
-/

set_option autoImplicit false

namespace Library

/-- A text that is read as these characters, whatever follows. -/
def Spells (w : Text) (points : List Nat) : Prop :=
  ∀ rest, percentBytes (utf8Bytes (plusTo space (w ++ rest))) =
    points.flatMap encodeUtf8 ++ percentBytes (utf8Bytes (plusTo space rest))

theorem Spells.append {w v : Text} {points more : List Nat} (hw : Spells w points)
    (hv : Spells v more) : Spells (w ++ v) (points ++ more) := by
  intro rest
  rw [List.append_assoc, hw, hv, List.flatMap_append, List.append_assoc]

theorem formDecode_of_spells {w : Text} {points : List Nat} (h : Spells w points)
    (hscalar : ∀ p ∈ points, IsScalar p) : formDecode w = ofCodePoints points := by
  have hall := h []
  have hempty : percentBytes (utf8Bytes (plusTo space [])) = [] := rfl
  rw [List.append_nil, hempty, List.append_nil] at hall
  rw [formDecode, hall, utf8Points_flatMap hscalar]

/-- Bytes that start no escape. -/
theorem percentBytes_append {bytes : List Nat} (h : 0x25 ∉ bytes) (rest : List Nat) :
    percentBytes (bytes ++ rest) = bytes ++ percentBytes rest := by
  induction bytes with
  | nil => rfl
  | cons b bytes ih =>
      obtain ⟨hb, hbytes⟩ := not_or.mp (mt List.mem_cons.mpr h)
      rw [List.cons_append, percentBytes_cons (Ne.symm hb), ih hbytes, List.cons_append]

theorem utf8Bytes_append_ascii {w : Text} (h : ∀ c ∈ w, c.toNat < 0x80) (rest : Text) :
    utf8Bytes (w ++ rest) = w.map UInt16.toNat ++ utf8Bytes rest := by
  induction w with
  | nil => rfl
  | cons c w ih =>
      obtain ⟨hc, hw⟩ := List.forall_mem_cons.mp h
      have hone := utf8Bytes_of_ascii (t := [c]) (by simpa using hc)
      have hhigh : isHigh c = false := by
        simp [isHigh]
        omega
      have hcons : ∀ t : Text, utf8Bytes (c :: t) = utf8Bytes [c] ++ utf8Bytes t := by
        intro t
        rw [utf8Bytes, utf8Bytes, utf8Bytes, codePoints_cons hhigh, codePoints_cons hhigh]
        simp [codePoints]
      rw [List.cons_append, hcons, hone, ih hw]
      rfl

/-- A character that is written of a text between variables. -/
def isEncodedUnit (c : CodeUnit) : Bool :=
  isAlphanumeric c.toNat || componentMarks.contains c || c = percentSign

theorem ascii_of_isEncodedUnit {c : CodeUnit} (h : isEncodedUnit c = true) : c.toNat < 0x80 := by
  have hunits : componentMarks = [0x2D, 0x5F, 0x2E, 0x21, 0x7E, 0x2A, 0x27, 0x28, 0x29] := by decide
  simp only [isEncodedUnit, isAlphanumeric, hunits, Bool.or_eq_true, Bool.and_eq_true,
    decide_eq_true_eq, List.contains_iff_mem, List.mem_cons, List.not_mem_nil, or_false] at h
  rcases h with (hplain | hmark) | rfl
  · omega
  · rcases hmark with rfl | rfl | rfl | rfl | rfl | rfl | rfl | rfl | rfl <;> decide
  · decide

theorem isEncodedUnit_of_mem_escapeByte {b : Nat} (hb : b < 0x100) {c : CodeUnit}
    (hc : c ∈ escapeByte componentMarks b) : isEncodedUnit c = true := by
  have hdigit : ∀ n < 16, isEncodedUnit (hexDigit n) = true := by decide
  rw [escapeByte] at hc
  split_ifs at hc with hplain
  · rw [List.mem_singleton.mp hc, isEncodedUnit, toNat_toUInt16 (by omega), hplain]
    rfl
  · simp only [percentByte, List.mem_cons, List.not_mem_nil, or_false] at hc
    rcases hc with rfl | rfl | rfl
    · decide
    · exact hdigit _ (by omega)
    · exact hdigit _ (by omega)

theorem plusTo_append (w rest : Text) :
    plusTo space (w ++ rest) = plusTo space w ++ plusTo space rest :=
  List.map_append

theorem plusTo_of_not_mem {w : Text} (h : plusSign ∉ w) : plusTo space w = w := by
  rw [plusTo]
  refine (List.map_congr_left fun c hc => ?_).trans (List.map_id w)
  have hne : c ≠ plusSign := fun heq => h (heq ▸ hc)
  rw [if_neg hne, id]

/-- A byte that was escaped, or left as it is, is read back. -/
theorem percentBytes_escapeByte {b : Nat} (hb : b < 0x100) (rest : List Nat) :
    percentBytes ((escapeByte componentMarks b).map UInt16.toNat ++ rest) =
      b :: percentBytes rest := by
  rw [escapeByte]
  split_ifs with hplain
  · have hpercent : b ≠ 0x25 := by
      rintro rfl
      exact absurd hplain (by decide)
    have hunit : [b.toUInt16].map UInt16.toNat = [b] := by
      rw [List.map_singleton, toNat_toUInt16 (by omega)]
    rw [hunit]
    exact percentBytes_cons hpercent rest
  · exact percentBytes_percentByte hb rest

/-- Escaped characters are read as themselves. -/
theorem spells_points {points : List Nat} (h : ∀ p ∈ points, IsScalar p) :
    Spells (points.flatMap fun p => (encodeUtf8 p).flatMap (escapeByte componentMarks)) points := by
  have hbytes : ∀ bytes : List Nat, (∀ b ∈ bytes, b < 0x100) → ∀ rest : Text,
      percentBytes (utf8Bytes (plusTo space (bytes.flatMap (escapeByte componentMarks) ++ rest))) =
        bytes ++ percentBytes (utf8Bytes (plusTo space rest)) := by
    intro bytes hbytes rest
    induction bytes with
    | nil => rfl
    | cons b bytes ih =>
        obtain ⟨hb, hbytes⟩ := List.forall_mem_cons.mp hbytes
        have hunit := fun c (hc : c ∈ escapeByte componentMarks b) =>
          isEncodedUnit_of_mem_escapeByte hb hc
        have hplus : plusSign ∉ escapeByte componentMarks b := fun hmem =>
          absurd (hunit _ hmem) (by decide)
        rw [List.flatMap_cons, List.append_assoc, plusTo_append, plusTo_of_not_mem hplus,
          utf8Bytes_append_ascii fun c hc => ascii_of_isEncodedUnit (hunit c hc),
          percentBytes_escapeByte hb, ih hbytes, List.cons_append]
  intro rest
  rw [← List.flatMap_assoc]
  refine hbytes _ (fun b hb => ?_) rest
  obtain ⟨p, hp, hb⟩ := List.mem_flatMap.mp hb
  exact encodeUtf8_lt (h p hp).2 b hb

theorem eq_of_mem_encodeUtf8 {p b : Nat} (hb : b < 0x80) (h : b ∈ encodeUtf8 p) : p = b := by
  unfold encodeUtf8 at h
  split_ifs at h <;> simp at h <;> omega

end Library
