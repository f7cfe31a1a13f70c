import Wayfarer.Library.Base64
import Wayfarer.Library.Percent

/-!
# Reading a form

`searchParams` reads the pairs of an `application/x-www-form-urlencoded` text, as `URLSearchParams`
does with any text at all: cut at the ampersands, each piece at its first equals sign, the escapes
that can be read undone and the bytes read as UTF-8, with a replacement character where they are
none.

`searchParams_formSerialize` is the round trip: the pairs that were written are read back, their
lone surrogates replaced.
-/

set_option autoImplicit false

namespace Library

/-! ## Cutting -/

/-- Pieces without the separator that were joined are cut apart again. -/
theorem splitOn_append_cons {sep : CodeUnit} {piece : Text} (h : sep ∉ piece) (rest : Text) :
    splitOn sep (piece ++ sep :: rest) = piece :: splitOn sep rest := by
  induction piece with
  | nil => simp [splitOn]
  | cons c piece ih =>
      obtain ⟨hc, hpiece⟩ := not_or.mp (mt List.mem_cons.mpr h)
      rw [List.cons_append, splitOn, if_neg (Ne.symm hc), ih hpiece]

theorem splitOn_ne_nil (sep : CodeUnit) (t : Text) : splitOn sep t ≠ [] := by
  cases t with
  | nil => simp [splitOn]
  | cons c t =>
      rw [splitOn]
      split_ifs
      · simp
      · cases splitOn sep t <;> simp

/-- A text with a separator is cut there, whatever stands before it. -/
theorem splitOn_append_sep (sep : CodeUnit) (a b : Text) :
    splitOn sep (a ++ sep :: b) = splitOn sep a ++ splitOn sep b := by
  induction a with
  | nil => simp [splitOn]
  | cons c a ih =>
      rw [List.cons_append, splitOn, splitOn, ih]
      split_ifs
      · rfl
      · cases hpieces : splitOn sep a with
        | nil => exact absurd hpieces (splitOn_ne_nil sep a)
        | cons piece pieces => rfl

theorem splitOn_of_not_mem {sep : CodeUnit} {piece : Text} (h : sep ∉ piece) :
    splitOn sep piece = [piece] := by
  induction piece with
  | nil => rfl
  | cons c piece ih =>
      obtain ⟨hc, hpiece⟩ := not_or.mp (mt List.mem_cons.mpr h)
      rw [splitOn, if_neg (Ne.symm hc), ih hpiece]

theorem splitOn_joinWith {sep : CodeUnit} {pieces : List Text} (hne : pieces ≠ [])
    (h : ∀ piece ∈ pieces, sep ∉ piece) : splitOn sep (joinWith [sep] pieces) = pieces := by
  induction pieces with
  | nil => exact absurd rfl hne
  | cons piece pieces ih =>
      obtain ⟨hpiece, hrest⟩ := List.forall_mem_cons.mp h
      cases pieces with
      | nil =>
          rw [joinWith, List.intercalate_singleton]
          exact splitOn_of_not_mem hpiece
      | cons next pieces =>
          have hjoin : joinWith [sep] (piece :: next :: pieces) =
              piece ++ sep :: joinWith [sep] (next :: pieces) := by
            simp [joinWith, List.intercalate_cons_cons]
          rw [hjoin, splitOn_append_cons hpiece, ih (by simp) hrest]

/-- Joined texts are cut as each of them is. -/
theorem splitOn_joinWith_eq_flatMap {sep : CodeUnit} {pieces : List Text} (hne : pieces ≠ []) :
    splitOn sep (joinWith [sep] pieces) = pieces.flatMap (splitOn sep) := by
  induction pieces with
  | nil => exact absurd rfl hne
  | cons piece pieces ih =>
      cases pieces with
      | nil => simp [joinWith]
      | cons next pieces =>
          have hjoin : joinWith [sep] (piece :: next :: pieces) =
              piece ++ sep :: joinWith [sep] (next :: pieces) := by
            simp [joinWith, List.intercalate_cons_cons]
          rw [hjoin, splitOn_append_sep, ih (List.cons_ne_nil _ _), ← List.flatMap_cons]

/-- What follows a text without the separator in it goes to its last piece. -/
theorem exists_splitOn_append (sep : CodeUnit) (a : Text) :
    ∃ front last, (∀ c ∈ last, c ∈ a) ∧
      ∀ b, sep ∉ b → splitOn sep (a ++ b) = front ++ [last ++ b] := by
  induction a with
  | nil => exact ⟨[], [], fun c hc => hc, fun b hb => splitOn_of_not_mem hb⟩
  | cons c a ih =>
      obtain ⟨front, last, hlast, hsplit⟩ := ih
      by_cases hc : c = sep
      · refine ⟨[] :: front, last, fun d hd => List.mem_cons_of_mem _ (hlast d hd), ?_⟩
        intro b hb
        rw [List.cons_append, splitOn, if_pos hc, hsplit b hb]
        rfl
      · cases front with
        | nil =>
            refine ⟨[], c :: last, ?_, ?_⟩
            · intro d hd
              rcases List.mem_cons.mp hd with rfl | hd
              · exact List.mem_cons_self
              · exact List.mem_cons_of_mem _ (hlast d hd)
            · intro b hb
              rw [List.cons_append, splitOn, if_neg hc, hsplit b hb]
              rfl
        | cons first front =>
            refine ⟨(c :: first) :: front, last,
              fun d hd => List.mem_cons_of_mem _ (hlast d hd), ?_⟩
            intro b hb
            rw [List.cons_append, splitOn, if_neg hc, hsplit b hb]
            rfl

/-- What a piece holds, the joined text holds. -/
theorem mem_joinWith_of_mem {c : CodeUnit} {sep piece : Text} {pieces : List Text}
    (hpiece : piece ∈ pieces) (hc : c ∈ piece) : c ∈ joinWith sep pieces := by
  induction pieces with
  | nil => cases hpiece
  | cons first pieces ih =>
      cases pieces with
      | nil =>
          obtain rfl := List.mem_singleton.mp hpiece
          simpa [joinWith] using hc
      | cons next pieces =>
          have hjoin : joinWith sep (first :: next :: pieces) =
              first ++ (sep ++ joinWith sep (next :: pieces)) := by
            simp [joinWith, List.intercalate_cons_cons]
          rw [hjoin]
          obtain rfl | hlater := List.mem_cons.mp hpiece
          · exact List.mem_append_left _ hc
          · exact List.mem_append_right _ (List.mem_append_right _ (ih hlater))

/-- What the joined text holds, a piece holds or the separator. -/
theorem of_mem_joinWith {c : CodeUnit} {sep : Text} {pieces : List Text}
    (h : c ∈ joinWith sep pieces) : c ∈ sep ∨ ∃ piece ∈ pieces, c ∈ piece := by
  induction pieces with
  | nil => cases h
  | cons first pieces ih =>
      cases pieces with
      | nil => exact .inr ⟨first, List.mem_cons_self, by simpa [joinWith] using h⟩
      | cons next pieces =>
          have hjoin : joinWith sep (first :: next :: pieces) =
              first ++ (sep ++ joinWith sep (next :: pieces)) := by
            simp [joinWith, List.intercalate_cons_cons]
          rw [hjoin] at h
          obtain hfirst | h := List.mem_append.mp h
          · exact .inr ⟨first, List.mem_cons_self, hfirst⟩
          · obtain hsep | hrest := List.mem_append.mp h
            · exact .inl hsep
            · obtain hsep | ⟨piece, hpiece, hmem⟩ := ih hrest
              · exact .inl hsep
              · exact .inr ⟨piece, List.mem_cons_of_mem _ hpiece, hmem⟩

/-- A text is cut at the first separator. -/
theorem cutAt_append_cons {sep : CodeUnit} {name : Text} (h : sep ∉ name) (value : Text) :
    cutAt sep (name ++ sep :: value) = (name, some value) := by
  induction name with
  | nil => simp [cutAt]
  | cons c name ih =>
      obtain ⟨hc, hname⟩ := not_or.mp (mt List.mem_cons.mpr h)
      rw [List.cons_append, cutAt, if_neg (Ne.symm hc), ih hname]

theorem cutAt_eq_none_iff {sep : CodeUnit} {t : Text} : (cutAt sep t).2 = none ↔ sep ∉ t := by
  induction t with
  | nil => simp [cutAt]
  | cons c t ih =>
      rw [cutAt]
      split_ifs with hc
      · simp [hc]
      · simp [ih, Ne.symm hc]

theorem cutAt_of_not_mem {sep : CodeUnit} {t : Text} (h : sep ∉ t) : cutAt sep t = (t, none) := by
  induction t with
  | nil => rfl
  | cons c t ih =>
      obtain ⟨hc, hrest⟩ := not_or.mp (mt List.mem_cons.mpr h)
      rw [cutAt, if_neg (Ne.symm hc), ih hrest]

/-- What stands in front of the separator stays in front of it. -/
theorem cutAt_append {sep : CodeUnit} {a : Text} (h : sep ∉ a) (b : Text) :
    cutAt sep (a ++ b) = (a ++ (cutAt sep b).1, (cutAt sep b).2) := by
  induction a with
  | nil => rfl
  | cons c a ih =>
      obtain ⟨hc, hrest⟩ := not_or.mp (mt List.mem_cons.mpr h)
      rw [List.cons_append, cutAt, if_neg (Ne.symm hc), ih hrest]
      rfl

/-- A text that holds the separator is cut there, whatever follows. -/
theorem cutAt_append_of_mem {sep : CodeUnit} {a : Text} (h : sep ∈ a) (b : Text) :
    (cutAt sep (a ++ b)).1 = (cutAt sep a).1 := by
  induction a with
  | nil => cases h
  | cons c a ih =>
      rw [List.cons_append, cutAt, cutAt]
      split_ifs with hc
      · rfl
      · rw [ih ((List.mem_cons.mp h).resolve_left (Ne.symm hc))]

/-- The two parts of a text. -/
theorem append_of_cutAt {sep : CodeUnit} {t a b : Text} (h : cutAt sep t = (a, some b)) :
    t = a ++ sep :: b := by
  induction t generalizing a with
  | nil => cases h
  | cons c t ih =>
      rw [cutAt] at h
      split_ifs at h with hc
      · cases h
        rw [hc]
        rfl
      · obtain ⟨rfl, hrest⟩ := Prod.mk.inj h
        have heq := ih (Prod.ext rfl hrest)
        rw [List.cons_append, ← heq]

theorem not_mem_cutAt (sep : CodeUnit) (t : Text) : sep ∉ (cutAt sep t).1 := by
  induction t with
  | nil => exact List.not_mem_nil
  | cons c t ih =>
      rw [cutAt]
      split_ifs with hc
      · exact List.not_mem_nil
      · rw [List.mem_cons, not_or]
        exact ⟨Ne.symm hc, ih⟩

/-- The parts of a text hold nothing the text does not. -/
theorem mem_of_mem_cutAt {sep c : CodeUnit} {t : Text}
    (h : c ∈ (cutAt sep t).1 ∨ ∃ rest, (cutAt sep t).2 = some rest ∧ c ∈ rest) : c ∈ t := by
  cases hcut : cutAt sep t with
  | mk a after =>
      rw [hcut] at h
      cases after with
      | none =>
          have hnone := cutAt_of_not_mem (cutAt_eq_none_iff.mp (congrArg Prod.snd hcut))
          rw [hcut] at hnone
          obtain ⟨rfl, -⟩ := Prod.mk.inj hnone
          rcases h with h | ⟨rest, hrest, -⟩
          · exact h
          · cases hrest
      | some b =>
          rw [append_of_cutAt hcut]
          rcases h with h | ⟨rest, hrest, h⟩
          · exact List.mem_append_left _ h
          · cases hrest
            exact List.mem_append_right _ (List.mem_cons_of_mem _ h)

/-! ## Bytes -/

/-- Bytes with the escapes that can be read undone, the others left as they are. -/
def percentBytes : List Nat → List Nat
  | b :: d :: e :: rest =>
      if b = 0x25 then
        match hexValue d.toUInt16, hexValue e.toUInt16 with
        | some high, some low => (high * 16 + low) :: percentBytes rest
        | _, _ => b :: percentBytes (d :: e :: rest)
      else b :: percentBytes (d :: e :: rest)
  | short => short

/-- A byte that starts no escape stands for itself. -/
theorem percentBytes_cons {b : Nat} (hb : b ≠ 0x25) (rest : List Nat) :
    percentBytes (b :: rest) = b :: percentBytes rest := by
  match rest with
  | [] => rfl
  | [_] => rfl
  | _ :: _ :: _ => simp [percentBytes, hb]

theorem percentBytes_percentByte {b : Nat} (hb : b < 0x100) (rest : List Nat) :
    percentBytes ((percentByte b).map UInt16.toNat ++ rest) = b :: percentBytes rest := by
  have hback : ∀ c : CodeUnit, c.toNat.toUInt16 = c := fun c => by simp [Nat.toUInt16]
  have hhigh : hexValue (hexDigit (b / 16)) = some (b / 16) := hexValue_hexDigit (by omega)
  have hlow : hexValue (hexDigit (b % 16)) = some (b % 16) := hexValue_hexDigit (by omega)
  have hsign : percentSign.toNat = 0x25 := rfl
  simp only [percentByte, List.map_cons, List.map_nil, List.cons_append, List.nil_append,
    percentBytes, hback, hhigh, hlow, hsign, if_true]
  rw [Nat.div_add_mod' b 16]

/-- A byte as a form writes it is read back. -/
theorem percentBytes_formByte {b : Nat} (hb : b < 0x100) (rest : List Nat) :
    percentBytes ((plusTo space (formByte b)).map UInt16.toNat ++ rest) =
      b :: percentBytes rest := by
  rw [formByte]
  by_cases hspace : b = 0x20
  · rw [if_pos hspace, hspace]
    have hunit : (plusTo space [plusSign]).map UInt16.toNat = [0x20] := by decide
    rw [hunit]
    exact percentBytes_cons (by decide) rest
  · rw [if_neg hspace, escapeByte]
    by_cases hplain : (isAlphanumeric b || formMarks.contains b.toUInt16) = true
    · obtain ⟨hascii, hplus, hpercent⟩ := formPlain_bounds hb hplain
      have hunit : (plusTo space [b.toUInt16]).map UInt16.toNat = [b] := by
        simp [plusTo, hplus, Nat.mod_eq_of_lt (show b < 65536 by omega)]
      rw [if_pos hplain, hunit]
      apply percentBytes_cons
      rintro rfl
      exact hpercent rfl
    · rw [if_neg hplain, plusTo_percentByte space hb]
      exact percentBytes_percentByte hb rest

theorem percentBytes_formBytes {bytes : List Nat} (hbytes : ∀ b ∈ bytes, b < 0x100) :
    percentBytes ((plusTo space (bytes.flatMap formByte)).map UInt16.toNat) = bytes := by
  induction bytes with
  | nil => rfl
  | cons b bytes ih =>
      obtain ⟨hb, hrest⟩ := List.forall_mem_cons.mp hbytes
      have hsplit : (plusTo space ((b :: bytes).flatMap formByte)).map UInt16.toNat =
          (plusTo space (formByte b)).map UInt16.toNat ++
            (plusTo space (bytes.flatMap formByte)).map UInt16.toNat := by
        simp [plusTo]
      rw [hsplit, percentBytes_formByte hb, ih hrest]

/-! ## UTF-8 with replacements -/

/-- A character that is being read: its value so far, how many bytes are left of it, and between
what the next one must lie. -/
structure Utf8Reader where
  point : Nat := 0
  left : Nat := 0
  lower : Nat := 0x80
  upper : Nat := 0xBF

/-- The reader at the first byte of a character, and what that byte alone stands for. -/
def utf8Start (b : Nat) : List Nat × Utf8Reader :=
  if b ≤ 0x7F then ([b], {})
  else if 0xC2 ≤ b ∧ b ≤ 0xDF then ([], { point := b - 0xC0, left := 1 })
  else if 0xE0 ≤ b ∧ b ≤ 0xEF then
    ([], { point := b - 0xE0, left := 2, lower := if b = 0xE0 then 0xA0 else 0x80,
           upper := if b = 0xED then 0x9F else 0xBF })
  else if 0xF0 ≤ b ∧ b ≤ 0xF4 then
    ([], { point := b - 0xF0, left := 3, lower := if b = 0xF0 then 0x90 else 0x80,
           upper := if b = 0xF4 then 0x8F else 0xBF })
  else ([replacement], {})

/-- The reader at its next byte. -/
def Utf8Reader.next (r : Utf8Reader) (b : Nat) : List Nat × Utf8Reader :=
  if r.left = 0 then utf8Start b
  else if r.lower ≤ b ∧ b ≤ r.upper then
    let point := r.point * 0x40 + (b - 0x80)
    if r.left = 1 then ([point], {}) else ([], { point, left := r.left - 1 })
  else
    -- The character broke off; this byte is read anew.
    (replacement :: (utf8Start b).1, (utf8Start b).2)

/-- The code points of bytes, a replacement for what is no character. -/
def utf8Points : Utf8Reader → List Nat → List Nat
  | r, [] => if r.left = 0 then [] else [replacement]
  | r, b :: rest => (r.next b).1 ++ utf8Points (r.next b).2 rest

theorem utf8Points_start {b : Nat} {r : Utf8Reader} (h : utf8Start b = ([], r))
    (rest : List Nat) : utf8Points {} (b :: rest) = utf8Points r rest := by
  have hnext : Utf8Reader.next {} b = ([], r) := h
  rw [utf8Points, hnext, List.nil_append]

theorem utf8Points_more {r : Utf8Reader} {b n : Nat} (hleft : r.left = n + 2)
    (hlower : r.lower ≤ b) (hupper : b ≤ r.upper) (rest : List Nat) :
    utf8Points r (b :: rest) =
      utf8Points { point := r.point * 0x40 + (b - 0x80), left := n + 1 } rest := by
  have hnext : r.next b = ([], { point := r.point * 0x40 + (b - 0x80), left := n + 1 }) := by
    simp [Utf8Reader.next, hleft, hlower, hupper]
  rw [utf8Points, hnext, List.nil_append]

theorem utf8Points_last {r : Utf8Reader} {b : Nat} (hleft : r.left = 1) (hlower : r.lower ≤ b)
    (hupper : b ≤ r.upper) (rest : List Nat) :
    utf8Points r (b :: rest) = (r.point * 0x40 + (b - 0x80)) :: utf8Points {} rest := by
  have hnext : r.next b = ([r.point * 0x40 + (b - 0x80)], {}) := by
    simp [Utf8Reader.next, hleft, hlower, hupper]
  rw [utf8Points, hnext, List.singleton_append]

/-- The UTF-8 of a character is read as that character. -/
theorem utf8Points_encodeUtf8 {p : Nat} (hp : IsScalar p) (rest : List Nat) :
    utf8Points {} (encodeUtf8 p ++ rest) = p :: utf8Points {} rest := by
  obtain ⟨hsurrogate, hlt⟩ := hp
  simp only [isSurrogate, Bool.and_eq_false_iff, decide_eq_false_iff_not] at hsurrogate
  rw [encodeUtf8]
  split_ifs with h1 h2 h3
  · simp [utf8Points, Utf8Reader.next, utf8Start, show p ≤ 0x7F by omega]
  · have hstart : utf8Start (0xC0 + p / 0x40) = ([], { point := p / 0x40, left := 1 }) := by
      rw [utf8Start, if_neg (by omega), if_pos (by omega), Nat.add_sub_cancel_left]
    have hvalue : p / 0x40 * 0x40 + (0x80 + p % 0x40 - 0x80) = p := by omega
    rw [List.cons_append, List.singleton_append, utf8Points_start hstart,
      utf8Points_last rfl (by dsimp only; omega) (by dsimp only; omega), hvalue]
  · have hstart : utf8Start (0xE0 + p / 0x1000) =
        ([], { point := p / 0x1000, left := 2,
               lower := if 0xE0 + p / 0x1000 = 0xE0 then 0xA0 else 0x80,
               upper := if 0xE0 + p / 0x1000 = 0xED then 0x9F else 0xBF }) := by
      rw [utf8Start, if_neg (by omega), if_neg (by omega), if_pos (by omega),
        Nat.add_sub_cancel_left]
    have hlower : (if 0xE0 + p / 0x1000 = 0xE0 then 0xA0 else 0x80) ≤ 0x80 + p / 0x40 % 0x40 := by
      split_ifs <;> omega
    have hupper : 0x80 + p / 0x40 % 0x40 ≤ if 0xE0 + p / 0x1000 = 0xED then 0x9F else 0xBF := by
      split_ifs <;> omega
    have hvalue : (p / 0x1000 * 0x40 + (0x80 + p / 0x40 % 0x40 - 0x80)) * 0x40 +
        (0x80 + p % 0x40 - 0x80) = p := by omega
    rw [List.cons_append, List.cons_append, List.singleton_append, utf8Points_start hstart,
      utf8Points_more (n := 0) rfl hlower hupper,
      utf8Points_last rfl (by dsimp only; omega) (by dsimp only; omega), hvalue]
  · have hstart : utf8Start (0xF0 + p / 0x40000) =
        ([], { point := p / 0x40000, left := 3,
               lower := if 0xF0 + p / 0x40000 = 0xF0 then 0x90 else 0x80,
               upper := if 0xF0 + p / 0x40000 = 0xF4 then 0x8F else 0xBF }) := by
      rw [utf8Start, if_neg (by omega), if_neg (by omega), if_neg (by omega), if_pos (by omega),
        Nat.add_sub_cancel_left]
    have hlower : (if 0xF0 + p / 0x40000 = 0xF0 then 0x90 else 0x80) ≤
        0x80 + p / 0x1000 % 0x40 := by
      split_ifs <;> omega
    have hupper : 0x80 + p / 0x1000 % 0x40 ≤
        if 0xF0 + p / 0x40000 = 0xF4 then 0x8F else 0xBF := by
      split_ifs <;> omega
    have hvalue : ((p / 0x40000 * 0x40 + (0x80 + p / 0x1000 % 0x40 - 0x80)) * 0x40 +
        (0x80 + p / 0x40 % 0x40 - 0x80)) * 0x40 + (0x80 + p % 0x40 - 0x80) = p := by omega
    rw [List.cons_append, List.cons_append, List.cons_append, List.singleton_append,
      utf8Points_start hstart, utf8Points_more (n := 1) rfl hlower hupper,
      utf8Points_more (n := 0) rfl (by dsimp only; omega) (by dsimp only; omega),
      utf8Points_last rfl (by dsimp only; omega) (by dsimp only; omega), hvalue]

theorem utf8Points_flatMap {points : List Nat} (h : ∀ p ∈ points, IsScalar p) :
    utf8Points {} (points.flatMap encodeUtf8) = points := by
  induction points with
  | nil => rfl
  | cons p points ih =>
      obtain ⟨hp, hrest⟩ := List.forall_mem_cons.mp h
      rw [List.flatMap_cons, utf8Points_encodeUtf8 hp, ih hrest]

/-! ## The pairs of a form -/

/-- A name or a value as it is read from a form. -/
def formDecode (t : Text) : Text :=
  ofCodePoints (utf8Points {} (percentBytes (utf8Bytes (plusTo space t))))

/-- A piece of a form as a pair. -/
def formPiece (piece : Text) : Text × Text :=
  let (name, value) := cutAt 0x3D piece
  (formDecode name, formDecode (value.getD []))

/-- The pairs of a form. -/
def formParse (t : Text) : List (Text × Text) :=
  ((splitOn 0x26 t).filter fun piece => piece ≠ []).map formPiece

/-- `new URLSearchParams` of a text: a question mark in front of it is no part of the form. -/
def searchParams (t : Text) : List (Text × Text) :=
  formParse (if (units "?").isPrefixOf t then t.drop 1 else t)

/-- Lone surrogates replaced on both sides of a pair. -/
def scrubPair (pair : Text × Text) : Text × Text :=
  (scrub pair.1, scrub pair.2)

/-- A text of ASCII characters is its bytes. -/
theorem utf8Bytes_of_ascii {t : Text} (h : ∀ c ∈ t, c.toNat < 0x80) :
    utf8Bytes t = t.map UInt16.toNat := by
  induction t with
  | nil => rfl
  | cons c t ih =>
      obtain ⟨hc, hrest⟩ := List.forall_mem_cons.mp h
      have hhigh : isHigh c = false := by
        simp [isHigh]
        omega
      have hscalar : scalar c.toNat = c.toNat := by
        rw [scalar, if_neg]
        simp [isSurrogate]
        omega
      have ih := ih hrest
      rw [utf8Bytes] at ih ⊢
      rw [codePoints_cons hhigh, List.map_cons, List.flatMap_cons, ih, hscalar, encodeUtf8,
        if_pos hc]
      rfl

theorem isScalar_of_mem_map_scalar {t : Text} :
    ∀ p ∈ (codePoints t).map scalar, IsScalar p := by
  intro p hp
  obtain ⟨q, hq, rfl⟩ := List.mem_map.mp hp
  exact isScalar_scalar (codePoints_lt t q hq)

/-- What a form writes is ASCII. -/
theorem ascii_formText (t : Text) : ∀ c ∈ formText t, c.toNat < 0x80 := by
  intro c hc
  have hunit := isFormUnit_of_mem_formText hc
  have hunits : formMarks = [0x2A, 0x2D, 0x2E, 0x5F] := by decide
  simp only [isFormUnit, isAlphanumeric, hunits, Bool.or_eq_true, Bool.and_eq_true,
    decide_eq_true_eq, List.contains_iff_mem, List.mem_cons, List.not_mem_nil, or_false] at hunit
  rcases hunit with ((hplain | hmark) | rfl) | rfl
  · omega
  · rcases hmark with rfl | rfl | rfl | rfl <;> decide
  · decide
  · decide

theorem formDecode_formText (t : Text) : formDecode (formText t) = scrub t := by
  have hscalar := isScalar_of_mem_map_scalar (t := t)
  have hbytes : ∀ b ∈ ((codePoints t).map scalar).flatMap encodeUtf8, b < 0x100 := by
    intro b hb
    obtain ⟨p, hp, hmem⟩ := List.mem_flatMap.mp hb
    exact encodeUtf8_lt (hscalar p hp).2 b hmem
  have hascii : ∀ c ∈ plusTo space (formText t), c.toNat < 0x80 := by
    intro c hc
    obtain ⟨d, hd, rfl⟩ := List.mem_map.mp hc
    split_ifs
    · decide
    · exact ascii_formText t d hd
  have hflat : formText t =
      (((codePoints t).map scalar).flatMap encodeUtf8).flatMap formByte := by
    rw [formText, List.flatMap_assoc]
  rw [formDecode, utf8Bytes_of_ascii hascii, hflat, percentBytes_formBytes hbytes,
    utf8Points_flatMap hscalar, scrub]

/-- The separators of a form are not in what it writes. -/
theorem not_mem_formText (t : Text) :
    0x26 ∉ formText t ∧ 0x3D ∉ formText t ∧ 0x3F ∉ formText t := by
  refine ⟨not_mem_formText_of_other ?_, not_mem_formText_of_other ?_,
    not_mem_formText_of_other ?_⟩ <;> decide

/-- A form writes no white space. -/
theorem isWhite_formText {t : Text} {c : CodeUnit} (h : c ∈ formText t) : isWhite c = false := by
  have hwhite : whiteSpace.all (fun c => !isFormUnit c) = true := by decide
  rw [← Bool.not_eq_true, isWhite, List.contains_iff_mem]
  intro hmem
  have hother := List.all_eq_true.mp hwhite c hmem
  rw [isFormUnit_of_mem_formText h] at hother
  cases hother

theorem formPiece_formPair (pair : Text × Text) : formPiece (formPair pair) = scrubPair pair := by
  have hunits : units "=" = [0x3D] := by decide
  rw [formPair, hunits, List.append_assoc, List.singleton_append, formPiece,
    cutAt_append_cons (not_mem_formText pair.1).2.1]
  simp only [Option.getD_some, formDecode_formText, scrubPair]

/-- The pairs a form was written of are read back from it. -/
theorem formParse_formSerialize (pairs : List (Text × Text)) :
    formParse (formSerialize pairs) = pairs.map scrubPair := by
  by_cases hne : pairs = []
  · subst hne
    rfl
  · have hunits : units "&" = [0x26] := by decide
    have hequals : units "=" = [0x3D] := by decide
    have hpiece : ∀ piece ∈ pairs.map formPair, 0x26 ∉ piece := by
      intro piece hmem
      obtain ⟨pair, -, rfl⟩ := List.mem_map.mp hmem
      simp [formPair, hequals, (not_mem_formText pair.1).1, (not_mem_formText pair.2).1]
    have hfull : ∀ piece ∈ pairs.map formPair, decide (piece ≠ []) = true := by
      intro piece hmem
      obtain ⟨pair, -, rfl⟩ := List.mem_map.mp hmem
      simp [formPair, hequals]
    rw [formParse, formSerialize, hunits, splitOn_joinWith (by simpa using hne) hpiece,
      List.filter_eq_self.mpr hfull, List.map_map]
    apply List.map_congr_left
    intro pair _
    exact formPiece_formPair pair

theorem searchParams_formSerialize (pairs : List (Text × Text)) :
    searchParams (formSerialize pairs) = pairs.map scrubPair := by
  have hmark : 0x3F ∉ formSerialize pairs :=
    not_mem_formSerialize (by decide) (by decide) (by decide) pairs
  rw [searchParams, if_neg]
  · exact formParse_formSerialize pairs
  · intro hstart
    obtain ⟨rest, hrest⟩ := List.isPrefixOf_iff_prefix.mp hstart
    have hunits : units "?" = [0x3F] := by decide
    rw [hunits, List.singleton_append] at hrest
    exact hmark (hrest ▸ List.mem_cons_self)

/-! ## Texts whose lone surrogates were replaced -/

/-- A character that is written is read as one code point. -/
theorem codePoints_unitsOf_append {p : Nat} (hp : IsScalar p) (rest : Text) :
    codePoints (unitsOf p ++ rest) = p :: codePoints rest := by
  obtain ⟨hsurrogate, hlt⟩ := hp
  rw [unitsOf]
  split_ifs with hplane
  · have hhigh : isHigh p.toUInt16 = false := by
      simp only [isSurrogate, Bool.and_eq_false_iff, decide_eq_false_iff_not] at hsurrogate
      simp only [isHigh, toNat_toUInt16 hplane, Bool.and_eq_false_iff, decide_eq_false_iff_not]
      omega
    rw [List.singleton_append, codePoints_cons hhigh, toNat_toUInt16 hplane]
  · have hfirst := toNat_toUInt16 (n := 0xD800 + (p - 0x10000) / 0x400) (by omega)
    have hsecond := toNat_toUInt16 (n := 0xDC00 + (p - 0x10000) % 0x400) (by omega)
    have hpair : (isHigh (0xD800 + (p - 0x10000) / 0x400).toUInt16 &&
        isLow (0xDC00 + (p - 0x10000) % 0x400).toUInt16) = true := by
      simp only [isHigh, isLow, hfirst, hsecond, Bool.and_eq_true, decide_eq_true_eq]
      omega
    rw [List.cons_append, List.cons_append, List.nil_append, codePoints, if_pos hpair, hfirst,
      hsecond]
    have hvalue : 0x10000 + (0xD800 + (p - 0x10000) / 0x400 - 0xD800) * 0x400 +
        (0xDC00 + (p - 0x10000) % 0x400 - 0xDC00) = p := by omega
    rw [hvalue]

/-- The code points of a text that was made of characters are those characters. -/
theorem codePoints_ofCodePoints {points : List Nat} (h : ∀ p ∈ points, IsScalar p) :
    codePoints (ofCodePoints points) = points := by
  induction points with
  | nil => rfl
  | cons p points ih =>
      have hrest := ih fun q hq => h q (List.mem_cons_of_mem p hq)
      rw [ofCodePoints, List.flatMap_cons, codePoints_unitsOf_append (h p List.mem_cons_self)]
      exact congrArg (List.cons p) hrest

theorem map_scalar_of_isScalar {points : List Nat} (h : ∀ p ∈ points, IsScalar p) :
    points.map scalar = points := by
  apply (List.map_congr_left fun p hp => _).trans (List.map_id _)
  intro p hp
  rw [scalar, (h p hp).1]
  rfl

/-- A form writes a text as it writes it with its lone surrogates replaced. -/
theorem formText_scrub (t : Text) : formText (scrub t) = formText t := by
  rw [formText, scrub, codePoints_ofCodePoints isScalar_of_mem_map_scalar,
    map_scalar_of_isScalar isScalar_of_mem_map_scalar]
  rfl

theorem formSerialize_map_scrubPair (pairs : List (Text × Text)) :
    formSerialize (pairs.map scrubPair) = formSerialize pairs := by
  rw [formSerialize, formSerialize, List.map_map]
  congr 1
  apply List.map_congr_left
  intro pair _
  rw [Function.comp_apply, formPair, scrubPair, formText_scrub, formText_scrub]
  rfl

/-- What a form writes of a text is empty only where the text is. -/
theorem formText_eq_nil_iff {t : Text} : formText t = [] ↔ t = [] := by
  constructor
  · intro h
    have hscrub := formDecode_formText t
    rw [h] at hscrub
    have hempty : codePoints (scrub t) = [] := by
      rw [← hscrub]
      rfl
    rw [scrub, codePoints_ofCodePoints isScalar_of_mem_map_scalar, List.map_eq_nil_iff] at hempty
    rw [← ofCodePoints_codePoints t, hempty]
    rfl
  · rintro rfl
    rfl

/-- A form of no pairs is empty, and no other is. -/
theorem formSerialize_eq_nil_iff {pairs : List (Text × Text)} :
    formSerialize pairs = [] ↔ pairs = [] := by
  constructor
  · intro h
    by_contra hne
    obtain ⟨pair, rest, rfl⟩ := List.exists_cons_of_ne_nil hne
    have hequals : (0x3D : CodeUnit) ∈ formPair pair := by
      have hunits : units "=" = [0x3D] := by decide
      simp [formPair, hunits]
    have hmem : (0x3D : CodeUnit) ∈ formSerialize (pair :: rest) :=
      mem_joinWith_of_mem (List.mem_map_of_mem List.mem_cons_self) hequals
    rw [h] at hmem
    cases hmem
  · rintro rfl
    rfl

/-- The pairs of two forms. -/
theorem formParse_append (a b : Text) :
    formParse (a ++ 0x26 :: b) = formParse a ++ formParse b := by
  rw [formParse, splitOn_append_sep, List.filter_append, List.map_append]
  rfl

/-! ## What is read is characters -/

/-- What a reader may still come to: whatever bytes end its character, it is one. -/
def Utf8Reader.Sound (r : Utf8Reader) : Prop :=
  r.left = 0 ∨ 0x80 ≤ r.lower ∧ r.left ≤ 3 ∧
    ∀ p, (r.point * 0x40 + (r.lower - 0x80)) * 0x40 ^ (r.left - 1) ≤ p →
      p < (r.point * 0x40 + (r.upper + 1 - 0x80)) * 0x40 ^ (r.left - 1) → IsScalar p

theorem isScalar_of_lt {p : Nat} (hp : p < 0xD800 ∨ 0xDFFF < p) (hlt : p < 0x110000) :
    IsScalar p := by
  refine ⟨?_, hlt⟩
  simp only [isSurrogate, Bool.and_eq_false_iff, decide_eq_false_iff_not]
  omega

theorem sound_utf8Start (b : Nat) :
    (∀ p ∈ (utf8Start b).1, IsScalar p) ∧ (utf8Start b).2.Sound := by
  -- A byte that starts a point leaves the points that are still possible, all of them scalars.
  have hmore : ∀ r : Utf8Reader, 0x80 ≤ r.lower → r.left ≤ 3 →
      (∀ p, (r.point * 0x40 + (r.lower - 0x80)) * 0x40 ^ (r.left - 1) ≤ p →
        p < (r.point * 0x40 + (r.upper + 1 - 0x80)) * 0x40 ^ (r.left - 1) → IsScalar p) →
      (∀ p ∈ (([], r) : List Nat × Utf8Reader).1, IsScalar p) ∧
        (([], r) : List Nat × Utf8Reader).2.Sound := by
    intro r hlower hleft hrange
    exact ⟨fun p hp => absurd hp List.not_mem_nil, .inr ⟨hlower, hleft, hrange⟩⟩
  rw [utf8Start]
  by_cases h1 : b ≤ 0x7F
  · rw [if_pos h1]
    refine ⟨fun p hp => ?_, .inl rfl⟩
    obtain rfl := List.mem_singleton.mp hp
    exact isScalar_of_lt (by omega) (by omega)
  · rw [if_neg h1]
    by_cases h2 : 0xC2 ≤ b ∧ b ≤ 0xDF
    · rw [if_pos h2]
      apply hmore _ le_rfl (by simp)
      intro p hlo hhi
      simp only [Nat.sub_self, Nat.pow_zero, Nat.mul_one] at hlo hhi
      exact isScalar_of_lt (by omega) (by omega)
    · rw [if_neg h2]
      by_cases h3 : 0xE0 ≤ b ∧ b ≤ 0xEF
      · rw [if_pos h3]
        apply hmore _ _ (by simp)
        · intro p hlo hhi
          simp only [Nat.reduceSub, Nat.pow_one] at hlo hhi
          split_ifs at hlo hhi <;> exact isScalar_of_lt (by omega) (by omega)
        · dsimp only
          split_ifs <;> omega
      · rw [if_neg h3]
        by_cases h4 : 0xF0 ≤ b ∧ b ≤ 0xF4
        · rw [if_pos h4]
          apply hmore _ _ (by simp)
          · intro p hlo hhi
            simp only [Nat.reduceSub, Nat.reducePow] at hlo hhi
            split_ifs at hlo hhi <;> exact isScalar_of_lt (by omega) (by omega)
          · dsimp only
            split_ifs <;> omega
        · rw [if_neg h4]
          refine ⟨fun p hp => ?_, .inl rfl⟩
          obtain rfl := List.mem_singleton.mp hp
          exact ⟨by decide, by decide⟩

theorem Utf8Reader.Sound.next {r : Utf8Reader} (h : r.Sound) (b : Nat) :
    (∀ p ∈ (r.next b).1, IsScalar p) ∧ (r.next b).2.Sound := by
  obtain ⟨point, left, lower, upper⟩ := r
  rw [Utf8Reader.next]
  dsimp only at h ⊢
  by_cases hleft : left = 0
  · rw [if_pos hleft]
    exact sound_utf8Start b
  · obtain hnone | ⟨hlower, hmost, hrange⟩ := h
    · exact absurd hnone hleft
    · dsimp only at hlower hmost hrange
      rw [if_neg hleft]
      by_cases hbyte : lower ≤ b ∧ b ≤ upper
      · rw [if_pos hbyte]
        -- One more byte: the points that are possible become fewer.
        generalize hvalue : point * 0x40 + (b - 0x80) = value
        obtain hone | hmore : left = 1 ∨ 2 ≤ left := by omega
        · subst hone
          refine ⟨fun p hp => ?_, .inl rfl⟩
          obtain rfl := List.mem_singleton.mp hp
          simp only [Nat.sub_self, Nat.pow_zero, Nat.mul_one] at hrange
          exact hrange p (by omega) (by omega)
        · rw [if_neg (by omega)]
          refine ⟨fun p hp => absurd hp List.not_mem_nil, .inr ⟨le_rfl, ?_, fun p hlo hhi => ?_⟩⟩
          · dsimp only
            omega
          · dsimp only at hlo hhi
            obtain htwo | hthree : left = 2 ∨ left = 3 := by omega
            · subst htwo
              simp only [Nat.reduceAdd, Nat.reduceSub, Nat.pow_one, Nat.pow_zero, Nat.mul_one]
                at hrange hlo hhi
              exact hrange p (by omega) (by omega)
            · subst hthree
              simp only [Nat.reduceAdd, Nat.reduceSub, Nat.reducePow, Nat.pow_one] at hrange hlo hhi
              exact hrange p (by omega) (by omega)
      · -- A byte that does not go on: a replacement, and the byte starts anew.
        rw [if_neg hbyte]
        obtain ⟨hpoints, hsound⟩ := sound_utf8Start b
        refine ⟨fun p hp => ?_, hsound⟩
        obtain rfl | hp := List.mem_cons.mp hp
        · exact ⟨by decide, by decide⟩
        · exact hpoints p hp

/-- What bytes are read as is characters. -/
theorem isScalar_utf8Points {bytes : List Nat} {r : Utf8Reader} (h : r.Sound) :
    ∀ p ∈ utf8Points r bytes, IsScalar p := by
  induction bytes generalizing r with
  | nil =>
      intro p hp
      rw [utf8Points] at hp
      split_ifs at hp
      · cases hp
      · obtain rfl := List.mem_singleton.mp hp
        exact ⟨by decide, by decide⟩
  | cons b rest ih =>
      intro p hp
      rw [utf8Points] at hp
      obtain hp | hp := List.mem_append.mp hp
      · exact (h.next b).1 p hp
      · exact ih (h.next b).2 p hp

/-- What is read of a form has no lone surrogates. -/
theorem scrub_formDecode (t : Text) : scrub (formDecode t) = formDecode t := by
  have hscalar : ∀ n ∈ utf8Points {} (percentBytes (utf8Bytes (plusTo space t))),
      IsScalar n := isScalar_utf8Points (.inl rfl)
  rw [formDecode, scrub, codePoints_ofCodePoints hscalar, map_scalar_of_isScalar hscalar]

theorem map_scrubPair_formParse (t : Text) : (formParse t).map scrubPair = formParse t := by
  apply (List.map_congr_left fun pair hpair => _).trans (List.map_id _)
  intro pair hpair
  obtain ⟨piece, -, rfl⟩ := List.mem_map.mp hpair
  rw [scrubPair, formPiece, scrub_formDecode, scrub_formDecode]
  rfl


/-- A question mark stands for itself in a form. -/
theorem formDecode_questionMark (t : Text) : formDecode (0x3F :: t) = 0x3F :: formDecode t := by
  have hplus : plusTo space (0x3F :: t) = 0x3F :: plusTo space t := rfl
  have hbytes : utf8Bytes (0x3F :: plusTo space t) = 0x3F :: utf8Bytes (plusTo space t) := by
    rw [utf8Bytes, codePoints_cons (by decide)]
    rfl
  have hread : ∀ rest, utf8Points {} (0x3F :: rest) = 0x3F :: utf8Points {} rest := fun rest => rfl
  rw [formDecode, hplus, hbytes, percentBytes_cons (by decide), hread]
  rfl

/-- The name in front of it keeps a question mark, which a form read without it does not. -/
theorem formParse_questionMark_ne {t : Text} (h : 0x3D ∈ (splitOn 0x26 t).headD []) :
    formParse (0x3F :: t) ≠ formParse t := by
  obtain ⟨piece, pieces, hpieces⟩ := List.exists_cons_of_ne_nil (splitOn_ne_nil 0x26 t)
  have hsplit : splitOn 0x26 (0x3F :: t) = (0x3F :: piece) :: pieces := by
    rw [splitOn, if_neg (by decide), hpieces]
  rw [hpieces, List.headD_cons] at h
  have hfull : piece ≠ [] := by
    rintro rfl
    cases h
  intro hsame
  rw [formParse, formParse, hsplit, hpieces, List.filter_cons_of_pos (by simp),
    List.filter_cons_of_pos (by simpa using hfull), List.map_cons, List.map_cons] at hsame
  have hname := congrArg Prod.fst (List.cons.inj hsame).1
  have hcut : (cutAt 0x3D (0x3F :: piece)).1 = 0x3F :: (cutAt 0x3D piece).1 := by
    rw [cutAt, if_neg (by decide)]
  rw [formPiece, formPiece] at hname
  dsimp only at hname
  rw [hcut, formDecode_questionMark] at hname
  exact absurd (congrArg List.length hname) (by simp)

/-- The code points of characters of one byte each are the characters. -/
theorem codePoints_of_bytes {t : Text} (h : ∀ c ∈ t, c.toNat < 0x100) :
    codePoints t = t.map UInt16.toNat := by
  induction t with
  | nil => rfl
  | cons c t ih =>
      obtain ⟨hc, hrest⟩ := List.forall_mem_cons.mp h
      have hhigh : isHigh c = false := by
        rw [isHigh, Bool.and_eq_false_iff, decide_eq_false_iff_not]
        left
        omega
      rw [codePoints_cons hhigh, List.map_cons, ih hrest]

/-- A text of characters of one byte each is the only one that is written as its bytes. -/
theorem eq_of_utf8Bytes_eq {a b : Text} (ha : ∀ c ∈ a, c.toNat < 0x100)
    (h : utf8Bytes b = utf8Bytes a) : b = a := by
  have hscalars : (codePoints b).map scalar = (codePoints a).map scalar := by
    have hread := congrArg (utf8Points {}) h
    rw [utf8Bytes, utf8Bytes, utf8Points_flatMap isScalar_of_mem_map_scalar,
      utf8Points_flatMap isScalar_of_mem_map_scalar] at hread
    exact hread
  have hlow : ∀ p ∈ codePoints a, p < 0x100 := by
    rw [codePoints_of_bytes ha]
    exact List.forall_mem_map.mpr ha
  have ha' : (codePoints a).map scalar = codePoints a :=
    map_scalar_of_isScalar fun p hp =>
      isScalar_of_lt (.inl ((hlow p hp).trans (by decide))) ((hlow p hp).trans (by decide))
  -- What was replaced is no character of one byte.
  have hb' : ∀ p ∈ codePoints b, IsScalar p := by
    intro p hp
    have hmem : scalar p ∈ codePoints a := by
      rw [← ha', ← hscalars]
      exact List.mem_map_of_mem hp
    have hlt := hlow _ hmem
    rw [scalar] at hlt
    split_ifs at hlt with hsurrogate
    · exact absurd hlt (by decide)
    · exact isScalar_of_lt (.inl (hlt.trans (by decide))) (hlt.trans (by decide))
  rw [map_scalar_of_isScalar hb', ha'] at hscalars
  rw [← ofCodePoints_codePoints b, hscalars, ofCodePoints_codePoints]

end Library
