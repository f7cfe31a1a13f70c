import Mathlib.Algebra.Group.Int.Defs
import Mathlib.Algebra.GroupWithZero.Nat
import Mathlib.Data.List.Infix
import Mathlib.Data.List.TakeWhile
import Mathlib.Tactic.Common

/-!
# Text as a sequence of code units

A string of the modelled language is a sequence of 16-bit code units: a character
outside the basic plane takes two (a surrogate pair), and a lone surrogate is a
legal unit. Everything that cuts, compares or encodes text works on units, so
they are what a text is made of here.

The second half of the file is about where a word can occur in a longer text
(`<:+:`, the library's infix relation). The encoders of this development replace
some characters by an escape and leave the others alone; `infix_of_escaped` and
`infix_of_infix_append_cons` say that a word without the escape's own first
character, and without the separators between two texts, occurs in what was
written only where it occurred before.
-/

set_option autoImplicit false

namespace Library

universe u

/-! ## Code units -/

/-- One UTF-16 code unit. -/
abbrev CodeUnit := UInt16

/-- A string, as its code units. -/
abbrev Text := List CodeUnit

/-- Texts are compared as they are. -/
instance lawfulText : LawfulBEq Text :=
  inferInstance

/-- What holds of every unit of a text is decided along the text, not over all code units. -/
instance decidableForallMem (t : Text) (p : CodeUnit → Prop) [DecidablePred p] :
    Decidable (∀ c ∈ t, p c) :=
  List.decidableBAll p t

/-- The code units of a literal of the basic plane. -/
def units (s : String) : Text :=
  s.toList.map fun c => c.toNat.toUInt16

/-- A literal's code units, read off its characters: the literal is not encoded
and decoded again. -/
theorem units_eq {s : String} {cs : List Char} (h : s = String.ofList cs) :
    units s = cs.map fun c => c.toNat.toUInt16 := by
  rw [h, units, String.toList_ofList]

/-- What is checked of a literal's characters holds of its code units. -/
theorem forall_mem_units {p : CodeUnit → Prop} [DecidablePred p] {s : String} {cs : List Char}
    (h : s = String.ofList cs) (hp : (cs.all fun c => p c.toNat.toUInt16) = true) :
    ∀ c ∈ units s, p c := by
  intro c hc
  rw [units_eq h] at hc
  obtain ⟨d, hd, rfl⟩ := List.mem_map.mp hc
  exact of_decide_eq_true (List.all_eq_true.mp hp d hd)

/-- The white space and line ends of the language: what `trim` takes off and what
`\s` matches. -/
def whiteSpace : Text :=
  [0x09, 0x0A, 0x0B, 0x0C, 0x0D, 0x20, 0xA0, 0x1680, 0x2000, 0x2001, 0x2002, 0x2003, 0x2004,
    0x2005, 0x2006, 0x2007, 0x2008, 0x2009, 0x200A, 0x2028, 0x2029, 0x202F, 0x205F, 0x3000, 0xFEFF]

/-- A code unit of white space. -/
def isWhite (c : CodeUnit) : Bool :=
  whiteSpace.contains c

/-- A text without the white space at its start. -/
def trimStart (t : Text) : Text :=
  t.dropWhile isWhite

/-- A text without the white space at its ends. -/
def trim (t : Text) : Text :=
  (trimStart (trimStart t).reverse).reverse

/-- A text cut at every `sep`, as many pieces as there are separators and one more. -/
def splitOn (sep : CodeUnit) : Text → List Text
  | [] => [[]]
  | c :: rest =>
      if c = sep then [] :: splitOn sep rest
      else
        match splitOn sep rest with
        | [] => [[c]]
        | piece :: pieces => (c :: piece) :: pieces

/-- A text cut at its first `sep`: what stands before it and, where there is one,
what stands after it. -/
def cutAt (sep : CodeUnit) : Text → Text × Option Text
  | [] => ([], none)
  | c :: rest =>
      if c = sep then ([], some rest)
      else ((c :: (cutAt sep rest).1), (cutAt sep rest).2)

/-- The texts in one, `sep` between each two. -/
def joinWith (sep : Text) (pieces : List Text) : Text :=
  sep.intercalate pieces

/-! ## Trimming -/

/-- White space in front of a text that starts with something else is all that is
taken off its start. -/
theorem trimStart_append {w t : Text} {c : CodeUnit} (hw : ∀ x ∈ w, isWhite x = true)
    (hc : isWhite c = false) :
    trimStart (w ++ c :: t) = c :: t := by
  induction w with
  | nil => simp [trimStart, hc]
  | cons x w ih =>
      have hx : isWhite x = true := hw x (by simp)
      have ih := ih fun y hy => hw y (by simp [hy])
      simpa [trimStart, hx] using ih

/-- What is taken off the start of a text is white space. -/
theorem exists_white_append_trimStart (t : Text) :
    ∃ w, (∀ x ∈ w, isWhite x = true) ∧ t = w ++ trimStart t := by
  refine ⟨t.takeWhile isWhite, fun x hx => List.mem_takeWhile_imp hx, ?_⟩
  simp [trimStart, List.takeWhile_append_dropWhile]

/-- A text is its trimmed self between two runs of white space. -/
theorem exists_white_append_trim (t : Text) :
    ∃ w w', (∀ x ∈ w, isWhite x = true) ∧ (∀ x ∈ w', isWhite x = true) ∧
      t = w ++ trim t ++ w' := by
  obtain ⟨w, hw, ht⟩ := exists_white_append_trimStart t
  obtain ⟨v, hv, hr⟩ := exists_white_append_trimStart (trimStart t).reverse
  refine ⟨w, v.reverse, hw, fun x hx => hv x (by simpa using hx), ?_⟩
  have hback : trimStart t = trim t ++ v.reverse := by
    have h := congrArg List.reverse hr
    simpa [trim] using h
  rw [List.append_assoc, ← hback]
  exact ht

/-! ## Where a word occurs -/

section Infix

variable {α : Type u}

/-- A word that occurs in `a ++ b` starts inside `a` or occurs in `b`. -/
theorem infix_append_cases {w a b : List α} (h : w <:+: a ++ b) :
    (∃ a₁ a₂, a = a₁ ++ a₂ ∧ a₂ ≠ [] ∧ w <+: a₂ ++ b) ∨ w <:+: b := by
  obtain ⟨s, t, hst⟩ := h
  rw [List.append_assoc] at hst
  rcases List.append_eq_append_iff.mp hst with ⟨m, ha, hm⟩ | ⟨m, rfl, hm⟩
  · by_cases hempty : m = []
    · exact Or.inr ⟨[], t, by simpa [hempty] using hm⟩
    · exact Or.inl ⟨s, m, ha, hempty, t, hm⟩
  · exact Or.inr ⟨m, t, by simp [hm]⟩

/-- A word whose first letter is not in `a` occurs in `a ++ b` only where it occurs in `b`. -/
theorem infix_of_head_not_mem {x : α} {w a b : List α} (hx : x ∉ a)
    (h : x :: w <:+: a ++ b) :
    x :: w <:+: b := by
  rcases infix_append_cases h with ⟨a₁, a₂, rfl, hne, t, ht⟩ | h
  · cases a₂ with
    | nil => exact absurd rfl hne
    | cons y a₂ =>
        have hxy : x = y := by
          have := congrArg List.head? ht
          simpa using this
        exact absurd (by simp [hxy]) hx
  · exact h

/-- A word without the separator occurs on one side of it. -/
theorem infix_of_infix_append_cons {sep : α} {w a b : List α} (hw : sep ∉ w)
    (h : w <:+: a ++ sep :: b) :
    w <:+: a ∨ w <:+: b := by
  rcases infix_append_cases h with ⟨a₁, a₂, rfl, -, t, ht⟩ | h
  · rcases List.append_eq_append_iff.mp ht with ⟨m, rfl, -⟩ | ⟨m, rfl, hm⟩
    · exact Or.inl ⟨a₁, m, by simp⟩
    · cases m with
      | nil => exact Or.inl ⟨a₁, [], by simp⟩
      | cons y m =>
          have hy : sep = y := by
            have := congrArg List.head? hm
            simpa using this
          exact absurd (by simp [hy]) hw
  · cases w with
    | nil => exact Or.inl List.nil_infix
    | cons x w =>
        have hx : x ∉ [sep] := by
          rintro hmem
          exact hw (by simp [List.mem_singleton.mp hmem])
        exact Or.inr (infix_of_head_not_mem (a := [sep]) hx (by simpa using h))

/-- A word without the separator occurs in one of the joined texts. -/
theorem exists_infix_of_infix_intercalate {sep x : α} {w : List α} (hw : sep ∉ x :: w)
    (pieces : List (List α)) (h : x :: w <:+: [sep].intercalate pieces) :
    ∃ piece ∈ pieces, x :: w <:+: piece := by
  induction pieces with
  | nil => simp at h
  | cons a pieces ih =>
      cases pieces with
      | nil => exact ⟨a, by simp, by simpa using h⟩
      | cons b pieces =>
          rw [List.intercalate_cons_cons] at h
          rcases infix_of_infix_append_cons hw (by simpa using h) with h | h
          · exact ⟨a, by simp, h⟩
          · obtain ⟨piece, hmem, hin⟩ := ih h
            exact ⟨piece, by simp [hmem], hin⟩

/-- A joined text holds each of its pieces. -/
theorem infix_intercalate_of_mem {sep : List α} {piece : List α} {pieces : List (List α)}
    (h : piece ∈ pieces) :
    piece <:+: sep.intercalate pieces := by
  induction pieces with
  | nil => simp at h
  | cons a pieces ih =>
      cases pieces with
      | nil => simp [List.mem_singleton.mp h]
      | cons b pieces =>
          rw [List.intercalate_cons_cons]
          rcases List.mem_cons.mp h with rfl | h
          · exact ⟨[], sep ++ sep.intercalate (b :: pieces), by simp⟩
          · exact (ih h).trans (List.suffix_append _ _).isInfix

end Infix

/-! ## Escaping -/

section Escape

variable {α β : Type u} {esc : β}

/-- What an escaping writer does to one item: it copies its letters (`plain`), or
writes `esc` and then letters among which `first` is not. -/
structure EscapesItem (esc first : β) (plain written : List β) : Prop where
  /-- Copied, or an escape. -/
  copied_or_escaped : written = plain ∨ ∃ tail, written = esc :: tail ∧ first ∉ tail

/-- A word without the escape's first letter that starts what was written starts
what was read. -/
theorem prefix_of_escaped {first : β} {plain written : α → List β} {w : List β} (hw : esc ∉ w)
    (items : List α)
    (hitems : ∀ a ∈ items, EscapesItem esc first (plain a) (written a))
    (h : w <+: items.flatMap written) :
    w <+: items.flatMap plain := by
  induction items generalizing w with
  | nil => simpa using h
  | cons a items ih =>
      have hrest : ∀ b ∈ items, EscapesItem esc first (plain b) (written b) :=
        fun b hb => hitems b (by simp [hb])
      rw [List.flatMap_cons] at h ⊢
      rcases (hitems a (by simp)).copied_or_escaped with hcopy | ⟨tail, hesc, -⟩
      · rw [hcopy] at h
        obtain ⟨t, ht⟩ := h
        rcases List.append_eq_append_iff.mp ht with ⟨m, hm, -⟩ | ⟨m, rfl, hm⟩
        · exact (show w <+: plain a from ⟨m, hm.symm⟩).trans (List.prefix_append _ _)
        · have hm' : m <+: items.flatMap written := ⟨t, hm.symm⟩
          have hsub : esc ∉ m := fun hmem => hw (by simp [hmem])
          exact List.prefix_append_right_inj _ |>.mpr (ih hsub hrest hm')
      · cases w with
        | nil => exact List.nil_prefix
        | cons x w =>
            rw [hesc] at h
            have hx : x = esc := by
              obtain ⟨t, ht⟩ := h
              have := congrArg List.head? ht
              simpa using this
            exact absurd (by simp [hx]) hw

/-- A word without the escape's first letter, whose own first letter is in no
escape, occurs in what was written only where it occurred in what was read. -/
theorem infix_of_escaped {first : β} {plain written : α → List β} {w : List β}
    (hw : esc ∉ first :: w) (items : List α)
    (hitems : ∀ a ∈ items, EscapesItem esc first (plain a) (written a))
    (h : first :: w <:+: items.flatMap written) :
    first :: w <:+: items.flatMap plain := by
  induction items with
  | nil => simp at h
  | cons a items ih =>
      have hrest : ∀ b ∈ items, EscapesItem esc first (plain b) (written b) :=
        fun b hb => hitems b (by simp [hb])
      rw [List.flatMap_cons] at h ⊢
      rcases (hitems a (by simp)).copied_or_escaped with hcopy | ⟨tail, hesc, htail⟩
      · rw [hcopy] at h
        rcases infix_append_cases h with ⟨a₁, a₂, ha, -, hpre⟩ | hin
        · -- The word starts inside the copied item: its rest starts what follows.
          have hstart : first :: w <+: a₂ ++ items.flatMap plain := by
            obtain ⟨t, ht⟩ := hpre
            rcases List.append_eq_append_iff.mp ht with ⟨m, hm, -⟩ | ⟨m, hm, hm'⟩
            · exact (show first :: w <+: a₂ from ⟨m, hm.symm⟩).trans (List.prefix_append _ _)
            · have hsub : esc ∉ m := fun hmem => hw (by rw [hm]; simp [hmem])
              rw [hm]
              exact List.prefix_append_right_inj _ |>.mpr
                (prefix_of_escaped hsub items hrest ⟨t, hm'.symm⟩)
          rw [ha, List.append_assoc]
          exact hstart.isInfix.trans (List.suffix_append _ _).isInfix
        · exact (ih hrest hin).trans (List.suffix_append _ _).isInfix
      · rw [hesc] at h
        have hfirst : first ∉ esc :: tail := by
          intro hmem
          rcases List.mem_cons.mp hmem with heq | hmem
          · exact hw (by simp [heq])
          · exact htail hmem
        exact (ih hrest (infix_of_head_not_mem hfirst h)).trans (List.suffix_append _ _).isInfix

end Escape

end Library
