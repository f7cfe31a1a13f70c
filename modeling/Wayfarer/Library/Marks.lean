import Mathlib.Data.List.Infix
import Mathlib.Tactic.Common

/-!
# Marks in a text

A pattern reads marks off a text from left to right: where one starts it is read whole, and what is
in none is a character of its own (`parts`). `erased` is the text with its marks taken out.

Taking a mark out can bring the text around it together. `Amid` is a word as it is written with
marks between its characters, and `exists_amid_of_infix_erased` says that a word of the erased text
was written so before, at a place where no mark starts.
-/

set_option autoImplicit false

namespace Library

universe u v

variable {α : Type u} {β : Type v}

/-! ## The parts of a text -/

/-- The parts of a text of at most `steps` of them, read from left to right. -/
def partsIn (markAt : List α → Option (β × List α)) : Nat → List α → List (α ⊕ β)
  | 0, _ => []
  | _ + 1, [] => []
  | steps + 1, c :: rest =>
      match markAt (c :: rest) with
      | some (mark, after) => .inr mark :: partsIn markAt steps after
      | none => .inl c :: partsIn markAt steps rest

/-- The parts of a text: its marks, and the characters that are in none. It has no more of them than
characters. -/
def parts (markAt : List α → Option (β × List α)) (t : List α) : List (α ⊕ β) :=
  partsIn markAt t.length t

/-- A text with its marks taken out. -/
def erased (markAt : List α → Option (β × List α)) (t : List α) : List α :=
  (parts markAt t).filterMap Sum.getLeft?

/-- Where no mark starts a character is read. -/
theorem parts_of_none {markAt : List α → Option (β × List α)} {c : α} {rest : List α}
    (hat : markAt (c :: rest) = none) :
    parts markAt (c :: rest) = .inl c :: parts markAt rest := by
  rw [parts, List.length_cons, partsIn, hat, parts]

theorem erased_of_none {markAt : List α → Option (β × List α)} {c : α} {rest : List α}
    (hat : markAt (c :: rest) = none) :
    erased markAt (c :: rest) = c :: erased markAt rest := by
  rw [erased, parts_of_none hat, erased]
  rfl

/-- What a pattern reads: each mark in the texts it is written as. -/
structure ReadsMarks (markAt : List α → Option (β × List α))
    (IsMark : β → List α → Prop) : Prop where
  /-- What is read stands in front. -/
  read : ∀ {t mark after}, markAt t = some (mark, after) →
    ∃ written, IsMark mark written ∧ t = written ++ after
  /-- What is written is read, whatever follows it. -/
  unread : ∀ {mark written}, IsMark mark written →
    ∀ after, markAt (written ++ after) = some (mark, after)
  /-- A mark is written with a character at least. -/
  ne_nil : ∀ {mark written}, IsMark mark written → written ≠ []

namespace ReadsMarks

variable {markAt : List α → Option (β × List α)} {IsMark : β → List α → Prop}
  (h : ReadsMarks markAt IsMark)

include h

theorem length_lt {t after : List α} {mark : β} (hat : markAt t = some (mark, after)) :
    after.length < t.length := by
  obtain ⟨written, hmark, rfl⟩ := h.read hat
  have hpos := List.length_pos_iff.mpr (h.ne_nil hmark)
  rw [List.length_append]
  omega

/-- More steps than characters read no more. -/
theorem partsIn_eq {steps : Nat} {t : List α} (hsteps : t.length ≤ steps) :
    partsIn markAt steps t = parts markAt t := by
  induction steps using Nat.strong_induction_on generalizing t with
  | _ steps ih =>
      cases t with
      | nil => cases steps <;> rfl
      | cons c rest =>
          cases steps with
          | zero => simp at hsteps
          | succ steps =>
              rw [parts, List.length_cons, partsIn, partsIn]
              cases hat : markAt (c :: rest) with
              | none => rw [ih steps (Nat.lt_succ_self _) (Nat.le_of_succ_le_succ hsteps), parts]
              | some found =>
                  have hafter := h.length_lt hat
                  rw [List.length_cons] at hsteps hafter
                  have hshort : found.2.length ≤ rest.length := by omega
                  -- Both read what follows the mark, and both have steps enough for it.
                  have hleft := ih steps (Nat.lt_succ_self _) (t := found.2) (by omega)
                  have hright := ih rest.length (by omega) hshort
                  exact congrArg _ (hleft.trans hright.symm)

/-- Where a mark starts it is read whole. -/
theorem parts_of_mark {t after : List α} {mark : β} (hat : markAt t = some (mark, after)) :
    parts markAt t = .inr mark :: parts markAt after := by
  have hshort := h.length_lt hat
  cases t with
  | nil => simp at hshort
  | cons c rest =>
      rw [List.length_cons] at hshort
      rw [parts, List.length_cons, partsIn, hat]
      exact congrArg _ (h.partsIn_eq (by omega))

/-- A text is read mark by mark and character by character. -/
theorem induct {motive : List α → Prop} (nil : motive [])
    (mark : ∀ t mark after, markAt t = some (mark, after) → motive after → motive t)
    (plain : ∀ c rest, markAt (c :: rest) = none → motive rest → motive (c :: rest))
    (t : List α) : motive t := by
  induction hn : t.length using Nat.strong_induction_on generalizing t with
  | _ n ih =>
      subst hn
      cases t with
      | nil => exact nil
      | cons c rest =>
          cases hat : markAt (c :: rest) with
          | none => exact plain c rest hat (ih _ (Nat.lt_succ_self _) rest rfl)
          | some found => exact mark _ found.1 found.2 hat (ih _ (h.length_lt hat) found.2 rfl)

theorem erased_of_mark {t after : List α} {mark : β} (hat : markAt t = some (mark, after)) :
    erased markAt t = erased markAt after := by
  rw [erased, h.parts_of_mark hat, List.filterMap_cons_none rfl, erased]

/-- A mark that is read stands in the text. -/
theorem exists_of_mem_parts {t : List α} {mark : β} (hmem : .inr mark ∈ parts markAt t) :
    ∃ before written after, IsMark mark written ∧ t = before ++ written ++ after := by
  induction t using h.induct with
  | nil => simp [parts, partsIn] at hmem
  | mark t first after hat ih =>
      obtain ⟨written, hmark, rfl⟩ := h.read hat
      rw [h.parts_of_mark hat] at hmem
      rcases List.mem_cons.mp hmem with heq | hmem
      · cases heq
        exact ⟨[], written, after, hmark, rfl⟩
      · obtain ⟨before, written', after', hmark', rfl⟩ := ih hmem
        exact ⟨written ++ before, written', after', hmark', by simp⟩
  | plain c rest hat ih =>
      rw [parts_of_none hat] at hmem
      rcases List.mem_cons.mp hmem with heq | hmem
      · cases heq
      · obtain ⟨before, written, after, hmark, rfl⟩ := ih hmem
        exact ⟨c :: before, written, after, hmark, rfl⟩

end ReadsMarks

/-! ## Reading a text that follows another -/

/-- No mark that starts before the text reaches into it. -/
def Unreached (IsMark : β → List α → Prop) (t : List α) : Prop :=
  ∀ mark written before after, IsMark mark written → before ≠ [] → written ++ after = before ++ t →
    ∃ between, before = written ++ between

namespace ReadsMarks

variable {markAt : List α → Option (β × List α)} {IsMark : β → List α → Prop}
  (h : ReadsMarks markAt IsMark)

include h

/-- What no mark reaches into is read as if it stood alone, and so is what stands before it. -/
theorem parts_append {t : List α} (ht : Unreached IsMark t) (before : List α) :
    parts markAt (before ++ t) = parts markAt before ++ parts markAt t := by
  induction hn : before.length using Nat.strong_induction_on generalizing before with
  | _ n ih =>
      subst hn
      cases before with
      | nil => rfl
      | cons c rest =>
          cases hat : markAt (c :: rest ++ t) with
          | none =>
              -- A mark of the front would be read in the whole.
              have hfront : markAt (c :: rest) = none := by
                rw [Option.eq_none_iff_forall_ne_some]
                rintro ⟨mark, after⟩ hsome
                obtain ⟨written, hmark, heq⟩ := h.read hsome
                rw [heq, List.append_assoc, h.unread hmark] at hat
                cases hat
              rw [List.cons_append] at hat ⊢
              rw [parts_of_none hat, parts_of_none hfront, ih _ (Nat.lt_succ_self _) rest rfl,
                List.cons_append]
          | some found =>
              obtain ⟨mark, after⟩ := found
              obtain ⟨written, hmark, heq⟩ := h.read hat
              obtain ⟨between, hbetween⟩ :=
                ht mark written (c :: rest) after hmark (List.cons_ne_nil c rest) heq.symm
              have hafter : after = between ++ t := by
                rw [hbetween, List.append_assoc] at heq
                exact (List.append_cancel_left heq).symm
              have hshort : between.length < (c :: rest).length := by
                have hpos := List.length_pos_iff.mpr (h.ne_nil hmark)
                rw [hbetween, List.length_append]
                omega
              have hfront : markAt (c :: rest) = some (mark, between) := by
                rw [hbetween]
                exact h.unread hmark between
              rw [h.parts_of_mark hat, h.parts_of_mark hfront, hafter, ih _ hshort between rfl,
                List.cons_append]

/-- What is left of a text ends with what is left of its end. -/
theorem suffix_erased_append {t : List α} (ht : Unreached IsMark t) (before : List α) :
    erased markAt t <:+ erased markAt (before ++ t) := by
  rw [erased, erased, h.parts_append ht, List.filterMap_append]
  exact List.suffix_append _ _

/-- A mark that stands in a text, where none before it reaches into it, is read. -/
theorem mem_parts {mark : β} {before written after : List α} (hmark : IsMark mark written)
    (ht : Unreached IsMark (written ++ after)) :
    .inr mark ∈ parts markAt (before ++ written ++ after) := by
  rw [List.append_assoc, h.parts_append ht, h.parts_of_mark (h.unread hmark after)]
  simp

/-- Marks in front are taken out whole. -/
theorem erased_marks_append {marks : List (List α)} (hmarks : ∀ m ∈ marks, ∃ mark, IsMark mark m)
    (t : List α) : erased markAt (marks.flatten ++ t) = erased markAt t := by
  induction marks with
  | nil => rfl
  | cons m marks ih =>
      obtain ⟨mark, hmark⟩ := hmarks m List.mem_cons_self
      rw [List.flatten_cons, List.append_assoc, h.erased_of_mark (h.unread hmark _)]
      exact ih fun m' hm' => hmarks m' (List.mem_cons_of_mem m hm')

end ReadsMarks

/-! ## Words with marks between their characters -/

/-- A word, and the word with marks written between its characters. -/
inductive Amid (IsMark : β → List α → Prop) : List α → List α → Prop where
  | last (c : α) : Amid IsMark [c] [c]
  | next (c : α) {marks : List (List α)} {word written : List α}
      (hmarks : ∀ m ∈ marks, ∃ mark, IsMark mark m) (hrest : Amid IsMark word written) :
      Amid IsMark (c :: word) (c :: (marks.flatten ++ written))

namespace Amid

variable {IsMark : β → List α → Prop}

/-- A word is written with its own first character first. -/
theorem exists_cons {c : α} {word written : List α} (h : Amid IsMark (c :: word) written) :
    ∃ rest, written = c :: rest := by
  cases h with
  | last => exact ⟨[], rfl⟩
  | next _ hmarks hrest => exact ⟨_, rfl⟩

/-- A word of two characters or more has marks, or none, between the first two. -/
theorem exists_marks {c d : α} {word written : List α} (h : Amid IsMark (c :: d :: word) written) :
    ∃ (marks : List (List α)) (rest : List α), (∀ m ∈ marks, ∃ mark, IsMark mark m) ∧
      Amid IsMark (d :: word) rest ∧ written = c :: (marks.flatten ++ rest) := by
  cases h with
  | next _ hmarks hrest => exact ⟨_, _, hmarks, hrest, rfl⟩

end Amid

namespace ReadsMarks

variable {markAt : List α → Option (β × List α)} {IsMark : β → List α → Prop}
  (h : ReadsMarks markAt IsMark)

include h

/-- What starts the erased text was written with marks in front and between. -/
theorem exists_amid_of_prefix_erased {t word : List α} (hne : word ≠ [])
    (hword : word <+: erased markAt t) :
    ∃ (marks : List (List α)) (written after : List α),
      (∀ m ∈ marks, ∃ mark, IsMark mark m) ∧ Amid IsMark word written ∧
      t = marks.flatten ++ (written ++ after) := by
  induction t using h.induct generalizing word with
  | nil => exact absurd (List.prefix_nil.mp hword) hne
  | mark t first after hat ih =>
      obtain ⟨text, htext, rfl⟩ := h.read hat
      rw [h.erased_of_mark hat] at hword
      obtain ⟨marks, written, after', hmarks, hamid, rfl⟩ := ih hne hword
      refine ⟨text :: marks, written, after', ?_, hamid, by simp⟩
      intro m hm
      rcases List.mem_cons.mp hm with rfl | hm
      · exact ⟨first, htext⟩
      · exact hmarks m hm
  | plain c rest hat ih =>
      rw [erased_of_none hat] at hword
      cases word with
      | nil => exact absurd rfl hne
      | cons d word =>
          obtain ⟨rfl, hrest⟩ := List.cons_prefix_cons.mp hword
          cases word with
          | nil => exact ⟨[], [d], rest, by simp, .last d, by simp⟩
          | cons e word =>
              obtain ⟨marks, written, after, hmarks, hamid, rfl⟩ :=
                ih (List.cons_ne_nil e word) hrest
              exact ⟨[], _, after, by simp, .next d hmarks hamid, by simp⟩

/-- A word of the erased text was written in the text with marks between, where no mark starts. -/
theorem exists_amid_of_infix_erased {t word : List α} (hne : word ≠ [])
    (hword : word <:+: erased markAt t) :
    ∃ before written after, Amid IsMark word written ∧ t = before ++ (written ++ after) ∧
      markAt (written ++ after) = none := by
  induction t using h.induct with
  | nil => exact absurd (List.infix_nil.mp hword) hne
  | mark t first after hat ih =>
      obtain ⟨text, -, rfl⟩ := h.read hat
      rw [h.erased_of_mark hat] at hword
      obtain ⟨before, written, after', hamid, rfl, hnone⟩ := ih hword
      exact ⟨text ++ before, written, after', hamid, by simp, hnone⟩
  | plain c rest hat ih =>
      rw [erased_of_none hat] at hword
      rcases List.infix_cons_iff.mp hword with hstarts | hwithin
      · rw [← erased_of_none hat] at hstarts
        obtain ⟨marks, written, after, hmarks, hamid, heq⟩ :=
          h.exists_amid_of_prefix_erased hne hstarts
        cases marks with
        | nil =>
            rw [List.flatten_nil, List.nil_append] at heq
            exact ⟨[], written, after, hamid, heq, heq ▸ hat⟩
        | cons m marks =>
            -- No mark starts here, so none stands in front.
            obtain ⟨mark, hmark⟩ := hmarks m List.mem_cons_self
            rw [List.flatten_cons, List.append_assoc] at heq
            rw [heq, h.unread hmark] at hat
            cases hat
      · obtain ⟨before, written, after, hamid, rfl, hnone⟩ := ih hwithin
        exact ⟨c :: before, written, after, hamid, rfl, hnone⟩

end ReadsMarks

/-! ## A text from its parts -/

/-- The text that is made of parts, each mark written as `write` says. -/
def ofParts (write : β → List α) (read : List (α ⊕ β)) : List α :=
  read.flatMap (Sum.elim (fun c => [c]) write)

/-- A text with each mark written as `write` says. -/
def replaceMarks (markAt : List α → Option (β × List α)) (write : β → List α) (t : List α) :
    List α :=
  ofParts write (parts markAt t)

theorem ofParts_append (write : β → List α) (a b : List (α ⊕ β)) :
    ofParts write (a ++ b) = ofParts write a ++ ofParts write b :=
  List.flatMap_append

theorem ofParts_inl (write : β → List α) (c : α) (rest : List (α ⊕ β)) :
    ofParts write (.inl c :: rest) = c :: ofParts write rest := by
  rw [ofParts, List.flatMap_cons, Sum.elim_inl, List.singleton_append, ofParts]

theorem ofParts_inr (write : β → List α) (mark : β) (rest : List (α ⊕ β)) :
    ofParts write (.inr mark :: rest) = write mark ++ ofParts write rest := by
  rw [ofParts, List.flatMap_cons, Sum.elim_inr, ofParts]

/-- Only the marks that are there are written. -/
theorem ofParts_congr {write write' : β → List α} {read : List (α ⊕ β)}
    (h : ∀ mark, .inr mark ∈ read → write mark = write' mark) :
    ofParts write read = ofParts write' read := by
  refine List.flatMap_congr fun part hpart => ?_
  cases part with
  | inl c => rfl
  | inr mark => exact h mark hpart

theorem ofParts_map {δ : Type v} (write : β → List α) (f : δ → β) (read : List (α ⊕ δ)) :
    ofParts write (read.map (Sum.map id f)) = ofParts (write ∘ f) read := by
  induction read with
  | nil => rfl
  | cons part read ih =>
      cases part with
      | inl c => rw [List.map_cons, Sum.map_inl, ofParts_inl, ofParts_inl, ih, id]
      | inr mark => rw [List.map_cons, Sum.map_inr, ofParts_inr, ofParts_inr, ih, Function.comp]

theorem replaceMarks_nil (markAt : List α → Option (β × List α)) (write : β → List α) :
    replaceMarks markAt write [] = [] :=
  rfl

/-- Where no mark starts, the character stays. -/
theorem replaceMarks_of_none {markAt : List α → Option (β × List α)} {c : α} {rest : List α}
    (write : β → List α) (hat : markAt (c :: rest) = none) :
    replaceMarks markAt write (c :: rest) = c :: replaceMarks markAt write rest := by
  rw [replaceMarks, parts_of_none hat, ofParts_inl, replaceMarks]

namespace ReadsMarks

variable {markAt : List α → Option (β × List α)} {IsMark : β → List α → Prop}
  (h : ReadsMarks markAt IsMark) {write : β → List α}

include h

/-- What no mark reaches into is written apart from what stands before it. -/
theorem replaceMarks_append {t : List α} (ht : Unreached IsMark t) (before : List α) :
    replaceMarks markAt write (before ++ t) =
      replaceMarks markAt write before ++ replaceMarks markAt write t := by
  rw [replaceMarks, h.parts_append ht, ofParts_append, replaceMarks, replaceMarks]

theorem replaceMarks_of_mark {t after : List α} {mark : β} (hat : markAt t = some (mark, after)) :
    replaceMarks markAt write t = write mark ++ replaceMarks markAt write after := by
  rw [replaceMarks, h.parts_of_mark hat, ofParts_inr, replaceMarks]

variable (hwrite : ∀ mark written, IsMark mark written → written = write mark)

include hwrite

/-- Marks that are written as they are read leave the text as it is. -/
theorem replaceMarks_self (t : List α) : replaceMarks markAt write t = t := by
  induction t using h.induct with
  | nil => rfl
  | mark t first after hat ih =>
      obtain ⟨written, hmark, rfl⟩ := h.read hat
      rw [h.replaceMarks_of_mark hat, ih, hwrite first written hmark]
  | plain c rest hat ih => rw [replaceMarks_of_none write hat, ih]

/-- A piece of a text that ends with a part is read as it is read in the text. -/
theorem parts_ofParts {t : List α} {a b : List (α ⊕ β)} (ht : parts markAt t = a ++ b) :
    parts markAt (ofParts write a) = a ∧ parts markAt (ofParts write b) = b := by
  induction t using h.induct generalizing a with
  | nil =>
      obtain ⟨rfl, rfl⟩ := List.append_eq_nil_iff.mp ht.symm
      exact ⟨rfl, rfl⟩
  | mark t first after hat ih =>
      cases a with
      | nil =>
          rw [List.nil_append] at ht
          refine ⟨rfl, ?_⟩
          rw [← ht, ← replaceMarks, h.replaceMarks_self hwrite]
      | cons part a =>
          rw [h.parts_of_mark hat, List.cons_append] at ht
          obtain ⟨rfl, hrest⟩ := List.cons.inj ht
          obtain ⟨hfront, hend⟩ := ih hrest
          obtain ⟨written, hmark, -⟩ := h.read hat
          refine ⟨?_, hend⟩
          rw [ofParts_inr, ← hwrite first written hmark, h.parts_of_mark (h.unread hmark _), hfront]
  | plain c rest hat ih =>
      cases a with
      | nil =>
          rw [List.nil_append] at ht
          refine ⟨rfl, ?_⟩
          rw [← ht, ← replaceMarks, h.replaceMarks_self hwrite]
      | cons part a =>
          rw [parts_of_none hat, List.cons_append] at ht
          obtain ⟨rfl, hrest⟩ := List.cons.inj ht
          obtain ⟨hfront, hend⟩ := ih hrest
          refine ⟨?_, hend⟩
          -- A mark of the shorter text would be read in the whole.
          have hshort : markAt (c :: ofParts write a) = none := by
            rw [Option.eq_none_iff_forall_ne_some]
            rintro ⟨mark, after⟩ hsome
            obtain ⟨written, hmark, heq⟩ := h.read hsome
            have hwhole : rest = ofParts write a ++ ofParts write b := by
              rw [← ofParts_append, ← hrest, ← replaceMarks, h.replaceMarks_self hwrite]
            rw [hwhole, ← List.cons_append, heq, List.append_assoc, h.unread hmark] at hat
            cases hat
          rw [ofParts_inl, parts_of_none hshort, hfront]

end ReadsMarks

end Library
