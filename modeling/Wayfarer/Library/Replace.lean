import Mathlib.Data.List.Infix
import Mathlib.Tactic.Common

/-!
# Replacing a word

`replaceAll needle mask` puts `mask` in the place of every occurrence of a word, read from left to
right, where the occurrences do not overlap.

A word that shares no character with the mask occurs in what is left only where it occurred before
(`infix_of_infix_replaceAll`): nothing grows together across a mask. So a word that is replaced is
gone (`not_infix_replaceAll`), and stays gone whatever is replaced after it
(`not_infix_foldl_replaceAll`), in whatever order.
-/

set_option autoImplicit false

namespace Library

universe u

variable {α : Type u}

/-! ## Words apart -/

/-- A word that shares no character with another. -/
def Apart (w mask : List α) : Prop :=
  ∀ c ∈ mask, c ∉ w

section Apart

variable {mask w : List α}

/-- What starts in a mask has a character of it. -/
theorem not_prefix_of_apart {a b : List α} (hw : w ≠ []) (hapart : Apart w mask) (ha : a ≠ [])
    (hsuffix : a <:+ mask) : ¬ w <+: a ++ b := by
  intro hstarts
  cases a with
  | nil => exact ha rfl
  | cons c a =>
      cases w with
      | nil => exact hw rfl
      | cons d w =>
          obtain ⟨rfl, -⟩ := List.cons_prefix_cons.mp hstarts
          exact hapart d (hsuffix.subset List.mem_cons_self) List.mem_cons_self

/-- A word apart from the mask that follows it did not begin in it. -/
theorem infix_of_infix_append_mask {b : List α} (hw : w ≠ []) (hapart : Apart w mask) :
    ∀ a, a <:+ mask → w <:+: a ++ b → w <:+: b
  | [], _, h => h
  | c :: a, hsuffix, h => by
      obtain hstarts | hwithin := List.infix_cons_iff.mp h
      · exact absurd hstarts
          (not_prefix_of_apart hw hapart (List.cons_ne_nil c a) hsuffix)
      · exact infix_of_infix_append_mask hw hapart a ((List.suffix_cons c a).trans hsuffix) hwithin

/-- A word apart from what a text ends with is in the text before it. -/
theorem infix_of_infix_mask_append {b : List α} (hw : w ≠ []) (hapart : Apart w mask)
    (h : w <:+: b ++ mask) : w <:+: b := by
  have hback : w.reverse <:+: mask.reverse ++ b.reverse := by
    rw [← List.reverse_append, List.reverse_infix]
    exact h
  have hapart' : Apart w.reverse mask.reverse := fun c hc hmem =>
    hapart c (List.mem_reverse.mp hc) (List.mem_reverse.mp hmem)
  have hw' : w.reverse ≠ [] := fun hnil => hw (List.reverse_eq_nil_iff.mp hnil)
  exact List.reverse_infix.mp
    (infix_of_infix_append_mask hw' hapart' mask.reverse (List.suffix_refl _) hback)

end Apart

/-! ## Replacing -/

variable [DecidableEq α]

/-- A text with a word replaced. `skip`: how much of the text belongs to an occurrence that has
been replaced. -/
def replaceFrom (needle mask : List α) : Nat → List α → List α
  | _, [] => []
  | skip + 1, _ :: rest => replaceFrom needle mask skip rest
  | 0, c :: rest =>
      if needle.isPrefixOf (c :: rest) then
        mask ++ replaceFrom needle mask (needle.length - 1) rest
      else c :: replaceFrom needle mask 0 rest

/-- A text with every occurrence of a word replaced. -/
def replaceAll (needle mask t : List α) : List α :=
  replaceFrom needle mask 0 t

section Replace

variable {needle mask w t : List α}

/-- A word apart from the mask starts what is left only where it started the text. -/
theorem prefix_of_prefix_replaceFrom (hmask : mask ≠ []) (hapart : Apart w mask)
    (h : w <+: replaceFrom needle mask 0 t) : w <+: t := by
  induction t generalizing w with
  | nil => simpa [replaceFrom] using h
  | cons c rest ih =>
      cases w with
      | nil => exact List.nil_prefix
      | cons d w =>
          rw [replaceFrom] at h
          split_ifs at h with hfound
          · exact absurd h
              (not_prefix_of_apart (List.cons_ne_nil d w) hapart hmask (List.suffix_refl mask))
          · obtain ⟨rfl, hrest⟩ := List.cons_prefix_cons.mp h
            have hapart' : Apart w mask :=
              fun x hx hmem => hapart x hx (List.mem_cons_of_mem d hmem)
            exact List.cons_prefix_cons.mpr ⟨rfl, ih hapart' hrest⟩

/-- A word apart from the mask is in what is left only where it was in the text. -/
theorem infix_of_infix_replaceFrom (hmask : mask ≠ []) (hw : w ≠ []) (hapart : Apart w mask)
    {skip : Nat} (h : w <:+: replaceFrom needle mask skip t) : w <:+: t := by
  induction t generalizing skip with
  | nil => simpa [replaceFrom] using h
  | cons c rest ih =>
      cases skip with
      | succ skip =>
          rw [replaceFrom] at h
          exact (ih h).trans (List.suffix_cons c rest).isInfix
      | zero =>
          rw [replaceFrom] at h
          split_ifs at h with hfound
          · have hrest := infix_of_infix_append_mask hw hapart mask (List.suffix_refl mask) h
            exact (ih hrest).trans (List.suffix_cons c rest).isInfix
          · obtain hstarts | hwithin := List.infix_cons_iff.mp h
            · have hstarts' : w <+: replaceFrom needle mask 0 (c :: rest) := by
                rwa [replaceFrom, if_neg hfound]
              exact (prefix_of_prefix_replaceFrom hmask hapart hstarts').isInfix
            · exact (ih hwithin).trans (List.suffix_cons c rest).isInfix

/-- A word that is replaced is gone. -/
theorem not_infix_replaceFrom (hmask : mask ≠ []) (hneedle : needle ≠ [])
    (hapart : Apart needle mask) (skip : Nat) :
    ¬ needle <:+: replaceFrom needle mask skip t := by
  induction t generalizing skip with
  | nil => simpa [replaceFrom] using hneedle
  | cons c rest ih =>
      cases skip with
      | succ skip =>
          rw [replaceFrom]
          exact ih skip
      | zero =>
          rw [replaceFrom]
          split_ifs with hfound
          · intro h
            exact ih _ (infix_of_infix_append_mask hneedle hapart mask (List.suffix_refl mask) h)
          · intro h
            obtain hstarts | hwithin := List.infix_cons_iff.mp h
            · have hstarts' : needle <+: replaceFrom needle mask 0 (c :: rest) := by
                rwa [replaceFrom, if_neg hfound]
              have hthere := prefix_of_prefix_replaceFrom hmask hapart hstarts'
              exact hfound (List.isPrefixOf_iff_prefix.mpr hthere)
            · exact ih 0 hwithin

theorem infix_of_infix_replaceAll (hmask : mask ≠ []) (hw : w ≠ []) (hapart : Apart w mask)
    (h : w <:+: replaceAll needle mask t) : w <:+: t :=
  infix_of_infix_replaceFrom hmask hw hapart h

theorem not_infix_replaceAll (hmask : mask ≠ []) (hneedle : needle ≠ [])
    (hapart : Apart needle mask) : ¬ needle <:+: replaceAll needle mask t :=
  not_infix_replaceFrom hmask hneedle hapart 0

/-- Words replaced one after the other put none into the text that was not there. -/
theorem infix_of_infix_foldl_replaceAll (hmask : mask ≠ []) (hw : w ≠ [])
    (hapart : Apart w mask) {needles : List (List α)}
    (h : w <:+: needles.foldl (fun t needle => replaceAll needle mask t) t) : w <:+: t := by
  induction needles generalizing t with
  | nil => exact h
  | cons needle needles ih => exact infix_of_infix_replaceAll hmask hw hapart (ih h)

/-- Of words that are replaced one after the other, none is left. -/
theorem not_infix_foldl_replaceAll (hmask : mask ≠ []) {needles : List (List α)}
    (hneedle : needle ∈ needles) (hne : needle ≠ []) (hapart : Apart needle mask) :
    ¬ needle <:+: needles.foldl (fun t needle => replaceAll needle mask t) t := by
  induction needles generalizing t with
  | nil => cases hneedle
  | cons first needles ih =>
      obtain rfl | hlater := List.mem_cons.mp hneedle
      · intro h
        exact not_infix_replaceAll hmask hne hapart
          (infix_of_infix_foldl_replaceAll hmask hne hapart h)
      · exact ih hlater

/-- A text in which no word occurs is left as it is. -/
theorem replaceAll_of_not_infix (h : ¬ needle <:+: t) : replaceAll needle mask t = t := by
  unfold replaceAll
  induction t with
  | nil => rfl
  | cons c rest ih =>
      have hnot : needle.isPrefixOf (c :: rest) = false := by
        rw [Bool.eq_false_iff]
        exact fun hstarts => h (List.isPrefixOf_iff_prefix.mp hstarts).isInfix
      have hrest : ¬ needle <:+: rest :=
        fun hwithin => h (hwithin.trans (List.suffix_cons c rest).isInfix)
      rw [replaceFrom, hnot, if_neg Bool.false_ne_true, ih hrest]

end Replace

end Library
