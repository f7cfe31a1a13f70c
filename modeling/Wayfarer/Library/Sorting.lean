import Mathlib.Algebra.Order.Field.Power
import Mathlib.Algebra.Order.Ring.Rat
import Mathlib.Data.List.Sort
import Mathlib.Order.WithBot
import Mathlib.Tactic.Ring
import Wayfarer.Library.Json

/-!
# Sorting

A list sorted by a relation that is total, transitive and antisymmetric on the list is the same list
for every order it is handed over in (`insertionSort_eq_of_perm`). Nothing is asked of the relation
away from the list.

Numbers as they are written compare as what they stand for (`JsonNumber.compare_eq`).
-/

set_option autoImplicit false

namespace Library

/-! ## Sorting on a list -/

section Sorting

variable {α : Type} {r : α → α → Prop}

/-- A relation that puts the members of a list into one order. -/
structure OrdersList (r : α → α → Prop) (l : List α) : Prop where
  total : ∀ a ∈ l, ∀ b ∈ l, r a b ∨ r b a
  trans : ∀ a ∈ l, ∀ b ∈ l, ∀ c ∈ l, r a b → r b c → r a c
  antisymm : ∀ a ∈ l, ∀ b ∈ l, r a b → r b a → a = b

theorem OrdersList.perm {l l' : List α} (h : OrdersList r l) (hperm : l.Perm l') :
    OrdersList r l' where
  total a ha b hb := h.total a (hperm.mem_iff.mpr ha) b (hperm.mem_iff.mpr hb)
  trans a ha b hb c hc :=
    h.trans a (hperm.mem_iff.mpr ha) b (hperm.mem_iff.mpr hb) c (hperm.mem_iff.mpr hc)
  antisymm a ha b hb := h.antisymm a (hperm.mem_iff.mpr ha) b (hperm.mem_iff.mpr hb)

/-- One list in order is all the lists in order that have its members. -/
theorem OrdersList.eq_of_perm {l sorted sorted' : List α} (h : OrdersList r l)
    (hsorted : sorted.Pairwise r) (hsorted' : sorted'.Pairwise r) (hl : sorted.Perm l)
    (hl' : sorted'.Perm l) : sorted = sorted' := by
  apply List.Perm.eq_of_pairwise _ hsorted hsorted' (hl.trans hl'.symm)
  intro a b ha hb hab hba
  exact h.antisymm a (hl.mem_iff.mp ha) b (hl'.mem_iff.mp hb) hab hba

variable [DecidableRel r]

/-- What is sorted stands in order. -/
theorem OrdersList.pairwise_insertionSort {l : List α} (h : OrdersList r l) :
    (l.insertionSort r).Pairwise r := by
  -- On the members of the list the relation is one of the kind that Mathlib's lemma asks for.
  let onMembers : {a // a ∈ l} → {a // a ∈ l} → Prop := fun a b => r a.1 b.1
  have : DecidableRel onMembers := fun a b => inferInstanceAs (Decidable (r a.1 b.1))
  have : Std.Total onMembers := ⟨fun a b => h.total a.1 a.2 b.1 b.2⟩
  have : IsTrans {a // a ∈ l} onMembers :=
    ⟨fun a b c => h.trans a.1 a.2 b.1 b.2 c.1 c.2⟩
  have hsorted : (l.attach.insertionSort onMembers).Pairwise onMembers :=
    List.pairwise_insertionSort onMembers l.attach
  have hmap : (l.attach.insertionSort onMembers).map Subtype.val = l.insertionSort r := by
    rw [List.map_insertionSort onMembers r Subtype.val l.attach fun _ _ _ _ => Iff.rfl,
      List.attach_map_subtype_val]
  rw [← hmap, List.pairwise_map]
  exact hsorted

/-- A list is sorted into the same list however it is handed over. -/
theorem OrdersList.insertionSort_eq_of_perm {l l' : List α} (h : OrdersList r l)
    (hperm : l.Perm l') : l.insertionSort r = l'.insertionSort r :=
  h.eq_of_perm h.pairwise_insertionSort (h.perm hperm).pairwise_insertionSort
    (List.perm_insertionSort r l) ((List.perm_insertionSort r l').trans hperm.symm)

/-! ## One more at the end -/

omit [DecidableRel r] in
/-- A list in order is cut in two by what holds of all that stands before one it holds of. -/
theorem filter_append_filter_not {p : α → Bool} {l : List α} (h : l.Pairwise r)
    (hp : ∀ a b, r a b → p b = true → p a = true) :
    l.filter p ++ l.filter (fun a => !p a) = l := by
  induction l with
  | nil => rfl
  | cons a l ih =>
      obtain ⟨ha, hl⟩ := List.pairwise_cons.mp h
      cases hpa : p a with
      | true => simp [hpa, ih hl]
      | false =>
          have hnone : ∀ b ∈ l, p b = false := by
            intro b hb
            by_contra hpb
            simp [hp a b (ha b hb) (by simpa using hpb)] at hpa
          rw [List.filter_eq_nil_iff.mpr (by simpa [hpa] using hnone), List.nil_append,
            List.filter_eq_self.mpr (by simpa [hpa] using hnone)]

/-- Sorting is stable: what is put behind a list in order comes after all that may stand before
it. -/
theorem insertionSort_concat [Std.Total r] [IsTrans α r] {l : List α} (h : l.Pairwise r) (a : α) :
    (l ++ [a]).insertionSort r =
      l.filter (fun b => decide (r b a)) ++ a :: l.filter fun b => !decide (r b a) := by
  induction l with
  | nil => rfl
  | cons b l ih =>
      obtain ⟨hb, hl⟩ := List.pairwise_cons.mp h
      by_cases hba : r b a
      · have hall : ∀ c ∈ l ++ [a], r b c := by
          intro c hc
          rcases List.mem_append.mp hc with hc | hc
          · exact hb c hc
          · rwa [List.mem_singleton.mp hc]
        rw [List.cons_append, List.insertionSort_cons_of_forall_rel r hall, ih hl]
        simp [hba]
      · -- What stands behind `b` may not stand before `a` either: `b` comes before it.
        have hbehind : ∀ c ∈ l, ¬ r c a := fun c hc hca => hba (trans_of r (hb c hc) hca)
        have hbefore : l.filter (fun c => decide (r c a)) = [] :=
          List.filter_eq_nil_iff.mpr (by simpa using hbehind)
        have hafter : (l.filter fun c => !decide (r c a)) = l :=
          List.filter_eq_self.mpr (by simpa using hbehind)
        have hsorted : (b :: l).insertionSort r = b :: l := h.insertionSort_eq
        rw [List.insertionSort_cons, hl.insertionSort_eq] at hsorted
        rw [List.cons_append, List.insertionSort_cons, ih hl, hbefore, hafter, List.nil_append,
          List.orderedInsert_of_not_le r _ hba, hsorted]
        simp [hba, hbefore, hafter]

end Sorting

/-! ## Numbers as they are written -/

/-- The number that is meant. -/
def JsonNumber.value (n : JsonNumber) : ℚ :=
  n.decimal.1 * 10 ^ n.decimal.2

/-- A number over a power of ten that is no greater than its own. -/
theorem JsonNumber.value_eq (n : JsonNumber) {least : Int} (h : least ≤ n.decimal.2) :
    n.value = (n.decimal.1 * 10 ^ (n.decimal.2 - least).toNat : Int) * (10 : ℚ) ^ least := by
  have hten : (10 : ℚ) ^ n.decimal.2 = 10 ^ (n.decimal.2 - least).toNat * 10 ^ least := by
    rw [← zpow_natCast, ← zpow_add₀ (by norm_num), Int.toNat_of_nonneg (by omega)]
    congr 1
    omega
  rw [JsonNumber.value, hten]
  push_cast
  ring

/-- Numbers compare as what is meant. -/
theorem JsonNumber.compare_eq (a b : JsonNumber) :
    a.compare b = Ord.compare a.value b.value := by
  have hpos : (0 : ℚ) < 10 ^ min a.decimal.2 b.decimal.2 := zpow_pos (by norm_num) _
  rw [JsonNumber.compare, a.value_eq (min_le_left _ b.decimal.2),
    b.value_eq (min_le_right a.decimal.2 _)]
  rw [LinearOrder.compare_eq_compareOfLessAndEq, compareOfLessAndEq, compareOfLessAndEq]
  simp only [mul_lt_mul_iff_left₀ hpos, mul_left_inj' hpos.ne', Int.cast_lt, Int.cast_inj]

end Library
