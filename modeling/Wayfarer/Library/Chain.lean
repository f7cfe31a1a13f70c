import Mathlib.Data.List.Chain
import Mathlib.Logic.Relation

/-!
# What holds along a chain

A list in which each member is related to the next. A relation that holds of neighbours and is
transitive holds of any two members, in order: what one step keeps is kept from the first member
to the last.

Where each member has one next at most, a ring is never left: from what a ring leads to, it leads
back (`reflTransGen_back`), so that a chain with an end has no ring in it.
-/

set_option autoImplicit false

namespace Library

universe u

variable {α : Type u} {R : α → α → Prop} {l : List α} {i j : Nat} {a b : α}

/-- A member of a chain and the one after it. -/
theorem rel_next_of_isChain (hchain : l.IsChain R) (ha : l[i]? = some a)
    (hb : l[i + 1]? = some b) : R a b := by
  obtain ⟨hi, rfl⟩ := List.getElem?_eq_some_iff.mp ha
  obtain ⟨hj, rfl⟩ := List.getElem?_eq_some_iff.mp hb
  exact List.isChain_iff_getElem.mp hchain i hj

/-- A member of a chain and a later one, where the relation is transitive. -/
theorem rel_of_isChain (htrans : ∀ a b c, R a b → R b c → R a c) (hchain : l.IsChain R)
    (hij : i < j) (ha : l[i]? = some a) (hb : l[j]? = some b) : R a b := by
  have : Trans R R R := ⟨fun hab hbc => htrans _ _ _ hab hbc⟩
  have hpairs := List.isChain_iff_pairwise.mp hchain
  obtain ⟨hi, rfl⟩ := List.getElem?_eq_some_iff.mp ha
  obtain ⟨hj, rfl⟩ := List.getElem?_eq_some_iff.mp hb
  exact List.pairwise_iff_getElem.mp hpairs i j hi hj hij

/-- The same for a member and one that is not before it, where the relation is reflexive. -/
theorem rel_of_isChain_of_le (hrefl : ∀ a, R a a) (htrans : ∀ a b c, R a b → R b c → R a c)
    (hchain : l.IsChain R) (hij : i ≤ j) (ha : l[i]? = some a) (hb : l[j]? = some b) :
    R a b := by
  obtain rfl | hlt := hij.eq_or_lt
  · rw [ha] at hb
    cases hb
    exact hrefl a
  · exact rel_of_isChain htrans hchain hlt ha hb

/-! ## Rings -/

section

open Relation

/-- A ring that has one way on is led back to from wherever it leads. -/
theorem reflTransGen_back (hunique : Relator.RightUnique R) (hring : TransGen R a a)
    (h : ReflTransGen R a b) : ReflTransGen R b a := by
  induction h with
  | refl => exact .refl
  | tail _ hstep ih =>
      rcases ReflTransGen.cases_head ih with rfl | ⟨next, hnext, hrest⟩
      · -- The last step began at `a`: it is the first of the ring.
        obtain ⟨next, hnext, hrest⟩ := TransGen.head'_iff.mp hring
        rwa [hunique hstep hnext]
      · rwa [hunique hstep hnext]

/-- What is on a ring leads to no end. -/
theorem not_end_of_ring (hunique : Relator.RightUnique R) (hring : TransGen R a a)
    (h : ReflTransGen R a b) : ∃ c, R b c := by
  obtain ⟨next, hnext, -⟩ := TransGen.head'_iff.mp hring
  rcases ReflTransGen.cases_head (reflTransGen_back hunique hring h) with rfl | ⟨c, hc, -⟩
  · exact ⟨next, hnext⟩
  · exact ⟨c, hc⟩

end

end Library
