import Mathlib.Data.List.Basic
import Mathlib.Tactic.Common

/-!
# Lists of items with keys

A list may hold several items of one key, and items of different keys in any order. It
is determined by two things: the order of its keys, and for each key the items that have
it (`keyed_ext`). `appendNew` adds the keys that are not there yet at the end, which is what
setting a key does to the order.
-/

set_option autoImplicit false

namespace Library

universe u v

section KeyedList

variable {α : Type u} {κ : Type v} [DecidableEq κ] (key : α → κ)

/-- The items of a key, in order. -/
def itemsOf (k : κ) (l : List α) : List α :=
  l.filter fun a => key a = k

@[simp]
theorem itemsOf_nil (k : κ) :
    itemsOf key k [] = [] := rfl

theorem itemsOf_cons (k : κ) (a : α) (l : List α) :
    itemsOf key k (a :: l) = if key a = k then a :: itemsOf key k l else itemsOf key k l := by
  by_cases h : key a = k
  · simp [itemsOf, h]
  · simp [itemsOf, h]

@[simp]
theorem itemsOf_append (k : κ) (l m : List α) :
    itemsOf key k (l ++ m) = itemsOf key k l ++ itemsOf key k m := by
  simp [itemsOf]

theorem mem_itemsOf {k : κ} {a : α} {l : List α} :
    a ∈ itemsOf key k l ↔ a ∈ l ∧ key a = k := by
  simp [itemsOf]

/-- A key has no items exactly when it is not among the keys. -/
theorem itemsOf_eq_nil_iff {k : κ} {l : List α} :
    itemsOf key k l = [] ↔ k ∉ l.map key := by
  simp only [itemsOf, List.filter_eq_nil_iff, decide_eq_true_eq, List.mem_map, not_exists, not_and]

/-- Two lists are equal exactly when their keys stand in the same order and each key has
the same items. -/
theorem keyed_ext {l m : List α} :
    l = m ↔ l.map key = m.map key ∧ ∀ k, itemsOf key k l = itemsOf key k m := by
  constructor
  · rintro rfl
    exact ⟨rfl, fun _ => rfl⟩
  · rintro ⟨hkeys, hitems⟩
    induction l generalizing m with
    | nil => exact (List.map_eq_nil_iff.mp hkeys.symm).symm
    | cons a l ih =>
        cases m with
        | nil => simp at hkeys
        | cons b m =>
            simp only [List.map_cons, List.cons.injEq] at hkeys
            obtain ⟨hkey, hkeys⟩ := hkeys
            have hhead := hitems (key a)
            rw [itemsOf_cons, itemsOf_cons, if_pos rfl, if_pos hkey.symm] at hhead
            obtain ⟨rfl, -⟩ := List.cons.inj hhead
            refine congrArg (a :: ·) (ih hkeys ?_)
            intro k
            have hk := hitems k
            rw [itemsOf_cons, itemsOf_cons] at hk
            by_cases h : key a = k
            · rw [if_pos h, if_pos h] at hk
              exact (List.cons.inj hk).2
            · rwa [if_neg h, if_neg h] at hk

/-- The keys of a list without the items of one key. -/
theorem map_filter_key_ne (k : κ) (l : List α) :
    (l.filter fun a => key a ≠ k).map key = (l.map key).filter fun j => j ≠ k := by
  rw [List.filter_map]
  rfl

end KeyedList

section AppendNew

variable {κ : Type v} [DecidableEq κ]

/-- The keys with `k` at the end, unless it is among them. -/
def appendNew (keys : List κ) (k : κ) : List κ :=
  if k ∈ keys then keys else keys ++ [k]

theorem mem_appendNew {keys : List κ} {k j : κ} :
    j ∈ appendNew keys k ↔ j ∈ keys ∨ j = k := by
  unfold appendNew
  split_ifs with h
  · constructor
    · exact Or.inl
    · rintro (hj | rfl)
      · exact hj
      · exact h
  · simp

/-- Of the names added, those that are there already may be left out. -/
theorem foldl_appendNew_filter {names keys : List κ} (p : κ → Bool)
    (h : ∀ k ∈ names, p k = false → k ∈ keys) :
    (names.filter p).foldl appendNew keys = names.foldl appendNew keys := by
  induction names generalizing keys with
  | nil => rfl
  | cons k names ih =>
      have hrest : ∀ j ∈ names, p j = false → j ∈ appendNew keys k := fun j hj hp =>
        mem_appendNew.mpr (Or.inl (h j (by simp [hj]) hp))
      by_cases hp : p k = true
      · rw [List.filter_cons_of_pos hp, List.foldl_cons, List.foldl_cons]
        exact ih hrest
      · have hmem : k ∈ keys := h k (by simp) (by simpa using hp)
        have hk : appendNew keys k = keys := if_pos hmem
        rw [List.filter_cons_of_neg hp, List.foldl_cons, hk]
        rw [hk] at hrest
        exact ih hrest

/-- Names that are taken out do not matter to where others are added. -/
theorem filter_foldl_appendNew {names keys : List κ} (p : κ → Bool)
    (h : ∀ k ∈ names, p k = true) :
    (names.foldl appendNew keys).filter p = names.foldl appendNew (keys.filter p) := by
  induction names generalizing keys with
  | nil => rfl
  | cons k names ih =>
      have hk : p k = true := h k (by simp)
      have hstep : (appendNew keys k).filter p = appendNew (keys.filter p) k := by
        unfold appendNew
        by_cases hmem : k ∈ keys
        · have hmem' : k ∈ keys.filter p := List.mem_filter.mpr ⟨hmem, hk⟩
          rw [if_pos hmem, if_pos hmem']
        · have hmem' : k ∉ keys.filter p := fun h' => hmem (List.mem_filter.mp h').1
          rw [if_neg hmem, if_neg hmem', List.filter_append]
          simp [hk]
      rw [List.foldl_cons, List.foldl_cons, ih (fun j hj => h j (by simp [hj])), hstep]

end AppendNew

end Library
