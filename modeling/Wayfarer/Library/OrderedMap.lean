import Mathlib.Data.List.Nodup
import Mathlib.Tactic.Common

/-!
# Maps and sets that keep their order

The maps and sets of the modelled language list their keys in the order they were
first put in; setting a key again replaces its value and leaves its place. Both are
lists here that carry the proof that no key stands in them twice.
-/

set_option autoImplicit false

namespace Library

universe u v

/-! ## The last of a list -/

/-- The last item of a kind. -/
theorem getLast?_filter_eq_some_iff {α : Type u} {p : α → Bool} {l : List α} {a : α} :
    (l.filter p).getLast? = some a ↔
      ∃ before after, l = before ++ a :: after ∧ p a = true ∧ ∀ x ∈ after, p x = false := by
  rw [← List.head?_reverse, ← List.filter_reverse, List.head?_filter, List.find?_eq_some_iff_append]
  constructor
  · rintro ⟨ha, after, before, heq, hafter⟩
    refine ⟨before.reverse, after.reverse, ?_, ha, fun x hx => ?_⟩
    · have hback := congrArg List.reverse heq
      simpa using hback
    · simpa using hafter x (List.mem_reverse.mp hx)
  · rintro ⟨before, after, rfl, ha, hafter⟩
    refine ⟨ha, after.reverse, before.reverse, by simp, fun x hx => ?_⟩
    rw [hafter x (List.mem_reverse.mp hx)]
    rfl

/-! ## Sets -/

/-- A set that lists its members in the order they were added. -/
structure OrderedSet (α : Type u) where
  /-- The members. -/
  members : List α
  /-- Each once. -/
  nodup : members.Nodup

namespace OrderedSet

variable {α : Type u} [DecidableEq α]

/-- The set of nothing. -/
def empty : OrderedSet α := ⟨[], List.nodup_nil⟩

instance : Inhabited (OrderedSet α) := ⟨empty⟩

instance : DecidableEq (OrderedSet α) := fun s t =>
  decidable_of_iff (s.members = t.members) (by cases s; cases t; simp)

/-- A member added at the end, unless it is there. -/
def add (s : OrderedSet α) (a : α) : OrderedSet α :=
  if h : a ∈ s.members then s
  else ⟨s.members ++ [a], by
    refine List.Nodup.append s.nodup (List.nodup_singleton a) ?_
    simpa using h⟩

instance : Membership α (OrderedSet α) := ⟨fun s a => a ∈ s.members⟩

instance (a : α) (s : OrderedSet α) : Decidable (a ∈ s) :=
  inferInstanceAs (Decidable (a ∈ s.members))

omit [DecidableEq α] in
theorem mem_def {a : α} {s : OrderedSet α} :
    a ∈ s ↔ a ∈ s.members := Iff.rfl

omit [DecidableEq α] in
@[simp]
theorem not_mem_empty (a : α) :
    a ∉ (empty : OrderedSet α) := by
  simp [mem_def, empty]

@[simp]
theorem mem_add {a b : α} {s : OrderedSet α} :
    b ∈ s.add a ↔ b = a ∨ b ∈ s := by
  unfold add
  split_ifs with h
  · constructor
    · exact Or.inr
    · rintro (rfl | hb)
      · exact h
      · exact hb
  · simp [mem_def, or_comm]

end OrderedSet

/-! ## Maps -/

/-- A map that lists its entries in the order their keys were first set. -/
structure OrderedMap (κ : Type u) (ν : Type v) where
  /-- The entries. -/
  entries : List (κ × ν)
  /-- One for a key. -/
  nodup : (entries.map Prod.fst).Nodup

namespace OrderedMap

variable {κ : Type u} {ν : Type v} [DecidableEq κ]

/-- The map of nothing. -/
def empty : OrderedMap κ ν := ⟨[], List.nodup_nil⟩

instance : Inhabited (OrderedMap κ ν) := ⟨empty⟩

/-- The keys, in order. -/
def keys (m : OrderedMap κ ν) : List κ := m.entries.map Prod.fst

/-- The values, in the order of their keys. -/
def values (m : OrderedMap κ ν) : List ν := m.entries.map Prod.snd

/-- The value of a key. -/
def get? (m : OrderedMap κ ν) (k : κ) : Option ν :=
  (m.entries.find? fun e => e.1 = k).map Prod.snd

/-- The entries with the value of `k` replaced where it stands. -/
def replaced (entries : List (κ × ν)) (k : κ) (v : ν) : List (κ × ν) :=
  entries.map fun e => if e.1 = k then (k, v) else e

theorem map_fst_replaced (entries : List (κ × ν)) (k : κ) (v : ν) :
    (replaced entries k v).map Prod.fst = entries.map Prod.fst := by
  induction entries with
  | nil => rfl
  | cons e entries ih =>
      by_cases h : e.1 = k
      · simpa [replaced, h] using ih
      · simpa [replaced, h] using ih

/-- A key set: its value replaced where it stands, or a new entry at the end. -/
def set (m : OrderedMap κ ν) (k : κ) (v : ν) : OrderedMap κ ν :=
  if h : k ∈ m.keys then
    ⟨replaced m.entries k v, by rw [map_fst_replaced]; exact m.nodup⟩
  else
    ⟨m.entries ++ [(k, v)], by
      rw [List.map_append]
      refine List.Nodup.append m.nodup (by simp) ?_
      simpa [keys] using h⟩

/-- A key taken out. -/
def erase (m : OrderedMap κ ν) (k : κ) : OrderedMap κ ν :=
  ⟨m.entries.filter fun e => e.1 ≠ k, m.nodup.sublist (List.filter_sublist.map Prod.fst)⟩

/-- The map of a list of pairs: a later pair of a key wins, in the place of the first. -/
def ofPairs (pairs : List (κ × ν)) : OrderedMap κ ν :=
  pairs.foldl (fun m e => m.set e.1 e.2) empty

@[simp]
theorem get?_empty (k : κ) :
    (empty : OrderedMap κ ν).get? k = none := rfl

theorem find?_replaced (entries : List (κ × ν)) (k k' : κ) (v : ν) :
    ((replaced entries k v).find? fun e => e.1 = k').map Prod.snd =
      if k = k' then (entries.find? fun e => e.1 = k).map fun _ => v
      else (entries.find? fun e => e.1 = k').map Prod.snd := by
  induction entries with
  | nil => simp [replaced]
  | cons e entries ih =>
      by_cases hk : k = k'
      · subst hk
        by_cases he : e.1 = k
        · simp [replaced, he]
        · simpa [replaced, he] using ih
      · by_cases he : e.1 = k
        · have hne : ¬ e.1 = k' := fun h => hk (he.symm.trans h)
          simpa [replaced, he, hk, hne] using ih
        · by_cases he' : e.1 = k'
          · have hne : ¬ k' = k := fun h => hk h.symm
            simp [replaced, he', hk, hne]
          · simpa [replaced, he, hk, he'] using ih

theorem find?_eq_none_of_not_mem_keys {m : OrderedMap κ ν} {k : κ} (h : k ∉ m.keys) :
    (m.entries.find? fun e => e.1 = k) = none := by
  rw [List.find?_eq_none]
  intro e he hek
  refine h (List.mem_map.mpr ⟨e, he, ?_⟩)
  simpa using hek

theorem exists_find?_of_mem_keys {m : OrderedMap κ ν} {k : κ} (h : k ∈ m.keys) :
    ∃ e, (m.entries.find? fun e => e.1 = k) = some e := by
  obtain ⟨e, he, hek⟩ := List.mem_map.mp h
  cases hfind : m.entries.find? fun e => e.1 = k with
  | some e => exact ⟨e, rfl⟩
  | none =>
      rw [List.find?_eq_none] at hfind
      exact absurd (by simpa using hek) (hfind e he)

/-- An entry is what its key is looked up as. -/
theorem get?_of_mem_entries {m : OrderedMap κ ν} {e : κ × ν} (h : e ∈ m.entries) :
    m.get? e.1 = some e.2 := by
  obtain ⟨entries, hnodup⟩ := m
  unfold get?
  induction entries with
  | nil => cases h
  | cons first entries ih =>
      rw [List.map_cons, List.nodup_cons] at hnodup
      obtain rfl | hlater := List.mem_cons.mp h
      · simp
      · have hne : first.1 ≠ e.1 := fun heq => hnodup.1 (heq ▸ List.mem_map_of_mem hlater)
        simpa [List.find?_cons, hne] using ih hnodup.2 hlater

/-- A key has the value it was last set to; no other key is touched. -/
@[simp]
theorem get?_set (m : OrderedMap κ ν) (k k' : κ) (v : ν) :
    (m.set k v).get? k' = if k = k' then some v else m.get? k' := by
  unfold set get?
  split_ifs with hmem hk hk
  · obtain ⟨e, he⟩ := exists_find?_of_mem_keys hmem
    rw [find?_replaced, if_pos hk, he]
    rfl
  · rw [find?_replaced, if_neg hk]
  · subst hk
    simp [find?_eq_none_of_not_mem_keys hmem]
  · simp [List.find?_append, hk]

/-- What a key has after one was set: the value set, or what another key had. -/
theorem get?_set_eq_some_iff {m : OrderedMap κ ν} {k k' : κ} {v v' : ν} :
    (m.set k v).get? k' = some v' ↔ (k = k' ∧ v = v') ∨ (k ≠ k' ∧ m.get? k' = some v') := by
  rw [get?_set]
  split_ifs with hk
  · simp [hk]
  · simp [hk]

/-- A key that was taken out has no value; no other key is touched. -/
theorem get?_erase (m : OrderedMap κ ν) (k k' : κ) :
    (m.erase k).get? k' = if k = k' then none else m.get? k' := by
  unfold erase get?
  rw [List.find?_filter]
  split_ifs with hk
  · subst hk
    rw [List.find?_eq_none.mpr (by simp), Option.map_none]
  · congr 2
    funext e
    by_cases he : e.1 = k'
    · have hne : e.1 ≠ k := fun heq => hk (heq.symm.trans he)
      simp [he, Ne.symm hk]
    · simp [he]

/-- Keys set one after the other. -/
def setAll (m : OrderedMap κ ν) (pairs : List (κ × ν)) : OrderedMap κ ν :=
  pairs.foldl (fun m e => m.set e.1 e.2) m

/-- What a key holds after others, or it, were set: the value it was given last. -/
theorem get?_setAll (pairs : List (κ × ν)) (m : OrderedMap κ ν) (k : κ) :
    (m.setAll pairs).get? k =
      ((pairs.reverse.find? fun e => e.1 = k).map Prod.snd).or (m.get? k) := by
  induction pairs generalizing m with
  | nil => rfl
  | cons e pairs ih =>
      have hstep : m.setAll (e :: pairs) = (m.set e.1 e.2).setAll pairs := rfl
      rw [hstep, ih, get?_set, List.reverse_cons, List.find?_append, List.find?_singleton]
      cases pairs.reverse.find? fun e => decide (e.1 = k) with
      | some last => rfl
      | none =>
          by_cases hk : e.1 = k
          · simp [hk]
          · simp [hk]

/-- Keys that are set once each hold what they were set to. -/
theorem get?_setAll_of_nodup {pairs : List (κ × ν)} (hnodup : (pairs.map Prod.fst).Nodup)
    {e : κ × ν} (he : e ∈ pairs) (m : OrderedMap κ ν) :
    (m.setAll pairs).get? e.1 = some e.2 := by
  have hsome : (pairs.reverse.find? fun e' => e'.1 = e.1).isSome := by
    rw [List.find?_isSome]
    exact ⟨e, List.mem_reverse.mpr he, by simp⟩
  obtain ⟨last, hlast⟩ := Option.isSome_iff_exists.mp hsome
  have hmem : last ∈ pairs := List.mem_reverse.mp (List.mem_of_find?_eq_some hlast)
  have hkey : last.1 = e.1 := by simpa using List.find?_some hlast
  rw [get?_setAll, hlast, List.inj_on_of_nodup_map hnodup hmem he hkey]
  rfl

/-- A key is in the map when it is set. -/
theorem mem_keys_set {m : OrderedMap κ ν} {k k' : κ} {v : ν} :
    k' ∈ (m.set k v).keys ↔ k' = k ∨ k' ∈ m.keys := by
  unfold set
  split_ifs with h
  · have hkeys : (⟨replaced m.entries k v, by rw [map_fst_replaced]; exact m.nodup⟩ :
        OrderedMap κ ν).keys = m.keys := map_fst_replaced m.entries k v
    rw [hkeys]
    constructor
    · exact Or.inr
    · rintro (rfl | h')
      · exact h
      · exact h'
  · simp [keys, or_comm]

theorem mem_entries_set {m : OrderedMap κ ν} {k : κ} {v : ν} {e : κ × ν}
    (h : e ∈ (m.set k v).entries) :
    e = (k, v) ∨ e ∈ m.entries := by
  unfold set at h
  split_ifs at h with hmem
  · obtain ⟨e', he', heq⟩ := List.mem_map.mp h
    by_cases hk : e'.1 = k
    · rw [if_pos hk] at heq
      exact Or.inl heq.symm
    · rw [if_neg hk] at heq
      exact Or.inr (heq ▸ he')
  · rcases List.mem_append.mp h with h | h
    · exact Or.inr h
    · exact Or.inl (List.mem_singleton.mp h)

/-- Every entry of a map of pairs is one of the pairs. -/
theorem mem_of_mem_entries_ofPairs {pairs : List (κ × ν)} {e : κ × ν}
    (h : e ∈ (ofPairs pairs).entries) :
    e ∈ pairs := by
  have hgen : ∀ (rest : List (κ × ν)) (m : OrderedMap κ ν),
      e ∈ (rest.foldl (fun m e => m.set e.1 e.2) m).entries → e ∈ m.entries ∨ e ∈ rest := by
    intro rest
    induction rest with
    | nil => exact fun m h => Or.inl h
    | cons pair rest ih =>
        intro m h
        rcases ih (m.set pair.1 pair.2) h with h | h
        · rcases mem_entries_set h with rfl | h
          · exact Or.inr (by simp)
          · exact Or.inl h
        · exact Or.inr (by simp [h])
  rcases hgen pairs empty h with h | h
  · simp [empty] at h
  · exact h

/-- A map of pairs has the last value of a key. -/
theorem get?_ofPairs (pairs : List (κ × ν)) (k : κ) :
    (ofPairs pairs).get? k = ((pairs.filter fun e => e.1 = k).getLast?).map Prod.snd := by
  have hset : ofPairs pairs = empty.setAll pairs := rfl
  rw [hset, get?_setAll, get?_empty, Option.or_none, ← List.head?_reverse, ← List.filter_reverse,
    List.head?_filter]

/-- A key that is not there is added last. -/
theorem entries_set_of_not_mem {m : OrderedMap κ ν} {k : κ} (h : k ∉ m.keys) (v : ν) :
    (m.set k v).entries = m.entries ++ [(k, v)] := by
  rw [set, dif_neg h]

/-- Pairs of different keys are the entries of their map. -/
theorem entries_ofPairs_of_nodup {pairs : List (κ × ν)} (h : (pairs.map Prod.fst).Nodup) :
    (ofPairs pairs).entries = pairs := by
  have hgen : ∀ (rest : List (κ × ν)) (m : OrderedMap κ ν),
      ((m.entries ++ rest).map Prod.fst).Nodup →
      (rest.foldl (fun m e => m.set e.1 e.2) m).entries = m.entries ++ rest := by
    intro rest
    induction rest with
    | nil =>
        intro m _
        rw [List.append_nil]
        rfl
    | cons e rest ih =>
        intro m hnodup
        have hnew : e.1 ∉ m.keys := by
          intro hmem
          rw [List.map_append, List.map_cons] at hnodup
          exact (List.nodup_append'.mp hnodup).2.2 hmem List.mem_cons_self
        have hset := entries_set_of_not_mem hnew e.2
        rw [List.foldl_cons, ih, hset, List.append_assoc, List.singleton_append]
        rw [hset, List.append_assoc, List.singleton_append]
        exact hnodup
  exact hgen pairs empty h

/-- A key that has a value is among the keys. -/
theorem get?_eq_none_iff {m : OrderedMap κ ν} {k : κ} :
    m.get? k = none ↔ k ∉ m.keys := by
  constructor
  · intro h hmem
    obtain ⟨e, he⟩ := exists_find?_of_mem_keys hmem
    simp [get?, he] at h
  · intro h
    simp [get?, find?_eq_none_of_not_mem_keys h]

end OrderedMap

end Library
