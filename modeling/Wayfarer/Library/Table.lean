import Mathlib.Data.List.Nodup
import Mathlib.Data.List.Dedup
import Mathlib.Data.List.Forall2
import Mathlib.Data.List.Induction
import Mathlib.Tactic.Common

/-!
# Tables

A store of records under a key that each record carries: no two records of one key. `put` writes a
record over the one of its key, `add` refuses where there is one, `delete` takes a key out. What is
in a table after a list of writes is said by membership (`mem_putAll`), and how many records a
clause selects by the keys written (`length_getAll_putAll`).
-/

set_option autoImplicit false

namespace Library

universe u v

variable {α : Type u} {κ : Type v}

/-- A table: records, one of a key at most. -/
structure Table (key : α → κ) where
  /-- The records. -/
  rows : List α
  /-- One of a key. -/
  nodup : (rows.map key).Nodup

namespace Table

variable {key : α → κ}

/-- The table of nothing. -/
def empty : Table key := ⟨[], List.nodup_nil⟩

instance : Inhabited (Table key) := ⟨empty⟩

instance : Membership α (Table key) := ⟨fun t a => a ∈ t.rows⟩

theorem mem_def {a : α} {t : Table key} :
    a ∈ t ↔ a ∈ t.rows := Iff.rfl

@[simp]
theorem not_mem_empty (a : α) :
    a ∉ (empty : Table key) := by
  simp [mem_def, empty]

/-- Two records of one key are one record. -/
theorem eq_of_key_eq {t : Table key} {a b : α} (ha : a ∈ t) (hb : b ∈ t) (h : key a = key b) :
    a = b :=
  List.inj_on_of_nodup_map t.nodup ha hb h

/-- The records a clause selects. -/
def getAll (t : Table key) (p : α → Bool) : List α :=
  t.rows.filter p

@[simp]
theorem mem_getAll {t : Table key} {p : α → Bool} {a : α} :
    a ∈ t.getAll p ↔ a ∈ t ∧ p a = true := by
  simp [getAll, mem_def]

/-- The records a clause selects have keys of their own. -/
theorem nodup_getAll (t : Table key) (p : α → Bool) : ((t.getAll p).map key).Nodup :=
  t.nodup.sublist (List.filter_sublist.map key)

variable [DecidableEq κ]

/-- The record of a key. -/
def get? (t : Table key) (k : κ) : Option α :=
  t.rows.find? fun a => key a = k

/-- The table without a key. -/
def delete (t : Table key) (k : κ) : Table key :=
  ⟨t.rows.filter fun a => key a ≠ k, t.nodup.sublist (List.filter_sublist.map key)⟩

/-- A record written, over the one of its key. -/
def put (t : Table key) (a : α) : Table key where
  rows := (t.delete (key a)).rows ++ [a]
  nodup := by
    rw [List.map_append]
    apply List.Nodup.append (t.delete (key a)).nodup (by simp)
    intro k hk
    obtain ⟨b, hb, rfl⟩ := List.mem_map.mp hk
    simpa [delete] using (List.mem_filter.mp hb).2

/-- A record added; nothing where there is one of its key. -/
def add (t : Table key) (a : α) : Option (Table key) :=
  if (t.get? (key a)).isSome then none else some (t.put a)

/-- Records written one after the other. -/
def putAll (t : Table key) (l : List α) : Table key :=
  l.foldl put t

/-- Keys taken out one after the other. -/
def deleteAll (t : Table key) (keys : List κ) : Table key :=
  keys.foldl delete t

/-- The record of a key, and the key of a record. -/
theorem get?_eq_some_iff {t : Table key} {k : κ} {a : α} :
    t.get? k = some a ↔ a ∈ t ∧ key a = k := by
  constructor
  · intro h
    exact ⟨List.mem_of_find?_eq_some h, by simpa using List.find?_some h⟩
  · rintro ⟨ha, rfl⟩
    unfold get?
    cases hfind : t.rows.find? fun b => decide (key b = key a) with
    | none =>
        have := List.find?_eq_none.mp hfind a ha
        simp at this
    | some b =>
        have hb : b ∈ t := List.mem_of_find?_eq_some hfind
        have hkey : key b = key a := by simpa using List.find?_some hfind
        rw [eq_of_key_eq hb ha hkey]

theorem get?_eq_none_iff {t : Table key} {k : κ} :
    t.get? k = none ↔ ∀ a ∈ t, key a ≠ k := by
  simp [get?, mem_def]

@[simp]
theorem mem_delete {t : Table key} {k : κ} {a : α} :
    a ∈ t.delete k ↔ a ∈ t ∧ key a ≠ k := by
  simp [mem_def, delete]

@[simp]
theorem mem_put {t : Table key} {a b : α} :
    b ∈ t.put a ↔ b = a ∨ b ∈ t ∧ key b ≠ key a := by
  have hrows : b ∈ t.put a ↔ b ∈ t.delete (key a) ∨ b = a := by
    simp [mem_def, put]
  rw [hrows, mem_delete, or_comm]

theorem add_eq_some_iff {t t' : Table key} {a : α} :
    t.add a = some t' ↔ (∀ b ∈ t, key b ≠ key a) ∧ t' = t.put a := by
  unfold add
  cases h : t.get? (key a) with
  | none =>
      have hnone := get?_eq_none_iff.mp h
      constructor
      · intro h'
        exact ⟨hnone, by simpa using h'.symm⟩
      · rintro ⟨-, rfl⟩
        rfl
  | some b =>
      obtain ⟨hb, hkey⟩ := get?_eq_some_iff.mp h
      constructor
      · intro h'
        cases h'
      · rintro ⟨hnone, -⟩
        exact absurd hkey (hnone b hb)

/-- What is in a table after a record was added. -/
theorem mem_of_add {t t' : Table key} {a b : α} (h : t.add a = some t') :
    b ∈ t' ↔ b = a ∨ b ∈ t := by
  obtain ⟨hnone, rfl⟩ := add_eq_some_iff.mp h
  rw [mem_put]
  constructor
  · rintro (rfl | ⟨hb, -⟩)
    · exact Or.inl rfl
    · exact Or.inr hb
  · rintro (rfl | hb)
    · exact Or.inl rfl
    · exact Or.inr ⟨hb, hnone b hb⟩

@[simp]
theorem mem_deleteAll {t : Table key} {keys : List κ} {a : α} :
    a ∈ t.deleteAll keys ↔ a ∈ t ∧ key a ∉ keys := by
  induction keys generalizing t with
  | nil => simp [deleteAll]
  | cons k keys ih =>
      have hstep : t.deleteAll (k :: keys) = (t.delete k).deleteAll keys := rfl
      rw [hstep, ih, mem_delete, List.mem_cons, not_or, and_assoc]

/-- What is left when records of the table are taken out. -/
theorem mem_deleteAll_of_subset {t : Table key} {l : List α} (hl : ∀ a ∈ l, a ∈ t) {a : α} :
    a ∈ t.deleteAll (l.map key) ↔ a ∈ t ∧ a ∉ l := by
  rw [mem_deleteAll]
  constructor
  · rintro ⟨ha, hkey⟩
    exact ⟨ha, fun hin => hkey (List.mem_map_of_mem hin)⟩
  · rintro ⟨ha, hnot⟩
    refine ⟨ha, fun hkey => hnot ?_⟩
    obtain ⟨b, hb, hsame⟩ := List.mem_map.mp hkey
    rwa [← eq_of_key_eq (hl b hb) ha hsame]

/-! ## Lists of writes -/

/-- The record of a key that was written last. -/
def lastOf (key : α → κ) (l : List α) (k : κ) : Option α :=
  l.reverse.find? fun a => key a = k

theorem lastOf_append_singleton (l : List α) (a : α) (k : κ) :
    lastOf key (l ++ [a]) k = if key a = k then some a else lastOf key l k := by
  unfold lastOf
  rw [List.reverse_append, List.reverse_singleton, List.singleton_append, List.find?_cons]
  by_cases h : key a = k
  · simp [h]
  · simp [h]

theorem lastOf_mem {l : List α} {k : κ} {a : α} (h : lastOf key l k = some a) :
    a ∈ l ∧ key a = k := by
  refine ⟨List.mem_reverse.mp (List.mem_of_find?_eq_some h), ?_⟩
  simpa using List.find?_some h

theorem lastOf_isSome {l : List α} {k : κ} :
    (lastOf key l k).isSome ↔ k ∈ l.map key := by
  simp [lastOf, List.find?_isSome]

/-- Where no two records have one key, each is the last of its own. -/
theorem lastOf_of_nodup {l : List α} (hnodup : (l.map key).Nodup) {a : α} (ha : a ∈ l) :
    lastOf key l (key a) = some a := by
  have hsome : (lastOf key l (key a)).isSome := lastOf_isSome.mpr (List.mem_map_of_mem ha)
  obtain ⟨b, hb⟩ := Option.isSome_iff_exists.mp hsome
  obtain ⟨hmem, hkey⟩ := lastOf_mem hb
  rw [hb, List.inj_on_of_nodup_map hnodup hmem ha hkey]

/-- After a list of writes a table holds, of each key written, the record written last, and of any
other key what it held. -/
theorem mem_putAll {t : Table key} {l : List α} {a : α} :
    a ∈ t.putAll l ↔ lastOf key l (key a) = some a ∨ a ∈ t ∧ key a ∉ l.map key := by
  induction l using List.reverseRecOn with
  | nil => simp [putAll, lastOf]
  | append_singleton l b ih =>
      have hstep : t.putAll (l ++ [b]) = (t.putAll l).put b := by
        simp [putAll]
      rw [hstep, mem_put, ih, lastOf_append_singleton]
      by_cases hkey : key b = key a
      · have hne : ¬ key a ≠ key b := fun h => h hkey.symm
        simp [hkey, eq_comm]
      · have hne : key a ≠ key b := fun h => hkey h.symm
        have hab : a ≠ b := fun h => hne (congrArg key h)
        simp [hkey, hne, hab]

/-- Records of one table written together: each is there. -/
theorem mem_putAll_of_subset {t whole : Table key} {l : List α} (ht : ∀ a ∈ t, a ∈ whole)
    (hl : ∀ a ∈ l, a ∈ whole) {a : α} : a ∈ t.putAll l ↔ a ∈ l ∨ a ∈ t := by
  rw [mem_putAll]
  constructor
  · rintro (hlast | ⟨ha, -⟩)
    · exact Or.inl (lastOf_mem hlast).1
    · exact Or.inr ha
  · intro h
    have hwhole : a ∈ whole := h.elim (hl a) (ht a)
    by_cases hkey : key a ∈ l.map key
    · obtain ⟨b, hb⟩ := Option.isSome_iff_exists.mp (lastOf_isSome.mpr hkey)
      obtain ⟨hmem, hsame⟩ := lastOf_mem hb
      rw [eq_of_key_eq (hl b hmem) hwhole hsame] at hb
      exact Or.inl hb
    · refine Or.inr ⟨h.resolve_left fun hin => hkey (List.mem_map_of_mem hin), hkey⟩

/-- The record of a key after a list of writes. -/
theorem get?_putAll {t : Table key} {l : List α} {k : κ} :
    (t.putAll l).get? k = (lastOf key l k).or (t.get? k) := by
  cases hlast : lastOf key l k with
  | some a =>
      obtain ⟨-, rfl⟩ := lastOf_mem hlast
      exact get?_eq_some_iff.mpr ⟨mem_putAll.mpr (Or.inl hlast), rfl⟩
  | none =>
      have hnew : k ∉ l.map key := by
        rw [← lastOf_isSome, hlast]
        exact Bool.false_ne_true
      cases hold : t.get? k with
      | some a =>
          obtain ⟨hmem, rfl⟩ := get?_eq_some_iff.mp hold
          exact get?_eq_some_iff.mpr ⟨mem_putAll.mpr (Or.inr ⟨hmem, hnew⟩), rfl⟩
      | none =>
          refine get?_eq_none_iff.mpr fun a ha hkey => ?_
          rcases mem_putAll.mp ha with hwritten | ⟨hmem, -⟩
          · exact hnew (hkey ▸ List.mem_map_of_mem (lastOf_mem hwritten).1)
          · exact get?_eq_none_iff.mp hold a hmem hkey

/-- A table has a key after a list of writes exactly when it had it or it was written. -/
theorem isSome_get?_putAll {t : Table key} {l : List α} {k : κ} :
    ((t.putAll l).get? k).isSome ↔ k ∈ l.map key ∨ (t.get? k).isSome := by
  rw [get?_putAll, Option.isSome_or, Bool.or_eq_true, lastOf_isSome]

/-- A table has a key exactly when one of its records does. -/
theorem isSome_get?_iff {t : Table key} {k : κ} : (t.get? k).isSome ↔ ∃ a ∈ t, key a = k := by
  rw [Option.isSome_iff_exists]
  exact exists_congr fun a => get?_eq_some_iff

/-- A record of a list that was changed in a way that keeps its key is the last of it as it was. -/
theorem lastOf_map {l : List α} {f : α → α} (hf : ∀ a ∈ l, key (f a) = key a) (k : κ) :
    lastOf key (l.map f) k = (lastOf key l k).map f := by
  induction l using List.reverseRecOn with
  | nil => rfl
  | append_singleton l a ih =>
      rw [List.map_append, List.map_singleton, lastOf_append_singleton, lastOf_append_singleton,
        hf a (by simp), ih fun b hb => hf b (by simp [hb])]
      split_ifs <;> rfl

/-- The first of a list that passes a test goes with the first of a list that goes with it. -/
theorem find?_forall₂ {R : α → α → Prop} {p p' : α → Bool} {l l' : List α}
    (h : List.Forall₂ R l' l) (hp : ∀ a ∈ l, ∀ a', R a' a → p' a' = p a) {a : α}
    (ha : l.find? p = some a) : ∃ a', l'.find? p' = some a' ∧ R a' a := by
  induction h with
  | nil => cases ha
  | @cons b' b l' l hb _ ih =>
      have hsame := hp b (by simp) b' hb
      rw [List.find?_cons] at ha
      rw [List.find?_cons, hsame]
      cases hpb : p b with
      | true =>
          rw [hpb] at ha
          cases ha
          exact ⟨b', rfl, hb⟩
      | false =>
          rw [hpb] at ha
          exact ih (fun c hc => hp c (by simp [hc])) ha

/-- The last record of a key goes with the last of the key it became. -/
theorem lastOf_forall₂ {R : α → α → Prop} {σ : κ → κ} {l l' : List α} (h : List.Forall₂ R l' l)
    (hkey : ∀ a ∈ l, ∀ a', R a' a → key a' = σ (key a))
    (hinj : ∀ a ∈ l, ∀ b ∈ l, σ (key a) = σ (key b) → key a = key b) {k : κ} {a : α}
    (ha : lastOf key l k = some a) : ∃ a', lastOf key l' (σ k) = some a' ∧ R a' a := by
  obtain ⟨hmem, rfl⟩ := lastOf_mem ha
  refine find?_forall₂ (List.forall₂_reverse_iff.mpr h) ?_ ha
  intro b hb b' hb'
  have hin := List.mem_reverse.mp hb
  rw [hkey b hin b' hb', decide_eq_decide]
  exact ⟨hinj b hin a hmem, fun heq => by rw [heq]⟩

/-- The records written are those of the keys written. -/
theorem map_key_getAll_putAll {t : Table key} {l : List α} {p : α → Bool}
    (hp : ∀ a ∈ l, p a = true) (hother : ∀ a ∈ t, p a = true → key a ∈ l.map key) (k : κ) :
    k ∈ ((t.putAll l).getAll p).map key ↔ k ∈ l.map key := by
  constructor
  · intro hk
    obtain ⟨a, ha, rfl⟩ := List.mem_map.mp hk
    obtain ⟨hmem, hpa⟩ := mem_getAll.mp ha
    rcases mem_putAll.mp hmem with hlast | ⟨hold, hnew⟩
    · exact List.mem_map_of_mem (lastOf_mem hlast).1
    · exact absurd (hother a hold hpa) hnew
  · intro hk
    obtain ⟨a, ha⟩ := Option.isSome_iff_exists.mp (lastOf_isSome.mpr hk)
    obtain ⟨hmem, rfl⟩ := lastOf_mem ha
    exact List.mem_map_of_mem (mem_getAll.mpr ⟨mem_putAll.mpr (Or.inl ha), hp a hmem⟩)

/-- As many records are there, of those a clause selects, as keys were written. -/
theorem length_getAll_putAll {t : Table key} {l : List α} {p : α → Bool}
    (hp : ∀ a ∈ l, p a = true) (hother : ∀ a ∈ t, p a = true → key a ∈ l.map key) :
    ((t.putAll l).getAll p).length = (l.map key).dedup.length := by
  have hperm : (((t.putAll l).getAll p).map key).Perm (l.map key).dedup := by
    rw [List.perm_ext_iff_of_nodup (nodup_getAll _ _) (List.nodup_dedup _)]
    intro k
    rw [map_key_getAll_putAll hp hother, List.mem_dedup]
  rw [← hperm.length_eq, List.length_map]

/-- Records of keys of their own are all there after they were written, and no other the clause
selects. -/
theorem perm_getAll_putAll {t : Table key} {l : List α} {p : α → Bool}
    (hp : ∀ a ∈ l, p a = true) (hother : ∀ a ∈ t, p a = true → key a ∈ l.map key)
    (hnodup : (l.map key).Nodup) : ((t.putAll l).getAll p).Perm l := by
  rw [List.perm_ext_iff_of_nodup (nodup_getAll _ p).of_map hnodup.of_map]
  intro a
  rw [mem_getAll, mem_putAll]
  constructor
  · rintro ⟨hlast | ⟨hold, hnew⟩, hpa⟩
    · exact (lastOf_mem hlast).1
    · exact absurd (hother a hold hpa) hnew
  · intro ha
    exact ⟨Or.inl (lastOf_of_nodup hnodup ha), hp a ha⟩

end Table

end Library
