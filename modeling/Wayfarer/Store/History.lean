import Wayfarer.Library.Run
import Wayfarer.Library.Sorting

/-!
# The history

Every exchange is recorded in one of two stores: in IndexedDB, and in an array of the tab where
the browser gives no storage. IndexedDB evicts by a cursor over the index of the times and lists
the same index backwards (`StoredHistory`); the array is sorted and cut (`MemoryHistory`).

`history_keepsNewest_iff` says of which runs the two list the same entries, newest first: those in
which no exchange is recorded at a time that a kept one has, and no id is deleted that was given
before the last clearing and has been given again. The array puts the later of two equal times last.
-/

set_option autoImplicit false

namespace Wayfarer

open Library

/-- An exchange that is recorded: when it was made, and what else its entry says. -/
structure Exchange (Time Content : Type) where
  createdAt : Time
  content : Content
  deriving DecidableEq

/-- An entry of the history: a recorded exchange under the id its store gave it. -/
structure HistoryRecord (Time Content : Type) where
  id : Nat
  exchange : Exchange Time Content

variable {Time Content : Type} [LinearOrder Time]

/-- A list as far as a limit; none is no end. -/
def upTo {α : Type} : Option Nat → List α → List α
  | none, l => l
  | some limit, l => l.take limit

/-! ## The array of the tab -/

/-- The comparison of the array: `b.createdAt - a.createdAt` is not more than 0. -/
def sortsBefore (a b : HistoryRecord Time Content) : Prop :=
  b.exchange.createdAt ≤ a.exchange.createdAt

instance : DecidableRel (@sortsBefore Time Content _) :=
  fun a b => inferInstanceAs (Decidable (b.exchange.createdAt ≤ a.exchange.createdAt))

/-- The history of a tab without storage. -/
structure MemoryHistory (Time Content : Type) where
  memoryStore : List (HistoryRecord Time Content) := []
  memorySequence : Nat := 1

/-- `sortMemoryStore`. The sort of an array is stable. -/
def sortMemoryStore (records : List (HistoryRecord Time Content)) :
    List (HistoryRecord Time Content) :=
  records.insertionSort sortsBefore

/-- `addToMemory`: the id of the entry, and the array with it, sorted and cut at the cap. -/
def MemoryHistory.add (history : MemoryHistory Time Content) (item : Exchange Time Content)
    (cap : Nat) : Nat × MemoryHistory Time Content :=
  let record := { id := history.memorySequence, exchange := item }
  (record.id,
    { memoryStore := (sortMemoryStore (history.memoryStore ++ [record])).take cap
      memorySequence := history.memorySequence + 1 })

omit [LinearOrder Time] in
/-- `delete`. -/
def MemoryHistory.delete (history : MemoryHistory Time Content) (id : Nat) :
    MemoryHistory Time Content :=
  { history with memoryStore := history.memoryStore.filter fun item => item.id ≠ id }

omit [LinearOrder Time] in
/-- `getLatest`, as far as a limit. -/
def MemoryHistory.getLatest (history : MemoryHistory Time Content) (limit : Option Nat) :
    List (HistoryRecord Time Content) :=
  upTo limit history.memoryStore

/-! ## The store of IndexedDB -/

/-- The object store `history`: its records in the order of their keys, and the key that the next
one is given. -/
structure StoredHistory (Time Content : Type) where
  records : List (HistoryRecord Time Content) := []
  nextKey : Nat := 1

/-- The order of the index `by-createdAt`: by the time, and by the key among equal times. -/
def indexedBefore (a b : HistoryRecord Time Content) : Prop :=
  a.exchange.createdAt < b.exchange.createdAt ∨
    a.exchange.createdAt = b.exchange.createdAt ∧ a.id ≤ b.id

instance : DecidableRel (@indexedBefore Time Content _) :=
  fun a b => inferInstanceAs (Decidable (a.exchange.createdAt < b.exchange.createdAt ∨
    a.exchange.createdAt = b.exchange.createdAt ∧ a.id ≤ b.id))

namespace StoredHistory

/-- What the index `by-createdAt` lists. -/
def index (history : StoredHistory Time Content) : List (HistoryRecord Time Content) :=
  history.records.insertionSort indexedBefore

/-- `openCursor()` on the index: the record the cursor stands on. -/
def openCursor (history : StoredHistory Time Content) : Option (HistoryRecord Time Content) :=
  history.index.head?

/-- `cursor.continue()`: the first record of the index, as it is now, behind the cursor's. -/
def continueCursor (history : StoredHistory Time Content) (cursor : HistoryRecord Time Content) :
    Option (HistoryRecord Time Content) :=
  history.index.find? fun record => !decide (indexedBefore record cursor)

/-- `openCursor(null, "prev")`. -/
def openCursorPrev (history : StoredHistory Time Content) : Option (HistoryRecord Time Content) :=
  history.index.getLast?

/-- `cursor.continue()` of a cursor that goes backwards. -/
def continueCursorPrev (history : StoredHistory Time Content)
    (cursor : HistoryRecord Time Content) : Option (HistoryRecord Time Content) :=
  history.index.reverse.find? fun record => !decide (indexedBefore cursor record)

/-- `delete`: of the record under a key, if there is one. -/
def delete (history : StoredHistory Time Content) (id : Nat) : StoredHistory Time Content :=
  { history with records := history.records.filter fun record => record.id ≠ id }

/-- The loop of `add`: the records under the cursor are deleted while there are too many. -/
def evict : Nat → StoredHistory Time Content → Option (HistoryRecord Time Content) →
    StoredHistory Time Content
  | 0, history, _ => history
  | _ + 1, history, none => history
  | excess + 1, history, some cursor =>
      let left := history.delete cursor.id
      evict excess left (left.continueCursor cursor)

/-- `add`: the key of the record, and the store with the oldest beyond the cap deleted. -/
def add (history : StoredHistory Time Content) (item : Exchange Time Content) (cap : Nat) :
    Nat × StoredHistory Time Content :=
  let key := history.nextKey
  let stored : StoredHistory Time Content :=
    { records := history.records ++ [{ id := key, exchange := item }], nextKey := key + 1 }
  (key, evict (stored.records.length - cap) stored stored.openCursor)

/-- The loop of `getLatest`: what the cursor stands on is taken until the limit. It is run once for
each record at most. -/
def collect (history : StoredHistory Time Content) (limit : Option Nat) :
    Nat → Option (HistoryRecord Time Content) → List (HistoryRecord Time Content) →
      List (HistoryRecord Time Content)
  | 0, _, results => results
  | _ + 1, none, results => results
  | fuel + 1, some cursor, results =>
      if limit.all (results.length < ·) then
        history.collect limit fuel (history.continueCursorPrev cursor) (results ++ [cursor])
      else results

/-- `getLatest`. -/
def getLatest (history : StoredHistory Time Content) (limit : Option Nat) :
    List (HistoryRecord Time Content) :=
  history.collect limit history.records.length history.openCursorPrev []

/-- `clear`: the keys go on where they were. -/
def clear (history : StoredHistory Time Content) : StoredHistory Time Content :=
  { history with records := [] }

end StoredHistory

/-! ## Both stores side by side -/

/-- What is done to the history: an exchange is recorded under a cap, the exchange recorded as the
so-many-th is deleted by the id its store gave it, all is cleared. -/
inductive HistoryAction (Time Content : Type) where
  | add (item : Exchange Time Content) (cap : Nat)
  | delete (nth : Nat)
  | clear

/-- The two stores after the same actions. -/
structure Histories (Time Content : Type) where
  memory : MemoryHistory Time Content := {}
  stored : StoredHistory Time Content := {}
  /-- The ids that the exchanges were given, the array's and IndexedDB's, in the order recorded. -/
  given : List (Nat × Nat) := []
  /-- How many had been recorded at the last clearing. -/
  cleared : Nat := 0
  /-- The cap of the last exchange recorded. -/
  cap : Option Nat := none

namespace Histories

/-- One action on both stores. An exchange that was never recorded has no id to be deleted by. -/
def step (s : Histories Time Content) : HistoryAction Time Content → Option (Histories Time Content)
  | .add item cap =>
      let (id, memory) := s.memory.add item cap
      let (key, stored) := s.stored.add item cap
      some { s with memory, stored, given := s.given ++ [(id, key)], cap := some cap }
  | .delete nth =>
      (s.given[nth]?).map fun ids =>
        { s with memory := s.memory.delete ids.1, stored := s.stored.delete ids.2 }
  | .clear =>
      some { s with memory := {}, stored := s.stored.clear, cleared := s.given.length }

theorem step_add (s : Histories Time Content) (item : Exchange Time Content) (cap : Nat) :
    s.step (.add item cap) =
      some { s with
        memory := (s.memory.add item cap).2
        stored := (s.stored.add item cap).2
        given := s.given ++ [((s.memory.add item cap).1, (s.stored.add item cap).1)]
        cap := some cap } := rfl

end Histories

/-- `a` is newer than `b`: made later, or recorded later at the same time. A store gives its ids in
the order of recording, and starts again only when it holds nothing. -/
def Newer (a b : HistoryRecord Time Content) : Prop :=
  b.exchange.createdAt < a.exchange.createdAt ∨
    a.exchange.createdAt = b.exchange.createdAt ∧ b.id < a.id

instance : DecidableRel (@Newer Time Content _) :=
  fun a b => inferInstanceAs (Decidable (b.exchange.createdAt < a.exchange.createdAt ∨
    a.exchange.createdAt = b.exchange.createdAt ∧ b.id < a.id))

/-- A listing of the newest: in their order, and no more than the cap. -/
structure ListsNewest (cap : Option Nat) (latest : List (HistoryRecord Time Content)) : Prop where
  ordered : latest.Pairwise Newer
  bounded : ∀ n ∈ cap, latest.length ≤ n

/-- What an add drops has as many newer entries after it as the cap says. -/
def DropsOldest (cap : Nat) (before after : List (HistoryRecord Time Content)) : Prop :=
  ∀ record ∈ before, record ∉ after → cap ≤ (after.filter fun a => decide (Newer a record)).length

/-- Both stores give the same entries after an action, and each keeps the newest. -/
structure KeepsNewest (s : Histories Time Content) (action : HistoryAction Time Content)
    (next : Histories Time Content) : Prop where
  same : (next.memory.getLatest none).map HistoryRecord.exchange =
    (next.stored.getLatest none).map HistoryRecord.exchange
  memory : ListsNewest next.cap (next.memory.getLatest none)
  stored : ListsNewest next.cap (next.stored.getLatest none)
  memoryDrops : ∀ item cap, action = .add item cap →
    DropsOldest cap (⟨s.memory.memorySequence, item⟩ :: s.memory.getLatest none)
      (next.memory.getLatest none)
  storedDrops : ∀ item cap, action = .add item cap →
    DropsOldest cap (⟨s.stored.nextKey, item⟩ :: s.stored.getLatest none)
      (next.stored.getLatest none)

/-- Neither store can tell a time or an id for another. -/
def Distinct (s : Histories Time Content) : HistoryAction Time Content → Prop
  | .add item cap =>
      (∀ record ∈ s.memory.memoryStore, record.exchange.createdAt ≠ item.createdAt) ∨
        cap ≤ (s.memory.memoryStore.filter fun record =>
          decide (item.createdAt < record.exchange.createdAt)).length
  | .delete nth =>
      s.cleared ≤ nth ∨
        ∀ ids ∈ s.given[nth]?, ∀ record ∈ s.memory.memoryStore, record.id ≠ ids.1
  | .clear => True

/-! ## The order of the index -/

/-- What is newer stands behind in the index. -/
theorem newer_iff (a b : HistoryRecord Time Content) : Newer a b ↔ ¬ indexedBefore a b := by
  rw [Newer, indexedBefore]
  rcases lt_trichotomy a.exchange.createdAt b.exchange.createdAt with h | h | h
  · simp [h, h.not_gt, h.ne]
  · simp [h]
  · simp [h, h.not_gt, h.ne']

theorem indexedBefore_of_newer {a b : HistoryRecord Time Content} (h : Newer a b) :
    indexedBefore b a := by
  rcases h with h | ⟨h, hid⟩
  · exact .inl h
  · exact .inr ⟨h.symm, hid.le⟩

theorem indexedBefore_refl (a : HistoryRecord Time Content) : indexedBefore a a :=
  .inr ⟨rfl, le_rfl⟩

instance : Std.Total (@indexedBefore Time Content _) where
  total a b := by
    by_cases h : indexedBefore a b
    · exact .inl h
    · exact .inr (indexedBefore_of_newer ((newer_iff a b).mpr h))

instance : IsTrans (HistoryRecord Time Content) indexedBefore where
  trans a b c hab hbc := by
    rcases hab with hab | ⟨hab, hid⟩
    · rcases hbc with hbc | ⟨hbc, -⟩
      · exact .inl (hab.trans hbc)
      · exact .inl (hbc ▸ hab)
    · rcases hbc with hbc | ⟨hbc, hid'⟩
      · exact .inl (hab ▸ hbc)
      · exact .inr ⟨hab.trans hbc, hid.trans hid'⟩

instance : Std.Total (@sortsBefore Time Content _) where
  total a b := le_total b.exchange.createdAt a.exchange.createdAt

instance : IsTrans (HistoryRecord Time Content) sortsBefore where
  trans _ _ _ hab hbc := le_trans hbc hab

/-- The next entry of a listing is the first that its cursor has not passed. -/
theorem find?_passed {done rest : List (HistoryRecord Time Content)}
    {cursor : HistoryRecord Time Content} (h : (done ++ cursor :: rest).Pairwise Newer) :
    ((done ++ cursor :: rest).find? fun record => !decide (indexedBefore cursor record)) =
      rest.head? := by
  obtain ⟨-, hcursor, hdone⟩ := List.pairwise_append.mp h
  have hpassed : ∀ record ∈ done, indexedBefore cursor record := fun record hrecord =>
    indexedBefore_of_newer (hdone record hrecord cursor (by simp))
  have hfound : (done.find? fun record => !decide (indexedBefore cursor record)) = none :=
    List.find?_eq_none.mpr (by simpa using hpassed)
  rw [List.find?_append, hfound, Option.none_or,
    List.find?_cons_of_neg (by simpa using indexedBefore_refl cursor)]
  cases rest with
  | nil => rfl
  | cons next rest =>
      have hnext : Newer cursor next := (List.pairwise_cons.mp hcursor).1 next (by simp)
      rw [List.find?_cons_of_pos (by simpa using (newer_iff cursor next).mp hnext), List.head?_cons]

namespace StoredHistory

/-- No two records have one key, and the next key is none of theirs. -/
structure WellKeyed (history : StoredHistory Time Content) : Prop where
  distinct : (history.records.map HistoryRecord.id).Nodup
  fresh : ∀ record ∈ history.records, record.id < history.nextKey

section

variable {history : StoredHistory Time Content}

theorem mem_index {record : HistoryRecord Time Content} :
    record ∈ history.index ↔ record ∈ history.records :=
  List.mem_insertionSort _

theorem length_index : history.index.length = history.records.length :=
  List.length_insertionSort _ _

/-- The index puts the records into one order. -/
theorem WellKeyed.ordersList (h : history.WellKeyed) :
    OrdersList indexedBefore history.records where
  total a _ b _ := total_of indexedBefore a b
  trans a _ b _ c _ := trans_of indexedBefore
  antisymm a ha b hb hab hba := by
    apply List.inj_on_of_nodup_map h.distinct ha hb
    rcases hab with hab | ⟨hab, hid⟩
    · rcases hba with hba | ⟨hba, -⟩
      · exact absurd hba hab.not_gt
      · exact absurd hba hab.ne'
    · rcases hba with hba | ⟨-, hid'⟩
      · exact absurd hab hba.ne'
      · exact le_antisymm hid hid'

/-- The index read backwards is the newest first. -/
theorem WellKeyed.pairwise_newer (h : history.WellKeyed) :
    history.index.reverse.Pairwise Newer := by
  have hindex : (history.index.map HistoryRecord.id).Nodup :=
    ((List.perm_insertionSort _ _).map _).nodup_iff.mpr h.distinct
  rw [List.pairwise_reverse]
  have hne : history.index.Pairwise fun a b => a.id ≠ b.id := List.pairwise_map.mp hindex
  have hsorted : history.index.Pairwise indexedBefore := List.pairwise_insertionSort _ _
  apply (hne.and hsorted).imp
  rintro a b ⟨hid, hab | ⟨heq, hle⟩⟩
  · exact .inl hab
  · exact .inr ⟨heq.symm, lt_of_le_of_ne hle hid⟩

omit [LinearOrder Time] in
theorem WellKeyed.delete (h : history.WellKeyed) (id : Nat) : (history.delete id).WellKeyed where
  distinct := h.distinct.sublist (List.filter_sublist.map _)
  fresh record hrecord := h.fresh record (List.mem_of_mem_filter hrecord)

/-- What is left in the index when a record is deleted. -/
theorem WellKeyed.index_delete (h : history.WellKeyed) (id : Nat) :
    (history.delete id).index = history.index.filter fun record => record.id ≠ id := by
  apply (h.delete id).ordersList.eq_of_perm (List.pairwise_insertionSort _ _)
    ((List.pairwise_insertionSort _ _).filter _) (List.perm_insertionSort _ _)
  exact (List.perm_insertionSort _ _).filter _

/-- The record under the cursor gone, the cursor goes on to the first of those left. -/
theorem WellKeyed.continueCursor_delete (h : history.WellKeyed)
    {cursor : HistoryRecord Time Content} {rest : List (HistoryRecord Time Content)}
    (hindex : history.index = cursor :: rest) :
    (history.delete cursor.id).index = rest ∧
      (history.delete cursor.id).continueCursor cursor =
        (history.delete cursor.id).openCursor := by
  have hnewer : ∀ record ∈ rest, Newer record cursor := by
    have := List.pairwise_reverse.mp h.pairwise_newer
    rw [hindex] at this
    exact (List.pairwise_cons.mp this).1
  have hother : ∀ record ∈ rest, record.id ≠ cursor.id := by
    intro record hrecord heq
    rcases hnewer record hrecord with hlt | ⟨-, hlt⟩
    · have hsame := List.inj_on_of_nodup_map h.distinct
        (mem_index.mp (hindex ▸ List.mem_cons_of_mem _ hrecord))
        (mem_index.mp (hindex ▸ List.mem_cons_self)) heq
      exact absurd hlt (by simp [hsame])
    · exact absurd heq hlt.ne'
  have hleft : (history.delete cursor.id).index = rest := by
    rw [h.index_delete, hindex, List.filter_cons_of_neg (by simp)]
    exact List.filter_eq_self.mpr (by simpa using hother)
  refine ⟨hleft, ?_⟩
  rw [continueCursor, openCursor, hleft]
  cases rest with
  | nil => rfl
  | cons next rest =>
      have hnext : Newer next cursor := hnewer next List.mem_cons_self
      rw [List.find?_cons_of_pos (by simpa using (newer_iff next cursor).mp hnext), List.head?_cons]

/-- The cursor deletes the first of the index, as many as it is told. -/
theorem WellKeyed.evict (excess : Nat) (h : history.WellKeyed) :
    (evict excess history history.openCursor).WellKeyed ∧
      (evict excess history history.openCursor).index = history.index.drop excess ∧
      (evict excess history history.openCursor).nextKey = history.nextKey := by
  induction excess generalizing history with
  | zero => exact ⟨h, rfl, rfl⟩
  | succ excess ih =>
      cases hindex : history.index with
      | nil =>
          rw [openCursor, hindex, List.head?_nil, StoredHistory.evict, hindex]
          exact ⟨h, rfl, rfl⟩
      | cons cursor rest =>
          obtain ⟨hleft, hcontinue⟩ := h.continueCursor_delete hindex
          rw [openCursor, hindex, List.head?_cons, StoredHistory.evict, hcontinue,
            List.drop_succ_cons, ← hleft]
          exact ih (h.delete cursor.id)

/-- The cursor that goes backwards gives the index from its end on. -/
theorem WellKeyed.collect_eq (h : history.WellKeyed) (limit : Option Nat)
    {done rest : List (HistoryRecord Time Content)} (hlist : history.index.reverse = done ++ rest)
    {fuel : Nat} (hfuel : rest.length ≤ fuel) (hdone : ∀ n ∈ limit, done.length ≤ n) :
    history.collect limit fuel rest.head? done = upTo limit (done ++ rest) := by
  induction fuel generalizing done rest with
  | zero =>
      obtain rfl : rest = [] := List.length_eq_zero_iff.mp (Nat.le_zero.mp hfuel)
      cases limit with
      | none => simp [collect, upTo]
      | some n => simp [collect, upTo, List.take_of_length_le (hdone n rfl)]
  | succ fuel ih =>
      cases rest with
      | nil =>
          cases limit with
          | none => simp [collect, upTo]
          | some n => simp [collect, upTo, List.take_of_length_le (hdone n rfl)]
      | cons cursor rest =>
          have hnext : history.continueCursorPrev cursor = rest.head? := by
            have hsorted := h.pairwise_newer
            rw [continueCursorPrev]
            rw [hlist] at hsorted ⊢
            exact find?_passed hsorted
          rw [List.head?_cons, collect, hnext]
          by_cases hroom : limit.all (done.length < ·) = true
          · rw [if_pos hroom, ih (by simpa using hlist) (by simpa using hfuel), List.append_assoc,
              List.singleton_append]
            intro n hn
            obtain rfl := Option.mem_def.mp hn
            simpa [Nat.succ_le_iff] using hroom
          · rw [if_neg hroom]
            cases limit with
            | none => simp at hroom
            | some n =>
                have : done.length = n := le_antisymm (hdone n rfl) (by simpa using hroom)
                simp [upTo, ← this]

/-- `getLatest` lists the index backwards. -/
theorem WellKeyed.getLatest_eq (h : history.WellKeyed) (limit : Option Nat) :
    history.getLatest limit = upTo limit history.index.reverse := by
  rw [getLatest, openCursorPrev, ← List.head?_reverse]
  apply h.collect_eq limit (List.nil_append _).symm
  · simp [length_index]
  · simp

end

end StoredHistory

/-! ## One exchange more -/

/-- A listing with a new entry in its place: behind what is newer by its time. -/
def placed (record : HistoryRecord Time Content) (latest : List (HistoryRecord Time Content)) :
    List (HistoryRecord Time Content) :=
  (latest.filter fun other => decide (record.exchange.createdAt < other.exchange.createdAt)) ++
    record :: latest.filter fun other =>
      !decide (record.exchange.createdAt < other.exchange.createdAt)

section

variable {record : HistoryRecord Time Content} {latest : List (HistoryRecord Time Content)}

theorem perm_placed : (placed record latest).Perm (record :: latest) :=
  List.perm_middle.trans ((List.filter_append_perm _ _).cons record)

/-- The new entry is the newest of its time. -/
theorem pairwise_placed (h : latest.Pairwise Newer) (hid : ∀ other ∈ latest, other.id < record.id) :
    (placed record latest).Pairwise Newer := by
  rw [placed, List.pairwise_append, List.pairwise_cons]
  refine ⟨h.filter _, ⟨?_, h.filter _⟩, ?_⟩
  · intro other hother
    obtain ⟨hmem, hle⟩ := List.mem_filter.mp hother
    have hle : other.exchange.createdAt ≤ record.exchange.createdAt := by simpa using hle
    rcases hle.lt_or_eq with hlt | heq
    · exact .inl hlt
    · exact .inr ⟨heq.symm, hid other hmem⟩
  · intro other hother behind hbehind
    have hlater : record.exchange.createdAt < other.exchange.createdAt := by
      simpa using (List.mem_filter.mp hother).2
    rcases List.mem_cons.mp hbehind with rfl | hbehind
    · exact .inl hlater
    · have hle : behind.exchange.createdAt ≤ record.exchange.createdAt := by
        simpa using (List.mem_filter.mp hbehind).2
      exact .inl (hle.trans_lt hlater)

/-- What is cut off has the cap's number of newer entries before it. -/
theorem dropsOldest_take (h : latest.Pairwise Newer) (cap : Nat)
    {before : List (HistoryRecord Time Content)} (hbefore : ∀ a ∈ before, a ∈ latest) :
    DropsOldest cap before (latest.take cap) := by
  intro other hother hnot
  have hsplit := List.take_append_drop cap latest
  have hdropped : other ∈ latest.drop cap := by
    have hmem := hbefore other hother
    rw [← hsplit] at hmem
    exact (List.mem_append.mp hmem).resolve_left hnot
  have hall : ∀ a ∈ latest.take cap, Newer a other := by
    intro a ha
    rw [← hsplit] at h
    exact (List.pairwise_append.mp h).2.2 a ha other hdropped
  have hlength : 0 < (latest.drop cap).length := List.length_pos_of_mem hdropped
  rw [List.filter_eq_self.mpr (by simpa using hall), List.length_take]
  rw [List.length_drop] at hlength
  omega

end

/-! ## What an add leaves -/

namespace StoredHistory

variable {history : StoredHistory Time Content}

omit [LinearOrder Time] in
/-- A new record has the last key. -/
theorem WellKeyed.concat (h : history.WellKeyed) (item : Exchange Time Content) :
    WellKeyed { records := history.records ++ [{ id := history.nextKey, exchange := item }]
                nextKey := history.nextKey + 1 } where
  distinct := by
    rw [List.map_append, List.map_singleton, List.nodup_append_comm]
    apply List.nodup_cons.mpr
    refine ⟨?_, h.distinct⟩
    intro hmem
    obtain ⟨record, hrecord, hid⟩ := List.mem_map.mp hmem
    exact absurd hid (h.fresh record hrecord).ne
  fresh record hrecord := by
    rcases List.mem_append.mp hrecord with hrecord | hrecord
    · exact (h.fresh record hrecord).trans (Nat.lt_succ_self _)
    · rw [List.mem_singleton.mp hrecord]
      exact Nat.lt_succ_self _

/-- The new record stands in the index behind all that are not later. -/
theorem WellKeyed.index_concat (h : history.WellKeyed) (item : Exchange Time Content) (key : Nat) :
    (index { records := history.records ++ [{ id := history.nextKey, exchange := item }]
             nextKey := key }).reverse =
      placed { id := history.nextKey, exchange := item } history.index.reverse := by
  have hconcat := (h.concat item).ordersList.insertionSort_eq_of_perm
    ((List.perm_insertionSort indexedBefore history.records).symm.append_right
      [{ id := history.nextKey, exchange := item }])
  have hsame : ∀ record ∈ history.index,
      (indexedBefore record { id := history.nextKey, exchange := item } ↔
        ¬ item.createdAt < record.exchange.createdAt) := by
    intro record hrecord
    have hid := h.fresh record (mem_index.mp hrecord)
    rw [not_lt, le_iff_lt_or_eq, indexedBefore]
    exact or_congr_right (and_iff_left hid.le)
  have hbefore : (history.index.filter fun record =>
      decide (indexedBefore record { id := history.nextKey, exchange := item })) =
      history.index.filter fun record => !decide (item.createdAt < record.exchange.createdAt) :=
    List.filter_congr fun record hrecord => by
      rw [decide_eq_decide.mpr (hsame record hrecord), decide_not]
  have hbehind : (history.index.filter fun record =>
      !decide (indexedBefore record { id := history.nextKey, exchange := item })) =
      history.index.filter fun record => decide (item.createdAt < record.exchange.createdAt) :=
    List.filter_congr fun record hrecord => by
      rw [decide_eq_decide.mpr (hsame record hrecord), decide_not, Bool.not_not]
  have hsorted : history.index.Pairwise indexedBefore := List.pairwise_insertionSort _ _
  rw [index, hconcat, ← index, insertionSort_concat hsorted, hbefore, hbehind, placed,
    List.reverse_append, List.reverse_cons, List.append_assoc, List.singleton_append,
    List.filter_reverse, List.filter_reverse]

/-- `add` puts the record into its place and keeps the first of the listing, as many as the cap. -/
theorem WellKeyed.add (h : history.WellKeyed) (item : Exchange Time Content) (cap : Nat) :
    (history.add item cap).2.WellKeyed ∧
      (history.add item cap).2.index.reverse =
        (placed { id := history.nextKey, exchange := item } history.index.reverse).take cap ∧
      (history.add item cap).2.nextKey = history.nextKey + 1 := by
  have hlength : (history.records ++
      [(⟨history.nextKey, item⟩ : HistoryRecord Time Content)]).length =
        history.records.length + 1 := by simp
  obtain ⟨hkeyed, hindex, hnext⟩ := (h.concat item).evict (history.records.length + 1 - cap)
  rw [← hlength] at hkeyed hindex hnext
  refine ⟨hkeyed, ?_, hnext⟩
  rw [StoredHistory.add, hindex, List.reverse_drop, h.index_concat, length_index,
    List.take_eq_take_iff, perm_placed.length_eq, List.length_cons, List.length_reverse,
    length_index, hlength]
  omega

end StoredHistory

namespace MemoryHistory

variable {history : MemoryHistory Time Content} {item : Exchange Time Content} {cap : Nat}

/-- `add` puts the record behind all that are not earlier. -/
theorem memoryStore_add (h : history.memoryStore.Pairwise Newer) :
    (history.add item cap).2.memoryStore =
      ((history.memoryStore.filter fun record =>
          decide (item.createdAt ≤ record.exchange.createdAt)) ++
        { id := history.memorySequence, exchange := item } ::
          history.memoryStore.filter fun record =>
            !decide (item.createdAt ≤ record.exchange.createdAt)).take cap := by
  have hsorted : history.memoryStore.Pairwise sortsBefore := h.imp fun hnewer => by
    rcases hnewer with hlt | ⟨heq, -⟩
    · exact hlt.le
    · exact heq.ge
  rw [add, sortMemoryStore, insertionSort_concat hsorted]
  rfl

/-- The times apart, or the cap filled by what is newer, the array keeps what the cursor keeps. -/
theorem memoryStore_add_of_distinct (h : history.memoryStore.Pairwise Newer)
    (hdistinct : (∀ record ∈ history.memoryStore, record.exchange.createdAt ≠ item.createdAt) ∨
      cap ≤ (history.memoryStore.filter fun record =>
        decide (item.createdAt < record.exchange.createdAt)).length) :
    (history.add item cap).2.memoryStore =
      (placed { id := history.memorySequence, exchange := item } history.memoryStore).take cap := by
  rw [memoryStore_add h, placed]
  rcases hdistinct with hother | hfull
  · have hsame : ∀ record ∈ history.memoryStore,
        decide (item.createdAt ≤ record.exchange.createdAt) =
          decide (item.createdAt < record.exchange.createdAt) := by
      intro record hrecord
      rw [decide_eq_decide]
      exact ⟨fun hle => lt_of_le_of_ne hle (hother record hrecord).symm, le_of_lt⟩
    rw [List.filter_congr hsame,
      List.filter_congr fun record hrecord => congrArg not (hsame record hrecord)]
  · -- Both begin with the entries that are later, and these fill the cap.
    have hlater : (history.memoryStore.filter fun record =>
        decide (item.createdAt ≤ record.exchange.createdAt)) =
        (history.memoryStore.filter fun record =>
          decide (item.createdAt < record.exchange.createdAt)) ++
        (history.memoryStore.filter fun record =>
          decide (item.createdAt ≤ record.exchange.createdAt)).filter fun record =>
            !decide (item.createdAt < record.exchange.createdAt) := by
      have hcut := filter_append_filter_not (h.filter fun record =>
        decide (item.createdAt ≤ record.exchange.createdAt))
        (p := fun record => decide (item.createdAt < record.exchange.createdAt)) (by
          rintro a b (hlt | ⟨heq, -⟩) hb
          · exact decide_eq_true (lt_trans (of_decide_eq_true hb) hlt)
          · exact decide_eq_true (heq ▸ of_decide_eq_true hb))
      have hfirst : ((history.memoryStore.filter fun record =>
          decide (item.createdAt ≤ record.exchange.createdAt)).filter fun record =>
            decide (item.createdAt < record.exchange.createdAt)) =
          history.memoryStore.filter fun record =>
            decide (item.createdAt < record.exchange.createdAt) := by
        rw [List.filter_filter]
        apply List.filter_congr
        intro record _
        by_cases hlt : item.createdAt < record.exchange.createdAt
        · simp [hlt, hlt.le]
        · simp [hlt]
      rw [hfirst] at hcut
      exact hcut.symm
    rw [hlater, List.append_assoc, List.take_append_of_le_length hfull,
      List.take_append_of_le_length hfull]

/-- With a kept entry of the same time and room left by what is newer, the array does not keep the
newest: the new entry comes after the older one, or goes in its place. -/
theorem distinct_of_listsNewest (h : history.memoryStore.Pairwise Newer)
    (hfresh : ∀ record ∈ history.memoryStore, record.id < history.memorySequence)
    (hlists : ListsNewest (some cap) (history.add item cap).2.memoryStore)
    (hdrops : DropsOldest cap (⟨history.memorySequence, item⟩ :: history.memoryStore)
      (history.add item cap).2.memoryStore) :
    (∀ record ∈ history.memoryStore, record.exchange.createdAt ≠ item.createdAt) ∨
      cap ≤ (history.memoryStore.filter fun record =>
        decide (item.createdAt < record.exchange.createdAt)).length := by
  rw [or_iff_not_imp_left]
  intro hsome
  push Not at hsome
  obtain ⟨older, holder, htime⟩ := hsome
  have hlater : ∀ record ∈ history.memoryStore,
      Newer record ⟨history.memorySequence, item⟩ → item.createdAt < record.exchange.createdAt := by
    rintro record hrecord (hlt | ⟨-, hid⟩)
    · exact hlt
    · exact absurd hid (hfresh record hrecord).not_gt
  rw [memoryStore_add h] at hlists hdrops
  set notEarlier := history.memoryStore.filter fun record =>
    decide (item.createdAt ≤ record.exchange.createdAt) with hnotEarlier
  rcases Nat.lt_or_ge notEarlier.length cap with hroom | hfull
  · -- The new entry is kept, behind the older one of its time.
    exfalso
    obtain ⟨rest, hrest⟩ := Nat.exists_eq_add_of_lt hroom
    have hordered := hlists.ordered
    rw [hrest, Nat.add_assoc, List.take_length_add_append, List.take_succ_cons] at hordered
    have hbefore := (List.pairwise_append.mp hordered).2.2 older
      (List.mem_filter.mpr ⟨holder, by simpa using htime.ge⟩) _ List.mem_cons_self
    exact absurd (hlater older holder hbefore) (by simp [htime])
  · -- The new entry is dropped, and what is kept with its time is not newer.
    rw [List.take_append_of_le_length hfull] at hdrops
    have hkept : (notEarlier.take cap).Sublist history.memoryStore :=
      (List.take_sublist cap notEarlier).trans List.filter_sublist
    have hnot : (⟨history.memorySequence, item⟩ : HistoryRecord Time Content) ∉
        notEarlier.take cap := fun hmem =>
      absurd (hfresh _ (hkept.subset hmem)) (lt_irrefl _)
    apply (hdrops _ List.mem_cons_self hnot).trans
    apply List.Sublist.length_le
    rw [List.filter_congr (q := fun record =>
      decide (Newer record ⟨history.memorySequence, item⟩) &&
        decide (item.createdAt < record.exchange.createdAt))]
    · rw [← List.filter_filter]
      exact List.filter_sublist.trans (hkept.filter _)
    · intro record hrecord
      rw [← Bool.decide_and, decide_eq_decide]
      exact ⟨fun hnewer => ⟨hnewer, hlater record (hkept.subset hrecord) hnewer⟩, And.left⟩

end MemoryHistory

/-! ## The stores agree -/

/-- An entry of the array under the key that IndexedDB gave it, when so many exchanges had been
recorded before the array was last emptied. -/
def HistoryRecord.kept (cleared : Nat) (record : HistoryRecord Time Content) :
    HistoryRecord Time Content :=
  { record with id := cleared + record.id }

theorem newer_kept (cleared : Nat) (a b : HistoryRecord Time Content) :
    Newer (a.kept cleared) (b.kept cleared) ↔ Newer a b := by
  simp [Newer, HistoryRecord.kept]

/-- The new entry has its place in both listings. -/
theorem placed_kept (cleared : Nat) (record : HistoryRecord Time Content)
    (latest : List (HistoryRecord Time Content)) :
    placed (record.kept cleared) (latest.map (HistoryRecord.kept cleared)) =
      (placed record latest).map (HistoryRecord.kept cleared) := by
  rw [placed, placed, List.filter_map, List.filter_map, List.map_append, List.map_cons]
  rfl

namespace Histories

/-- The stores hold the same entries, under ids that differ by what was recorded before the last
clearing. -/
structure Inv (s : Histories Time Content) : Prop where
  keyed : s.stored.WellKeyed
  same : s.stored.index.reverse = s.memory.memoryStore.map (HistoryRecord.kept s.cleared)
  begun : 0 < s.memory.memorySequence
  positive : ∀ record ∈ s.memory.memoryStore, 0 < record.id
  fresh : ∀ record ∈ s.memory.memoryStore, record.id < s.memory.memorySequence
  key : s.stored.nextKey = s.cleared + s.memory.memorySequence
  recorded : s.given.length + 1 = s.stored.nextKey
  given : ∀ nth ids, s.given[nth]? = some ids →
    ids.2 = nth + 1 ∧ (s.cleared ≤ nth → ids.2 = s.cleared + ids.1)
  bounded : ∀ n ∈ s.cap, s.memory.memoryStore.length ≤ n

variable {s : Histories Time Content}

theorem Inv.pairwise (h : s.Inv) : s.memory.memoryStore.Pairwise Newer := by
  have hstored := h.keyed.pairwise_newer
  rw [h.same, List.pairwise_map] at hstored
  exact hstored.imp fun hnewer => (newer_kept s.cleared _ _).mp hnewer

theorem inv_empty : Inv ({} : Histories Time Content) where
  keyed := ⟨List.nodup_nil, by simp⟩
  same := rfl
  begun := Nat.one_pos
  positive := by simp
  fresh := by simp
  key := rfl
  recorded := rfl
  given := by simp
  bounded := by simp

/-- What holds of the stores in every state is most of what keeping the newest says. -/
theorem Inv.lists (h : s.Inv) :
    (s.memory.getLatest none).map HistoryRecord.exchange =
        (s.stored.getLatest none).map HistoryRecord.exchange ∧
      ListsNewest s.cap (s.memory.getLatest none) ∧
        ListsNewest s.cap (s.stored.getLatest none) := by
  rw [h.keyed.getLatest_eq, MemoryHistory.getLatest, upTo, upTo, h.same]
  refine ⟨by simp [Function.comp_def, HistoryRecord.kept], ⟨h.pairwise, h.bounded⟩, ?_, ?_⟩
  · rw [← h.same]
    exact h.keyed.pairwise_newer
  · simpa using h.bounded

/-- The array after an add, while times are told apart. -/
theorem Inv.memoryStore_add (h : s.Inv) {item : Exchange Time Content} {cap : Nat}
    (hdistinct : Distinct s (.add item cap)) :
    (s.memory.add item cap).2.memoryStore =
      (placed ⟨s.memory.memorySequence, item⟩ s.memory.memoryStore).take cap :=
  MemoryHistory.memoryStore_add_of_distinct h.pairwise hdistinct

theorem Inv.add (h : s.Inv) {item : Exchange Time Content} {cap : Nat}
    (hdistinct : Distinct s (.add item cap)) {next : Histories Time Content}
    (hstep : s.step (.add item cap) = some next) : next.Inv := by
  rw [step_add, Option.some.injEq] at hstep
  subst hstep
  obtain ⟨hkeyed, hindex, hnext⟩ := h.keyed.add item cap
  have hmemory := h.memoryStore_add hdistinct
  -- What is in memory afterwards is the new record or was there before.
  have hmem : ∀ record ∈ (s.memory.add item cap).2.memoryStore,
      record = ⟨s.memory.memorySequence, item⟩ ∨ record ∈ s.memory.memoryStore := by
    intro record hrecord
    rw [hmemory] at hrecord
    exact List.mem_cons.mp (perm_placed.mem_iff.mp (List.mem_of_mem_take hrecord))
  refine
    { keyed := hkeyed, same := ?_, begun := Nat.succ_pos _, positive := ?_, fresh := ?_,
      key := ?_, recorded := ?_, given := ?_, bounded := ?_ }
  · dsimp only
    rw [hindex, hmemory, h.same, h.key, List.map_take, ← placed_kept]
    rfl
  · intro record hrecord
    rcases hmem record hrecord with rfl | hold
    · exact h.begun
    · exact h.positive record hold
  · intro record hrecord
    rcases hmem record hrecord with rfl | hold
    · exact Nat.lt_succ_self _
    · exact (h.fresh record hold).trans (Nat.lt_succ_self _)
  · dsimp only
    rw [hnext, h.key, Nat.add_assoc]
    rfl
  · dsimp only
    rw [hnext, List.length_append, List.length_singleton, h.recorded]
  · intro nth ids hids
    dsimp only at hids
    -- The new record is the last one given.
    rcases Nat.lt_or_ge nth s.given.length with hlt | hge
    · rw [List.getElem?_append_left hlt] at hids
      exact h.given nth ids hids
    · rw [List.getElem?_append_right hge, List.getElem?_singleton] at hids
      split_ifs at hids with hnth
      obtain rfl := Option.some.inj hids
      have hrecorded := h.recorded
      have hkey := h.key
      exact ⟨by change s.stored.nextKey = _; omega, fun _ => hkey⟩
  · intro n hn
    obtain rfl := Option.some.inj (Option.mem_def.mp hn)
    dsimp only
    rw [hmemory]
    exact List.length_take_le _ _

/-- Where the id that is deleted is not given twice, the same entry goes from both stores. -/
theorem Inv.delete (h : s.Inv) {nth : Nat} (hdistinct : Distinct s (.delete nth))
    {next : Histories Time Content} (hstep : s.step (.delete nth) = some next) : next.Inv := by
  obtain ⟨ids, hids, hnext⟩ := Option.map_eq_some_iff.mp hstep
  subst hnext
  obtain ⟨hkey, hsince⟩ := h.given nth ids hids
  have hdeleted : ∀ record ∈ s.memory.memoryStore,
      ((record.kept s.cleared).id ≠ ids.2 ↔ record.id ≠ ids.1) := by
    intro record hrecord
    rcases hdistinct with hcleared | hnone
    · rw [hsince hcleared, HistoryRecord.kept, ne_eq, Nat.add_left_cancel_iff]
    · by_cases hcleared : s.cleared ≤ nth
      · rw [hsince hcleared, HistoryRecord.kept, ne_eq, Nat.add_left_cancel_iff]
      · -- The id is from before the clearing: no key is as low.
        have hpositive := h.positive record hrecord
        refine iff_of_true ?_ (hnone ids hids record hrecord)
        simp only [HistoryRecord.kept]
        omega
  refine
    { keyed := h.keyed.delete _, same := ?_, begun := h.begun, positive := ?_, fresh := ?_,
      key := h.key, recorded := h.recorded, given := h.given, bounded := ?_ }
  · dsimp only
    rw [h.keyed.index_delete, ← List.filter_reverse, h.same, List.filter_map,
      MemoryHistory.delete]
    congr 1
    apply List.filter_congr
    intro record hrecord
    exact decide_eq_decide.mpr (hdeleted record hrecord)
  · exact fun record hrecord => h.positive record (List.mem_of_mem_filter hrecord)
  · exact fun record hrecord => h.fresh record (List.mem_of_mem_filter hrecord)
  · exact fun n hn => (List.length_filter_le _ _).trans (h.bounded n hn)

theorem Inv.clear (h : s.Inv) {next : Histories Time Content}
    (hstep : s.step .clear = some next) : next.Inv := by
  obtain rfl := Option.some.inj hstep
  have hrecorded := h.recorded
  refine
    { keyed := ⟨List.nodup_nil, by simp [StoredHistory.clear]⟩, same := rfl, begun := Nat.one_pos,
      positive := by simp, fresh := by simp, key := hrecorded.symm, recorded := hrecorded,
      given := ?_, bounded := by simp }
  intro nth ids hids
  refine ⟨(h.given nth ids hids).1, ?_⟩
  intro hafter
  obtain ⟨hlt, -⟩ := List.getElem?_eq_some_iff.mp hids
  exact absurd hafter (Nat.not_le.mpr hlt)

/-- Every action on stores that agree, with times and ids told apart, leaves stores that agree. -/
theorem Inv.step (h : s.Inv) {action : HistoryAction Time Content} (hdistinct : Distinct s action)
    {next : Histories Time Content} (hstep : s.step action = some next) : next.Inv := by
  cases action with
  | add item cap => exact h.add hdistinct hstep
  | delete nth => exact h.delete hdistinct hstep
  | clear => exact h.clear hstep

/-- Told apart, the entries that an action leaves are the newest. -/
theorem Inv.keepsNewest (h : s.Inv) {action : HistoryAction Time Content}
    (hdistinct : Distinct s action) {next : Histories Time Content}
    (hstep : s.step action = some next) : KeepsNewest s action next := by
  have hnext := h.step hdistinct hstep
  obtain ⟨hsame, hmemory, hstored⟩ := hnext.lists
  refine ⟨hsame, hmemory, hstored, ?_, ?_⟩
  · rintro item cap rfl
    rw [step_add, Option.some.injEq] at hstep
    subst hstep
    rw [MemoryHistory.getLatest, MemoryHistory.getLatest, upTo, upTo, h.memoryStore_add hdistinct]
    exact dropsOldest_take (pairwise_placed h.pairwise h.fresh) cap fun a ha =>
      perm_placed.mem_iff.mpr ha
  · rintro item cap rfl
    rw [step_add, Option.some.injEq] at hstep
    subst hstep
    obtain ⟨hkeyed, hindex, -⟩ := h.keyed.add item cap
    rw [hkeyed.getLatest_eq, h.keyed.getLatest_eq, upTo, upTo, hindex]
    apply dropsOldest_take (pairwise_placed h.keyed.pairwise_newer ?_) cap fun a ha =>
      perm_placed.mem_iff.mpr ha
    intro other hother
    exact h.keyed.fresh other (StoredHistory.mem_index.mp (List.mem_reverse.mp hother))

/-- Entries that are the newest after an action were told apart before it. -/
theorem Inv.distinct (h : s.Inv) {action : HistoryAction Time Content}
    (hkeeps : ∀ next, s.step action = some next → KeepsNewest s action next) :
    Distinct s action := by
  cases action with
  | clear => trivial
  | add item cap =>
      have hnext := hkeeps _ (step_add s item cap)
      exact MemoryHistory.distinct_of_listsNewest h.pairwise h.fresh hnext.memory
        (hnext.memoryDrops item cap rfl)
  | delete nth =>
      rw [Distinct, or_iff_not_imp_left]
      intro hcleared ids hids record hrecord hid
      have hnext := (hkeeps _ (Option.map_eq_some_iff.mpr ⟨ids, hids, rfl⟩)).same
      obtain ⟨hkey, -⟩ := h.given nth ids hids
      -- The array loses an entry that IndexedDB keeps.
      have hlost : (s.memory.delete ids.1).memoryStore.length < s.memory.memoryStore.length := by
        apply List.length_filter_lt_length_iff_exists.mpr
        exact ⟨record, hrecord, by simp [hid]⟩
      have hkept : (s.stored.delete ids.2).index.reverse = s.stored.index.reverse := by
        rw [h.keyed.index_delete, ← List.filter_reverse, h.same, List.filter_eq_self]
        intro other hother
        obtain ⟨old, hold, rfl⟩ := List.mem_map.mp hother
        have hpositive := h.positive old hold
        apply decide_eq_true
        simp only [HistoryRecord.kept]
        omega
      have hlength := congrArg List.length hnext
      rw [(h.keyed.delete ids.2).getLatest_eq, MemoryHistory.getLatest, upTo, upTo, hkept, h.same,
        List.length_map, List.length_map, List.length_map] at hlength
      exact absurd hlength hlost.ne

end Histories

/-- After every action of a run the two stores list the same entries and keep the newest exactly
when no exchange of the run is recorded at a kept entry's time, short of the cap, and no id is
deleted that was given again after a clearing. -/
theorem history_keepsNewest_iff (actions : List (HistoryAction Time Content)) :
    Meets Histories.step
        (fun s action => ∀ next, s.step action = some next → KeepsNewest s action next)
        ({} : Histories Time Content) actions ↔
      Meets Histories.step Distinct ({} : Histories Time Content) actions := by
  refine @meets_congr _ _ _ _ _ Histories.Inv ?_ ?_ _ actions Histories.inv_empty
  · intro s action h
    exact ⟨h.distinct, fun hdistinct next hstep => h.keepsNewest hdistinct hstep⟩
  · exact fun s action next h hdistinct hstep => h.step hdistinct hstep

/-- Two exchanges of one millisecond: the array lists the first of them first, IndexedDB the
second. -/
theorem equalTimes_listed_otherwise :
    ¬ ∀ actions : List (HistoryAction Nat Nat),
      Meets Histories.step
        (fun s action => ∀ next, s.step action = some next → KeepsNewest s action next)
        {} actions := by
  intro h
  obtain ⟨-, hsecond, -⟩ := h [.add ⟨5, 1⟩ 500, .add ⟨5, 2⟩ 500]
  have hsame := (hsecond _ rfl).same
  revert hsame
  decide

end Wayfarer
