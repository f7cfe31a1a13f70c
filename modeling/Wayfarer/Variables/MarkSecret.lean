import Mathlib.Data.List.Nodup
import Mathlib.Data.List.Range
import Wayfarer.Variables.Rows

/-!
# Marking a variable as a secret

The row on its way to the vault is remembered by its index. The index goes on naming that row as
long as the variables shown are all different and the one of that index is the one whose lock was
pressed, in the draft shown and in that of every write that waits: this is `Sound`, and each way
the objects of the page change keeps it (`Sound.moved`).

A row before it that is removed, here or by a change from elsewhere, breaks it: another variable is
encrypted then, and a write sends the plain value (`removedBefore_not_marksThatRow`).
-/

set_option autoImplicit false

namespace Wayfarer

open Library

namespace RowsPage

variable {s : RowsPage}

/-! ## What holds of the page -/

/-- The variables of a list of cells. -/
def tagsIn (s : RowsPage) (list : List Nat) : List Nat :=
  list.map fun c => (s.cells c).tag

@[simp]
theorem tagsIn_cons (s : RowsPage) (c : Nat) (list : List Nat) :
    s.tagsIn (c :: list) = (s.cells c).tag :: s.tagsIn list := rfl

theorem tagsOf_eq (s : RowsPage) (d : Nat) : s.tagsOf d = s.tagsIn (s.listOf d) := rfl

/-- Every object that something holds on to has been made. -/
structure Wf (s : RowsPage) : Prop where
  draft : s.draft < s.next
  vars : ∀ d, (s.drafts d).vars < s.next
  cells : ∀ l, ∀ c ∈ s.lists l, c < s.next
  tags : ∀ c, (s.cells c).tag < s.next

/-- The variable of a draft's row `i`, and of no other of its rows. -/
def Places (s : RowsPage) (d i target : Nat) : Prop :=
  (s.tagsOf d).Nodup ∧ (s.tagsOf d)[i]? = some target

/-- The index of the row on its way names the variable whose lock was pressed, in what is shown and
in every write that waits. -/
structure Sound (s : RowsPage) : Prop where
  wf : s.Wf
  nodup : (s.tagsOf s.draft).Nodup
  aimed : ∀ i ∈ s.secretPending, ∃ t, s.target = some t
  place : ∀ t ∈ s.target, ∃ i ∈ s.secretPending, (s.tagsOf s.draft)[i]? = some t
  queued : ∀ write ∈ s.queue, write.1 < s.next
  holds : ∀ t ∈ s.target, ∀ write ∈ s.queue, ∃ i ∈ write.2, s.Places write.1 i t
  marking : ∀ t ∈ s.target, ∀ i ∈ s.marking.index, i ∈ s.secretPending
  marks : s.MarksThatRow

/-- In a list without repetition an entry stands in one place. -/
theorem Places.unique {d i j t : Nat} (hi : s.Places d i t) (hj : (s.tagsOf d)[j]? = some t) :
    i = j := by
  obtain ⟨hlt, hget⟩ := List.getElem?_eq_some_iff.mp hi.2
  exact (List.getElem?_inj hlt hi.1).mp (hi.2.trans hj.symm)

/-- The objects of the page changed: the draft shown has the row in its place, and every draft made
before shows what it did or what is shown now. -/
theorem Sound.moved {s' : RowsPage} (h : s.Sound)
    (hframe : s' = { s with
      cells := s'.cells, lists := s'.lists, drafts := s'.drafts, draft := s'.draft,
      next := s'.next })
    (hwf : s'.Wf) (hnext : s.next ≤ s'.next) (hnodup : (s'.tagsOf s'.draft).Nodup)
    (hplace : ∀ i ∈ s.secretPending, (s'.tagsOf s'.draft)[i]? = (s.tagsOf s.draft)[i]?)
    (hdrafts : ∀ d < s.next, s'.tagsOf d = s.tagsOf d ∨
      s.tagsOf d = s.tagsOf s.draft ∧ s'.tagsOf d = s'.tagsOf s'.draft) :
    s'.Sound := by
  have hpending : s'.secretPending = s.secretPending := by rw [hframe]
  have htarget : s'.target = s.target := by rw [hframe]
  have hqueue : s'.queue = s.queue := by rw [hframe]
  have hmarking : s'.marking = s.marking := by rw [hframe]
  refine ⟨hwf, hnodup, ?aimed, ?place, ?queued, ?holds, ?marking, ?marks⟩
  case aimed =>
    rw [hpending, htarget]
    exact h.aimed
  case place =>
    rw [hpending, htarget]
    intro t ht
    obtain ⟨i, hi, hget⟩ := h.place t ht
    exact ⟨i, hi, (hplace i hi).trans hget⟩
  case queued =>
    rw [hqueue]
    intro write hwrite
    exact (h.queued write hwrite).trans_le hnext
  case holds =>
    rw [hqueue, htarget]
    intro t ht write hwrite
    obtain ⟨i, hi, hplaces⟩ := h.holds t ht write hwrite
    refine ⟨i, hi, ?_⟩
    rcases hdrafts write.1 (h.queued write hwrite) with hsame | ⟨hshown, hnow⟩
    · rw [Places, hsame]
      exact hplaces
    · -- The write's draft shares its rows with the one shown, so its index is the pending one.
      obtain ⟨j, hj, hget⟩ := h.place t ht
      have hij : i = j := hplaces.unique (by rw [hshown, hget])
      subst hij
      rw [Places, hnow]
      exact ⟨hnodup, (hplace i hj).trans hget⟩
  case marking =>
    rw [hmarking, htarget, hpending]
    exact h.marking
  case marks =>
    rw [hframe]
    exact ⟨h.marks.saved, h.marks.written, h.marks.sent⟩

/-! ## Objects made and changed -/

@[simp]
theorem setRow_tag (s : RowsPage) (c c' : Nat) (row : Row) :
    ((s.setRow c row).cells c').tag = (s.cells c').tag := by
  by_cases hc : c' = c
  · subst hc
    simp [setRow]
  · simp [setRow, Function.update_of_ne hc]

@[simp]
theorem setRow_tagsOf (s : RowsPage) (c d : Nat) (row : Row) :
    (s.setRow c row).tagsOf d = s.tagsOf d :=
  List.map_congr_left fun c' _ => setRow_tag s c c' row

/-- A row changed where it is is the same variable. -/
theorem Sound.setRow (h : s.Sound) (c : Nat) (row : Row) : (s.setRow c row).Sound := by
  apply h.moved
  · rfl
  · refine ⟨h.wf.draft, h.wf.vars, h.wf.cells, ?_⟩
    intro c'
    rw [setRow_tag]
    exact h.wf.tags c'
  · exact le_rfl
  · rw [setRow_tagsOf]
    exact h.nodup
  · intro i _
    rw [setRow_tagsOf]
    rfl
  · intro d _
    exact Or.inl (setRow_tagsOf s c d row)

theorem makeCell_cells (s : RowsPage) (row : Row) (tag : Nat) {c : Nat} (hc : c < s.next) :
    (s.makeCell row tag).cells c = s.cells c :=
  Function.update_of_ne hc.ne _ _

@[simp]
theorem makeCell_new (s : RowsPage) (row : Row) (tag : Nat) :
    (s.makeCell row tag).cells s.next = ⟨row, tag⟩ :=
  Function.update_self _ _ _

/-- The variables of cells made before are what they were. -/
theorem makeCell_tagsIn (s : RowsPage) (row : Row) (tag : Nat) {list : List Nat}
    (hlist : ∀ c ∈ list, c < s.next) : (s.makeCell row tag).tagsIn list = s.tagsIn list :=
  List.map_congr_left fun c hc => by rw [makeCell_cells s row tag (hlist c hc)]

theorem makeCell_tagsOf (h : s.Wf) (row : Row) (tag d : Nat) :
    (s.makeCell row tag).tagsOf d = s.tagsOf d :=
  makeCell_tagsIn s row tag (h.cells _)

/-- A cell made, of a variable there is or of the next. -/
theorem Sound.makeCell (h : s.Sound) (row : Row) {tag : Nat} (htag : tag ≤ s.next) :
    (s.makeCell row tag).Sound := by
  apply h.moved
  · rfl
  · refine ⟨Nat.lt_succ_of_lt h.wf.draft, fun d => Nat.lt_succ_of_lt (h.wf.vars d),
      fun l c hc => Nat.lt_succ_of_lt (h.wf.cells l c hc), ?_⟩
    intro c
    rcases eq_or_ne c s.next with rfl | hc
    · rw [makeCell_new]
      exact Nat.lt_succ_of_le htag
    · show ((Function.update s.cells s.next ⟨row, tag⟩) c).tag < s.next + 1
      rw [Function.update_of_ne hc]
      exact Nat.lt_succ_of_lt (h.wf.tags c)
  · exact Nat.le_succ _
  · rw [makeCell_tagsOf h.wf]
    exact h.nodup
  · intro i _
    rw [makeCell_tagsOf h.wf]
    rfl
  · intro d _
    exact Or.inl (makeCell_tagsOf h.wf row tag d)

/-- A list of cells that are there, of variables that are all different. -/
structure Listed (s : RowsPage) (list : List Nat) : Prop where
  made : ∀ c ∈ list, c < s.next
  nodup : (s.tagsIn list).Nodup

/-- A list that may be shown: the row on its way is in its place. -/
structure Fits (s : RowsPage) (list : List Nat) : Prop extends s.Listed list where
  place : ∀ i ∈ s.secretPending, (s.tagsIn list)[i]? = (s.tagsOf s.draft)[i]?

/-- What is shown may be shown. -/
theorem Sound.fits (h : s.Sound) : s.Fits (s.listOf s.draft) :=
  ⟨⟨h.wf.cells _, h.nodup⟩, fun _ _ => rfl⟩

theorem setList_lists (s : RowsPage) (list : List Nat) (l : Nat) :
    (s.setList list).lists l = if l = (s.drafts s.draft).vars then list else s.lists l :=
  Function.update_apply _ _ _ _

@[simp]
theorem setList_listOf_draft (s : RowsPage) (list : List Nat) :
    (s.setList list).listOf s.draft = list :=
  Function.update_self _ _ _

/-- The list shown is changed where it is. -/
theorem Sound.setList (h : s.Sound) {list : List Nat} (hfits : s.Fits list) :
    (s.setList list).Sound := by
  have hshown : (s.setList list).tagsOf s.draft = s.tagsIn list := by
    rw [tagsOf_eq, setList_listOf_draft]
    rfl
  apply h.moved
  · rfl
  · refine ⟨h.wf.draft, h.wf.vars, ?_, h.wf.tags⟩
    intro l c hc
    rw [setList_lists] at hc
    split at hc
    · exact hfits.made c hc
    · exact h.wf.cells l c hc
  · exact le_rfl
  · show ((s.setList list).tagsOf s.draft).Nodup
    rw [hshown]
    exact hfits.nodup
  · intro i hi
    show ((s.setList list).tagsOf s.draft)[i]? = (s.tagsOf s.draft)[i]?
    rw [hshown]
    exact hfits.place i hi
  · intro d _
    by_cases hd : (s.drafts d).vars = (s.drafts s.draft).vars
    · refine Or.inr ⟨?_, ?_⟩
      · show s.tagsIn (s.lists (s.drafts d).vars) = s.tagsIn (s.lists (s.drafts s.draft).vars)
        rw [hd]
      · show s.tagsIn ((s.setList list).lists (s.drafts d).vars) =
          s.tagsIn ((s.setList list).lists (s.drafts s.draft).vars)
        rw [hd]
    · refine Or.inl ?_
      show s.tagsIn ((s.setList list).lists (s.drafts d).vars) =
        s.tagsIn (s.lists (s.drafts d).vars)
      rw [setList_lists, if_neg hd]

/-- A new draft, of the list shown. -/
theorem Sound.setDraft (h : s.Sound) {draft : VariablesDraft}
    (hvars : draft.vars = (s.drafts s.draft).vars) : (s.setDraft draft).Sound := by
  have hnew : (s.setDraft draft).tagsOf s.next = s.tagsOf s.draft := by
    show s.tagsIn (s.lists ((Function.update s.drafts s.next draft) s.next).vars) = _
    rw [Function.update_self, hvars]
    rfl
  apply h.moved
  · rfl
  · refine ⟨Nat.lt_succ_self _, ?_, fun l c hc => Nat.lt_succ_of_lt (h.wf.cells l c hc),
      fun c => Nat.lt_succ_of_lt (h.wf.tags c)⟩
    intro d
    rcases eq_or_ne d s.next with rfl | hd
    · show ((Function.update s.drafts s.next draft) s.next).vars < s.next + 1
      rw [Function.update_self, hvars]
      exact Nat.lt_succ_of_lt (h.wf.vars _)
    · show ((Function.update s.drafts s.next draft) d).vars < s.next + 1
      rw [Function.update_of_ne hd]
      exact Nat.lt_succ_of_lt (h.wf.vars d)
  · exact Nat.le_succ _
  · show ((s.setDraft draft).tagsOf s.next).Nodup
    rw [hnew]
    exact h.nodup
  · intro i _
    show ((s.setDraft draft).tagsOf s.next)[i]? = _
    rw [hnew]
  · intro d hd
    refine Or.inl ?_
    show s.tagsIn (s.lists ((Function.update s.drafts s.next draft) d).vars) = _
    rw [Function.update_of_ne hd.ne]
    rfl

theorem showList_listOf_new (s : RowsPage) (list : List Nat) (loaded : List Row)
    (jsonValid : Bool) : (s.showList list loaded jsonValid).listOf s.next = list := by
  simp [RowsPage.listOf, RowsPage.showList]

/-- Drafts made before show what they did: the new draft and its list are objects of their own. -/
theorem showList_listOf (h : s.Wf) (list : List Nat) (loaded : List Row) (jsonValid : Bool)
    {d : Nat} (hd : d < s.next) :
    (s.showList list loaded jsonValid).listOf d = s.listOf d := by
  simp [RowsPage.listOf, RowsPage.showList, Function.update_of_ne hd.ne,
    Function.update_of_ne (h.vars d).ne]

/-- A new draft with a list of its own. -/
theorem Sound.showList (h : s.Sound) {list : List Nat} (hfits : s.Fits list)
    (loaded : List Row) (jsonValid : Bool) : (s.showList list loaded jsonValid).Sound := by
  have hnew : (s.showList list loaded jsonValid).tagsOf s.next = s.tagsIn list := by
    rw [tagsOf_eq, showList_listOf_new]
    rfl
  apply h.moved
  · rfl
  · refine ⟨Nat.lt_succ_self _, ?_, ?_, fun c => Nat.lt_succ_of_lt (h.wf.tags c)⟩
    · intro d
      show ((Function.update s.drafts s.next ⟨s.next, loaded, jsonValid⟩) d).vars < s.next + 1
      rcases eq_or_ne d s.next with rfl | hd
      · rw [Function.update_self]
        exact Nat.lt_succ_self _
      · rw [Function.update_of_ne hd]
        exact Nat.lt_succ_of_lt (h.wf.vars d)
    · intro l c hc
      change c ∈ (Function.update s.lists s.next list) l at hc
      rcases eq_or_ne l s.next with rfl | hl
      · rw [Function.update_self] at hc
        exact Nat.lt_succ_of_lt (hfits.made c hc)
      · rw [Function.update_of_ne hl] at hc
        exact Nat.lt_succ_of_lt (h.wf.cells l c hc)
  · exact Nat.le_succ _
  · show ((s.showList list loaded jsonValid).tagsOf s.next).Nodup
    rw [hnew]
    exact hfits.nodup
  · intro i hi
    show ((s.showList list loaded jsonValid).tagsOf s.next)[i]? = _
    rw [hnew]
    exact hfits.place i hi
  · intro d hd
    refine Or.inl ?_
    rw [tagsOf_eq, showList_listOf h.wf list loaded jsonValid hd]
    rfl

/-- The draft shown with a copy of its list. -/
theorem Sound.updateDraft (h : s.Sound) : s.updateDraft.Sound :=
  h.showList h.fits _ _

theorem Sound.syncJson (h : s.Sound) : s.syncJson.Sound :=
  h.setDraft rfl

/-! ## Changes from elsewhere laid over the rows -/

/-- Cells were made, and nothing else has changed. -/
structure Grown (s s' : RowsPage) : Prop where
  frame : s' = { s with cells := s'.cells, next := s'.next }
  next : s.next ≤ s'.next
  cells : ∀ c < s.next, s'.cells c = s.cells c

theorem Grown.refl (s : RowsPage) : s.Grown s :=
  ⟨rfl, le_rfl, fun _ _ => rfl⟩

theorem Grown.trans {s' s'' : RowsPage} (h : s.Grown s') (h' : s'.Grown s'') : s.Grown s'' := by
  refine ⟨?_, h.next.trans h'.next, ?_⟩
  · rw [h'.frame, h.frame]
  · intro c hc
    rw [h'.cells c (hc.trans_le h.next), h.cells c hc]

theorem grown_makeCell (s : RowsPage) (row : Row) (tag : Nat) : s.Grown (s.makeCell row tag) :=
  ⟨rfl, Nat.le_succ _, fun _ hc => makeCell_cells s row tag hc⟩

theorem Grown.listOf {s' : RowsPage} (h : s.Grown s') (d : Nat) : s'.listOf d = s.listOf d := by
  rw [h.frame]
  rfl

theorem Grown.tagsIn {s' : RowsPage} (h : s.Grown s') {list : List Nat}
    (hlist : ∀ c ∈ list, c < s.next) : s'.tagsIn list = s.tagsIn list :=
  List.map_congr_left fun c hc => by rw [h.cells c (hlist c hc)]

theorem Grown.tagsOf {s' : RowsPage} (h : s.Grown s') (hwf : s.Wf) (d : Nat) :
    s'.tagsOf d = s.tagsOf d := by
  rw [tagsOf_eq, h.listOf]
  exact h.tagsIn (hwf.cells _)

/-- The rows of a list and a new one after them. -/
theorem Listed.append (h : s.Sound) {list : List Nat} (hlist : s.Listed list) (row : Row) :
    (s.makeCell row s.next).Listed (list ++ [s.next]) := by
  constructor
  · intro c hc
    rcases List.mem_append.mp hc with hold | hnew
    · exact Nat.lt_succ_of_lt (hlist.made c hold)
    · rw [List.mem_singleton.mp hnew]
      exact Nat.lt_succ_self _
  · have htags : (s.makeCell row s.next).tagsIn (list ++ [s.next]) = s.tagsIn list ++ [s.next] := by
      rw [RowsPage.tagsIn, List.map_append, ← RowsPage.tagsIn, makeCell_tagsIn s row _ hlist.made]
      simp
    rw [htags]
    -- The next object's number is no variable's yet.
    refine hlist.nodup.append (List.nodup_singleton _) ?_
    intro t ht hnext
    obtain ⟨c, -, rfl⟩ := List.mem_map.mp ht
    exact absurd (List.mem_singleton.mp hnext) (h.wf.tags c).ne

/-- A row stays, or is the new one. -/
theorem eq_or_eq_next_of_replaced {key : Text} {first c c' : Nat}
    (h : s.replaced key first c = some c') : c = c' ∨ c' = s.next := by
  rw [replaced] at h
  split at h
  · exact Or.inl (Option.some.inj h)
  · split at h
    · exact Or.inr (Option.some.inj h).symm
    · exact absurd h (by simp)

/-- Where a row of the same variable takes the place of the first of a name, and the others of the
name are gone, the variables left stand in their order. -/
theorem tagsIn_replaced (s : RowsPage) (row : Row) (first : Nat) (key : Text) {list : List Nat}
    (hlist : ∀ c ∈ list, c < s.next) :
    (s.makeCell row (s.cells first).tag).tagsIn (list.filterMap (s.replaced key first)) =
      s.tagsIn (list.filter fun c => (s.cells c).row.key ≠ key ∨ c = first) := by
  induction list with
  | nil => rfl
  | cons c list ih =>
      have hrest := ih fun c' hc' => hlist c' (List.mem_cons_of_mem _ hc')
      have hc := hlist c List.mem_cons_self
      by_cases hkey : (s.cells c).row.key ≠ key
      · have hkept : s.replaced key first c = some c := if_pos hkey
        rw [List.filterMap_cons_some hkept, List.filter_cons_of_pos (by simp [hkey]),
          tagsIn_cons, tagsIn_cons, makeCell_cells s row _ hc, hrest]
      · by_cases hfirst : c = first
        · have hmade : s.replaced key first c = some s.next := by
            rw [replaced, if_neg hkey, if_pos hfirst]
          rw [List.filterMap_cons_some hmade, List.filter_cons_of_pos (by simp [hfirst]),
            tagsIn_cons, tagsIn_cons, makeCell_new, hrest, hfirst]
        · have hgone : s.replaced key first c = none := by
            rw [replaced, if_neg hkey, if_neg hfirst]
          rw [List.filterMap_cons_none hgone, List.filter_cons_of_neg (by simp [hkey, hfirst]),
            hrest]

/-- Part of a list is a list of that kind. -/
theorem Listed.sublist {list list' : List Nat} (h : s.Listed list) (hsub : list'.Sublist list) :
    s.Listed list' :=
  ⟨fun c hc => h.made c (hsub.subset hc), h.nodup.sublist (hsub.map _)⟩

/-- One change laid over a list. -/
theorem Sound.layOne (h : s.Sound) {list : List Nat} (hlist : s.Listed list)
    (change : VariableChange) :
    (s.layOne list change).1.Sound ∧ s.Grown (s.layOne list change).1 ∧
      (s.layOne list change).1.Listed (s.layOne list change).2 := by
  rw [RowsPage.layOne]
  split
  · exact ⟨h, Grown.refl s, hlist⟩
  · split
    · exact ⟨h, Grown.refl s, hlist.sublist List.filter_sublist⟩
    · split
      · exact ⟨h.makeCell _ le_rfl, grown_makeCell s _ _, hlist.append h _⟩
      · rename_i first _
        refine ⟨h.makeCell _ (h.wf.tags first).le, grown_makeCell s _ _, ?_, ?_⟩
        · intro c hc
          obtain ⟨c', hc', hmade⟩ := List.mem_filterMap.mp hc
          rcases eq_or_eq_next_of_replaced hmade with rfl | rfl
          · exact Nat.lt_succ_of_lt (hlist.made _ hc')
          · exact Nat.lt_succ_self _
        · rw [tagsIn_replaced s _ first change.key hlist.made]
          exact (hlist.sublist List.filter_sublist).nodup

theorem layOver_cons (s : RowsPage) (list : List Nat) (change : VariableChange)
    (changes : List VariableChange) :
    s.layOver list (change :: changes) =
      (s.layOne list change).1.layOver (s.layOne list change).2 changes := rfl

/-- Changes laid over a list: cells are made, and the list is one that may be shown where the row
on its way stays. -/
theorem Sound.layOver (h : s.Sound) {list : List Nat} (hlist : s.Listed list)
    (changes : List VariableChange) :
    (s.layOver list changes).1.Sound ∧ s.Grown (s.layOver list changes).1 ∧
      (s.layOver list changes).1.Listed (s.layOver list changes).2 := by
  induction changes generalizing s list with
  | nil => exact ⟨h, Grown.refl s, hlist⟩
  | cons change changes ih =>
      obtain ⟨hone, hgrown, hlisted⟩ := h.layOne hlist change
      obtain ⟨hall, hlater, hend⟩ := ih hone hlisted
      rw [layOver_cons]
      exact ⟨hall, hgrown.trans hlater, hend⟩

/-! ## The rows after changes -/

/-- A list with changes laid over it may be shown where the row on its way stays. -/
theorem Sound.laidFits (h : s.Sound) {changes : List VariableChange} (hstays : s.Stays changes) :
    (s.layOver (s.listOf s.draft) changes).1.Fits (s.layOver (s.listOf s.draft) changes).2 := by
  obtain ⟨-, hgrown, hlisted⟩ := h.layOver h.fits.toListed changes
  refine ⟨hlisted, ?_⟩
  intro i hi
  have hshown : (s.layOver (s.listOf s.draft) changes).1.tagsOf
      (s.layOver (s.listOf s.draft) changes).1.draft = s.tagsOf s.draft := by
    rw [hgrown.tagsOf h.wf, hgrown.frame]
  rw [hshown]
  rw [hgrown.frame] at hi
  exact hstays i hi

/-! ## The steps of the page -/

/-- What another tab wrote laid over the rows. -/
theorem Sound.merge (h : s.Sound) {changes : List VariableChange} (hstays : s.Stays changes)
    (loaded : List Row) : (s.merge changes loaded).Sound := by
  rw [RowsPage.merge]
  split
  · exact h.setDraft rfl
  · exact (h.layOver h.fits.toListed changes).1.showList (h.laidFits hstays) _ _

theorem Sound.landed (h : s.Sound) : s.landed.Sound :=
  ⟨⟨h.wf.draft, h.wf.vars, h.wf.cells, h.wf.tags⟩, h.nodup, h.aimed, h.place, h.queued, h.holds,
    h.marking, ⟨h.marks.saved, h.marks.written, h.marks.sent⟩⟩

/-- The draft shown is given a list of its own. -/
def giveList (s : RowsPage) (list : List Nat) (draft : Nat) (loaded : List Row) : RowsPage :=
  { s with
    lists := Function.update s.lists s.next list
    drafts := Function.update s.drafts draft ⟨s.next, loaded, true⟩
    next := s.next + 1 }

theorem giveList_listOf_self (s : RowsPage) (list : List Nat) (draft : Nat) (loaded : List Row) :
    (s.giveList list draft loaded).listOf draft = list := by
  simp [RowsPage.listOf, giveList]

theorem giveList_listOf_of_ne (h : s.Wf) (list : List Nat) (loaded : List Row) {d draft : Nat}
    (hd : d ≠ draft) : (s.giveList list draft loaded).listOf d = s.listOf d := by
  simp [RowsPage.listOf, giveList, Function.update_of_ne hd, Function.update_of_ne (h.vars d).ne]

theorem Sound.giveList (h : s.Sound) {list : List Nat} (hfits : s.Fits list) (loaded : List Row) :
    (s.giveList list s.draft loaded).Sound := by
  have hshown : (s.giveList list s.draft loaded).tagsOf s.draft = s.tagsIn list := by
    rw [tagsOf_eq, giveList_listOf_self]
    rfl
  apply h.moved
  · rfl
  · refine ⟨Nat.lt_succ_of_lt h.wf.draft, ?_, ?_, fun c => Nat.lt_succ_of_lt (h.wf.tags c)⟩
    · intro d
      show ((Function.update s.drafts s.draft ⟨s.next, loaded, true⟩) d).vars < s.next + 1
      rcases eq_or_ne d s.draft with rfl | hd
      · rw [Function.update_self]
        exact Nat.lt_succ_self _
      · rw [Function.update_of_ne hd]
        exact Nat.lt_succ_of_lt (h.wf.vars d)
    · intro l c hc
      change c ∈ (Function.update s.lists s.next list) l at hc
      rcases eq_or_ne l s.next with rfl | hl
      · rw [Function.update_self] at hc
        exact Nat.lt_succ_of_lt (hfits.made c hc)
      · rw [Function.update_of_ne hl] at hc
        exact Nat.lt_succ_of_lt (h.wf.cells l c hc)
  · exact Nat.le_succ _
  · show ((s.giveList list s.draft loaded).tagsOf s.draft).Nodup
    rw [hshown]
    exact hfits.nodup
  · intro i hi
    show ((s.giveList list s.draft loaded).tagsOf s.draft)[i]? = _
    rw [hshown]
    exact hfits.place i hi
  · intro d _
    rcases eq_or_ne d s.draft with rfl | hd
    · exact Or.inr ⟨rfl, rfl⟩
    · refine Or.inl ?_
      rw [tagsOf_eq, giveList_listOf_of_ne h.wf list loaded hd]
      rfl

/-- Rows typed in the JSON view. -/
theorem Sound.typeJson (h : s.Sound) {typed : List (Text × Text)}
    (hstays : s.Undisturbed (.typeJson typed)) : (s.typeJson typed).Sound := by
  rw [RowsPage.typeJson]
  dsimp only
  split
  · exact h.updateDraft
  · obtain ⟨hlaid, hgrown, -⟩ := h.layOver h.fits.toListed
      (variableChanges ((s.rowsOf (s.listOf s.draft)).filter Row.enabled)
        (typed.map fun entry => ⟨entry.1, entry.2, true, false⟩))
    have hdraft := congrArg RowsPage.draft hgrown.frame
    have hgiven := hlaid.giveList (h.laidFits hstays) (s.drafts s.draft).loaded
    rw [hdraft] at hgiven
    exact hgiven.updateDraft

/-- Whether the JSON view's text is JSON says nothing of the rows. -/
theorem Sound.reportJson (h : s.Sound) (valid : Bool) : (s.reportJson valid).Sound := by
  have hvars : ∀ d, ((Function.update s.drafts s.draft
      { s.drafts s.draft with jsonValid := valid }) d).vars = (s.drafts d).vars := by
    intro d
    rcases eq_or_ne d s.draft with rfl | hd
    · rw [Function.update_self]
    · rw [Function.update_of_ne hd]
  have htags : ∀ d, RowsPage.tagsOf
      { s with drafts := Function.update s.drafts s.draft
                { s.drafts s.draft with jsonValid := valid } } d = s.tagsOf d := by
    intro d
    show s.tagsIn (s.lists _) = s.tagsIn (s.lists _)
    rw [hvars]
  have hreported : RowsPage.Sound
      { s with drafts := Function.update s.drafts s.draft
                { s.drafts s.draft with jsonValid := valid } } := by
    apply h.moved
    · rfl
    · refine ⟨h.wf.draft, ?_, h.wf.cells, h.wf.tags⟩
      intro d
      rw [hvars]
      exact h.wf.vars d
    · exact le_rfl
    · rw [htags]
      exact h.nodup
    · intro i _
      rw [htags]
    · intro d _
      exact Or.inl (htags d)
  exact hreported.showList ⟨⟨h.wf.cells _, h.nodup⟩, fun i _ => by rw [htags]; rfl⟩ _ _

/-! ## A row on its way -/

/-- A write of the rows shown waits. -/
theorem Sound.commit (h : s.Sound) : s.commit.Sound := by
  refine ⟨⟨h.wf.draft, h.wf.vars, h.wf.cells, h.wf.tags⟩, h.nodup, h.aimed, h.place, ?_, ?_,
    h.marking, ⟨h.marks.saved, h.marks.written, h.marks.sent⟩⟩
  · intro write hwrite
    rcases List.mem_append.mp hwrite with hold | hnew
    · exact h.queued write hold
    · rw [List.mem_singleton.mp hnew]
      exact h.wf.draft
  · intro t ht write hwrite
    rcases List.mem_append.mp hwrite with hold | hnew
    · exact h.holds t ht write hold
    · rw [List.mem_singleton.mp hnew]
      obtain ⟨i, hi, hget⟩ := h.place t ht
      exact ⟨i, hi, h.nodup, hget⟩

/-- Nothing is on its way. -/
theorem Sound.idle (h : s.Sound) (marking : Marking) :
    RowsPage.Sound { s.letGo with marking } := by
  refine ⟨⟨h.wf.draft, h.wf.vars, h.wf.cells, h.wf.tags⟩, h.nodup, ?_, ?_, h.queued, ?_, ?_,
    ⟨h.marks.saved, h.marks.written, h.marks.sent⟩⟩
  · intro i hi
    cases hi
  · intro t ht
    cases ht
  · intro t ht
    cases ht
  · intro t ht
    cases ht

theorem Sound.letGo (h : s.Sound) : s.letGo.Sound :=
  h.idle .idle

/-- The lock of a row was pressed, with none on its way or that one. -/
theorem Sound.holdRow (h : s.Sound) {i : Nat} (hpress : s.MayPress i) (hidle : s.marking = .idle)
    (hi : i < (s.listOf s.draft).length) : (s.holdRow i).Sound := by
  have hlt : i < (s.tagsOf s.draft).length := by rwa [tagsOf, List.length_map]
  have hget : (s.tagsOf s.draft)[i]? = some (s.tagsOf s.draft)[i] :=
    List.getElem?_eq_getElem hlt
  refine ⟨⟨h.wf.draft, h.wf.vars, h.wf.cells, h.wf.tags⟩, h.nodup, ?_, ?_, h.queued, ?_, ?_,
    ⟨h.marks.saved, h.marks.written, h.marks.sent⟩⟩
  · intro j _
    exact ⟨_, hget⟩
  · intro t ht
    exact ⟨i, rfl, ht⟩
  · intro t ht write hwrite
    cases hpending : s.secretPending with
    | none =>
        rw [show (s.holdRow i).queue = [] from hpress.1 hpending] at hwrite
        cases hwrite
    | some j =>
        obtain rfl := hpress.2 j hpending
        obtain ⟨t', ht'⟩ := h.aimed j hpending
        obtain ⟨j', hj', hplace⟩ := h.place t' ht'
        obtain rfl : j = j' := Option.some.inj (hpending.symm.trans hj')
        -- The row pressed again is the one that was on its way.
        obtain rfl : t = t' := Option.some.inj (ht.symm.trans hplace)
        exact h.holds t ht' write hwrite
  · intro t _ j hj
    have hnone : (s.holdRow i).marking.index = none := by
      show s.marking.index = none
      rw [hidle]
      rfl
    rw [hnone] at hj
    cases hj

/-- Cells of one variable in a list of variables that are all different are one cell. -/
theorem Listed.inj {list : List Nat} (h : s.Listed list) {c c' : Nat} (hc : c ∈ list)
    (hc' : c' ∈ list) (htag : (s.cells c).tag = (s.cells c').tag) : c = c' :=
  List.inj_on_of_nodup_map h.nodup hc hc' htag

/-- The cell at the index of the row on its way is that variable's. -/
theorem Sound.tag_eq (h : s.Sound) {t i c : Nat} (ht : t ∈ s.target) (hi : i ∈ s.secretPending)
    (hc : (s.listOf s.draft)[i]? = some c) : (s.cells c).tag = t := by
  obtain ⟨j, hj, hget⟩ := h.place t ht
  obtain rfl : i = j := Option.some.inj (hi.symm.trans hj)
  rw [tagsOf, List.getElem?_map, hc] at hget
  exact Option.some.inj hget

/-- The value encrypted is that of the row whose lock was pressed. -/
theorem Sound.beginSaving (h : s.Sound) {i : Nat}
    (hi : ∀ t ∈ s.target, i ∈ s.secretPending) : (s.beginSaving i).Sound := by
  rw [RowsPage.beginSaving]
  split
  · exact h.letGo
  · rename_i c hc
    refine ⟨⟨h.wf.draft, h.wf.vars, h.wf.cells, h.wf.tags⟩, h.nodup, h.aimed, h.place, h.queued,
      h.holds, ?_, ⟨?_, h.marks.written, h.marks.sent⟩⟩
    · intro t ht j hj
      obtain rfl : i = j := Option.some.inj hj
      exact hi t ht
    · intro e he
      dsimp only at he
      split at he
      · rename_i t ht
        rcases List.mem_append.mp he with hold | hnew
        · exact h.marks.saved e hold
        · rw [List.mem_singleton.mp hnew]
          have hmem : c ∈ s.listOf s.draft := List.mem_of_getElem? hc
          have htag := h.tag_eq ht (hi t ht) hc
          refine ⟨(s.cells c).row, ?_, rfl, ?_⟩
          · rw [← htag]
            exact List.mem_map_of_mem hmem
          · intro row' hrow'
            obtain ⟨c', hc', heq⟩ := List.mem_map.mp hrow'
            obtain ⟨htag', rfl⟩ := Prod.mk.inj heq
            rw [h.fits.toListed.inj hmem hc' (htag.trans htag'.symm)]
      · exact h.marks.saved e he

/-- A row of a list changed is the one of its variable. -/
theorem taggedOf_setRow {list : List Nat} (hlist : s.Listed list) {c : Nat} (hc : c ∈ list)
    (value : Text) :
    (s.setRow c { (s.cells c).row with value }).taggedOf list =
      (s.taggedOf list).map fun entry =>
        if entry.1 = (s.cells c).tag then (entry.1, { entry.2 with value }) else entry := by
  rw [taggedOf, taggedOf, List.map_map]
  apply List.map_congr_left
  intro c' hc'
  by_cases hcc : c' = c
  · subst hcc
    simp [RowsPage.setRow]
  · have htag : (s.cells c').tag ≠ (s.cells c).tag := fun htag => hcc (hlist.inj hc' hc htag)
    simp [RowsPage.setRow, Function.update_of_ne hcc, htag]

theorem showList_shown (s : RowsPage) (list : List Nat) (loaded : List Row) (jsonValid : Bool) :
    (s.showList list loaded jsonValid).shown = s.taggedOf list :=
  congrArg s.taggedOf (showList_listOf_new s list loaded jsonValid)

theorem showList_loaded (s : RowsPage) (list : List Nat) (loaded : List Row) (jsonValid : Bool) :
    ((s.showList list loaded jsonValid).drafts (s.showList list loaded jsonValid).draft).loaded =
      loaded := by
  simp [RowsPage.showList]

/-- The reference is written into the row whose lock was pressed, while the rows shown are those its
secret was taken from. -/
theorem Sound.writeReference (h : s.Sound) {i d : Nat} (id : Text)
    (hi : ∀ t ∈ s.target, i ∈ s.secretPending) (hlist : s.listOf d = s.listOf s.draft)
    (hloaded : (s.drafts d).loaded = (s.drafts s.draft).loaded) :
    (s.writeReference i d id).Sound := by
  rw [RowsPage.writeReference, hlist, hloaded]
  split
  · exact h.letGo
  · rename_i c hc
    have hmarked := h.setRow c { (s.cells c).row with value := buildSecretReference id }
    have hwritten := (hmarked.showList hmarked.fits (s.drafts s.draft).loaded true).commit
    refine ⟨⟨hwritten.wf.draft, hwritten.wf.vars, hwritten.wf.cells, hwritten.wf.tags⟩,
      hwritten.nodup, hwritten.aimed, hwritten.place, hwritten.queued, hwritten.holds, ?_,
      ⟨hwritten.marks.saved, ?_, hwritten.marks.sent⟩⟩
    · intro t ht j hj
      obtain rfl : i = j := Option.some.inj hj
      exact hi t ht
    · intro e he
      dsimp only at he
      split at he
      · rename_i t ht
        rcases List.mem_append.mp he with hold | hnew
        · exact h.marks.written e hold
        · rw [List.mem_singleton.mp hnew]
          have hmem : c ∈ s.listOf s.draft := List.mem_of_getElem? hc
          have htag := h.tag_eq ht (hi t ht) hc
          refine ⟨⟨(s.cells c).row, ?_⟩, showList_loaded _ _ _ _, ?_⟩
          · rw [← htag]
            exact List.mem_map_of_mem hmem
          · rw [← htag, showList_shown]
            exact taggedOf_setRow h.fits.toListed hmem _
      · exact h.marks.written e he

/-! ## What a write sends -/

/-- A row that is not held back is sent as it stands. -/
theorem mem_sentRows_of_ne {loaded : List Row} {held : Option Nat} {rows : List (Nat × Row)}
    {i : Nat} {entry : Nat × Row} (hentry : rows[i]? = some entry) (hi : some i ≠ held)
    (hkey : trim entry.2.key ≠ []) :
    (entry.1, trimmed entry.2) ∈ sentRows loaded held rows := by
  apply List.mem_filter.mpr
  refine ⟨List.mem_flatMap.mpr ⟨(entry, i), ?_, ?_⟩, decide_eq_true hkey⟩
  · exact List.mem_zipIdx_iff_getElem?.mpr hentry
  · simp [hi]

/-- A row that is sent is one shown; the one held back is sent with a reference or as it was
loaded. -/
theorem sentRows_of_mem {loaded : List Row} {held : Option Nat} {rows : List (Nat × Row)}
    {sent : Nat × Row} (h : sent ∈ sentRows loaded held rows) :
    ∃ i entry, rows[i]? = some entry ∧ entry.1 = sent.1 ∧
      (some i = held → isSecretReference sent.2.value = true ∨
        ∃ stored ∈ loaded, stored.key = sent.2.key ∧ stored.value = sent.2.value) := by
  obtain ⟨⟨entry, i⟩, hentry, hsent⟩ := List.mem_flatMap.mp (List.mem_of_mem_filter h)
  refine ⟨i, entry, List.mem_zipIdx_iff_getElem?.mp hentry, ?_⟩
  dsimp only at hsent
  split at hsent
  · rename_i hfree
    rw [List.mem_singleton.mp hsent]
    refine ⟨rfl, fun hheld => Or.inl ?_⟩
    simpa [hheld] using hfree
  · split at hsent
    · cases hsent
    · rename_i stored hstored
      rw [List.mem_singleton.mp hsent]
      refine ⟨rfl, fun _ => Or.inr ⟨stored, List.mem_of_find?_eq_some hstored, ?_, rfl⟩⟩
      simpa using List.find?_some hstored

/-- A write that holds the variable back at its place sends it as it was loaded, and every other row
as it stands. -/
theorem Places.kept {d i t : Nat} (h : s.Places d i t) (loaded : List Row) :
    SentRows.Kept ⟨t, loaded, s.taggedOf (s.listOf d),
      sentRows loaded (some i) (s.taggedOf (s.listOf d))⟩ := by
  have htags : ∀ (j : Nat) (entry : Nat × Row), (s.taggedOf (s.listOf d))[j]? = some entry →
      (s.tagsOf d)[j]? = some entry.1 := by
    intro j entry hentry
    rw [taggedOf, List.getElem?_map] at hentry
    rw [tagsOf, List.getElem?_map]
    obtain ⟨c, hc, rfl⟩ := Option.map_eq_some_iff.mp hentry
    rw [hc]
    rfl
  constructor
  · intro row hrow
    obtain ⟨j, entry, hentry, htag, hheld⟩ := sentRows_of_mem hrow
    have hj := htags j entry hentry
    rw [htag] at hj
    exact hheld (congrArg some (h.unique hj).symm)
  · intro entry hentry hother hkey
    obtain ⟨j, hj⟩ := List.getElem?_of_mem hentry
    refine mem_sentRows_of_ne hj ?_ hkey
    intro hij
    obtain rfl : j = i := Option.some.inj hij
    exact hother (Option.some.inj ((htags j entry hj).symm.trans h.2))

/-- The write that is next begins. -/
theorem Sound.beginWrite (h : s.Sound) {s' : RowsPage} (hstep : s.beginWrite = some s') :
    s'.Sound := by
  rw [RowsPage.beginWrite] at hstep
  split at hstep
  · rename_i d held queue hqueue _
    dsimp only at hstep
    have hmem : ∀ write ∈ queue, write ∈ s.queue := by
      intro write hwrite
      rw [hqueue]
      exact List.mem_cons_of_mem _ hwrite
    obtain rfl := Option.some.inj hstep
    split
    · exact ⟨⟨h.wf.draft, h.wf.vars, h.wf.cells, h.wf.tags⟩, h.nodup, h.aimed, h.place,
        fun write hwrite => h.queued write (hmem write hwrite),
        fun t ht write hwrite => h.holds t ht write (hmem write hwrite), h.marking,
        ⟨h.marks.saved, h.marks.written, h.marks.sent⟩⟩
    · refine ⟨⟨h.wf.draft, h.wf.vars, h.wf.cells, h.wf.tags⟩, h.nodup, h.aimed, h.place,
        fun write hwrite => h.queued write (hmem write hwrite),
        fun t ht write hwrite => h.holds t ht write (hmem write hwrite), h.marking,
        ⟨h.marks.saved, h.marks.written, ?_⟩⟩
      intro e he
      rcases List.mem_append.mp he with hold | hnew
      · exact h.marks.sent e hold
      · obtain ⟨t, ht, rfl⟩ := List.mem_map.mp hnew
        have hfirst : (d, held) ∈ s.queue := by
          rw [hqueue]
          exact List.mem_cons_self
        obtain ⟨i, hi, hplaces⟩ := h.holds t (Option.mem_toList.mp ht) (d, held) hfirst
        obtain rfl : held = some i := hi
        exact hplaces.kept _
  · cases hstep

/-! ## Every run -/

theorem Sound.showElsewhere (h : s.Sound) {rows : List Row}
    (hstays : s.Undisturbed (.showElsewhere rows)) : (s.showElsewhere rows).Sound := by
  rw [RowsPage.showElsewhere]
  split
  · exact h
  · split
    · exact h.setDraft rfl
    · exact h.merge hstays rows

/-- The lock was pressed, with no other row on its way. -/
theorem Sound.protect (h : s.Sound) {i : Nat} {unlocked : Bool} {s' : RowsPage}
    (hpress : s.MayPress i) (hidle : s.marking = .idle)
    (hstep : s.protect i unlocked = some s') : s'.Sound := by
  obtain ⟨c, hc, rfl⟩ := Option.map_eq_some_iff.mp hstep
  have hi : i < (s.listOf s.draft).length := (List.getElem?_eq_some_iff.mp hc).1
  have hheld := h.holdRow hpress hidle hi
  dsimp only
  split
  · exact hheld.letGo
  · split
    · exact hheld.beginSaving fun _ _ => rfl
    · refine ⟨⟨hheld.wf.draft, hheld.wf.vars, hheld.wf.cells, hheld.wf.tags⟩, hheld.nodup,
        hheld.aimed, hheld.place, hheld.queued, hheld.holds, ?_,
        ⟨hheld.marks.saved, hheld.marks.written, hheld.marks.sent⟩⟩
      intro t _ j hj
      exact hj

/-- The marking goes on with the same row, or the row stays held back without one. -/
theorem Sound.goOn (h : s.Sound) {marking : Marking}
    (hindex : ∀ i ∈ marking.index, i ∈ s.marking.index) :
    RowsPage.Sound { s with marking } :=
  ⟨⟨h.wf.draft, h.wf.vars, h.wf.cells, h.wf.tags⟩, h.nodup, h.aimed, h.place, h.queued, h.holds,
    fun t ht i hi => h.marking t ht i (hindex i hi), ⟨h.marks.saved, h.marks.written, h.marks.sent⟩⟩

/-- A row added at the end. -/
theorem Sound.addVariable (h : s.Sound) (key : Text) {s' : RowsPage}
    (hstep : s.step (.addVariable key) = some s') : s'.Sound := by
  obtain rfl := Option.some.inj hstep
  have hmade := h.makeCell ⟨key, [], true, false⟩ le_rfl
  have hlist := h.fits.toListed.append h ⟨key, [], true, false⟩
  refine (hmade.setList ⟨hlist, ?_⟩).updateDraft
  intro i hi
  obtain ⟨t, ht⟩ := h.aimed i hi
  obtain ⟨j, hj, hget⟩ := h.place t ht
  obtain rfl : i = j := Option.some.inj (Option.mem_def.mp hi |>.symm.trans hj)
  obtain ⟨hlt, -⟩ := List.getElem?_eq_some_iff.mp hget
  rw [tagsOf, List.length_map] at hlt
  show ((s.makeCell _ s.next).tagsIn (s.listOf s.draft ++ [s.next]))[i]? = _
  rw [tagsIn, List.getElem?_map, List.getElem?_append_left hlt, ← List.getElem?_map]
  rfl

/-- A row switched on or off: a new cell of the same variable. -/
theorem Sound.setEnabled (h : s.Sound) {i : Nat} {enabled : Bool} {s' : RowsPage}
    (hstep : s.step (.setEnabled i enabled) = some s') : s'.Sound := by
  obtain ⟨c, hc, rfl⟩ := Option.map_eq_some_iff.mp hstep
  have hmade := h.makeCell { (s.cells c).row with enabled } (h.wf.tags c).le
  have htags : (s.makeCell { (s.cells c).row with enabled } (s.cells c).tag).tagsIn
      ((s.listOf s.draft).set i s.next) = s.tagsOf s.draft := by
    rw [tagsIn, List.map_set, makeCell_new]
    show ((s.makeCell _ _).tagsIn (s.listOf s.draft)).set i _ = _
    rw [makeCell_tagsIn _ _ _ h.fits.made, tagsOf_eq]
    obtain ⟨hlt, hget⟩ := List.getElem?_eq_some_iff.mp hc
    rw [← hget, tagsIn, ← List.map_set, List.set_getElem_self]
  refine ((hmade.setList ⟨⟨?_, ?_⟩, ?_⟩).updateDraft).commit
  · intro c' hc'
    rcases List.mem_or_eq_of_mem_set hc' with hold | rfl
    · exact Nat.lt_succ_of_lt (h.wf.cells _ c' hold)
    · exact Nat.lt_succ_self _
  · rw [htags]
    exact h.nodup
  · intro j _
    rw [htags]
    show _ = ((s.makeCell _ _).tagsOf s.draft)[j]?
    rw [makeCell_tagsOf h.wf]

/-- A row removed after the one on its way. -/
theorem Sound.removeVariable (h : s.Sound) {j : Nat} {s' : RowsPage}
    (hafter : ∀ i ∈ s.secretPending, i < j)
    (hstep : s.step (.removeVariable j) = some s') : s'.Sound := by
  obtain ⟨c, hc, rfl⟩ := Option.map_eq_some_iff.mp hstep
  have hrest := h.fits.toListed.sublist (List.eraseIdx_sublist (s.listOf s.draft) j)
  refine ((h.setList ⟨hrest, ?_⟩).updateDraft).commit
  intro i hi
  show (((s.listOf s.draft).eraseIdx j).map _)[i]? = _
  rw [List.getElem?_map, List.getElem?_eraseIdx_of_lt (hafter i hi), ← List.getElem?_map]
  rfl

/-- Each step that leaves the row where it is keeps its index naming it. -/
theorem Sound.step (h : s.Sound) {a : RowsStep} {s' : RowsPage} (hfree : s.Undisturbed a)
    (hstep : s.step a = some s') : s'.Sound := by
  cases a with
  | addVariable key => exact h.addVariable key hstep
  -- An edit changes a row where it stands, and no tag with it.
  | editKey i key =>
      obtain ⟨c, -, rfl⟩ := Option.map_eq_some_iff.mp hstep
      exact (h.setRow c _).syncJson
  | editValue i value =>
      obtain ⟨c, -, rfl⟩ := Option.map_eq_some_iff.mp hstep
      exact (h.setRow c _).syncJson
  | setEnabled i enabled => exact h.setEnabled hstep
  | removeVariable j => exact h.removeVariable hfree hstep
  | typeJson typed =>
      obtain rfl := Option.some.inj hstep
      exact h.typeJson hfree
  | reportJson valid =>
      obtain rfl := Option.some.inj hstep
      exact h.reportJson valid
  | blur =>
      obtain rfl := Option.some.inj hstep
      exact h.commit
  | holdForSecret i =>
      obtain ⟨⟨hidle, hi⟩, hheld⟩ := Option.ite_none_right_eq_some.mp hstep
      obtain rfl := Option.some.inj hheld
      exact h.holdRow hfree hidle hi
  | releaseHold i =>
      simp only [RowsPage.step] at hstep
      split at hstep
      · obtain rfl := Option.some.inj hstep
        exact h.letGo
      · obtain rfl := Option.some.inj hstep
        exact h
  | protectVariable i unlocked =>
      obtain ⟨hidle, hpressed⟩ := Option.ite_none_right_eq_some.mp hstep
      exact h.protect hfree hidle hpressed
  -- The dialogs change which step the marking is at, not what is marked.
  | askPassphrase =>
      simp only [RowsPage.step] at hstep
      split at hstep
      · rename_i i hmarking
        obtain rfl := Option.some.inj hstep
        apply h.goOn
        rw [hmarking]
        exact fun _ hi => hi
      · cases hstep
  | answerUnlock unlocked =>
      simp only [RowsPage.step] at hstep
      split at hstep
      · rename_i i hmarking
        obtain rfl := Option.some.inj hstep
        split
        · apply h.beginSaving
          intro t ht
          exact h.marking t ht i (by rw [hmarking]; rfl)
        · exact h.letGo
      · rename_i i hmarking
        obtain rfl := Option.some.inj hstep
        split
        · apply h.beginSaving
          intro t ht
          exact h.marking t ht i (by rw [hmarking]; rfl)
        · apply h.goOn
          intro i hi
          cases hi
      · cases hstep
  | createVaultForRow =>
      simp only [RowsPage.step] at hstep
      split at hstep
      · rename_i i hmarking
        obtain rfl := Option.some.inj hstep
        apply h.goOn
        rw [hmarking]
        exact fun _ hi => hi
      · cases hstep
  | cancelVaultForRow =>
      simp only [RowsPage.step] at hstep
      split at hstep
      · obtain rfl := Option.some.inj hstep
        exact h.letGo
      · obtain rfl := Option.some.inj hstep
        exact h.idle _
      · cases hstep
  -- Only here a row is written by the marking: the reference takes the value's place.
  | saveSecret id =>
      simp only [RowsPage.step] at hstep
      split at hstep
      · rename_i i d hmarking
        obtain rfl := Option.some.inj hstep
        obtain ⟨hlist, hloaded⟩ := hfree d (by rw [hmarking]; rfl)
        apply h.writeReference id ?_ hlist hloaded
        intro t ht
        exact h.marking t ht i (by rw [hmarking]; rfl)
      · cases hstep
  | refuseSecret =>
      simp only [RowsPage.step] at hstep
      split at hstep
      · obtain rfl := Option.some.inj hstep
        exact h.letGo
      · cases hstep
  | endMarking =>
      simp only [RowsPage.step] at hstep
      split at hstep
      · obtain rfl := Option.some.inj hstep
        exact h.letGo
      · cases hstep
  | beginWrite => exact h.beginWrite hstep
  -- A write that ends brings the stored rows back in, if the store changed meanwhile.
  | endWrite latest =>
      simp only [RowsPage.step, RowsPage.endWrite] at hstep
      split at hstep
      · cases hstep
      · obtain rfl := Option.some.inj hstep
        exact h.landed
      · rename_i vars latest hflying
        obtain rfl := Option.some.inj hstep
        exact h.landed.merge (hfree vars hflying latest rfl) latest
  | showElsewhere rows =>
      obtain rfl := Option.some.inj hstep
      exact h.showElsewhere hfree

/-- A page that was just opened. -/
theorem sound_start (rows : List Row) : (start rows).Sound := by
  have htags : (start rows).tagsOf 0 = List.range rows.length := by
    show (List.range rows.length).map _ = _
    refine (List.map_congr_left ?_).trans (List.map_id _)
    intro i hi
    show (if i < rows.length then i else 0) = i
    rw [if_pos (List.mem_range.mp hi)]
  refine ⟨⟨Nat.succ_pos _, fun _ => Nat.succ_pos _, ?_, ?_⟩, ?_, ?_, ?_, ?_, ?_, ?_, ?_⟩
  · intro l c hc
    exact Nat.lt_succ_of_lt (List.mem_range.mp hc)
  · intro c
    show (if c < rows.length then c else 0) < rows.length + 1
    split <;> omega
  · show ((start rows).tagsOf 0).Nodup
    rw [htags]
    exact List.nodup_range
  · intro i hi
    cases hi
  · intro t ht
    cases ht
  · intro write hwrite
    cases hwrite
  · intro t ht
    cases ht
  · intro t ht
    cases ht
  · exact ⟨by simp [start], by simp [start], by simp [start]⟩

/-- In every run whose steps leave the row where it is, what is encrypted is its value, the
reference is written into it and no other, no other row is lost, and no write sends its value. -/
theorem run_marksThatRow {rows : List Row} {actions : List RowsStep} {s : RowsPage}
    (hmeets : Meets RowsPage.step Undisturbed (start rows) actions)
    (hrun : run RowsPage.step (start rows) actions = some s) : s.MarksThatRow :=
  (run_induction (fun _ _ _ h hfree hstep => h.step hfree hstep) (sound_start rows) hmeets
    hrun).marks

/-- Three rows of a set. -/
def threeRows : List Row :=
  [⟨units "a", units "1", true, false⟩, ⟨units "b", units "2", true, false⟩,
    ⟨units "c", units "3", true, false⟩]

/-- A value is typed in the second row and its lock is pressed: the vault is
locked, or there is none. -/
def pressed : List RowsStep :=
  [.editValue 1 (units "hunter2"), .holdForSecret 1, .protectVariable 1 false]

/-- The first row is edited meanwhile and written, then the second is a secret's. -/
def editedMeanwhile : List RowsStep :=
  pressed ++ [.editValue 0 (units "one"), .blur, .beginWrite,
    .endWrite (some [⟨units "a", units "one", true, false⟩, ⟨units "b", units "2", true, false⟩,
      ⟨units "c", units "3", true, false⟩]),
    .answerUnlock true, .editKey 2 (units "d"), .saveSecret (units "id"), .beginWrite]

theorem editedMeanwhile_marksThatRow : ∃ s,
    run RowsPage.step (start threeRows) editedMeanwhile = some s ∧ s.MarksThatRow := by
  have hfree : Meets RowsPage.step Undisturbed (start threeRows) editedMeanwhile := by
    decide +kernel
  have hruns : (run RowsPage.step (start threeRows) editedMeanwhile).isSome = true := by
    decide +kernel
  obtain ⟨s, hrun⟩ := Option.isSome_iff_exists.mp hruns
  exact ⟨s, hrun, run_marksThatRow hfree hrun⟩

/-- There is no vault, and the first row is removed while it is made: the third row's value is
encrypted, and the value typed in the second is sent. -/
theorem removedBefore_not_marksThatRow : ∃ s, run RowsPage.step (start threeRows)
    (pressed ++ [.askPassphrase, .removeVariable 0, .beginWrite, .createVaultForRow,
      .answerUnlock true]) = some s ∧
      (∃ e ∈ s.sent, (e.target, ⟨units "b", units "hunter2", true, false⟩) ∈ e.sent) ∧
      ¬ s.MarksThatRow := by
  have hother : (run RowsPage.step (start threeRows)
      (pressed ++ [.askPassphrase, .removeVariable 0, .beginWrite, .createVaultForRow,
        .answerUnlock true])).any (fun s =>
        (s.sent.any fun e => e.sent.any fun entry =>
          entry.1 = e.target ∧ entry.2 = ⟨units "b", units "hunter2", true, false⟩) ∧
        s.saved.any fun e => e.shown.any fun entry =>
          entry.1 = e.target ∧ entry.2.value ≠ e.plaintext) = true := by
    decide +kernel
  obtain ⟨s, hrun, htest⟩ := exists_run_of_any hother
  simp only [decide_eq_true_eq, Bool.decide_and, Bool.and_eq_true, List.any_eq_true] at htest
  obtain ⟨⟨e, he, entry, hentry, htag, hrow⟩, e', he', entry', hentry', htag', hvalue⟩ := htest
  refine ⟨s, hrun, ⟨e, he, by rw [← htag, ← hrow]; exact hentry⟩, ?_⟩
  intro hmarks
  obtain ⟨row, -, hplain, honly⟩ := hmarks.saved e' he'
  rw [← htag'] at honly
  exact hvalue ((congrArg Row.value (honly _ hentry')).trans hplain)

end RowsPage

end Wayfarer
