import Wayfarer.Model.Variables

/-!
# Edits of one set of variables

An editor saves the difference it made (`variableChanges`), and the stored rows are changed by it
inside one transaction (`changeEnvironment`). What a change does is read name by name: `changes_eq`
says what the difference makes of the state of a name, and `edits_kept` that two edits of different
names do not lose each other.
-/

set_option autoImplicit false

namespace Wayfarer

open Library

/-! ## The stored environments -/

/-- A stored environment. -/
structure EnvironmentDoc where
  id : Text
  name : Text
  description : Option Text
  vars : List Row

/-- What may be changed of an environment with its variables. -/
structure EnvironmentDetails where
  name : Option Text := none
  description : Option Text := none

/-- An environment with some variables changed, and its name or description when given. -/
def EnvironmentDoc.changed (doc : EnvironmentDoc) (changes : List VariableChange)
    (details : EnvironmentDetails) : EnvironmentDoc :=
  { doc with
    name := (details.name.map trim).getD doc.name
    description :=
      match details.description with
      | some text => if trim text ≠ [] then some (trim text) else none
      | none => doc.description
    vars := applyVariableChanges doc.vars changes }

/-- Changes some variables of an environment, reading the stored document inside the transaction
that writes it. Nothing where there is no such environment. -/
def changeEnvironment (docs : List EnvironmentDoc) (id : Text) (changes : List VariableChange)
    (details : EnvironmentDetails) : List EnvironmentDoc × Option EnvironmentDoc :=
  (docs.map fun doc => if doc.id = id then doc.changed changes details else doc,
    (docs.find? fun doc => doc.id = id).map fun doc => doc.changed changes details)

/-- The variables of a stored environment. -/
def varsOf (docs : List EnvironmentDoc) (id : Text) : Option (List Row) :=
  (docs.find? fun doc => doc.id = id).map EnvironmentDoc.vars

theorem varsOf_changeEnvironment (docs : List EnvironmentDoc) (id : Text)
    (changes : List VariableChange) (details : EnvironmentDetails) :
    varsOf (changeEnvironment docs id changes details).1 id =
      (varsOf docs id).map fun rows => applyVariableChanges rows changes := by
  rw [varsOf, varsOf, changeEnvironment]
  induction docs with
  | nil => rfl
  | cons doc docs ih =>
      rw [List.map_cons, List.find?_cons, List.find?_cons]
      by_cases hid : doc.id = id
      · simp [hid, EnvironmentDoc.changed]
      · simpa [hid] using ih

/-! ## The state of a name -/

/-- A name's state: its value, and whether it is on. -/
def stateOf (rows : List Row) (name : Text) : Option (Text × Bool) :=
  (statesByName rows).get? name

/-- The state of a name that has these rows: its last row that is on, else its last. -/
def stateIn (rows : List Row) : Option (Text × Bool) :=
  ((rows.filter Row.enabled).getLast?.or rows.getLast?).map fun row => (row.value, row.enabled)

/-- A name is on where one of its rows is. -/
theorem any_stateIn (rows : List Row) :
    (stateIn rows).any Prod.snd = decide (rows.filter Row.enabled ≠ []) := by
  rw [stateIn]
  cases hon : (rows.filter Row.enabled).getLast? with
  | some row =>
      have hmem := List.mem_of_mem_getLast? hon
      have henabled : row.enabled = true := (List.mem_filter.mp hmem).2
      rw [Option.some_or, Option.map_some, Option.any_some, henabled]
      exact (decide_eq_true (List.ne_nil_of_mem hmem)).symm
  | none =>
      have hnil := List.getLast?_eq_none_iff.mp hon
      rw [Option.none_or, hnil]
      cases hlast : rows.getLast? with
      | none => rfl
      | some row =>
          have hoff : row.enabled ≠ true := by
            intro henabled
            have hmem := List.mem_filter.mpr ⟨List.mem_of_mem_getLast? hlast, henabled⟩
            rw [hnil] at hmem
            cases hmem
          simpa using hoff

theorem stateIn_concat (rows : List Row) (row : Row) :
    stateIn (rows ++ [row]) =
      if row.enabled || !((stateIn rows).any Prod.snd) then some (row.value, row.enabled)
      else stateIn rows := by
  rw [any_stateIn, stateIn, List.filter_append]
  by_cases henabled : row.enabled = true
  · rw [List.filter_cons_of_pos henabled, List.filter_nil, List.getLast?_concat, Option.some_or,
      Option.map_some, henabled, Bool.true_or, if_pos rfl]
  · rw [List.filter_cons_of_neg henabled, List.filter_nil, List.append_nil, List.getLast?_concat]
    by_cases hnone : rows.filter Row.enabled = []
    · simp [hnone]
    · obtain ⟨on, hon⟩ := Option.ne_none_iff_exists'.mp (mt List.getLast?_eq_none_iff.mp hnone)
      simp [hnone, henabled, hon, stateIn]

/-- A name's state is read off its own rows. What has no name has none. -/
theorem stateOf_eq (rows : List Row) (name : Text) :
    stateOf rows name = if name = [] then none else stateIn (rowsOf name rows) := by
  induction rows using List.reverseRecOn with
  | nil =>
      split_ifs
      · rfl
      · rfl
  | append_singleton rows row ih =>
      have hstep : stateOf (rows ++ [row]) name =
          if row.key ≠ [] && (row.enabled || !((stateOf rows row.key).any Prod.snd)) then
            if row.key = name then some (row.value, row.enabled) else stateOf rows name
          else stateOf rows name := by
        rw [stateOf, statesByName, List.foldl_append, List.foldl_cons, List.foldl_nil]
        show OrderedMap.get? (if _ then (statesByName rows).set _ _ else statesByName rows) name = _
        rw [apply_ite (fun m => OrderedMap.get? m name), OrderedMap.get?_set]
        rfl
      rw [hstep, rowsOf_append, rowsOf_cons, rowsOf_nil]
      by_cases hkey : row.key = name
      · subst hkey
        rw [if_pos rfl, if_pos rfl, ih]
        by_cases hname : row.key = []
        · simp [hname]
        · simp [hname, stateIn_concat]
      · rw [if_neg hkey, if_neg hkey, List.append_nil, ite_self, ih]

theorem stateOf_congr {rows rows' : List Row} {name : Text}
    (h : rowsOf name rows = rowsOf name rows') : stateOf rows name = stateOf rows' name := by
  rw [stateOf_eq, stateOf_eq, h]

/-! ## The difference of two lists of rows -/

/-- The names changes are of. -/
def namesChanged (changes : List VariableChange) : List Text :=
  changes.map VariableChange.key

theorem nodup_variableChanges (before after : List Row) :
    (namesChanged (variableChanges before after)).Nodup := by
  have hset : namesChanged (((statesByName after).entries.filter fun entry =>
      (statesByName before).get? entry.1 ≠ some entry.2).map fun entry =>
        { key := entry.1, value := some entry.2.1, enabled := entry.2.2 }) =
      ((statesByName after).entries.filter fun entry =>
        (statesByName before).get? entry.1 ≠ some entry.2).map Prod.fst := by
    rw [namesChanged, List.map_map]
    rfl
  have hremoved : namesChanged (((statesByName before).keys.filter fun key =>
      ((statesByName after).get? key).isNone).map fun key => { key, value := none }) =
      (statesByName before).keys.filter fun key => ((statesByName after).get? key).isNone := by
    rw [namesChanged, List.map_map]
    exact List.map_id _
  rw [variableChanges, namesChanged, List.map_append]
  rw [namesChanged] at hset hremoved
  rw [hset, hremoved]
  apply List.Nodup.append
  · exact (statesByName after).nodup.sublist (List.filter_sublist.map _)
  · exact (statesByName before).nodup.sublist List.filter_sublist
  · -- A name that is removed has no state afterwards.
    intro name hname hgone
    obtain ⟨entry, hentry, rfl⟩ := List.mem_map.mp hname
    have hnow := OrderedMap.get?_of_mem_entries (List.mem_filter.mp hentry).1
    have hnone := (List.mem_filter.mp hgone).2
    rw [hnow] at hnone
    cases hnone

/-- What is changed of a name: nothing where its state is the same, else what its state becomes. -/
theorem mem_variableChanges_iff {before after : List Row} {change : VariableChange} :
    change ∈ variableChanges before after ↔
      stateOf before change.key ≠ stateOf after change.key ∧
        change = match stateOf after change.key with
          | some state => { key := change.key, value := some state.1, enabled := state.2 }
          | none => { key := change.key, value := none } := by
  rw [variableChanges, List.mem_append]
  constructor
  · rintro (h | h)
    · -- A name that is there afterwards.
      obtain ⟨entry, hentry, rfl⟩ := List.mem_map.mp h
      obtain ⟨hmem, hdiffers⟩ := List.mem_filter.mp hentry
      have hnow : stateOf after entry.1 = some entry.2 := OrderedMap.get?_of_mem_entries hmem
      dsimp only
      rw [hnow]
      exact ⟨of_decide_eq_true hdiffers, rfl⟩
    · -- A name that is gone.
      obtain ⟨name, hname, rfl⟩ := List.mem_map.mp h
      obtain ⟨hmem, hgone⟩ := List.mem_filter.mp hname
      have hnow : stateOf after name = none := Option.isNone_iff_eq_none.mp hgone
      dsimp only
      rw [hnow]
      exact ⟨fun hnone => OrderedMap.get?_eq_none_iff.mp hnone hmem, rfl⟩
  · rintro ⟨hdiffers, hchange⟩
    cases hnow : stateOf after change.key with
    | some state =>
        rw [hnow] at hdiffers hchange
        obtain ⟨entry, hentry⟩ := OrderedMap.exists_find?_of_mem_keys (k := change.key)
          (m := statesByName after) (by
            by_contra hno
            rw [stateOf, OrderedMap.get?_eq_none_iff.mpr hno] at hnow
            cases hnow)
        have hkey : entry.1 = change.key := by simpa using List.find?_some hentry
        have hvalue : entry.2 = state := by
          have hget := OrderedMap.get?_of_mem_entries (List.mem_of_find?_eq_some hentry)
          rw [hkey] at hget
          exact Option.some.inj (hget.symm.trans hnow)
        refine .inl (List.mem_map.mpr ⟨entry, List.mem_filter.mpr
          ⟨List.mem_of_find?_eq_some hentry, ?_⟩, ?_⟩)
        · rw [hkey, hvalue]
          exact decide_eq_true hdiffers
        · rw [hchange, hkey, hvalue]
    | none =>
        rw [hnow] at hdiffers hchange
        refine .inr (List.mem_map.mpr ⟨change.key, List.mem_filter.mpr ⟨?_, ?_⟩, hchange.symm⟩)
        · by_contra hno
          exact hdiffers (OrderedMap.get?_eq_none_iff.mpr hno)
        · exact Option.isNone_iff_eq_none.mpr hnow

/-! ## What changes make of the rows -/

/-- Of changes of different names that keep no secret each makes its own of its name. -/
theorem rowsOf_applyVariableChanges_of_mem {changes : List VariableChange}
    (hnodup : (namesChanged changes).Nodup) {change : VariableChange} (h : change ∈ changes)
    (hkeep : change.keepSecret = false) (rows : List Row) :
    rowsOf change.key (applyVariableChanges rows changes) =
      if change.value.isNone then [] else [change.made] := by
  induction changes generalizing rows with
  | nil => cases h
  | cons first changes ih =>
      obtain ⟨hnew, hrest⟩ := List.nodup_cons.mp hnodup
      show rowsOf change.key (applyVariableChanges (applyVariableChange rows first) changes) = _
      rcases List.mem_cons.mp h with rfl | hlater
      · have hout : change.isLeftOut rows = false := by
          simp [VariableChange.isLeftOut, hkeep]
        rw [rowsOf_applyVariableChanges_of_not_mem hnew, rowsOf_applyVariableChange_self, hout]
        rfl
      · exact ih hrest hlater _

/-- A change leaves the rows of other names as they are, and in their order. -/
theorem filter_applyVariableChange {keep : Text → Bool} {change : VariableChange}
    (h : keep change.key = false) (rows : List Row) :
    (applyVariableChange rows change).filter (fun row => keep row.key) =
      rows.filter fun row => keep row.key := by
  have hdropped : ∀ rows : List Row,
      (rows.filter fun row => row.key ≠ change.key).filter (fun row => keep row.key) =
        rows.filter fun row => keep row.key := by
    intro rows
    rw [List.filter_filter]
    apply List.filter_congr
    intro row _
    by_cases hkey : row.key = change.key
    · simp [hkey, h]
    · simp [hkey]
  have hmade : change.made.key = change.key := rfl
  have hreplaced : ∀ rows : List Row,
      (replaceRows change.made rows).filter (fun row => keep row.key) =
        rows.filter fun row => keep row.key := by
    intro rows
    induction rows with
    | nil => rfl
    | cons row rows ih =>
        rw [replaceRows, hmade]
        by_cases hkey : row.key = change.key
        · rw [if_pos hkey, List.filter_cons_of_neg (by simp [hmade, h]),
            List.filter_cons_of_neg (by simp [hkey, h])]
          exact hdropped rows
        · rw [if_neg hkey, List.filter_cons, List.filter_cons, ih]
  rw [applyVariableChange]
  split_ifs
  · rfl
  · exact hdropped rows
  · exact hreplaced rows
  · rw [List.filter_append, List.filter_cons_of_neg (by simp [hmade, h]), List.filter_nil,
      List.append_nil]

theorem filter_applyVariableChanges {keep : Text → Bool} {changes : List VariableChange}
    (h : ∀ name ∈ namesChanged changes, keep name = false) (rows : List Row) :
    (applyVariableChanges rows changes).filter (fun row => keep row.key) =
      rows.filter fun row => keep row.key := by
  induction changes generalizing rows with
  | nil => rfl
  | cons change changes ih =>
      obtain ⟨hfirst, hrest⟩ := List.forall_mem_cons.mp h
      show (applyVariableChanges (applyVariableChange rows change) changes).filter _ = _
      rw [ih hrest, filter_applyVariableChange hfirst]

/-- What the difference makes of a name: the state it is to have where that
differs, else nothing. -/
theorem rowsOf_difference (before after rows : List Row) (name : Text) :
    rowsOf name (applyVariableChanges rows (variableChanges before after)) =
      if stateOf before name = stateOf after name then rowsOf name rows
      else match stateOf after name with
        | some state => [{ key := name, value := state.1, enabled := state.2 }]
        | none => [] := by
  split_ifs with hsame
  · apply rowsOf_applyVariableChanges_of_not_mem
    intro hmem
    obtain ⟨change, hchange, rfl⟩ := List.mem_map.mp hmem
    exact (mem_variableChanges_iff.mp hchange).1 hsame
  · have hnodup := nodup_variableChanges before after
    cases hnow : stateOf after name with
    | some state =>
        have hmem : ({ key := name, value := some state.1, enabled := state.2 } : VariableChange) ∈
            variableChanges before after := by
          apply mem_variableChanges_iff.mpr
          dsimp only
          rw [hnow]
          exact ⟨hnow ▸ hsame, rfl⟩
        exact rowsOf_applyVariableChanges_of_mem hnodup hmem rfl rows
    | none =>
        have hmem : ({ key := name, value := none } : VariableChange) ∈
            variableChanges before after := by
          apply mem_variableChanges_iff.mpr
          dsimp only
          rw [hnow]
          exact ⟨hnow ▸ hsame, rfl⟩
        exact rowsOf_applyVariableChanges_of_mem hnodup hmem rfl rows

theorem mem_namesChanged_iff {before after : List Row} {name : Text} :
    name ∈ namesChanged (variableChanges before after) ↔
      stateOf before name ≠ stateOf after name := by
  constructor
  · intro h
    obtain ⟨change, hchange, rfl⟩ := List.mem_map.mp h
    exact (mem_variableChanges_iff.mp hchange).1
  · intro h
    cases hnow : stateOf after name with
    | some state =>
        refine List.mem_map.mpr ⟨{ key := name, value := some state.1, enabled := state.2 },
          mem_variableChanges_iff.mpr ?_, rfl⟩
        dsimp only
        rw [hnow]
        exact ⟨hnow ▸ h, rfl⟩
    | none =>
        refine List.mem_map.mpr ⟨{ key := name, value := none },
          mem_variableChanges_iff.mpr ?_, rfl⟩
        dsimp only
        rw [hnow]
        exact ⟨hnow ▸ h, rfl⟩

/-- A name whose state the difference changes has the state it is to have. -/
theorem stateOf_difference {before after : List Row} {name : Text}
    (h : stateOf before name ≠ stateOf after name) (rows : List Row) :
    stateOf (applyVariableChanges rows (variableChanges before after)) name =
      stateOf after name := by
  have hnamed : name ≠ [] := by
    rintro rfl
    rw [stateOf_eq, stateOf_eq] at h
    exact h rfl
  rw [stateOf_eq, if_neg hnamed, rowsOf_difference, if_neg h]
  cases stateOf after name with
  | none => rfl
  | some state =>
      obtain ⟨value, enabled⟩ := state
      cases enabled <;> rfl

/-- The difference turns the variables of one list into those of the other. -/
theorem changes_eq (before after : List Row) (name : Text) :
    stateOf (applyVariableChanges before (variableChanges before after)) name =
      stateOf after name := by
  by_cases hsame : stateOf before name = stateOf after name
  · rw [← hsame]
    apply stateOf_congr
    rw [rowsOf_difference, if_pos hsame]
  · exact stateOf_difference hsame before

/-! ## Two edits -/

/-- Two edits of one list change no name both. -/
def TouchDisjoint (changes changes' : List VariableChange) : Prop :=
  ∀ name ∈ namesChanged changes, name ∉ namesChanged changes'

/-- Rows with both edits in them: each name that an edit changes has the state it has in that edit,
and the rows of other names are left as they were, in their order. -/
structure HasBoth (stored : List Row) (before after after' rows : List Row) : Prop where
  first : ∀ name ∈ namesChanged (variableChanges before after),
    stateOf rows name = stateOf after name
  second : ∀ name ∈ namesChanged (variableChanges before after'),
    stateOf rows name = stateOf after' name
  others :
    let touched := fun name =>
      (namesChanged (variableChanges before after)).contains name ||
        (namesChanged (variableChanges before after')).contains name
    rows.filter (fun row => !touched row.key) = stored.filter fun row => !touched row.key

/-- Rows that were given both edits, one after the other, have both. -/
theorem hasBoth {before after after' : List Row}
    (h : TouchDisjoint (variableChanges before after) (variableChanges before after'))
    (stored : List Row) :
    HasBoth stored before after after'
      (applyVariableChanges (applyVariableChanges stored (variableChanges before after))
        (variableChanges before after')) where
  first := by
    intro name hname
    rw [← stateOf_difference (mem_namesChanged_iff.mp hname) stored]
    apply stateOf_congr
    exact rowsOf_applyVariableChanges_of_not_mem (h name hname) _
  second := by
    intro name hname
    exact stateOf_difference (mem_namesChanged_iff.mp hname) _
  others := by
    intro touched
    rw [@filter_applyVariableChanges fun name => !touched name,
      @filter_applyVariableChanges fun name => !touched name]
    · intro name hname
      simp [touched, hname]
    · intro name hname
      simp [touched, hname]

/-- In either order every name has the same rows. -/
theorem rowsOf_either_order {changes changes' : List VariableChange}
    (h : TouchDisjoint changes changes') (stored : List Row) (name : Text) :
    rowsOf name (applyVariableChanges (applyVariableChanges stored changes) changes') =
      rowsOf name (applyVariableChanges (applyVariableChanges stored changes') changes) := by
  have hpart : ∀ {changes : List VariableChange} {rows rows' : List Row},
      rowsOf name rows = rowsOf name rows' →
      rowsOf name (applyVariableChanges rows changes) =
        rowsOf name (applyVariableChanges rows' changes) := by
    intro changes
    induction changes with
    | nil => exact fun hrows => hrows
    | cons change changes ih =>
        intro rows rows' hrows
        apply ih
        by_cases hkey : change.key = name
        · subst hkey
          rw [rowsOf_applyVariableChange_self, rowsOf_applyVariableChange_self,
            VariableChange.isLeftOut, VariableChange.isLeftOut, isProtectedName_congr hrows, hrows]
        · rw [rowsOf_applyVariableChange_of_ne hkey, rowsOf_applyVariableChange_of_ne hkey, hrows]
  by_cases hname : name ∈ namesChanged changes
  · rw [rowsOf_applyVariableChanges_of_not_mem (h name hname)]
    apply hpart
    rw [rowsOf_applyVariableChanges_of_not_mem (h name hname)]
  · rw [@rowsOf_applyVariableChanges_of_not_mem changes _ hname]
    apply hpart
    rw [rowsOf_applyVariableChanges_of_not_mem hname]

/-- Two tabs that save their edits of one environment do not lose each other's: the difference is
what each made of the rows, in either order the environment has both, and a script's set leaves a
name alone that holds a secret's reference. -/
theorem edits_kept :
    (∀ before after name,
      stateOf (applyVariableChanges before (variableChanges before after)) name =
        stateOf after name) ∧
    (∀ before after after', TouchDisjoint (variableChanges before after)
        (variableChanges before after') →
      ∀ docs id stored, varsOf docs id = some stored → ∀ details details',
        ∃ rows rows',
          varsOf (changeEnvironment (changeEnvironment docs id (variableChanges before after)
            details).1 id (variableChanges before after') details').1 id = some rows ∧
          varsOf (changeEnvironment (changeEnvironment docs id (variableChanges before after')
            details').1 id (variableChanges before after) details).1 id = some rows' ∧
          (∀ name, stateOf rows name = stateOf rows' name) ∧
          HasBoth stored before after after' rows ∧ HasBoth stored before after' after rows') ∧
    (∀ rows earlier change later, change.keepSecret = true → change.value ≠ none →
      isProtectedName (applyVariableChanges rows earlier) change.key = true →
      applyVariableChanges rows (earlier ++ change :: later) =
        applyVariableChanges rows (earlier ++ later)) := by
  refine ⟨changes_eq, ?_, ?_⟩
  · intro before after after' hdisjoint docs id stored hstored details details'
    have hsymm : TouchDisjoint (variableChanges before after') (variableChanges before after) :=
      fun name hname hother => hdisjoint name hother hname
    refine ⟨_, _, ?_, ?_, ?_, hasBoth hdisjoint stored, hasBoth hsymm stored⟩
    · rw [varsOf_changeEnvironment, varsOf_changeEnvironment, hstored]
      rfl
    · rw [varsOf_changeEnvironment, varsOf_changeEnvironment, hstored]
      rfl
    · exact fun name => stateOf_congr (rowsOf_either_order hdisjoint stored name)
  · intro rows earlier change later hkeep hvalue hprotected
    have hout : change.isLeftOut (applyVariableChanges rows earlier) = true := by
      rw [VariableChange.isLeftOut, hkeep, hprotected, Option.isSome_iff_ne_none.mpr hvalue]
      rfl
    rw [applyVariableChanges, applyVariableChanges, List.foldl_append, List.foldl_append,
      List.foldl_cons]
    congr 1
    rw [applyVariableChange]
    exact if_pos hout

/-- Two rows of an environment, as two tabs read them. -/
def sharedRows : List Row :=
  [{ key := units "host", value := units "a.test", enabled := true },
    { key := units "user", value := units "ann", enabled := true }]

/-- One tab changes the host. -/
def hostEdited : List Row :=
  [{ key := units "host", value := units "b.test", enabled := true },
    { key := units "user", value := units "ann", enabled := true }]

/-- The other one takes the user out. -/
def userRemoved : List Row :=
  [{ key := units "host", value := units "a.test", enabled := true }]

theorem sharedRows_kept : ∃ rows rows',
    HasBoth sharedRows sharedRows hostEdited userRemoved rows ∧
      HasBoth sharedRows sharedRows userRemoved hostEdited rows' := by
  have hdisjoint : TouchDisjoint (variableChanges sharedRows hostEdited)
      (variableChanges sharedRows userRemoved) := by
    unfold TouchDisjoint
    decide +kernel
  obtain ⟨rows, rows', -, -, -, hboth, hboth'⟩ := edits_kept.2.1 sharedRows hostEdited userRemoved
    hdisjoint [{ id := units "e1", name := units "Test", description := none, vars := sharedRows }]
    (units "e1") sharedRows rfl {} {}
  exact ⟨rows, rows', hboth, hboth'⟩

end Wayfarer
