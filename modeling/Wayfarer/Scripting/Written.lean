import Wayfarer.Library.Run
import Wayfarer.Send.Composed
import Wayfarer.Send.JsonRows
import Wayfarer.Send.UndoExact
import Wayfarer.Variables.Edits

/-!
# What a script wrote, and what it reads

While a script runs the host keeps its variables twice: as the script reads them, and as the changes
that are stored. A call that writes too much is stopped, and the script may catch that and go on.
`run_readsStored_iff` says in which runs what is stored is what the script reads, all along.
-/

set_option autoImplicit false

namespace Wayfarer

open Library

variable {P : Platform}

/-! ## A run with its limit -/

/-- What a script calls in one scope. -/
inductive ScriptAct where
  | varSet (name value : Text) (json : Bool)
  | varUnset (name : Text)
  | varClear
  /-- Something else the host keeps: a test's result, a variable of another scope. -/
  | elsewhere (length : Nat)

/-- A scope, and how much the script has written so far. -/
structure ScriptRun where
  scope : HostScope
  written : Nat

/-- How many of the names are noted down before too much is written, and what is written then. -/
def noted (limit : Nat) : Nat → List Text → Nat × Nat
  | written, [] => (0, written)
  | written, name :: names =>
      if limit < written + name.length then (0, written + name.length)
      else ((noted limit (written + name.length) names).1 + 1,
        (noted limit (written + name.length) names).2)

namespace ScriptRun

/-- A scope as a script is given it, with nothing written. -/
def start (P : Platform) (rows : List Row) : ScriptRun where
  scope := .given P (scriptVariables rows)
  written := 0

/-- A call that is charged for what it writes: it throws where that is too much. -/
def charged (P : Platform) (limit : Nat) (s : ScriptRun) (length : Nat) (call : ScopeCall) :
    ScriptRun where
  scope := if limit < s.written + length then s.scope else s.scope.call P call
  written := s.written + length

/-- What a call makes of the run, whether it throws or not. -/
def act (P : Platform) (limit : Nat) (s : ScriptRun) : ScriptAct → ScriptRun
  | .varSet name value json =>
      -- What is no JSON throws before anything is counted.
      if json && !isJsonText P value then s
      else s.charged P limit (name.length + value.length) (.varSet name value json)
  | .varUnset name => s.charged P limit name.length (.varUnset name)
  | .varClear =>
      let names := s.scope.values.keys
      { scope := s.scope.call P (.varClear
          (if (noted limit s.written names).1 = names.length then none
            else some (noted limit s.written names).1))
        written := (noted limit s.written names).2 }
  | .elsewhere length => { s with written := s.written + length }

/-- A script's run: every call comes to an end. -/
def step (P : Platform) (limit : Nat) (s : ScriptRun) (a : ScriptAct) : Option ScriptRun :=
  some (s.act P limit a)

end ScriptRun

/-- What a script reads of a name: its value, and whether that is JSON. -/
def HostScope.reads (scope : HostScope) (name : Text) : Option (Text × Bool) :=
  (scope.values.get? name).map fun value => (value, scope.json.contains name)

/-- What the next script is given of a name. -/
def seenBy (rows : List Row) (name : Text) : Option (Text × Bool) :=
  (scriptVariable? rows name).map fun had => (had.value, had.json)

/-- What is stored of a run is what the script reads. -/
def ReadsStored (rows : List Row) (scope : HostScope) : Prop :=
  ∀ name, seenBy (applyVariableChanges rows scope.changed) name = scope.reads name

/-! ## What a script is given -/

/-- The enabled rows that have a name, as a script is given them. -/
def givenPairs (rows : List Row) : List (Text × ScriptVariable) :=
  (rows.filter fun row => row.enabled && row.key ≠ []).map fun row =>
    (row.key, { name := row.key, value := row.value, json := row.json })

theorem scriptVariables_eq (rows : List Row) :
    scriptVariables rows = (OrderedMap.ofPairs (givenPairs rows)).values := rfl

theorem name_of_mem_entries {rows : List Row} {e : Text × ScriptVariable}
    (h : e ∈ (OrderedMap.ofPairs (givenPairs rows)).entries) : e.2.name = e.1 := by
  obtain ⟨row, -, rfl⟩ := List.mem_map.mp (OrderedMap.mem_of_mem_entries_ofPairs h)
  rfl

theorem map_name_scriptVariables (rows : List Row) :
    (scriptVariables rows).map ScriptVariable.name =
      (OrderedMap.ofPairs (givenPairs rows)).keys := by
  rw [scriptVariables_eq, OrderedMap.values, OrderedMap.keys, List.map_map]
  exact List.map_congr_left fun e he => name_of_mem_entries he

theorem nodup_scriptVariables (rows : List Row) :
    ((scriptVariables rows).map ScriptVariable.name).Nodup := by
  rw [map_name_scriptVariables]
  exact (OrderedMap.ofPairs (givenPairs rows)).nodup

/-- What a script is given of a name is its last row that is on. -/
theorem scriptVariable?_eq (rows : List Row) (name : Text) :
    scriptVariable? rows name =
      if name = [] then none
      else (((rowsOf name rows).filter Row.enabled).getLast?).map fun row =>
        { name := row.key, value := row.value, json := row.json } := by
  have hfind : ∀ entries : List (Text × ScriptVariable), (∀ e ∈ entries, e.2.name = e.1) →
      (entries.map Prod.snd).find? (fun had => had.name = name) =
        (entries.find? fun e => e.1 = name).map Prod.snd := by
    intro entries hentries
    induction entries with
    | nil => rfl
    | cons e entries ih =>
        obtain ⟨he, hrest⟩ := List.forall_mem_cons.mp hentries
        rw [List.map_cons, List.find?_cons, List.find?_cons, he, ih hrest]
        by_cases hname : e.1 = name <;> simp [hname]
  have hget : scriptVariable? rows name = (OrderedMap.ofPairs (givenPairs rows)).get? name :=
    hfind _ fun e he => name_of_mem_entries he
  rw [hget, OrderedMap.get?_ofPairs, givenPairs, List.filter_map, List.getLast?_map,
    Option.map_map, List.filter_filter]
  by_cases hname : name = []
  · rw [if_pos hname, hname]
    have hnone : rows.filter (fun row => (((fun e : Text × ScriptVariable => decide (e.1 = [])) ∘
        fun row : Row => (row.key, ({ name := row.key, value := row.value, json := row.json } :
          ScriptVariable))) row && (row.enabled && decide (row.key ≠ [])))) = [] := by
      rw [List.filter_eq_nil_iff]
      intro row _
      by_cases hkey : row.key = [] <;> simp [hkey]
    rw [hnone]
    rfl
  · rw [if_neg hname, rowsOf, itemsOf, List.filter_filter]
    congr 2
    apply List.filter_congr
    intro row _
    by_cases hkey : row.key = name
    · simp [hkey, hname]
    · simp [hkey]

theorem seenBy_congr {rows rows' : List Row} {name : Text}
    (h : rowsOf name rows = rowsOf name rows') : seenBy rows name = seenBy rows' name := by
  rw [seenBy, seenBy, scriptVariable?_eq, scriptVariable?_eq, h]

/-- A script reads what it is given. -/
theorem reads_given {rows : List Row} (hjson : JsonRows P rows) (name : Text) :
    (HostScope.given P (scriptVariables rows)).reads name = seenBy rows name := by
  have hnodup := nodup_scriptVariables rows
  have hvalue : (HostScope.given P (scriptVariables rows)).values.get? name =
      (scriptVariable? rows name).map ScriptVariable.value := by
    have hpairs : ((scriptVariables rows).map fun row => (row.name, row.value)).map Prod.fst =
        (scriptVariables rows).map ScriptVariable.name := by
      rw [List.map_map]
      rfl
    rw [HostScope.given, OrderedMap.get?, OrderedMap.entries_ofPairs_of_nodup (hpairs ▸ hnodup),
      List.find?_map, Option.map_map]
    rfl
  rw [HostScope.reads, hvalue, seenBy, Option.map_map]
  cases hhad : scriptVariable? rows name with
  | none => rfl
  | some had =>
      have hname : had.name = name := by simpa using List.find?_some hhad
      have hmem : had ∈ scriptVariables rows := List.mem_of_find?_eq_some hhad
      obtain ⟨row, hrow, -, hrowEq⟩ := exists_row_of_scriptVariable? hhad
      have hmark : had.json = true → isJsonText P had.value = true := by
        rw [hrowEq]
        exact hjson row hrow
      have hcontains : (HostScope.given P (scriptVariables rows)).json.contains name =
          had.json := by
        rw [Bool.eq_iff_iff, List.contains_iff_mem]
        constructor
        · intro h
          obtain ⟨other, hother, hsame⟩ := List.mem_map.mp h
          obtain ⟨hin, hboth⟩ := List.mem_filter.mp hother
          obtain rfl := List.inj_on_of_nodup_map hnodup hin hmem (hsame.trans hname.symm)
          exact (Bool.and_eq_true_iff.mp hboth).1
        · intro h
          refine List.mem_map.mpr ⟨had, List.mem_filter.mpr ⟨hmem, ?_⟩, hname⟩
          rw [h, hmark h]
          rfl
      exact congrArg (fun mark => some (had.value, mark)) hcontains

/-! ## What is stored of a run -/

theorem nodup_changed (scope : HostScope) : (namesChanged scope.changed).Nodup := by
  rw [namesChanged, HostScope.changed, List.map_map]
  exact scope.changes.nodup

/-- What is stored of a name: nothing where it was not changed, or was removed,
else what was set. -/
theorem rowsOf_changed (rows : List Row) (scope : HostScope) (name : Text) :
    rowsOf name (applyVariableChanges rows scope.changed) =
      match scope.changes.get? name with
      | none => rowsOf name rows
      | some none => []
      | some (some value) =>
          [{ key := name, value, enabled := true, json := scope.json.contains name }] := by
  cases hchange : scope.changes.get? name with
  | none =>
      apply rowsOf_applyVariableChanges_of_not_mem
      intro hmem
      have hkeys : scope.changed.map VariableChange.key = scope.changes.keys := by
        rw [HostScope.changed, List.map_map]
        rfl
      rw [hkeys] at hmem
      exact OrderedMap.get?_eq_none_iff.mp hchange hmem
  | some change =>
      obtain ⟨entry, hentry⟩ := Option.map_eq_some_iff.mp hchange
      have hkey : entry.1 = name := by simpa using List.find?_some hentry.1
      have hmem := List.mem_map_of_mem (f := fun entry : Text × Option Text =>
        VariableChange.mk entry.1 entry.2
          (entry.2.isSome && scope.json.contains entry.1) false true)
        (List.mem_of_find?_eq_some hentry.1)
      have hrows := rowsOf_applyVariableChanges_of_mem (nodup_changed scope) hmem rfl rows
      rw [← hkey, ← hentry.2]
      refine hrows.trans ?_
      cases hvalue : entry.2 with
      | none => rfl
      | some value => rfl

/-- What is stored of a name that was set is given to the next script. -/
theorem seenBy_changed (rows : List Row) (scope : HostScope) (name : Text) :
    seenBy (applyVariableChanges rows scope.changed) name =
      match scope.changes.get? name with
      | none => seenBy rows name
      | some none => none
      | some (some value) =>
          if name = [] then none else some (value, scope.json.contains name) := by
  have hrows := rowsOf_changed rows scope name
  cases hchange : scope.changes.get? name with
  | none =>
      rw [hchange] at hrows
      exact seenBy_congr hrows
  | some change =>
      rw [hchange] at hrows
      rw [seenBy, scriptVariable?_eq]
      cases change with
      | none =>
          dsimp only at hrows ⊢
          rw [hrows]
          split_ifs <;> rfl
      | some value =>
          dsimp only at hrows ⊢
          rw [hrows]
          split_ifs <;> rfl

/-- What the host notes down of a run follows what the script reads: a name that was not changed is
read as it was given, one that was removed has no value, and one that was set has that one. What has
no name has no value. -/
structure Tracks (rows : List Row) (scope : HostScope) : Prop where
  kept : ∀ name, scope.changes.get? name = none → scope.reads name = seenBy rows name
  removed : ∀ name, scope.changes.get? name = some none → scope.values.get? name = none
  set : ∀ name value, scope.changes.get? name = some (some value) →
    scope.values.get? name = some value
  named : scope.values.get? [] = none

theorem Tracks.readsStored {rows : List Row} {scope : HostScope} (h : Tracks rows scope) :
    ReadsStored rows scope := by
  intro name
  rw [seenBy_changed]
  cases hchange : scope.changes.get? name with
  | none => exact (h.kept name hchange).symm
  | some change =>
      cases change with
      | none =>
          rw [HostScope.reads, h.removed name hchange]
          rfl
      | some value =>
          have hvalue := h.set name value hchange
          have hname : name ≠ [] := by
            rintro rfl
            rw [h.named] at hvalue
            cases hvalue
          dsimp only
          rw [if_neg hname, HostScope.reads, hvalue]
          rfl

theorem Tracks.start {rows : List Row} (hjson : JsonRows P rows) :
    Tracks rows (ScriptRun.start P rows).scope where
  kept name _ := reads_given hjson name
  removed name h := by cases h
  set name value h := by cases h
  named := by
    have hreads := reads_given hjson []
    rw [seenBy, scriptVariable?_eq, if_pos rfl] at hreads
    exact Option.map_eq_none_iff.mp hreads

/-! ## One call -/

theorem get?_removed_eq (changes : OrderedMap Text (Option Text)) (names : List Text)
    (name : Text) :
    (HostScope.removed changes names).get? name =
      if name ∈ names then some none else changes.get? name := by
  rw [HostScope.removed]
  induction names generalizing changes with
  | nil => rfl
  | cons first names ih =>
      rw [List.foldl_cons, ih, OrderedMap.get?_set]
      by_cases hfirst : first = name
      · simp [hfirst]
      · by_cases hmem : name ∈ names
        · simp [hmem]
        · simp [hmem, hfirst, Ne.symm hfirst]

/-- A mark of another name stays. -/
theorem contains_json_set (json : Bool) (marks : List Text) {name other : Text}
    (h : other ≠ name) :
    (if json then name :: marks else marks.filter fun mark => mark ≠ name).contains other =
      marks.contains other := by
  rw [Bool.eq_iff_iff, List.contains_iff_mem, List.contains_iff_mem]
  split_ifs
  · simp [h]
  · simp [h]

theorem reads_varSet_of_ne {scope : HostScope} {name value other : Text} {json : Bool}
    (h : other ≠ name) : (scope.call P (.varSet name value json)).reads other =
      scope.reads other := by
  by_cases hrefused : (json && !isJsonText P value) = true
  · rw [HostScope.call, if_pos hrefused]
  · rw [HostScope.call, if_neg hrefused]
    have hvalue : (scope.values.set name value).get? other = scope.values.get? other := by
      rw [OrderedMap.get?_set, if_neg (Ne.symm h)]
    have hmark := contains_json_set json scope.json h
    rw [HostScope.reads, HostScope.reads]
    exact congrArg₂ (fun was mark => Option.map (fun value => (value, mark)) was) hvalue hmark

theorem reads_varUnset_of_ne {scope : HostScope} {name other : Text} (h : other ≠ name) :
    (scope.call P (.varUnset name)).reads other = scope.reads other := by
  rw [HostScope.call, HostScope.reads, HostScope.reads, OrderedMap.get?_erase,
    if_neg (Ne.symm h)]
  have hmarks := contains_json_set false scope.json h
  rw [if_neg Bool.false_ne_true] at hmarks
  simp only [hmarks]

theorem Tracks.varSet {rows : List Row} {scope : HostScope} (h : Tracks rows scope)
    {name value : Text} (hname : name ≠ []) (json : Bool) :
    Tracks rows (scope.call P (.varSet name value json)) := by
  by_cases hrefused : (json && !isJsonText P value) = true
  · have hsame : scope.call P (.varSet name value json) = scope := by
      rw [HostScope.call, if_pos hrefused]
    rw [hsame]
    exact h
  · have hchanges : ∀ other, (scope.call P (.varSet name value json)).changes.get? other =
        if name = other then some (some value) else scope.changes.get? other := by
      intro other
      rw [HostScope.call, if_neg hrefused]
      exact OrderedMap.get?_set _ _ _ _
    have hvalues : ∀ other, (scope.call P (.varSet name value json)).values.get? other =
        if name = other then some value else scope.values.get? other := by
      intro other
      rw [HostScope.call, if_neg hrefused]
      exact OrderedMap.get?_set _ _ _ _
    constructor
    · intro other hother
      rw [hchanges] at hother
      split_ifs at hother with hsame
      rw [reads_varSet_of_ne (Ne.symm hsame)]
      exact h.kept other hother
    · intro other hother
      rw [hchanges] at hother
      split_ifs at hother with hsame
      · cases hother
      · rw [hvalues, if_neg hsame]
        exact h.removed other hother
    · intro other was hother
      rw [hchanges] at hother
      rw [hvalues]
      split_ifs at hother ⊢ with hsame
      · exact Option.some.inj hother
      · exact h.set other was hother
    · rw [hvalues, if_neg hname]
      exact h.named

theorem Tracks.varUnset {rows : List Row} {scope : HostScope} (h : Tracks rows scope)
    (name : Text) : Tracks rows (scope.call P (.varUnset name)) := by
  have hchanges : ∀ other, (scope.call P (.varUnset name)).changes.get? other =
      if name = other then some none else scope.changes.get? other :=
    fun other => OrderedMap.get?_set _ _ _ _
  have hvalues : ∀ other, (scope.call P (.varUnset name)).values.get? other =
      if name = other then none else scope.values.get? other :=
    fun other => OrderedMap.get?_erase _ _ _
  constructor
  · intro other hother
    rw [hchanges] at hother
    split_ifs at hother with hsame
    rw [reads_varUnset_of_ne (Ne.symm hsame)]
    exact h.kept other hother
  · intro other hother
    rw [hchanges] at hother
    rw [hvalues]
    split_ifs at hother ⊢ with hsame
    · rfl
    · exact h.removed other hother
  · intro other was hother
    rw [hchanges] at hother
    rw [hvalues]
    by_cases hsame : name = other
    · rw [if_pos hsame] at hother
      cases hother
    · rw [if_neg hsame] at hother ⊢
      exact h.set other was hother
  · rw [hvalues]
    split_ifs
    · rfl
    · exact h.named

theorem Tracks.varClear {rows : List Row} {scope : HostScope} (h : Tracks rows scope) :
    Tracks rows (scope.call P (.varClear none)) := by
  have hchanges : ∀ other, (scope.call P (.varClear none)).changes.get? other =
      if other ∈ scope.values.keys then some none else scope.changes.get? other :=
    fun other => get?_removed_eq _ _ _
  have hvalues : ∀ other, (scope.call P (.varClear none)).values.get? other = none :=
    fun other => rfl
  constructor
  · intro other hother
    rw [hchanges] at hother
    split_ifs at hother with hmem
    -- It had no value, and so it was given none.
    rw [← h.kept other hother, HostScope.reads, HostScope.reads, hvalues,
      OrderedMap.get?_eq_none_iff.mpr hmem]
    rfl
  · exact fun other _ => hvalues other
  · intro other was hother
    rw [hchanges] at hother
    split_ifs at hother with hmem
    · cases hother
    · have hvalue := h.set other was hother
      rw [OrderedMap.get?_eq_none_iff.mpr hmem] at hvalue
      cases hvalue
  · exact hvalues []

/-! ## A run -/

/-- A call after which what is stored is what the script reads: a set that does not throw names a
variable, and clearing is stopped before it notes a name down, or not at all. -/
def StoresAct (P : Platform) (limit : Nat) (s : ScriptRun) : ScriptAct → Prop
  | .varSet name value json =>
      name ≠ [] ∨ (json = true ∧ isJsonText P value = false) ∨
        limit < s.written + (name.length + value.length)
  | .varUnset _ => True
  | .varClear =>
      (noted limit s.written s.scope.values.keys).1 = 0 ∨
        (noted limit s.written s.scope.values.keys).1 = s.scope.values.keys.length
  | .elsewhere _ => True

/-- Such a call keeps the two in step. -/
theorem Tracks.act {rows : List Row} {limit : Nat} {s : ScriptRun} (h : Tracks rows s.scope)
    {a : ScriptAct} (ha : StoresAct P limit s a) : Tracks rows (s.act P limit a).scope := by
  cases a with
  | varSet name value json =>
      rw [ScriptRun.act]
      split_ifs with hrefused
      · exact h
      · rw [ScriptRun.charged]
        split_ifs with hlimit
        · exact h
        · apply h.varSet
          rcases ha with hname | ⟨hjson, htext⟩ | hover
          · exact hname
          · simp [hjson, htext] at hrefused
          · exact absurd hover hlimit
  | varUnset name =>
      rw [ScriptRun.act, ScriptRun.charged]
      split_ifs
      · exact h
      · exact h.varUnset (P := P) name
  | varClear =>
      rw [ScriptRun.act]
      split_ifs with hall
      · exact h.varClear (P := P)
      · have hzero := ha.resolve_right hall
        rw [hzero]
        exact h
  | elsewhere length => exact h

/-- After any other call what is stored is not what the script reads. -/
theorem not_readsStored_act {rows : List Row} {limit : Nat} {s : ScriptRun} {a : ScriptAct}
    (ha : ¬ StoresAct P limit s a) : ¬ ReadsStored rows (s.act P limit a).scope := by
  intro hstored
  cases a with
  | varSet name value json =>
      simp only [StoresAct, not_or, not_not, not_and, Bool.not_eq_false] at ha
      obtain ⟨rfl, hjson, hlimit⟩ := ha
      have hgood : ¬ (json && !isJsonText P value) = true := by
        cases json with
        | false => simp
        | true => simp [hjson rfl]
      -- The script reads the variable without a name, which nobody else does.
      have hseen := hstored []
      rw [ScriptRun.act, if_neg hgood, ScriptRun.charged, if_neg hlimit, HostScope.call,
        if_neg hgood, seenBy, scriptVariable?_eq, if_pos rfl, HostScope.reads,
        OrderedMap.get?_set, if_pos rfl] at hseen
      cases hseen
  | varUnset name => exact ha trivial
  | varClear =>
      obtain ⟨hsome, hall⟩ := not_or.mp ha
      -- A name is noted down as removed, and still has its value.
      have hfew : (noted limit s.written s.scope.values.keys).1 ≠ 0 := hsome
      obtain ⟨name, names, hnames⟩ : ∃ name names, s.scope.values.keys = name :: names := by
        cases hkeys : s.scope.values.keys with
        | nil =>
            rw [hkeys] at hfew
            exact absurd rfl hfew
        | cons name names => exact ⟨name, names, rfl⟩
      obtain ⟨reached, hreached⟩ := Nat.exists_eq_succ_of_ne_zero hfew
      have hseen := hstored name
      rw [seenBy_changed, ScriptRun.act, if_neg hall] at hseen
      have hnoted : (s.scope.call P (.varClear (some
          (noted limit s.written s.scope.values.keys).1))).changes.get? name = some none := by
        show (HostScope.removed _ _).get? name = _
        rw [get?_removed_eq, hreached, hnames, if_pos]
        exact List.mem_cons_self
      dsimp only at hseen
      rw [hnoted] at hseen
      have hnone : s.scope.values.get? name = none := Option.map_eq_none_iff.mp hseen.symm
      exact OrderedMap.get?_eq_none_iff.mp hnone (hnames ▸ List.mem_cons_self)
  | elsewhere length => exact ha trivial

/-- The scope a run of calls leads to. -/
def scopeAfter (P : Platform) (limit : Nat) (rows : List Row) (acts : List ScriptAct) :
    Option HostScope :=
  (run (ScriptRun.step P limit) (.start P rows) acts).map ScriptRun.scope

/-- What is stored is what the script reads after each of its calls exactly where each of them is
one that stores what it does. -/
theorem run_readsStored_iff {rows : List Row} (hjson : JsonRows P rows) (limit : Nat)
    (acts : List ScriptAct) :
    (∀ front back, acts = front ++ back →
        ∃ scope, scopeAfter P limit rows front = some scope ∧ ReadsStored rows scope) ↔
      Meets (ScriptRun.step P limit) (StoresAct P limit) (.start P rows) acts := by
  have hrun : ∀ (front : List ScriptAct) (s : ScriptRun),
      ∃ s', run (ScriptRun.step P limit) s front = some s' := by
    intro front
    induction front with
    | nil => exact fun s => ⟨s, rfl⟩
    | cons a front ih => exact fun s => ih (s.act P limit a)
  constructor
  · intro hall
    -- The first call that does not store what it does would show.
    have hmeets : ∀ (later : List ScriptAct) (front : List ScriptAct) (s : ScriptRun),
        acts = front ++ later → run (ScriptRun.step P limit) (.start P rows) front = some s →
        Meets (ScriptRun.step P limit) (StoresAct P limit) s later := by
      intro later
      induction later with
      | nil => exact fun front s _ _ => trivial
      | cons a later ih =>
          intro front s hacts hfront
          have hnext : run (ScriptRun.step P limit) (.start P rows) (front ++ [a]) =
              some (s.act P limit a) := by
            rw [run_append, hfront]
            rfl
          have hsplit : acts = (front ++ [a]) ++ later := by
            rw [List.append_assoc, List.singleton_append]
            exact hacts
          refine (meets_cons rfl).mpr ⟨?_, ih (front ++ [a]) _ hsplit hnext⟩
          obtain ⟨scope, hscope, hstored⟩ := hall (front ++ [a]) later hsplit
          rw [scopeAfter, hnext] at hscope
          obtain rfl := Option.some.inj hscope
          by_contra hbad
          exact not_readsStored_act hbad hstored
    exact hmeets acts [] _ rfl rfl
  · rintro hmeets front back rfl
    obtain ⟨s, hs⟩ := hrun front (.start P rows)
    have hfront : Meets (ScriptRun.step P limit) (StoresAct P limit) (.start P rows) front := by
      clear hs
      generalize ScriptRun.start P rows = start at hmeets
      induction front generalizing start with
      | nil => trivial
      | cons a front ih =>
          obtain ⟨ha, hlater⟩ := (meets_cons rfl).mp hmeets
          exact (meets_cons rfl).mpr ⟨ha, ih _ hlater⟩
    refine ⟨s.scope, by rw [scopeAfter, hs]; rfl, Tracks.readsStored ?_⟩
    have hstep : ∀ s a next, Tracks rows s.scope → StoresAct P limit s a →
        ScriptRun.step P limit s a = some next → Tracks rows next.scope := by
      rintro s a next hinv ha hnext
      obtain rfl := Option.some.inj hnext
      exact hinv.act ha
    exact run_induction hstep (Tracks.start hjson) hfront hs

/-- Two variables, of two letters each. -/
def twoRows : List Row :=
  [{ key := units "ab", value := units "1", enabled := true },
    { key := units "cd", value := units "2", enabled := true }]

theorem twoRows_json : JsonRows plainPlatform twoRows := by
  intro row hrow hjson
  simp only [twoRows, List.mem_cons, List.not_mem_nil, or_false] at hrow
  rcases hrow with rfl | rfl <;> cases hjson

theorem twoRows_stored : ∃ scope,
    scopeAfter plainPlatform 100 twoRows
        [.varSet (units "ef") (units "3") false, .varUnset (units "ab")] = some scope ∧
      ReadsStored twoRows scope := by
  apply (run_readsStored_iff twoRows_json 100
    [.varSet (units "ef") (units "3") false, .varUnset (units "ab")]).mpr _ _ [] rfl
  exact (meets_cons rfl).mpr ⟨.inl (by decide), (meets_cons rfl).mpr ⟨trivial, trivial⟩⟩

/-- Clearing is stopped after the first name: that one is removed from what is stored, and the
script still reads both. -/
theorem cutClear_not_stored : ∃ scope,
    scopeAfter plainPlatform 3 twoRows [.varClear] = some scope ∧ ¬ ReadsStored twoRows scope := by
  refine ⟨_, rfl, fun hstored => ?_⟩
  have hread := hstored (units "ab")
  revert hread
  decide +kernel

end Wayfarer
