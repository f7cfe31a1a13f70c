import Wayfarer.Send.Build
import Wayfarer.Send.Undo

/-!
# What a script does to the variables

The host keeps each scope as the script sees it: the values by name, the names whose value is the
JSON of something that is not text, and what was changed. `varSet`, `varUnset` and `varClear` are
all that changes a scope; a script is a list of calls of them, in any order. `changed` is what the
exchange is given afterwards.

A value that is marked as JSON is checked when it is set, so what is given back with the mark is
JSON (`scopeChanges_isJson`).
-/

set_option autoImplicit false

namespace Wayfarer

open Library

/-- Whether a text is JSON. -/
def isJsonText (P : Platform) (t : Text) : Bool :=
  (P.parseJson t).isSome

/-- A scope while a script runs. -/
structure HostScope where
  values : OrderedMap Text Text
  /-- The names whose value is the JSON of something that is not text. -/
  json : List Text
  /-- What was changed: a value, or nothing for a removal. -/
  changes : OrderedMap Text (Option Text)

/-- What a script calls. -/
inductive ScopeCall where
  | varSet (name value : Text) (json : Bool)
  | varUnset (name : Text)
  /-- `reached`: how many of the names were noted down before the host stopped the call, because
  the script had written more than it may. Absent: the call ended. -/
  | varClear (reached : Option Nat)

namespace HostScope

/-- A scope as a script is given it. The mark is believed only on a value that is JSON. -/
def given (P : Platform) (rows : List ScriptVariable) : HostScope where
  values := OrderedMap.ofPairs (rows.map fun row => (row.name, row.value))
  json := (rows.filter fun row => row.json && isJsonText P row.value).map ScriptVariable.name
  changes := .empty

/-- The names noted down as removed. -/
def removed (changes : OrderedMap Text (Option Text)) (names : List Text) :
    OrderedMap Text (Option Text) :=
  names.foldl (fun changes name => changes.set name none) changes

/-- The scope after one call. -/
def call (P : Platform) (scope : HostScope) : ScopeCall → HostScope
  | .varSet name value json =>
      -- What the script calls JSON is checked here: the call throws, and nothing is set.
      if json && !isJsonText P value then scope
      else
        { values := scope.values.set name value
          json := if json then name :: scope.json else scope.json.filter fun other => other ≠ name
          changes := scope.changes.set name (some value) }
  | .varUnset name =>
      { values := scope.values.erase name
        json := scope.json.filter fun other => other ≠ name
        changes := scope.changes.set name none }
  | .varClear none =>
      { values := .empty, json := [], changes := removed scope.changes scope.values.keys }
  | .varClear (some reached) =>
      { scope with changes := removed scope.changes (scope.values.keys.take reached) }

/-- What was changed, as the exchange is given it. -/
def changed (scope : HostScope) : List VariableChange :=
  scope.changes.entries.map fun entry =>
    { key := entry.1, value := entry.2, json := entry.2.isSome && scope.json.contains entry.1 }

end HostScope

/-- What a script does, scope by scope. -/
structure ScriptCalls where
  environment : List ScopeCall
  globals : List ScopeCall
  collection : List ScopeCall

/-- What a script changes of a scope that has the given rows. -/
def scopeChanges (P : Platform) (rows : List Row) (calls : List ScopeCall) :
    List VariableChange :=
  (calls.foldl (HostScope.call P) (.given P (scriptVariables rows))).changed

/-- What a script changes of the stores. -/
def runScript (P : Platform) (stores : VariableStores) (calls : ScriptCalls) : ScriptChanges where
  environment := scopeChanges P (stores.environment.getD []) calls.environment
  globals := scopeChanges P stores.globals calls.globals
  collection := scopeChanges P (stores.collection.getD []) calls.collection

/-! ## What is marked is JSON -/

section

variable {P : Platform}

/-- A changed value under a name marked as JSON is JSON. -/
def MarksJson (P : Platform) (scope : HostScope) : Prop :=
  ∀ name ∈ scope.json, ∀ value, scope.changes.get? name = some (some value) →
    isJsonText P value = true

/-- A name noted down as removed has no value there. -/
theorem get?_removed {changes : OrderedMap Text (Option Text)} {names : List Text}
    {name value : Text} (h : (HostScope.removed changes names).get? name = some (some value)) :
    changes.get? name = some (some value) := by
  unfold HostScope.removed at h
  induction names generalizing changes with
  | nil => exact h
  | cons first names ih =>
      have hrest := ih h
      rw [OrderedMap.get?_set] at hrest
      split_ifs at hrest
      · cases hrest
      · exact hrest

/-- A call keeps what is marked JSON. -/
theorem MarksJson.call {scope : HostScope} (h : MarksJson P scope) (c : ScopeCall) :
    MarksJson P (scope.call P c) := by
  cases c with
  | varSet name value json =>
      simp only [HostScope.call]
      split_ifs with hrefused hjson
      · exact h
      · intro other hother was hwas
        rw [OrderedMap.get?_set] at hwas
        split_ifs at hwas with hsame
        · cases hwas
          simpa [hjson] using hrefused
        · obtain rfl | hother := List.mem_cons.mp hother
          · exact absurd rfl hsame
          · exact h other hother was hwas
      · intro other hother was hwas
        rw [OrderedMap.get?_set] at hwas
        obtain ⟨hmarked, hne⟩ := List.mem_filter.mp hother
        split_ifs at hwas with hsame
        · exact absurd hsame.symm (by simpa using hne)
        · exact h other hmarked was hwas
  | varUnset name =>
      intro other hother was hwas
      have hwas : (scope.changes.set name none).get? other = some (some was) := hwas
      rw [OrderedMap.get?_set] at hwas
      split_ifs at hwas with hsame
      · cases hwas
      · exact h other (List.mem_of_mem_filter hother) was hwas
  | varClear reached =>
      cases reached with
      | none =>
          intro other hother
          cases hother
      | some reached => exact fun other hother was hwas => h other hother was (get?_removed hwas)

theorem MarksJson.calls {scope : HostScope} (h : MarksJson P scope) (calls : List ScopeCall) :
    MarksJson P (calls.foldl (HostScope.call P) scope) := by
  induction calls generalizing scope with
  | nil => exact h
  | cons c calls ih => exact ih (h.call c)

/-- What a script changed with the mark is JSON. -/
theorem scopeChanges_isJson {rows : List Row} {calls : List ScopeCall} {change : VariableChange}
    (h : change ∈ scopeChanges P rows calls) (hjson : change.json = true) :
    ∃ value, change.value = some value ∧ isJsonText P value = true := by
  have hmarks : MarksJson P
      (calls.foldl (HostScope.call P) (.given P (scriptVariables rows))) := by
    refine MarksJson.calls ?_ calls
    intro name _ value hvalue
    cases hvalue
  obtain ⟨entry, hentry, rfl⟩ := List.mem_map.mp h
  simp only [Bool.and_eq_true, List.contains_iff_mem] at hjson
  obtain ⟨value, hvalue⟩ := Option.isSome_iff_exists.mp hjson.1
  refine ⟨value, hvalue, hmarks entry.1 hjson.2 value ?_⟩
  rw [OrderedMap.get?_of_mem_entries hentry, hvalue]

end

end Wayfarer
