import Wayfarer.Library.KeyedList
import Wayfarer.Library.OrderedMap
import Wayfarer.Model.Request

/-!
# Variables

The rows of a set of variables, the one way they are changed
(`applyVariableChanges`), and the reference a protected variable holds in the place
of a value.
-/

set_option autoImplicit false

namespace Wayfarer

open Library

/-! ## References to vault secrets -/

/-- An ASCII letter as its lower-case self. -/
def asciiLower (c : CodeUnit) : CodeUnit :=
  if 0x41 ≤ c.toNat ∧ c.toNat ≤ 0x5A then c + 0x20 else c

/-- A small letter as a capital one, ASCII only. -/
def asciiUpper (c : CodeUnit) : CodeUnit :=
  if 0x61 ≤ c.toNat ∧ c.toNat ≤ 0x7A then c - 0x20 else c

/-- What every reference starts with. -/
def secretPrefix : Text := units "$secret."

/-- A character of a secret's id in a reference: `[a-z0-9-]`, of either case. -/
def isIdUnit (c : CodeUnit) : Bool :=
  let d := asciiLower c
  (0x61 ≤ d.toNat && d.toNat ≤ 0x7A) || (0x30 ≤ d.toNat && d.toNat ≤ 0x39) || d = 0x2D

/-- What stands between the two braces at the start of a text and those at its end. -/
def insideBraces (t : Text) : Option Text :=
  let opening := units "\x7b\x7b"
  let closing := units "\x7d\x7d"
  if opening.isPrefixOf t && closing.isSuffixOf t && decide (4 ≤ t.length) then
    some ((t.drop 2).take (t.length - 4))
  else none

/-- The secret a protected variable stands for: its value is one reference and nothing
else. `none` for any other value. -/
def protectedSecretId (value : Text) : Option Text :=
  (insideBraces (trim value)).bind fun inside =>
    let name := trim inside
    let id := name.drop secretPrefix.length
    if secretPrefix = (name.take secretPrefix.length).map asciiLower ∧ id ≠ [] ∧
        id.all isIdUnit = true then
      some id
    else none

/-- A protected variable's value: one reference to a vault secret and nothing else. -/
def isSecretReference (value : Text) : Bool :=
  (protectedSecretId value).isSome

/-! ## Changes -/

/-- One change to a set of variables: a value to set, or `none` to remove the name. -/
structure VariableChange where
  key : Text
  value : Option Text
  /-- The value is the JSON of something that is not text. -/
  json : Bool := false
  /-- A script's change: it never replaces a protected variable's reference with text. -/
  keepSecret : Bool := false
  /-- Switched on. -/
  enabled : Bool := true

/-- The row a change that sets a value makes. -/
def VariableChange.made (change : VariableChange) : Row :=
  { key := change.key, value := change.value.getD [], enabled := change.enabled,
    json := change.json }

/-- The rows with every row of `made`'s name replaced by `made`, where the first of
them stood. -/
def replaceRows (made : Row) : List Row → List Row
  | [] => []
  | row :: rows =>
      if row.key = made.key then made :: rows.filter (fun other => other.key ≠ made.key)
      else row :: replaceRows made rows

/-- A row of a name holds a vault secret's reference. -/
def isProtectedName (rows : List Row) (name : Text) : Bool :=
  rows.any fun row => row.key = name && isSecretReference row.value

/-- A change is left out: it would replace a reference with a script's text. -/
def VariableChange.isLeftOut (change : VariableChange) (rows : List Row) : Bool :=
  change.value.isSome && change.keepSecret && isProtectedName rows change.key

/-- The rows with one change applied. -/
def applyVariableChange (rows : List Row) (change : VariableChange) : List Row :=
  if change.isLeftOut rows then rows
  else if change.value.isNone then rows.filter fun row => row.key ≠ change.key
  else if rows.any (fun row => row.key = change.key) then replaceRows change.made rows
  else rows ++ [change.made]

/-- The rows with the changes applied. A set replaces every row of that name with one
row where the first of them stood, or adds a row at the end; a removal takes every row
of that name. -/
def applyVariableChanges (rows : List Row) (changes : List VariableChange) : List Row :=
  changes.foldl applyVariableChange rows

/-! ## Reading -/

/-- The enabled variables by name. A later row wins over an earlier one of the same name. -/
def variablesByName (rows : List Row) : OrderedMap Text Text :=
  OrderedMap.ofPairs ((rows.filter fun row => row.enabled && row.key ≠ []).map
    fun row => (row.key, row.value))

/-- Each named row's state: the last enabled row of the name, else its last switched-off one. -/
def statesByName (rows : List Row) : OrderedMap Text (Text × Bool) :=
  rows.foldl (fun states row =>
    if row.key ≠ [] && (row.enabled || !((states.get? row.key).any Prod.snd)) then
      states.set row.key (row.value, row.enabled)
    else states) .empty

/-- The changes that turn the variables of some rows into those of others. -/
def variableChanges (before after : List Row) : List VariableChange :=
  let was := statesByName before
  let now := statesByName after
  ((now.entries.filter fun entry => was.get? entry.1 ≠ some entry.2).map fun entry =>
      { key := entry.1, value := some entry.2.1, enabled := entry.2.2 }) ++
    (was.keys.filter fun key => (now.get? key).isNone).map fun key => { key, value := none }

/-- A variable as a script is given it. -/
structure ScriptVariable where
  name : Text
  value : Text
  json : Bool

/-- The enabled variables as a script is given them. A later row wins over an earlier one
of the same name. -/
def scriptVariables (rows : List Row) : List ScriptVariable :=
  (OrderedMap.ofPairs ((rows.filter fun row => row.enabled && row.key ≠ []).map
    fun row => (row.key, ({ name := row.key, value := row.value, json := row.json } :
      ScriptVariable)))).values

/-! ## What a change does to one name -/

/-- The rows of a name. -/
def rowsOf (name : Text) (rows : List Row) : List Row :=
  itemsOf Row.key name rows

@[simp]
theorem rowsOf_nil (name : Text) :
    rowsOf name [] = [] := rfl

theorem rowsOf_cons (name : Text) (row : Row) (rows : List Row) :
    rowsOf name (row :: rows) =
      if row.key = name then row :: rowsOf name rows else rowsOf name rows :=
  itemsOf_cons Row.key name row rows

@[simp]
theorem rowsOf_append (name : Text) (rows rows' : List Row) :
    rowsOf name (rows ++ rows') = rowsOf name rows ++ rowsOf name rows' :=
  itemsOf_append Row.key name rows rows'

theorem mem_rowsOf {name : Text} {row : Row} {rows : List Row} :
    row ∈ rowsOf name rows ↔ row ∈ rows ∧ row.key = name :=
  mem_itemsOf Row.key

theorem rowsOf_eq_nil_iff {name : Text} {rows : List Row} :
    rowsOf name rows = [] ↔ name ∉ rows.map Row.key :=
  itemsOf_eq_nil_iff Row.key

/-- Whether a name is protected is read off its own rows. -/
theorem isProtectedName_iff {rows : List Row} {name : Text} :
    isProtectedName rows name = true ↔
      ∃ row ∈ rowsOf name rows, isSecretReference row.value = true := by
  simp only [isProtectedName, List.any_eq_true, Bool.and_eq_true, decide_eq_true_eq,
    mem_rowsOf, and_assoc]

/-- Rows that agree on a name are protected alike. -/
theorem isProtectedName_congr {rows rows' : List Row} {name : Text}
    (h : rowsOf name rows = rowsOf name rows') :
    isProtectedName rows name = isProtectedName rows' name := by
  apply Bool.eq_iff_iff.mpr
  rw [isProtectedName_iff, isProtectedName_iff, h]

/-- The row that replaces a name's rows is all the name has afterwards. -/
theorem rowsOf_replaceRows_self (made : Row) {rows : List Row}
    (h : made.key ∈ rows.map Row.key) :
    rowsOf made.key (replaceRows made rows) = [made] := by
  induction rows with
  | nil => simp at h
  | cons row rows ih =>
      rw [replaceRows]
      by_cases hkey : row.key = made.key
      · rw [if_pos hkey, rowsOf_cons, if_pos rfl]
        simp [rowsOf, itemsOf]
      · have hrest : made.key ∈ rows.map Row.key := by
          rcases List.mem_cons.mp h with h | h
          · exact absurd h.symm hkey
          · exact h
        rw [if_neg hkey, rowsOf_cons, if_neg hkey]
        exact ih hrest

/-- Another name's rows are left alone. -/
theorem rowsOf_replaceRows_of_ne {made : Row} {name : Text} (h : made.key ≠ name)
    (rows : List Row) :
    rowsOf name (replaceRows made rows) = rowsOf name rows := by
  induction rows with
  | nil => rfl
  | cons row rows ih =>
      rw [replaceRows]
      by_cases hkey : row.key = made.key
      · have hne : row.key ≠ name := fun heq => h (hkey.symm.trans heq)
        rw [if_pos hkey, rowsOf_cons, rowsOf_cons, if_neg h, if_neg hne]
        simp only [rowsOf, itemsOf, List.filter_filter]
        apply List.filter_congr
        intro other _
        by_cases hother : other.key = name
        · simp [hother, h.symm]
        · simp [hother]
      · rw [if_neg hkey, rowsOf_cons, rowsOf_cons, ih]

/-- A name that has one row at most keeps its place. -/
theorem map_key_replaceRows {made : Row} {rows : List Row}
    (h : (rowsOf made.key rows).length ≤ 1) :
    (replaceRows made rows).map Row.key = rows.map Row.key := by
  induction rows with
  | nil => rfl
  | cons row rows ih =>
      rw [replaceRows]
      by_cases hkey : row.key = made.key
      · rw [rowsOf_cons, if_pos hkey] at h
        have hnone : rowsOf made.key rows = [] := by
          apply List.eq_nil_of_length_eq_zero
          simpa using h
        have hall : rows.filter (fun other => other.key ≠ made.key) = rows := by
          rw [List.filter_eq_self]
          intro other hother
          have := rowsOf_eq_nil_iff.mp hnone
          simp only [decide_eq_true_eq]
          intro heq
          exact this (List.mem_map.mpr ⟨other, hother, heq⟩)
        rw [if_pos hkey, hall, List.map_cons, List.map_cons, hkey]
      · rw [rowsOf_cons, if_neg hkey] at h
        rw [if_neg hkey, List.map_cons, List.map_cons, ih h]

/-- What a change does to the rows of its own name. -/
theorem rowsOf_applyVariableChange_self (rows : List Row) (change : VariableChange) :
    rowsOf change.key (applyVariableChange rows change) =
      if change.isLeftOut rows then rowsOf change.key rows
      else if change.value.isNone then []
      else [change.made] := by
  unfold applyVariableChange
  split_ifs with hskip hnone hany
  · rfl
  · simp [rowsOf, itemsOf, List.filter_filter]
  · have hmem : change.made.key ∈ rows.map Row.key := by
      obtain ⟨row, hrow, hkey⟩ := List.any_eq_true.mp hany
      exact List.mem_map.mpr ⟨row, hrow, of_decide_eq_true hkey⟩
    exact rowsOf_replaceRows_self change.made hmem
  · have hempty : rowsOf change.key rows = [] := by
      rw [rowsOf_eq_nil_iff]
      intro hmem
      obtain ⟨row, hrow, hkey⟩ := List.mem_map.mp hmem
      exact hany (List.any_eq_true.mpr ⟨row, hrow, by simpa using hkey⟩)
    rw [rowsOf_append, hempty, rowsOf_cons]
    simp [VariableChange.made]

/-- A change leaves the rows of every other name as they are. -/
theorem rowsOf_applyVariableChange_of_ne {change : VariableChange} {name : Text}
    (h : change.key ≠ name) (rows : List Row) :
    rowsOf name (applyVariableChange rows change) = rowsOf name rows := by
  unfold applyVariableChange
  split_ifs with hskip hnone hany
  · rfl
  · simp only [rowsOf, itemsOf, List.filter_filter]
    apply List.filter_congr
    intro row _
    by_cases hrow : row.key = name
    · simp [hrow, h.symm]
    · simp [hrow]
  · have hmade : change.made.key ≠ name := h
    exact rowsOf_replaceRows_of_ne hmade rows
  · rw [rowsOf_append, rowsOf_cons, if_neg (show change.made.key ≠ name from h)]
    simp

/-- Changes of other names leave a name's rows as they are. -/
theorem rowsOf_applyVariableChanges_of_not_mem {changes : List VariableChange} {name : Text}
    (h : name ∉ changes.map VariableChange.key) (rows : List Row) :
    rowsOf name (applyVariableChanges rows changes) = rowsOf name rows := by
  induction changes generalizing rows with
  | nil => rfl
  | cons change changes ih =>
      have hne : change.key ≠ name := by
        rintro rfl
        exact h (by simp)
      have hrest : name ∉ changes.map VariableChange.key := fun hmem => h (by simp [hmem])
      show rowsOf name (applyVariableChanges (applyVariableChange rows change) changes) = _
      rw [ih hrest, rowsOf_applyVariableChange_of_ne hne]

/-- What a change does to the order of the names, where the name it sets has one row at
most: a name that is set stays where it is or is added at the end. -/
theorem map_key_applyVariableChange {rows : List Row} {change : VariableChange}
    (h : change.isLeftOut rows = true ∨ change.value = none ∨
      (rowsOf change.key rows).length ≤ 1) :
    (applyVariableChange rows change).map Row.key =
      if change.value = none then (rows.map Row.key).filter fun name => name ≠ change.key
      else appendNew (rows.map Row.key) change.key := by
  have hmem : change.key ∈ rows.map Row.key ↔
      (rows.any fun row => row.key = change.key) = true := by
    simp
  unfold applyVariableChange
  by_cases hskip : change.isLeftOut rows = true
  · have hparts := hskip
    simp only [VariableChange.isLeftOut, Bool.and_eq_true] at hparts
    obtain ⟨⟨hsome, hkeep⟩, hprot⟩ := hparts
    have hne : change.value ≠ none := by
      intro hnone
      simp [hnone] at hsome
    obtain ⟨row, hrow, -⟩ := isProtectedName_iff.mp hprot
    have hin : change.key ∈ rows.map Row.key :=
      List.mem_map.mpr ⟨row, (mem_rowsOf.mp hrow).1, (mem_rowsOf.mp hrow).2⟩
    rw [if_pos hskip, if_neg hne, appendNew, if_pos hin]
  · rw [if_neg hskip]
    by_cases hnone : change.value = none
    · rw [if_pos (by simp [hnone]), if_pos hnone]
      exact map_filter_key_ne Row.key change.key rows
    · rw [if_neg (by simpa using hnone), if_neg hnone, appendNew]
      by_cases hany : (rows.any fun row => row.key = change.key) = true
      · rw [if_pos hany, if_pos (hmem.mpr hany)]
        have hone : (rowsOf change.made.key rows).length ≤ 1 := by
          rcases h with h | h | h
          · exact absurd h hskip
          · exact absurd h hnone
          · exact h
        exact map_key_replaceRows hone
      · rw [if_neg hany, if_neg fun h' => hany (hmem.mp h')]
        simp [VariableChange.made]

end Wayfarer
