import Wayfarer.Library.Run
import Wayfarer.Model.Variables

/-!
# The rows of a set of variables, as they are edited

The rows, the lists that hold them and the drafts that show those lists are objects of the page:
a queued write and a row on its way to the vault hold on to the draft they began with, and see what
is changed in it meanwhile. So the page is a heap of cells, lists and drafts here. A cell's `tag`
says which variable it is: it stays when another tab's change makes a new cell of the row, and
nothing of the page reads it.

What happens on the page, and when the vault and the store answer, is a list of `RowsStep`s. Beside
the state stand the secrets saved, the references written and the writes sent while a row was on its
way: `MarksThatRow` says of them what marking a variable promises.
-/

set_option autoImplicit false

namespace Wayfarer

open Library

/-! ## The page -/

/-- A row, and the variable it is. -/
structure RowCell where
  row : Row
  tag : Nat

/-- A draft: the list of rows it shows, the rows as they were when it was made or last written, and
whether what stands in the JSON view is JSON. -/
structure VariablesDraft where
  vars : Nat
  loaded : List Row
  jsonValid : Bool

/-- The changes a write of some rows sends: none while the JSON view holds no JSON. -/
def VariablesDraft.changesTo (draft : VariablesDraft) (rows : List Row) :
    List VariableChange :=
  if draft.jsonValid then variableChanges draft.loaded rows else []

/-- How far the marking of a row is. -/
inductive Marking where
  | idle
  /-- The vault is locked: whether there is one is read, or it is being unlocked. -/
  | asking (i : Nat)
  /-- A passphrase for a new vault is asked for in the row. -/
  | form (i : Nat)
  /-- The vault is being made, or the one another tab made is being unlocked. -/
  | making (i : Nat)
  /-- The secret is being saved, from a draft. -/
  | saving (i draft : Nat)
  /-- The reference is being written. -/
  | storing (i : Nat)
  deriving DecidableEq

/-- The row that is being marked. -/
def Marking.index : Marking → Option Nat
  | .idle => none
  | .asking i => some i
  | .form i => some i
  | .making i => some i
  | .saving i _ => some i
  | .storing i => some i

/-- The draft a secret is being saved from. -/
def Marking.draft : Marking → Option Nat
  | .saving _ draft => some draft
  | _ => none

/-- A secret saved: the variable whose lock was pressed, the rows shown then, and what was
encrypted. -/
structure SavedSecret where
  target : Nat
  shown : List (Nat × Row)
  plaintext : Text

/-- A reference written: the rows shown before it and after, and what they were loaded from. -/
structure WrittenReference where
  target : Nat
  reference : Text
  before : List (Nat × Row)
  after : List (Nat × Row)
  loadedBefore : List Row
  loadedAfter : List Row

/-- The rows a write compares with those loaded, and those its draft shows. -/
structure SentRows where
  target : Nat
  loaded : List Row
  shown : List (Nat × Row)
  sent : List (Nat × Row)

/-- The page: its objects, which draft is shown, the row held back, how far its marking is, the
writes that wait, the rows of the one that is on its way, and what has happened. -/
structure RowsPage where
  cells : Nat → RowCell := fun _ => ⟨⟨[], [], true, false⟩, 0⟩
  lists : Nat → List Nat := fun _ => []
  drafts : Nat → VariablesDraft := fun _ => ⟨0, [], true⟩
  /-- The next object's number. -/
  next : Nat := 1
  draft : Nat := 0
  secretPending : Option Nat := none
  marking : Marking := .idle
  queue : List (Nat × Option Nat) := []
  flying : Option (List Row) := none
  /-- The variable whose lock was pressed. -/
  target : Option Nat := none
  saved : List SavedSecret := []
  written : List WrittenReference := []
  sent : List SentRows := []

namespace RowsPage

variable (s : RowsPage)

/-- The rows of a list of cells. -/
def rowsOf (list : List Nat) : List Row :=
  list.map fun c => (s.cells c).row

/-- The rows of a list of cells, each with its variable. -/
def taggedOf (list : List Nat) : List (Nat × Row) :=
  list.map fun c => ((s.cells c).tag, (s.cells c).row)

/-- The cells a draft shows. -/
def listOf (draft : Nat) : List Nat :=
  s.lists (s.drafts draft).vars

/-- The variables a draft shows. -/
def tagsOf (draft : Nat) : List Nat :=
  (s.listOf draft).map fun c => (s.cells c).tag

/-- The rows shown. -/
def shown : List (Nat × Row) :=
  s.taggedOf (s.listOf s.draft)

/-! ## Objects made and changed -/

/-- A cell changed where it is. -/
def setRow (c : Nat) (row : Row) : RowsPage :=
  { s with cells := Function.update s.cells c { s.cells c with row } }

/-- The list of the draft shown, changed where it is. -/
def setList (list : List Nat) : RowsPage :=
  { s with lists := Function.update s.lists (s.drafts s.draft).vars list }

/-- A new cell. -/
def makeCell (row : Row) (tag : Nat) : RowsPage :=
  { s with cells := Function.update s.cells s.next ⟨row, tag⟩, next := s.next + 1 }

/-- A draft with the list it has shown. -/
def setDraft (draft : VariablesDraft) : RowsPage :=
  { s with drafts := Function.update s.drafts s.next draft, draft := s.next, next := s.next + 1 }

/-- A draft with a new list shown. -/
def showList (list : List Nat) (loaded : List Row) (jsonValid : Bool) : RowsPage :=
  { s with
    lists := Function.update s.lists s.next list
    drafts := Function.update s.drafts s.next ⟨s.next, loaded, jsonValid⟩
    draft := s.next
    next := s.next + 1 }

/-- `updateDraft` and `syncJsonFromPairs`: the draft shown with a copy of its list. -/
def updateDraft : RowsPage :=
  s.showList (s.listOf s.draft) (s.drafts s.draft).loaded true

/-- `syncJsonFromPairs`. -/
def syncJson : RowsPage :=
  s.setDraft { s.drafts s.draft with jsonValid := true }

/-- What a row becomes when the first of a name is replaced by a new one and the others are gone. -/
def replaced (key : Text) (first c : Nat) : Option Nat :=
  if (s.cells c).row.key ≠ key then some c else if c = first then some s.next else none

/-- The cells of one change of the rows of a list. -/
def layOne (list : List Nat) (change : VariableChange) : RowsPage × List Nat :=
  if change.isLeftOut (s.rowsOf list) then (s, list)
  else if change.value.isNone then
    (s, list.filter fun c => (s.cells c).row.key ≠ change.key)
  else
    match list.find? fun c => (s.cells c).row.key = change.key with
    | none => (s.makeCell change.made s.next, list ++ [s.next])
    | some first =>
        (s.makeCell change.made (s.cells first).tag, list.filterMap (s.replaced change.key first))

/-- `applyVariableChanges` on cells: those of rows that no change names stay. -/
def layOver (list : List Nat) (changes : List VariableChange) : RowsPage × List Nat :=
  changes.foldl (fun p change => p.1.layOne p.2 change) (s, list)

/-! ## Writing -/

/-- `commit`: a write waits for those before it. -/
def commit : RowsPage :=
  { s with queue := s.queue ++ [(s.draft, s.secretPending)] }

/-- A row as it is sent. -/
def trimmed (row : Row) : Row :=
  { row with key := trim row.key }

/-- The rows a write compares with those loaded: the one held back as it is stored. -/
def sentRows (loaded : List Row) (held : Option Nat) (rows : List (Nat × Row)) :
    List (Nat × Row) :=
  (rows.zipIdx.flatMap fun entry =>
    let tag := entry.1.1
    let row := trimmed entry.1.2
    if some entry.2 ≠ held || isSecretReference row.value then [(tag, row)]
    else
      -- The row on its way to the vault keeps what is stored until its reference replaces it.
      match loaded.find? fun stored => stored.key = row.key with
      | none => []
      | some stored => [(tag, { row with value := stored.value })]).filter
    fun entry => entry.2.key ≠ []

/-- The write that is next begins. -/
def beginWrite : Option RowsPage :=
  match s.queue, s.flying with
  | (d, held) :: queue, none =>
      let rows := s.taggedOf (s.listOf d)
      let sent := sentRows (s.drafts d).loaded held rows
      some (if ((s.drafts d).changesTo (sent.map Prod.snd)).isEmpty then { s with queue }
        else { s with
          queue
          flying := some (sent.map Prod.snd)
          sent := s.sent ++ s.target.toList.map fun target =>
            ⟨target, (s.drafts d).loaded, rows, sent⟩ })
  | _, _ => none

/-- Rows from elsewhere laid over those shown. -/
def merge (changes : List VariableChange) (loaded : List Row) : RowsPage :=
  if changes.isEmpty then s.setDraft { s.drafts s.draft with loaded }
  else
    let laid := s.layOver (s.listOf s.draft) changes
    laid.1.showList laid.2 loaded (s.drafts s.draft).jsonValid

/-- No write is on its way any more. -/
def landed : RowsPage :=
  { s with flying := none }

/-- What the store holds after the write that was on its way is laid over the rows. -/
def endWrite (latest : Option (List Row)) : Option RowsPage :=
  match s.flying, latest with
  | none, _ => none
  -- The write was refused, or the set is gone.
  | some _, none => some s.landed
  | some vars, some latest => some (s.landed.merge (variableChanges vars latest) latest)

/-- Edits here that no write has sent. -/
def hasEdits : Bool :=
  let rows := s.rowsOf (s.listOf s.draft)
  let draft := s.drafts s.draft
  !draft.jsonValid || rows.any (fun row => trim row.key = [] && row.value ≠ []) ||
    !(variableChanges draft.loaded (rows.filter fun row => trim row.key ≠ [])).isEmpty

/-- What the set holds now is shown, where no edit and no write of these rows is in the way. -/
def showElsewhere (rows : List Row) : RowsPage :=
  if !s.queue.isEmpty || s.flying.isSome then s
  else if s.hasEdits || rows = (s.drafts s.draft).loaded then s.setDraft (s.drafts s.draft)
  else s.merge (variableChanges (s.drafts s.draft).loaded rows) rows

/-! ## Marking a row as a secret -/

/-- The row is not on its way any more. -/
def letGo : RowsPage :=
  { s with secretPending := none, target := none, marking := .idle }

/-- A row held back from the writes, and the variable it is. -/
def holdRow (i : Nat) : RowsPage :=
  { s with secretPending := some i, target := (s.tagsOf s.draft)[i]? }

/-- `markSecret` up to the vault's answer. -/
def beginSaving (i : Nat) : RowsPage :=
  match (s.listOf s.draft)[i]? with
  | none => s.letGo
  | some c =>
      { s with
        marking := .saving i s.draft
        saved := match s.target with
          | some target => s.saved ++ [⟨target, s.shown, (s.cells c).row.value⟩]
          | none => s.saved }

/-- `protectVariable`: the lock was pressed. -/
def protect (i : Nat) (unlocked : Bool) : Option RowsPage :=
  (s.listOf s.draft)[i]?.map fun c =>
    let held := s.holdRow i
    if trim (s.cells c).row.key = [] || trim (s.cells c).row.value = [] then held.letGo
    else if unlocked then held.beginSaving i
    else { held with marking := .asking i }

/-- Rows typed in the JSON view: the draft itself is given the new list, then shown with a copy. -/
def typeJson (typed : List (Text × Text)) : RowsPage :=
  let rows := typed.map fun entry : Text × Text => (⟨entry.1, entry.2, true, false⟩ : Row)
  let list := s.listOf s.draft
  let changes := variableChanges ((s.rowsOf list).filter Row.enabled) rows
  if changes.isEmpty then s.updateDraft
  else
    let laid := s.layOver list changes
    { laid.1 with
      lists := Function.update laid.1.lists laid.1.next laid.2
      drafts := Function.update laid.1.drafts s.draft
        ⟨laid.1.next, (s.drafts s.draft).loaded, true⟩
      next := laid.1.next + 1 }.updateDraft

/-- What the JSON view reports without an edit of rows. -/
def reportJson (valid : Bool) : RowsPage :=
  let reported : RowsPage :=
    { s with drafts := Function.update s.drafts s.draft
              { s.drafts s.draft with jsonValid := valid } }
  reported.showList (s.listOf s.draft) (s.drafts s.draft).loaded valid

/-- The reference to a secret. -/
def buildSecretReference (id : Text) : Text :=
  units "\x7b\x7b" ++ secretPrefix ++ id ++ units "\x7d\x7d"

/-- `markSecret` from the vault's answer on: the reference is written into the draft it began with,
which is shown again. -/
def writeReference (i d : Nat) (id : Text) : RowsPage :=
  match (s.listOf d)[i]? with
  | none => s.letGo
  | some c =>
      let marked := s.setRow c { (s.cells c).row with value := buildSecretReference id }
      let shown := marked.showList (s.listOf d) (s.drafts d).loaded true
      { shown.commit with
        marking := .storing i
        written := match s.target with
          | some target =>
              s.written ++ [⟨target, buildSecretReference id, s.shown, shown.shown,
                (s.drafts s.draft).loaded, (shown.drafts shown.draft).loaded⟩]
          | none => s.written }

end RowsPage

/-! ## What can happen -/

/-- What happens on the page, and what the vault, the store and the other tabs answer. -/
inductive RowsStep where
  | addVariable (key : Text)
  | editKey (i : Nat) (key : Text)
  | editValue (i : Nat) (value : Text)
  | setEnabled (i : Nat) (enabled : Bool)
  | removeVariable (i : Nat)
  /-- The rows the JSON view gives, typed there. -/
  | typeJson (typed : List (Text × Text))
  /-- What the JSON view reports without an edit, and an edit that is no JSON. -/
  | reportJson (valid : Bool)
  /-- Focus left a field. -/
  | blur
  /-- A pointer on a lock, and its release without a click. -/
  | holdForSecret (i : Nat)
  | releaseHold (i : Nat)
  | protectVariable (i : Nat) (unlocked : Bool)
  /-- There is no vault. -/
  | askPassphrase
  /-- The vault was unlocked, or not. -/
  | answerUnlock (unlocked : Bool)
  | createVaultForRow
  | cancelVaultForRow
  | saveSecret (id : Text)
  /-- The vault refused: it was locked meanwhile. -/
  | refuseSecret
  /-- The reference is stored. -/
  | endMarking
  | beginWrite
  | endWrite (latest : Option (List Row))
  /-- What the set holds, as other tabs and scripts left it. -/
  | showElsewhere (rows : List Row)

/-! ## What marking a variable promises -/

/-- What is encrypted is the value of the row whose lock was pressed. -/
def SavedSecret.Own (e : SavedSecret) : Prop :=
  ∃ row, (e.target, row) ∈ e.shown ∧ row.value = e.plaintext ∧
    ∀ row', (e.target, row') ∈ e.shown → row' = row

/-- The reference stands in that row, every other row is as it was, and a write still sends what
changed since the rows were last loaded. -/
def WrittenReference.InPlace (e : WrittenReference) : Prop :=
  (∃ row, (e.target, row) ∈ e.before) ∧ e.loadedAfter = e.loadedBefore ∧
    e.after = e.before.map fun entry =>
      if entry.1 = e.target then (entry.1, { entry.2 with value := e.reference }) else entry

/-- That row is sent as it was loaded or with a reference, and every other row as it stands. -/
def SentRows.Kept (e : SentRows) : Prop :=
  (∀ row, (e.target, row) ∈ e.sent → isSecretReference row.value = true ∨
    ∃ stored ∈ e.loaded, stored.key = row.key ∧ stored.value = row.value) ∧
  ∀ entry ∈ e.shown, entry.1 ≠ e.target → trim entry.2.key ≠ [] →
    (entry.1, RowsPage.trimmed entry.2) ∈ e.sent

namespace RowsPage

/-- Marking marks that variable. -/
structure MarksThatRow (s : RowsPage) : Prop where
  saved : ∀ e ∈ s.saved, e.Own
  written : ∀ e ∈ s.written, e.InPlace
  sent : ∀ e ∈ s.sent, e.Kept

/-- What a step makes of the page. -/
def step (s : RowsPage) : RowsStep → Option RowsPage
  | .addVariable key =>
      let made := s.makeCell ⟨key, [], true, false⟩ s.next
      some (made.setList (s.listOf s.draft ++ [s.next])).updateDraft
  | .editKey i key =>
      (s.listOf s.draft)[i]?.map fun c => (s.setRow c { (s.cells c).row with key }).syncJson
  | .editValue i value =>
      (s.listOf s.draft)[i]?.map fun c => (s.setRow c { (s.cells c).row with value }).syncJson
  | .setEnabled i enabled =>
      (s.listOf s.draft)[i]?.map fun c =>
        let made := s.makeCell { (s.cells c).row with enabled } (s.cells c).tag
        ((made.setList ((s.listOf s.draft).set i s.next)).updateDraft).commit
  | .removeVariable i =>
      (s.listOf s.draft)[i]?.map fun _ =>
        ((s.setList ((s.listOf s.draft).eraseIdx i)).updateDraft).commit
  | .typeJson typed => some (s.typeJson typed)
  | .reportJson valid => some (s.reportJson valid)
  | .blur => some s.commit
  -- One row is marked at a time.
  | .holdForSecret i =>
      if s.marking = .idle ∧ i < (s.listOf s.draft).length then some (s.holdRow i) else none
  | .releaseHold i =>
      if s.secretPending = some i ∧ s.marking = .idle then some s.letGo else some s
  | .protectVariable i unlocked => if s.marking = .idle then s.protect i unlocked else none
  | .askPassphrase =>
      match s.marking with
      | .asking i => some { s with marking := .form i }
      | _ => none
  | .answerUnlock unlocked =>
      match s.marking with
      | .asking i => some (if unlocked then s.beginSaving i else s.letGo)
      -- Given up here, the row stays held back.
      | .making i => some (if unlocked then s.beginSaving i else { s with marking := .idle })
      | _ => none
  | .createVaultForRow =>
      match s.marking with
      | .form i => some { s with marking := .making i }
      | _ => none
  | .cancelVaultForRow =>
      match s.marking with
      | .form _ => some s.letGo
      -- The vault is being made all the same, and the row is marked then.
      | .making i => some { s.letGo with marking := .making i }
      | _ => none
  | .saveSecret id =>
      match s.marking with
      | .saving i d => some (s.writeReference i d id)
      | _ => none
  | .refuseSecret =>
      match s.marking with
      | .saving _ _ => some s.letGo
      | _ => none
  | .endMarking =>
      match s.marking with
      | .storing _ => some s.letGo
      | _ => none
  | .beginWrite => s.beginWrite
  | .endWrite latest => s.endWrite latest
  | .showElsewhere rows => some (s.showElsewhere rows)

/-! ## Steps that leave the row where it is -/

/-- The row on its way stays in its place when changes are laid over the rows shown. -/
def Stays (s : RowsPage) (changes : List VariableChange) : Prop :=
  ∀ i ∈ s.secretPending,
    ((s.layOver (s.listOf s.draft) changes).2.map fun c =>
      ((s.layOver (s.listOf s.draft) changes).1.cells c).tag)[i]? = (s.tagsOf s.draft)[i]?

/-- A lock may be pressed: no write waits, and no other row is on its way. -/
def MayPress (s : RowsPage) (i : Nat) : Prop :=
  (s.secretPending = none → s.queue = []) ∧ ∀ j ∈ s.secretPending, j = i

/-- A step that leaves a row on its way to the vault where it is: no row before it is removed, here
or elsewhere, and while its secret is being saved the rows shown stay the ones it was taken from. -/
def Undisturbed (s : RowsPage) : RowsStep → Prop
  | .removeVariable j => ∀ i ∈ s.secretPending, i < j
  | .typeJson typed => s.Stays (variableChanges ((s.rowsOf (s.listOf s.draft)).filter Row.enabled)
      (typed.map fun entry => ⟨entry.1, entry.2, true, false⟩))
  | .holdForSecret i => s.MayPress i
  | .protectVariable i _ => s.MayPress i
  | .saveSecret _ => ∀ d ∈ s.marking.draft,
      s.listOf d = s.listOf s.draft ∧ (s.drafts d).loaded = (s.drafts s.draft).loaded
  | .endWrite latest =>
      ∀ vars ∈ s.flying, ∀ rows ∈ latest, s.landed.Stays (variableChanges vars rows)
  | .showElsewhere rows => s.Stays (variableChanges (s.drafts s.draft).loaded rows)
  | _ => True

instance (s : RowsPage) (changes : List VariableChange) : Decidable (s.Stays changes) :=
  inferInstanceAs (Decidable (∀ i ∈ s.secretPending, _ = _))

instance (s : RowsPage) (i : Nat) : Decidable (s.MayPress i) :=
  inferInstanceAs (Decidable (_ ∧ _))

instance decidableUndisturbed (s : RowsPage) : (a : RowsStep) → Decidable (s.Undisturbed a)
  | .removeVariable j => inferInstanceAs (Decidable (∀ i ∈ s.secretPending, i < j))
  | .typeJson _ => inferInstanceAs (Decidable (s.Stays _))
  | .holdForSecret i => inferInstanceAs (Decidable (s.MayPress i))
  | .protectVariable i _ => inferInstanceAs (Decidable (s.MayPress i))
  | .saveSecret _ => inferInstanceAs (Decidable (∀ d ∈ s.marking.draft, _ = _ ∧ _ = _))
  | .endWrite latest =>
      inferInstanceAs (Decidable (∀ vars ∈ s.flying, ∀ rows ∈ latest, s.landed.Stays _))
  | .showElsewhere _ => inferInstanceAs (Decidable (s.Stays _))
  | .addVariable _ | .editKey _ _ | .editValue _ _ | .setEnabled _ _ | .reportJson _ | .blur
  | .releaseHold _ | .askPassphrase | .answerUnlock _ | .createVaultForRow | .cancelVaultForRow
  | .refuseSecret | .endMarking | .beginWrite => isTrue trivial

/-- A page that shows the rows of a set, with nothing done yet. -/
def start (rows : List Row) : RowsPage where
  cells i := ⟨(rows[i]?).getD ⟨[], [], true, false⟩, if i < rows.length then i else 0⟩
  lists _ := List.range rows.length
  drafts _ := ⟨0, rows, true⟩
  next := rows.length + 1

end RowsPage

end Wayfarer
