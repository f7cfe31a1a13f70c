import Mathlib.Logic.Function.Basic
import Wayfarer.Model.Collections

/-!
# The composer's tabs

A tab holds one request: the draft, the saved request it is bound to, and the response it
last received. The strip says which tabs are open and which of them is in front. This file
has what the user does with them: open a saved request or a history entry, start a new
request, paste a command, edit, duplicate, change and close tabs.

A request is put into the tab in front where that tab has nothing to lose, else into a new
one. `Composer.loadTarget` says into which, and `Composer.step_kept` that every other tab
holds what it held.
-/

set_option autoImplicit false

namespace Wayfarer

open Library

/-! ## Drafts -/

/-- The editor's blank row: not sent, and unchecked, until it has a name. -/
def blankRow : Row :=
  { key := [], value := [], enabled := false }

/-- A request with nothing in it. -/
def emptyRequest : RequestContent where
  method := units "GET"
  url := []
  headers := []
  body := { mode := .none }
  auth := .none

/-- The draft of a new tab. -/
def emptyDraft : RequestContent :=
  { emptyRequest with params := [blankRow], headers := [blankRow] }

/-- Rows as they are saved: names trimmed, rows without a name left out. -/
def namedRows (rows : List Row) : List Row :=
  (rows.map fun row => { row with key := trim row.key }).filter fun row => row.key ≠ []

/-- The parts of a multipart form as they are saved. -/
def namedParts (parts : List MultipartPart) : List MultipartPart :=
  (parts.map fun part => { part with key := trim part.key }).filter fun part => part.key ≠ []

/-- A draft as it is saved. -/
def contentOf (draft : RequestContent) : RequestContent :=
  { draft with
    params := namedRows draft.params
    headers := namedRows draft.headers
    body := { draft.body with
      urlencoded := draft.body.urlencoded.map namedRows
      multipart := draft.body.multipart.map namedParts } }

/-- The rows of an address's query, in the places of the enabled rows there were before. A row
that is switched off is kept; a blank row is not one of them. -/
def mergeParams : List Row → List Row → List Row
  | [], entries => entries
  | row :: previous, entries =>
      if row.enabled then entries.take 1 ++ mergeParams previous (entries.drop 1)
      else if row.key ≠ [] then row :: mergeParams previous entries
      else mergeParams previous entries

/-- The query of an address, split off as text. -/
def queryOf (url : Text) : Text :=
  (cutAt 0x3F (cutAt 0x23 url).1).2.getD []

/-- The query-parameter rows of an address. `pairsOf` is `URLSearchParams`. -/
def parseParamsFromUrl (pairsOf : Text → List (Text × Text)) (url : Text) (previous : List Row) :
    List Row :=
  let entries := (pairsOf (queryOf url)).map fun (key, value) => { key, value, enabled := true }
  match mergeParams previous entries with
  | [] => [blankRow]
  | rows => rows

/-! ## Tabs -/

/-- What a draft that was loaded from a stored request has of it besides the content: a load copies
these fields with the others, and nothing takes them out. -/
structure Carried where
  id : Text
  collectionId : Text
  folderId : Option Text
  name : Text
  deriving DecidableEq

/-- What a load of a saved request copies besides its content. -/
def RequestDoc.carried (doc : RequestDoc) : Carried where
  id := doc.id
  collectionId := doc.collectionId
  folderId := doc.folderId
  name := doc.name

/-- One tab of the composer. -/
structure TabState where
  draft : RequestContent := emptyDraft
  carried : Option Carried := none
  /-- The saved request this tab was opened from or last saved to. -/
  bound : Option RequestDoc := none
  /-- Scripts that came from somewhere else and wait for a review. -/
  heldScripts : Option Scripts := none
  /-- The history entry the tab's response is kept in. -/
  historyKey : Option Nat := none
  /-- The draft as it was when the tab was opened, loaded or saved. -/
  baseline : RequestContent := contentOf emptyDraft
  /-- A send is on its way. -/
  loadingState : Bool := false
  responseStatusCode : Option Nat := none
  responseError : Text := []
  /-- A tab that holds a run, the environments or a collection's settings, and no request. -/
  document : Bool := false
  /-- How many requests were put into the tab, and how often its draft was edited. Only statements
  read them. -/
  loads : Nat := 0
  edits : Nat := 0
  /-- The stored requests that the draft comes from by edits: it was read from them, or saved as
  them. Only statements read it. -/
  sources : List Text := []

/-- What a tab holds: which of the requests that were put into it, and what that is bound to. -/
structure Held where
  loads : Nat
  bound : Option RequestDoc
  deriving DecidableEq

namespace TabState

/-- What the tab holds now. -/
def held (tab : TabState) : Held :=
  { loads := tab.loads, bound := tab.bound }

/-- The draft differs from what it was opened from or last saved as. -/
def dirty (tab : TabState) : Bool :=
  contentOf tab.draft ≠ tab.baseline

/-- A new tab no one has used. -/
def empty (tab : TabState) : Bool :=
  !tab.document && tab.bound.isNone && tab.historyKey.isNone && tab.responseStatusCode.isNone &&
    tab.responseError.isEmpty && tab.carried.isNone &&
    contentOf tab.draft = contentOf emptyDraft

/-- The draft as it is now is what the tab holds unchanged. -/
def markClean (tab : TabState) : TabState :=
  { tab with baseline := contentOf tab.draft }

/-- What was written: an edit made while the write was under way is still unsaved. -/
def markSaved (tab : TabState) (saved : RequestContent) : TabState :=
  { tab with baseline := saved }

/-- A tab is bound to a saved request, or to none: another request is put into it. -/
def bind (tab : TabState) (doc : Option RequestDoc) : TabState :=
  { tab with bound := doc, loads := tab.loads + 1 }

/-- A request becomes the draft: its content, and what it carries besides. -/
def load (pairsOf : Text → List (Text × Text)) (tab : TabState) (content : RequestContent)
    (carried : Option Carried) (sources : List Text) : TabState :=
  { tab with
    draft := { content with params := parseParamsFromUrl pairsOf content.url content.params }
    carried, sources }

/-- A request is loaded and the tab is clean. The response on screen is another request's now. -/
def loadClean (pairsOf : Text → List (Text × Text)) (tab : TabState) (content : RequestContent)
    (carried : Option Carried) (sources : List Text) : TabState :=
  { (tab.load pairsOf content carried sources).markClean with historyKey := none }

/-- A new request. Scripts and the response on screen stay. -/
def reset (tab : TabState) : TabState :=
  { tab with
    draft := { emptyDraft with scripts := tab.draft.scripts }
    carried := none
    sources := [] }

/-- What "New request" makes of a tab. -/
def cleared (tab : TabState) : TabState :=
  { tab.bind none with heldScripts := none }.reset.markClean

/-- Nothing of the last response is left. -/
def resetResponse (tab : TabState) : TabState :=
  { tab with responseStatusCode := none, responseError := [] }

/-- A second tab with this one's request. -/
def copy (tab : TabState) : TabState where
  draft := tab.draft
  carried := tab.carried
  sources := tab.sources
  bound := tab.bound
  heldScripts := tab.heldScripts
  baseline := tab.baseline
  document := tab.document

end TabState

/-- A history entry, as far as a tab shows it. -/
structure PastRequest where
  id : Option Nat
  template : RequestContent
  /-- What the draft carried that was sent. -/
  carried : Option Carried := none
  /-- The status and the text of the body, when a response came. -/
  response : Option (Nat × Text) := none
  error : Text := []
  /-- A model call is no request a person composed. -/
  model : Bool := false

/-- A status that is not shown as an error. -/
def isSuccess (status : Nat) : Bool :=
  200 ≤ status ∧ status < 300

/-- The response a history entry recorded is shown. -/
def TabState.showRecorded (tab : TabState) (entry : PastRequest) : TabState :=
  match entry.response with
  | none => { tab with responseStatusCode := none, responseError := entry.error }
  | some (status, text) =>
      { tab with
        responseStatusCode := some status
        responseError := if isSuccess status then [] else if text ≠ [] then text else entry.error }

/-- The scripts of a history entry wait for a review. -/
def TabState.openedFromHistory (tab : TabState) (template : RequestContent) : TabState :=
  { tab with
    heldScripts := if scriptsOf template.scripts ≠ [] then some template.scripts else none }

/-- A history entry in a tab: bound to no saved request, with the response it recorded. -/
def TabState.openedPast (pairsOf : Text → List (Text × Text)) (tab : TabState)
    (entry : PastRequest) : TabState :=
  { (((tab.bind none).openedFromHistory entry.template).loadClean pairsOf
      entry.template entry.carried []).showRecorded entry with historyKey := entry.id }

/-- A saved request in a tab. -/
def TabState.openedSaved (pairsOf : Text → List (Text × Text)) (tab : TabState)
    (doc : RequestDoc) : TabState :=
  { tab.bind (some doc) with heldScripts := none }.loadClean pairsOf doc.content
    (some doc.carried) [doc.id]

/-! ## The strip -/

/-- Every tab by its id, and which of them are open: there is always one. A closed tab is in no
strip; a send that holds it goes on with it. -/
structure Composer where
  tab : Nat → TabState
  strip : List Nat
  activeId : Nat
  /-- The id the next tab gets. -/
  next : Nat
  nonempty : strip ≠ []
  fresh : ∀ id ∈ strip, id < next

namespace Composer

/-- The tab in front. -/
def active (s : Composer) : Nat :=
  if s.activeId ∈ s.strip then s.activeId else s.strip.headD s.activeId

/-- The request of the tab in front. -/
def front (s : Composer) : TabState :=
  s.tab s.active

/-- One tab changed. -/
def update (s : Composer) (id : Nat) (f : TabState → TabState) : Composer :=
  { s with tab := Function.update s.tab id (f (s.tab id)) }

/-- A tab opened after the one in front. -/
def openTab (s : Composer) (tab : TabState) : Composer :=
  let place := s.strip.idxOf s.active + 1
  { tab := Function.update s.tab s.next tab
    strip := s.strip.take place ++ s.next :: s.strip.drop place
    activeId := s.next
    next := s.next + 1
    nonempty := by simp
    fresh := by
      intro id hid
      obtain hid | hid := List.mem_append.mp hid
      · exact Nat.lt_succ_of_lt (s.fresh id (List.mem_of_mem_take hid))
      obtain rfl | hid := List.mem_cons.mp hid
      · exact Nat.lt_succ_self _
      · exact Nat.lt_succ_of_lt (s.fresh id (List.mem_of_mem_drop hid)) }

/-- A tab is closed. The one after it comes to the front, or the one before; the last is replaced
by an empty one. -/
def close (s : Composer) (id : Nat) : Composer :=
  let rest := s.strip.filter fun other => other ≠ id
  if id ∉ s.strip then s
  else if hrest : rest = [] then
    { tab := Function.update s.tab s.next {}
      strip := [s.next]
      activeId := if s.activeId = id then s.next else s.activeId
      next := s.next + 1
      nonempty := by simp
      fresh := by simp }
  else
    let place := min (s.strip.idxOf id) (rest.length - 1)
    { s with
      strip := rest
      activeId := if s.activeId = id then rest.getD place id else s.activeId
      nonempty := hrest
      fresh := fun other hother => s.fresh other (List.mem_of_mem_filter hother) }

/-- A composer with one empty tab. -/
def start : Composer where
  tab := fun _ => {}
  strip := [0]
  activeId := 0
  next := 1
  nonempty := by simp
  fresh := by simp

/-- The tab in front is one of the strip. -/
theorem active_mem (s : Composer) :
    s.active ∈ s.strip := by
  unfold active
  split_ifs with h
  · exact h
  · obtain ⟨first, rest, hstrip⟩ := List.exists_cons_of_ne_nil s.nonempty
    simp [hstrip]

theorem active_lt (s : Composer) :
    s.active < s.next :=
  s.fresh _ s.active_mem

@[simp]
theorem openTab_active (s : Composer) (tab : TabState) :
    (s.openTab tab).active = s.next := by
  simp [active, openTab]

@[simp]
theorem openTab_next (s : Composer) (tab : TabState) :
    (s.openTab tab).next = s.next + 1 := rfl

/-- A tab that is there keeps what it has when another is opened. -/
theorem openTab_tab (s : Composer) (tab : TabState) {id : Nat} (hid : id < s.next) :
    (s.openTab tab).tab id = s.tab id :=
  Function.update_of_ne (Nat.ne_of_lt hid) _ _

@[simp]
theorem openTab_tab_self (s : Composer) (tab : TabState) :
    (s.openTab tab).tab s.next = tab :=
  Function.update_self _ _ _

@[simp]
theorem update_active (s : Composer) (id : Nat) (f : TabState → TabState) :
    (s.update id f).active = s.active := rfl

@[simp]
theorem update_next (s : Composer) (id : Nat) (f : TabState → TabState) :
    (s.update id f).next = s.next := rfl

theorem update_tab (s : Composer) (id other : Nat) (f : TabState → TabState) :
    (s.update id f).tab other = if other = id then f (s.tab id) else s.tab other := by
  by_cases h : other = id
  · subst h
    simp [update]
  · simp [update, h]

/-- A tab for a request: the one in front, or a new one. -/
def room (s : Composer) (elsewhere : Bool) : Composer :=
  if elsewhere then s.openTab {} else s

theorem room_active (s : Composer) (elsewhere : Bool) :
    (s.room elsewhere).active = if elsewhere then s.next else s.active := by
  cases elsewhere <;> simp [room]

theorem room_tab (s : Composer) (elsewhere : Bool) {id : Nat} (hid : id < s.next) :
    (s.room elsewhere).tab id = s.tab id := by
  cases elsewhere
  · rfl
  · exact s.openTab_tab {} hid

theorem le_room_next (s : Composer) (elsewhere : Bool) :
    s.next ≤ (s.room elsewhere).next := by
  cases elsewhere
  · exact le_rfl
  · exact Nat.le_succ _

/-- Closing a tab changes none of those that are there. -/
theorem close_tab (s : Composer) (id : Nat) {other : Nat} (hother : other < s.next) :
    (s.close id).tab other = s.tab other := by
  unfold close
  dsimp only
  split
  · rfl
  · split
    · exact Function.update_of_ne (Nat.ne_of_lt hother) _ _
    · rfl

theorem le_close_next (s : Composer) (id : Nat) :
    s.next ≤ (s.close id).next := by
  unfold close
  dsimp only
  split
  · exact le_rfl
  · split
    · exact Nat.le_succ _
    · exact le_rfl

/-- What is put into a tab made room for. -/
def put (s : Composer) (elsewhere : Bool) (f : TabState → TabState) : Composer :=
  (s.room elsewhere).update (s.room elsewhere).active f

/-- It leaves every other tab as it was. -/
theorem put_tab (s : Composer) (elsewhere : Bool) (f : TabState → TabState) {id : Nat}
    (hid : id < s.next) (hother : id ≠ if elsewhere then s.next else s.active) :
    (s.put elsewhere f).tab id = s.tab id := by
  rw [put, update_tab, room_active, if_neg hother, room_tab s elsewhere hid]

/-! ## What the user does -/

/-- A history entry is opened: in a tab of its own, unless the one in front is an empty new one. -/
def loadPastRequest (pairsOf : Text → List (Text × Text)) (s : Composer) (entry : PastRequest) :
    Composer :=
  if entry.model then s
  else
    s.put (!s.front.empty) fun tab => tab.openedPast pairsOf entry

/-- The open tab of a saved request. -/
def tabOf (s : Composer) (doc : RequestDoc) : Option Nat :=
  s.strip.find? fun id => (s.tab id).bound.map RequestDoc.id = some doc.id

/-- A request about to be loaded goes into a tab of its own when the tab in front holds changes
that are not saved. -/
def keepsUnsaved (s : Composer) : Bool :=
  s.front.dirty || s.front.document

/-- A saved request is opened: where it is open already, that tab comes to the front. -/
def loadCollectionRequest (pairsOf : Text → List (Text × Text)) (s : Composer)
    (doc : RequestDoc) : Composer :=
  match s.tabOf doc with
  | some id => { s with activeId := id }
  | none =>
      s.put s.keepsUnsaved fun tab => tab.openedSaved pairsOf doc

/-- A new request in the tab in front. -/
def clear (s : Composer) : Composer :=
  s.put s.front.document TabState.cleared

/-- The request a pasted command describes: it goes where a new request goes. -/
def pasted (pairsOf : Text → List (Text × Text)) (s : Composer) (content : RequestContent) :
    Composer :=
  s.put s.front.document fun tab => tab.cleared.load pairsOf content none []

end Composer

/-- What the user does with the tabs. -/
inductive ComposerAction where
  /-- The draft in front is edited. -/
  | edit (draft : RequestContent)
  | newTab
  /-- A run, the environments or a collection's settings are opened. -/
  | openDocument
  | duplicate
  | activate (id : Nat)
  | close (id : Nat)
  | openSaved (doc : RequestDoc)
  | openPast (entry : PastRequest)
  | newRequest
  /-- The worker has read a pasted command. -/
  | pasted (content : RequestContent)

/-- What an action makes of the tabs. -/
def Composer.step (pairsOf : Text → List (Text × Text)) (s : Composer) :
    ComposerAction → Composer
  | .edit draft => s.update s.active fun tab => { tab with draft, edits := tab.edits + 1 }
  | .newTab => s.openTab {}
  | .openDocument => s.openTab { document := true }
  | .duplicate => s.openTab s.front.copy
  | .activate id => { s with activeId := id }
  | .close id => s.close id
  | .openSaved doc => s.loadCollectionRequest pairsOf doc
  | .openPast entry => s.loadPastRequest pairsOf entry
  | .newRequest => s.clear
  | .pasted content => s.pasted pairsOf content

/-- The tab an action puts a request into. -/
def Composer.loadTarget (s : Composer) : ComposerAction → Option Nat
  | .openSaved doc =>
      if (s.tabOf doc).isSome then none else some (if s.keepsUnsaved then s.next else s.active)
  | .openPast entry =>
      if entry.model then none else some (if !s.front.empty then s.next else s.active)
  | .newRequest => some (if s.front.document then s.next else s.active)
  | .pasted _ => some (if s.front.document then s.next else s.active)
  | _ => none

namespace Composer

/-- A tab holds what it held, and its draft is as it was or was edited. -/
structure Kept (before after : TabState) : Prop where
  held : after.held = before.held
  sources : after.sources = before.sources
  draft : after.draft = before.draft ∧ after.edits = before.edits ∨
    after.edits = before.edits + 1

theorem Kept.refl (tab : TabState) : Kept tab tab :=
  ⟨rfl, rfl, Or.inl ⟨rfl, rfl⟩⟩

theorem Kept.of_eq {before after : TabState} (h : after = before) : Kept before after :=
  h ▸ Kept.refl after

/-- Either an action puts a request into a tab, or it leaves what each tab holds. -/
theorem step_cases (pairsOf : Text → List (Text × Text)) (s : Composer) (a : ComposerAction) :
    (∃ elsewhere f, s.step pairsOf a = s.put elsewhere f ∧
      s.loadTarget a = some (if elsewhere then s.next else s.active)) ∨
    (s.next ≤ (s.step pairsOf a).next ∧
      ∀ id < s.next, Kept (s.tab id) ((s.step pairsOf a).tab id)) := by
  cases a with
  | edit draft =>
      refine Or.inr ⟨le_rfl, fun id _ => ?_⟩
      simp only [step, update_tab]
      split_ifs with h
      · subst h
        exact ⟨rfl, rfl, Or.inr rfl⟩
      · exact Kept.refl _
  -- A tab of its own, or another one in front: the tabs there keep what they have.
  | newTab => exact Or.inr ⟨Nat.le_succ _, fun id hid => Kept.of_eq (s.openTab_tab _ hid)⟩
  | openDocument => exact Or.inr ⟨Nat.le_succ _, fun id hid => Kept.of_eq (s.openTab_tab _ hid)⟩
  | duplicate => exact Or.inr ⟨Nat.le_succ _, fun id hid => Kept.of_eq (s.openTab_tab _ hid)⟩
  | activate other => exact Or.inr ⟨le_rfl, fun _ _ => Kept.refl _⟩
  | close other =>
      exact Or.inr ⟨s.le_close_next other, fun id hid => Kept.of_eq (s.close_tab other hid)⟩
  -- A request is put into a tab, unless one shows it already.
  | openSaved doc =>
      cases hopen : s.tabOf doc with
      | some other =>
          refine Or.inr ?_
          rw [step, loadCollectionRequest, hopen]
          exact ⟨le_rfl, fun _ _ => Kept.refl _⟩
      | none =>
          refine Or.inl ⟨s.keepsUnsaved, fun tab => tab.openedSaved pairsOf doc, ?_, ?_⟩
          · rw [step, loadCollectionRequest, hopen]
          · simp [loadTarget, hopen]
  | openPast entry =>
      by_cases hmodel : entry.model = true
      · refine Or.inr ?_
        rw [step, loadPastRequest, if_pos hmodel]
        exact ⟨le_rfl, fun _ _ => Kept.refl _⟩
      · refine Or.inl ⟨!s.front.empty, fun tab => tab.openedPast pairsOf entry, ?_, ?_⟩
        · rw [step, loadPastRequest, if_neg hmodel]
        · rw [loadTarget, if_neg hmodel]
  | newRequest =>
      refine Or.inl ⟨s.front.document, TabState.cleared, ?_, ?_⟩
      · rfl
      · rfl
  | pasted content =>
      refine Or.inl ⟨s.front.document, fun tab => tab.cleared.load pairsOf content none [], ?_, ?_⟩
      · rfl
      · rfl

/-- An action of the user leaves what every tab holds, but for the one it puts a request into. -/
theorem step_kept (pairsOf : Text → List (Text × Text)) {s : Composer} {a : ComposerAction}
    {id : Nat} (hid : id < s.next) (htarget : s.loadTarget a ≠ some id) :
    Kept (s.tab id) ((s.step pairsOf a).tab id) := by
  obtain ⟨elsewhere, f, hstep, hload⟩ | ⟨-, hkept⟩ := s.step_cases pairsOf a
  · rw [hstep]
    apply Kept.of_eq
    apply s.put_tab elsewhere f hid
    rintro rfl
    exact htarget hload
  · exact hkept id hid

/-- No action takes an id back. -/
theorem le_step_next (pairsOf : Text → List (Text × Text)) (s : Composer) (a : ComposerAction) :
    s.next ≤ (s.step pairsOf a).next := by
  obtain ⟨elsewhere, f, hstep, -⟩ | ⟨hnext, -⟩ := s.step_cases pairsOf a
  · rw [hstep]
    exact s.le_room_next elsewhere
  · exact hnext

end Composer

end Wayfarer
