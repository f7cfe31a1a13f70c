import Wayfarer.Composer.Tabs
import Wayfarer.Library.Run

/-!
# Saves and pastes

A save remembers the tab it was pressed in, writes, and binds that tab when the write has
ended. A paste remembers nothing: what the worker reads of a command goes into the tab in front
by then. In between the user opens other requests, and the stored requests are renamed, moved
and deleted, here or elsewhere.

A draft that was loaded from a stored request carries that request's identity with its content,
and a write takes it for the request's own. `run_saves_own` says what holds of every run in
which a save keeps its tab, a draft carries no other request's identity and a pasted command
finds its tab in front (`Undisturbed`): a bound tab's draft comes by edits from the request it
is bound to, each save writes the request it was pressed for, and a paste replaces the draft it
was pasted over.
-/

set_option autoImplicit false

namespace Wayfarer

open Library

/-! ## Stored requests -/

/-- A record is put under its id. -/
def putDoc (stored : List RequestDoc) (doc : RequestDoc) : List RequestDoc :=
  if stored.any fun other => other.id = doc.id then
    stored.map fun other => if other.id = doc.id then doc else other
  else stored ++ [doc]

/-- A stored request with a draft's fields over its own, the ones it carries among them. -/
def RequestDoc.assign (doc : RequestDoc) (content : RequestContent) (carried : Option Carried) :
    RequestDoc :=
  match carried with
  | none => { doc with content }
  | some carried =>
      { id := carried.id
        collectionId := carried.collectionId
        folderId := carried.folderId.or doc.folderId
        name := trim carried.name
        content }

/-- What `updateRequest` writes for a request, when it is still stored. -/
def updateRequest (stored : List RequestDoc) (id : Text) (content : RequestContent)
    (carried : Option Carried) : Option RequestDoc :=
  (stored.find? fun doc => doc.id = id).map fun doc => doc.assign content carried

/-- Where a new request goes, and what it is called. -/
structure NewPlace where
  id : Text
  collectionId : Text
  folderId : Option Text
  name : Text

/-- What `createRequest` writes. -/
def createRequest (place : NewPlace) (content : RequestContent) : RequestDoc where
  id := place.id
  collectionId := place.collectionId
  folderId := place.folderId
  name := trim place.name
  content := content

/-! ## The machine -/

/-- How far a save is. -/
inductive SavePhase where
  /-- The digests of its scripts are computed and approved. -/
  | approving
  /-- The write has ended, with what was written. -/
  | written (doc : Option RequestDoc)
  | ended
  deriving DecidableEq

/-- A save: the tab it was pressed in, and the draft it writes. -/
structure Saving where
  tab : Nat
  snapshot : RequestContent
  carried : Option Carried
  /-- The request it is saved to; absent: to a new one. -/
  target : Option Text
  /-- Which of its requests the tab held, and where the draft came from. Only statements read
  them. -/
  loads : Nat
  sources : List Text
  phase : SavePhase

/-- A save that has not bound its tab yet. -/
def Saving.underWay (saving : Saving) : Bool :=
  saving.phase ≠ .ended

/-- A draft that was saved as a request comes from it, unless another was loaded meanwhile. -/
def Saving.note (saving : Saving) (id : Text) (tab : TabState) : TabState :=
  if tab.loads = saving.loads then { tab with sources := id :: tab.sources } else tab

theorem Saving.note_loads (saving : Saving) (id : Text) (tab : TabState) :
    (saving.note id tab).loads = tab.loads := by
  unfold note
  split_ifs
  · rfl
  · rfl

theorem Saving.note_bound (saving : Saving) (id : Text) (tab : TabState) :
    (saving.note id tab).bound = tab.bound := by
  unfold note
  split_ifs
  · rfl
  · rfl

theorem Saving.sources_subset_note (saving : Saving) (id : Text) (tab : TabState) :
    tab.sources ⊆ (saving.note id tab).sources := by
  unfold note
  split_ifs
  · exact List.subset_cons_self id tab.sources
  · exact List.Subset.refl tab.sources

/-- A tab as it is stored. -/
structure StoredTab where
  draft : RequestContent
  carried : Option Carried
  baseline : RequestContent
  requestId : Option Text
  /-- Where the draft came from. Only statements read it. -/
  sources : List Text
  deriving DecidableEq

/-- What is seen from outside. -/
inductive SaveEvent where
  /-- A save of a draft pressed for `target` was written under `key`. -/
  | wrote (key target : Text) (sources : List Text)
  /-- A command pasted into one tab was put into another, or into the new tab `fresh`. -/
  | pasted (into target fresh : Nat)

/-- A save writes the request it was pressed for, with a draft that comes from it; a paste replaces
the draft it was pasted over, or none. -/
def SaveEvent.Own : SaveEvent → Prop
  | .wrote key target sources => key = target ∧ target ∈ sources
  | .pasted into target fresh => target = into ∨ target = fresh

/-- The composer, the stored requests and the page's copy of them, and what is under way. -/
structure TabSaves where
  composer : Composer
  stored : List RequestDoc
  tree : List RequestDoc
  saves : List Saving
  /-- The tabs that commands were pasted into. -/
  pastes : List Nat
  /-- The tabs as they were stored, by id. -/
  records : List (Nat × StoredTab)
  /-- Newest first. -/
  log : List SaveEvent

/-- What can happen next. -/
inductive SaveAction where
  | composer (action : ComposerAction)
  /-- Requests are renamed, moved, changed and deleted, here or in another browser tab. -/
  | others (stored : List RequestDoc)
  /-- The page reads the stored requests again. -/
  | refresh
  /-- A change of the tree has asked for the digests of a tab that was bound to `was`. -/
  | rebound (id : Nat) (was : RequestDoc)
  | save
  | saveAs
  /-- The write of a save; `place` is used for a new request. -/
  | write (n : Nat) (place : NewPlace)
  | fail (n : Nat)
  | endSave (n : Nat)
  | paste
  /-- The worker has read the command. -/
  | parsed (n : Nat) (content : RequestContent)
  | storeTab (id : Nat)
  | restore (id : Nat) (record : StoredTab)

namespace TabSaves

/-- A save goes on. -/
def goOn (s : TabSaves) (n : Nat) (saving : Saving) (phase : SavePhase) : TabSaves :=
  { s with saves := s.saves.set n { saving with phase } }

/-- A save is pressed in the tab in front. -/
def press (s : TabSaves) (target : Option Text) : TabSaves :=
  let tab := s.composer.front
  { s with
    saves := s.saves ++
      [{ tab := s.composer.active
         snapshot := contentOf tab.draft
         carried := tab.carried
         target
         loads := tab.loads
         sources := tab.sources
         phase := .approving }] }

/-- The write of a save. -/
def write (s : TabSaves) (n : Nat) (saving : Saving) (place : NewPlace) : Option TabSaves :=
  match saving.target with
  | some id =>
      match updateRequest s.stored id saving.snapshot saving.carried with
      | none => some (s.goOn n saving (.written none))
      | some doc =>
          some { s.goOn n saving (.written (some doc)) with
            stored := putDoc s.stored doc
            log := .wrote doc.id id saving.sources :: s.log }
  | none =>
      if s.stored.any fun doc => doc.id = place.id then none
      else
        let doc := createRequest place saving.snapshot
        some { s.goOn n saving (.written (some doc)) with
          composer := s.composer.update saving.tab (Saving.note saving doc.id)
          stored := s.stored ++ [doc] }

/-- The end of a save: its tab is bound to what was written. -/
def endSave (s : TabSaves) (n : Nat) (saving : Saving) (doc : Option RequestDoc) : TabSaves :=
  match doc with
  | none => s.goOn n saving .ended
  | some doc =>
      { s.goOn n saving .ended with
        composer := s.composer.update saving.tab fun tab =>
          { tab with bound := some doc }.markSaved saving.snapshot }

/-- A request as the page has it. -/
def requestOf (s : TabSaves) (id : Text) : Option RequestDoc :=
  s.tree.find? fun doc => doc.id = id

/-- A tab as it is stored. -/
def record (tab : TabState) : StoredTab where
  draft := contentOf tab.draft
  carried := tab.carried
  baseline := tab.baseline
  requestId := tab.bound.map RequestDoc.id
  sources := tab.sources

/-- Rows as the editor shows them: a blank one where there is none. -/
def editorRows (rows : List Row) : List Row :=
  if rows = [] then [blankRow] else rows

/-- A tab becomes what its record says. -/
def restoreTab (s : TabSaves) (record : StoredTab) (tab : TabState) : TabState :=
  { tab with
    draft := { record.draft with
      params := editorRows record.draft.params, headers := editorRows record.draft.headers }
    carried := record.carried
    baseline := record.baseline
    bound := record.requestId.bind s.requestOf
    loads := tab.loads + 1
    sources := record.sources }

/-- The step of the machine. -/
def step (pairsOf : Text → List (Text × Text)) (s : TabSaves) : SaveAction → Option TabSaves
  | .composer (.pasted _) => none
  | .composer (.openSaved doc) =>
      if doc ∈ s.tree then some { s with composer := s.composer.step pairsOf (.openSaved doc) }
      else none
  | .composer action => some { s with composer := s.composer.step pairsOf action }
  | .others stored => some { s with stored }
  | .refresh => some { s with tree := s.stored }
  | .rebound id was =>
      -- A save, or a later change of the tree, was faster: that one binds the tab.
      if (s.composer.tab id).bound = some was then
        some { s with
          composer := s.composer.update id fun tab => { tab with bound := s.requestOf was.id } }
      else some s
  | .save =>
      if s.composer.front.document then none
      else
        match s.composer.front.bound with
        -- The dialog of a first save is opened.
        | none => some s
        | some doc => some (s.press (some doc.id))
  | .saveAs => if s.composer.front.document then none else some (s.press none)
  | .write n place =>
      match s.saves[n]? with
      | some saving => if saving.phase = .approving then s.write n saving place else none
      | none => none
  | .fail n =>
      match s.saves[n]? with
      | some saving => if saving.phase = .approving then some (s.goOn n saving .ended) else none
      | none => none
  | .endSave n =>
      match s.saves[n]? with
      | some saving =>
          match saving.phase with
          | .written doc => some (s.endSave n saving doc)
          | _ => none
      | none => none
  | .paste =>
      if s.composer.front.document then none
      else some { s with pastes := s.pastes ++ [s.composer.active] }
  | .parsed n content =>
      match s.pastes[n]? with
      | none => none
      | some into =>
          some { s with
            composer := s.composer.step pairsOf (.pasted content)
            log := .pasted into
              (if s.composer.front.document then s.composer.next else s.composer.active)
              s.composer.next :: s.log }
  | .storeTab id =>
      some { s with records := s.records ++ [(id, record (s.composer.tab id))] }
  | .restore id record =>
      if (id, record) ∈ s.records ∧ (s.composer.tab id).loadingState = false then
        some { s with composer := s.composer.update id (s.restoreTab record) }
      else none

/-- A page that starts, with what is stored. -/
def start (stored : List RequestDoc) : TabSaves where
  composer := Composer.start
  stored := stored
  tree := stored
  saves := []
  pastes := []
  records := []
  log := []

end TabSaves

/-! ## The law -/

/-- A bound tab's draft comes by edits from the request it is bound to. -/
def TabState.Sound (tab : TabState) : Prop :=
  ∀ doc, tab.bound = some doc → doc.id ∈ tab.sources

/-- No save is under way in a tab. -/
def TabSaves.Free (s : TabSaves) (id : Nat) : Prop :=
  ∀ saving ∈ s.saves, saving.underWay = true → saving.tab ≠ id

/-- No request is put into a tab whose save is under way, no save is pressed on a draft that carries
the identity of another request than its tab is bound to, and a pasted command finds the tab it was
pasted into in front, or one that holds no request. -/
def Undisturbed (s : TabSaves) (a : SaveAction) : Prop :=
  match a with
  | .composer action => ∀ id ∈ s.composer.loadTarget action, s.Free id
  | .save =>
      ∀ doc ∈ s.composer.front.bound, ∀ carried ∈ s.composer.front.carried, carried.id = doc.id
  | .parsed n content =>
      (∀ into ∈ s.pastes[n]?, s.composer.active = into ∨ s.composer.front.document = true) ∧
        ∀ id ∈ s.composer.loadTarget (.pasted content), s.Free id
  | .restore id _ => s.Free id
  | _ => True

/-! ## The invariant -/

/-- The tab of a save is as the save left it: the draft it was pressed on, edited, which comes from
what the tab will be bound to. -/
structure TabWaits (saving : Saving) (tab : TabState) : Prop where
  loads : tab.loads = saving.loads
  sources : ∀ id ∈ saving.sources, id ∈ tab.sources
  written : ∀ doc, saving.phase = .written (some doc) → doc.id ∈ tab.sources

/-- What holds of a save. -/
structure SavingKept (s : TabSaves) (saving : Saving) : Prop where
  there : saving.tab < s.composer.next
  waits : saving.underWay = true → TabWaits saving (s.composer.tab saving.tab)
  target : ∀ id, saving.target = some id → id ∈ saving.sources
  carried : ∀ id, saving.target = some id → ∀ carried, saving.carried = some carried →
    carried.id = id

/-- What a run keeps at every step. -/
structure TabSavesInv (s : TabSaves) : Prop where
  sound : ∀ id, (s.composer.tab id).Sound
  saves : ∀ saving ∈ s.saves, SavingKept s saving
  records : ∀ record ∈ s.records, ∀ id, record.2.requestId = some id → id ∈ record.2.sources
  own : ∀ event ∈ s.log, event.Own

/-- A tab that holds what it held waits as before. -/
theorem TabWaits.kept {saving : Saving} {before after : TabState} (h : TabWaits saving before)
    (hloads : after.loads = before.loads) (hsources : before.sources ⊆ after.sources) :
    TabWaits saving after where
  loads := hloads.trans h.loads
  sources id hid := hsources (h.sources id hid)
  written doc hdoc := hsources (h.written doc hdoc)

/-- An unbound tab has nothing to come from. -/
theorem TabState.sound_of_unbound {tab : TabState} (h : tab.bound = none) : tab.Sound := by
  intro doc hdoc
  rw [h] at hdoc
  cases hdoc

theorem TabState.sound_openedSaved (pairsOf : Text → List (Text × Text)) (tab : TabState)
    (doc : RequestDoc) :
    (tab.openedSaved pairsOf doc).Sound := by
  intro other hother
  cases hother
  exact List.mem_singleton.mpr rfl

theorem TabState.sound_openedPast (pairsOf : Text → List (Text × Text)) (tab : TabState)
    (entry : PastRequest) :
    (tab.openedPast pairsOf entry).Sound := by
  apply sound_of_unbound
  unfold openedPast showRecorded
  split
  · rfl
  · rfl

namespace Composer

theorem sound_openTab {s : Composer} (hs : ∀ id, (s.tab id).Sound) {tab : TabState}
    (htab : tab.Sound) (id : Nat) :
    ((s.openTab tab).tab id).Sound := by
  by_cases h : id = s.next
  · rw [h, openTab_tab_self]
    exact htab
  · have hid : (s.openTab tab).tab id = s.tab id := Function.update_of_ne h _ _
    rw [hid]
    exact hs id

theorem sound_close {s : Composer} (hs : ∀ id, (s.tab id).Sound) (closed id : Nat) :
    ((s.close closed).tab id).Sound := by
  unfold close
  dsimp only
  split
  · exact hs id
  · split
    · change (Function.update s.tab s.next {} id).Sound
      by_cases h : id = s.next
      · rw [h, Function.update_self]
        exact TabState.sound_of_unbound rfl
      · rw [Function.update_of_ne h]
        exact hs id
    · exact hs id

/-- A request put into a tab is sound there, whatever the tab held. -/
theorem sound_put {s : Composer} (hs : ∀ id, (s.tab id).Sound) (elsewhere : Bool)
    {f : TabState → TabState} (hf : ∀ tab, (f tab).Sound) (id : Nat) :
    ((s.put elsewhere f).tab id).Sound := by
  unfold put
  rw [update_tab]
  split_ifs with h
  · exact hf _
  · cases elsewhere with
    | false => exact hs id
    | true => exact sound_openTab hs (TabState.sound_of_unbound rfl) id

/-- No action of the user binds a tab to what its draft does not come from. -/
theorem sound_step (pairsOf : Text → List (Text × Text)) {s : Composer}
    (hs : ∀ id, (s.tab id).Sound) (a : ComposerAction) (id : Nat) :
    ((s.step pairsOf a).tab id).Sound := by
  cases a with
  | edit draft =>
      simp only [step, update_tab]
      split_ifs with h
      · exact hs s.active
      · exact hs id
  | newTab => exact sound_openTab hs (TabState.sound_of_unbound rfl) id
  | openDocument => exact sound_openTab hs (TabState.sound_of_unbound rfl) id
  | duplicate =>
      have hcopy : s.front.copy.Sound := hs s.active
      exact sound_openTab hs hcopy id
  | activate other => exact hs id
  | close other => exact sound_close hs other id
  | openSaved doc =>
      change ((s.loadCollectionRequest pairsOf doc).tab id).Sound
      unfold loadCollectionRequest
      split
      · exact hs id
      · exact sound_put hs _ (fun tab => tab.sound_openedSaved pairsOf doc) id
  | openPast entry =>
      change ((s.loadPastRequest pairsOf entry).tab id).Sound
      unfold loadPastRequest
      split_ifs
      · exact hs id
      · exact sound_put hs _ (fun tab => tab.sound_openedPast pairsOf entry) id
  | newRequest =>
      apply sound_put hs s.front.document
      intro tab
      exact TabState.sound_of_unbound rfl
  | pasted content =>
      change ((s.pasted pairsOf content).tab id).Sound
      apply sound_put hs s.front.document
      intro tab
      exact TabState.sound_of_unbound rfl

end Composer

namespace TabSaves

variable {s : TabSaves} {n : Nat} {saving : Saving}

/-- The composer changes: every tab is sound, and the tabs of saves under way wait. -/
theorem inv_composer (hinv : TabSavesInv s) {composer : Composer}
    (hnext : s.composer.next ≤ composer.next) (hsound : ∀ id, (composer.tab id).Sound)
    (hwaits : ∀ saving ∈ s.saves, saving.underWay = true →
      TabWaits saving (composer.tab saving.tab)) :
    TabSavesInv { s with composer } where
  sound := hsound
  saves := by
    intro saving hsaving
    have h := hinv.saves saving hsaving
    exact ⟨h.there.trans_le hnext, hwaits saving hsaving, h.target, h.carried⟩
  records := hinv.records
  own := hinv.own

/-- One tab changes: it is sound, and if its save is under way it waits. -/
theorem inv_update (hinv : TabSavesInv s) (id : Nat) {f : TabState → TabState}
    (hsound : (f (s.composer.tab id)).Sound)
    (hwaits : ∀ saving ∈ s.saves, saving.underWay = true → saving.tab = id →
      TabWaits saving (f (s.composer.tab id))) :
    TabSavesInv { s with composer := s.composer.update id f } := by
  apply inv_composer hinv
  · exact le_rfl
  · intro other
    rw [Composer.update_tab]
    split_ifs
    · exact hsound
    · exact hinv.sound other
  · intro saving hsaving hway
    rw [Composer.update_tab]
    split_ifs with h
    · exact hwaits saving hsaving hway h
    · exact (hinv.saves saving hsaving).waits hway

/-- A save goes on to a phase for which its tab waits. -/
theorem inv_goOn (hinv : TabSavesInv s) (hsaving : SavingKept s saving) (phase : SavePhase)
    (hwaits : phase ≠ .ended → TabWaits { saving with phase } (s.composer.tab saving.tab)) :
    TabSavesInv (s.goOn n saving phase) where
  sound := hinv.sound
  saves := by
    intro other hother
    obtain hold | rfl := List.mem_or_eq_of_mem_set hother
    · have h := hinv.saves other hold
      exact ⟨h.there, h.waits, h.target, h.carried⟩
    · refine ⟨hsaving.there, fun hway => hwaits ?_, hsaving.target, hsaving.carried⟩
      simpa [Saving.underWay] using hway
  records := hinv.records
  own := hinv.own

/-- What is stored is in no part of the invariant. -/
theorem inv_stored (hinv : TabSavesInv s) (stored : List RequestDoc) :
    TabSavesInv { s with stored } where
  sound := hinv.sound
  saves saving hsaving :=
    let h := hinv.saves saving hsaving
    ⟨h.there, h.waits, h.target, h.carried⟩
  records := hinv.records
  own := hinv.own

theorem inv_log (hinv : TabSavesInv s) {event : SaveEvent} (hevent : event.Own) :
    TabSavesInv { s with log := event :: s.log } where
  sound := hinv.sound
  saves saving hsaving :=
    let h := hinv.saves saving hsaving
    ⟨h.there, h.waits, h.target, h.carried⟩
  records := hinv.records
  own := by
    intro other hother
    obtain rfl | hother := List.mem_cons.mp hother
    · exact hevent
    · exact hinv.own other hother

/-- An action of the user on the tabs, none of which is put into a tab whose save is under way. -/
theorem inv_action (hinv : TabSavesInv s) (pairsOf : Text → List (Text × Text))
    {action : ComposerAction} (hfree : ∀ id ∈ s.composer.loadTarget action, s.Free id) :
    TabSavesInv { s with composer := s.composer.step pairsOf action } := by
  apply inv_composer hinv
  · exact s.composer.le_step_next pairsOf action
  · exact Composer.sound_step pairsOf hinv.sound action
  · intro saving hsaving hway
    have h := hinv.saves saving hsaving
    have hkept := Composer.step_kept pairsOf (a := action) h.there
      fun htarget => hfree _ htarget saving hsaving hway rfl
    exact (h.waits hway).kept (congrArg Held.loads hkept.held) (hkept.sources ▸ List.Subset.refl _)

/-- A press of Save or Save as: the draft of the tab in front is what is written. -/
theorem inv_press (hinv : TabSavesInv s) (target : Option Text)
    (htarget : ∀ id, target = some id → id ∈ s.composer.front.sources)
    (hcarried : ∀ id, target = some id → ∀ carried, s.composer.front.carried = some carried →
      carried.id = id) :
    TabSavesInv (s.press target) where
  sound := hinv.sound
  saves := by
    intro saving hsaving
    obtain hsaving | hsaving := List.mem_append.mp hsaving
    · have h := hinv.saves saving hsaving
      exact ⟨h.there, h.waits, h.target, h.carried⟩
    · rw [List.mem_singleton.mp hsaving]
      refine ⟨s.composer.active_lt, fun _ => ⟨rfl, fun _ h => h, ?_⟩, htarget, hcarried⟩
      intro doc hdoc
      cases hdoc
  records := hinv.records
  own := hinv.own

/-- What a save of a request writes has the request's own id. -/
theorem assign_id {stored : List RequestDoc} {id : Text} {content : RequestContent}
    {carried : Option Carried} {doc : RequestDoc}
    (hcarried : ∀ other, carried = some other → other.id = id)
    (hdoc : updateRequest stored id content carried = some doc) : doc.id = id := by
  obtain ⟨found, hfound, rfl⟩ := Option.map_eq_some_iff.mp hdoc
  cases carried with
  | none =>
      have hid := List.find?_some hfound
      exact of_decide_eq_true hid
  | some other => exact hcarried other rfl

/-- A draft that was saved as a request comes from it. -/
theorem inv_note (hinv : TabSavesInv s) (saving : Saving) (id : Text) :
    TabSavesInv { s with composer := s.composer.update saving.tab (saving.note id) } := by
  apply inv_update hinv saving.tab
  · intro doc hdoc
    rw [saving.note_bound] at hdoc
    exact saving.sources_subset_note id _ (hinv.sound saving.tab doc hdoc)
  · intro other hother hway htab
    have h := (hinv.saves other hother).waits hway
    rw [htab] at h
    exact h.kept (saving.note_loads id _) (saving.sources_subset_note id _)

/-- The write of a save. -/
theorem inv_write (hinv : TabSavesInv s) (hsaving : SavingKept s saving)
    (hphase : saving.phase = .approving) (place : NewPlace) {next : TabSaves}
    (hstep : s.write n saving place = some next) : TabSavesInv next := by
  have hway : saving.underWay = true := by simp [Saving.underWay, hphase]
  have hwaits := hsaving.waits hway
  unfold write at hstep
  cases htarget : saving.target with
  | some id =>
      rw [htarget] at hstep
      dsimp only at hstep
      split at hstep
      · cases hstep
        apply inv_goOn hinv hsaving
        intro _
        exact ⟨hwaits.loads, hwaits.sources, fun doc hdoc => by cases hdoc⟩
      · next doc hdoc =>
          cases hstep
          -- The document that is written over is the one the save is of.
          have hid : doc.id = id := assign_id (hsaving.carried id htarget) hdoc
          have hsource : id ∈ saving.sources := hsaving.target id htarget
          have hgoOn : TabSavesInv (s.goOn n saving (.written (some doc))) := by
            apply inv_goOn hinv hsaving
            intro _
            refine ⟨hwaits.loads, hwaits.sources, fun other hother => ?_⟩
            cases hother
            rw [hid]
            exact hwaits.sources id hsource
          have hown : SaveEvent.Own (.wrote doc.id id saving.sources) := ⟨hid, hsource⟩
          exact inv_stored (inv_log hgoOn hown) _
  | none =>
      rw [htarget] at hstep
      dsimp only at hstep
      split_ifs at hstep
      cases hstep
      -- A new request: the tab notes its id before anything is stored.
      have hnoted := inv_note hinv saving place.id
      have hkept :
          SavingKept { s with composer := s.composer.update saving.tab (saving.note place.id) }
            saving := by
        refine ⟨hsaving.there, fun _ => ?_, hsaving.target, hsaving.carried⟩
        change TabWaits saving ((s.composer.update saving.tab _).tab saving.tab)
        rw [Composer.update_tab, if_pos rfl]
        exact hwaits.kept (saving.note_loads _ _) (saving.sources_subset_note _ _)
      have hwritten := inv_goOn (n := n) hnoted hkept
        (.written (some (createRequest place saving.snapshot))) fun _ => ?_
      · exact inv_stored hwritten _
      have hlater := hkept.waits hway
      refine ⟨hlater.loads, hlater.sources, fun other hother => ?_⟩
      cases hother
      change place.id ∈ ((s.composer.update saving.tab _).tab saving.tab).sources
      rw [Composer.update_tab, if_pos rfl, Saving.note, if_pos hwaits.loads]
      exact List.mem_cons_self

/-- The end of a save: its tab is bound to what was written, where its draft comes from. -/
theorem inv_endSave (hinv : TabSavesInv s) (hsaving : SavingKept s saving)
    {doc : Option RequestDoc} (hphase : saving.phase = .written doc) :
    TabSavesInv (s.endSave n saving doc) := by
  have hway : saving.underWay = true := by simp [Saving.underWay, hphase]
  have hended : TabSavesInv (s.goOn n saving .ended) :=
    inv_goOn hinv hsaving _ fun h => absurd rfl h
  cases doc with
  | none => exact hended
  | some doc =>
      apply inv_update hended saving.tab
      · intro other hother
        cases hother
        exact (hsaving.waits hway).written doc hphase
      · intro other hother hotherWay htab
        have h := (hended.saves other hother).waits hotherWay
        rw [htab] at h
        exact h.kept rfl (List.Subset.refl _)

/-- A request is found under its own id. -/
theorem requestOf_id {id : Text} {doc : RequestDoc} (hdoc : s.requestOf id = some doc) :
    doc.id = id := by
  have h := List.find?_some hdoc
  exact of_decide_eq_true h

theorem inv_rebound (hinv : TabSavesInv s) (id : Nat) {was : RequestDoc}
    (hwas : (s.composer.tab id).bound = some was) :
    TabSavesInv { s with
      composer := s.composer.update id fun tab => { tab with bound := s.requestOf was.id } } := by
  apply inv_update hinv id
  · intro doc hdoc
    rw [requestOf_id hdoc]
    exact hinv.sound id was hwas
  · intro saving hsaving hway htab
    have h := (hinv.saves saving hsaving).waits hway
    rw [htab] at h
    exact h.kept rfl (List.Subset.refl _)

theorem inv_restore (hinv : TabSavesInv s) {id : Nat} {record : StoredTab} (hfree : s.Free id)
    (hrecord : (id, record) ∈ s.records) :
    TabSavesInv { s with composer := s.composer.update id (s.restoreTab record) } := by
  apply inv_update hinv id
  · intro doc hdoc
    obtain ⟨requestId, hrequest, hfound⟩ := Option.bind_eq_some_iff.mp hdoc
    rw [requestOf_id hfound]
    exact hinv.records _ hrecord requestId hrequest
  · intro saving hsaving hway htab
    exact absurd htab (hfree saving hsaving hway)

theorem inv_storeTab (hinv : TabSavesInv s) (id : Nat) :
    TabSavesInv { s with records := s.records ++ [(id, record (s.composer.tab id))] } where
  sound := hinv.sound
  saves saving hsaving :=
    let h := hinv.saves saving hsaving
    ⟨h.there, h.waits, h.target, h.carried⟩
  records := by
    intro other hother requestId hrequest
    obtain hother | hother := List.mem_append.mp hother
    · exact hinv.records other hother requestId hrequest
    · rw [List.mem_singleton.mp hother] at hrequest ⊢
      obtain ⟨doc, hdoc, rfl⟩ := Option.map_eq_some_iff.mp hrequest
      exact hinv.sound id doc hdoc
  own := hinv.own

/-- The step lemma. -/
theorem inv_step (pairsOf : Text → List (Text × Text)) {a : SaveAction} {next : TabSaves}
    (hinv : TabSavesInv s) (hundisturbed : Undisturbed s a)
    (hstep : s.step pairsOf a = some next) : TabSavesInv next := by
  unfold step at hstep
  split at hstep
  -- What is pasted is parsed first, and is no step of its own.
  case h_1 => cases hstep
  -- A request of the tree is opened, or another action of the composer taken.
  case h_2 doc =>
    split_ifs at hstep
    cases hstep
    exact inv_action hinv pairsOf hundisturbed
  case h_3 action _ _ =>
    cases hstep
    exact inv_action hinv pairsOf hundisturbed
  -- Others write, and the page reads the tree again.
  case h_4 stored =>
    cases hstep
    exact inv_stored hinv stored
  case h_5 =>
    cases hstep
    exact ⟨hinv.sound, fun saving hsaving =>
      let h := hinv.saves saving hsaving
      ⟨h.there, h.waits, h.target, h.carried⟩, hinv.records, hinv.own⟩
  -- A tab is bound anew, unless a save was faster.
  case h_6 id was =>
    split_ifs at hstep with hwas
    · cases hstep
      exact inv_rebound hinv id hwas
    · cases hstep
      exact hinv
  -- Save: pressed in a bound tab, it writes over the request the tab is bound to.
  case h_7 =>
    split_ifs at hstep
    split at hstep
    · cases hstep
      exact hinv
    · next doc hdoc =>
        cases hstep
        apply inv_press hinv
        · intro id hid
          cases hid
          exact hinv.sound s.composer.active doc hdoc
        · intro id hid carried hcarried
          cases hid
          exact hundisturbed doc hdoc carried hcarried
  -- Save as, which binds the tab to nothing yet.
  case h_8 =>
    split_ifs at hstep
    cases hstep
    apply inv_press hinv
    · intro id hid
      cases hid
    · intro id hid
      cases hid
  -- A save goes on: its write, its failure and its end.
  case h_9 n place =>
    split at hstep
    · next saving hsaving =>
        split_ifs at hstep with hphase
        exact inv_write hinv (hinv.saves saving (List.mem_of_getElem? hsaving)) hphase place hstep
    · cases hstep
  case h_10 n =>
    split at hstep
    · next saving hsaving =>
        split_ifs at hstep
        cases hstep
        exact inv_goOn hinv (hinv.saves saving (List.mem_of_getElem? hsaving)) _
          fun h => absurd rfl h
    · cases hstep
  case h_11 n =>
    split at hstep
    · next saving hsaving =>
        split at hstep
        · next doc hphase =>
            cases hstep
            exact inv_endSave hinv (hinv.saves saving (List.mem_of_getElem? hsaving)) hphase
        · cases hstep
    · cases hstep
  -- A paste begins, and ends in the tab that is active by then.
  case h_12 =>
    split_ifs at hstep
    cases hstep
    exact ⟨hinv.sound, fun saving hsaving =>
      let h := hinv.saves saving hsaving
      ⟨h.there, h.waits, h.target, h.carried⟩, hinv.records, hinv.own⟩
  case h_13 n content =>
    split at hstep
    · cases hstep
    · next into hinto =>
        cases hstep
        have haction := inv_action hinv pairsOf hundisturbed.2
        apply inv_log haction
        obtain hactive | hdocument := hundisturbed.1 into hinto
        · change _ ∨ _
          split_ifs
          · exact Or.inr rfl
          · exact Or.inl hactive
        · exact Or.inr (if_pos hdocument)
  -- The tab is kept with the window, and comes back as it was kept.
  case h_14 id =>
    cases hstep
    exact inv_storeTab hinv id
  case h_15 id record =>
    split_ifs at hstep with hrecord
    cases hstep
    exact inv_restore hinv hundisturbed hrecord.1

end TabSaves

/-- In every run in which saves keep their tabs, drafts carry no other request's identity and pasted
commands find their tab in front, the draft of a bound tab comes by edits from the request it is
bound to, each save writes the request it was pressed for, and a paste replaces no other tab's
draft. -/
theorem run_saves_own (pairsOf : Text → List (Text × Text)) (stored : List RequestDoc)
    {actions : List SaveAction} {s : TabSaves}
    (hundisturbed : Meets (TabSaves.step pairsOf) Undisturbed (TabSaves.start stored) actions)
    (hrun : run (TabSaves.step pairsOf) (TabSaves.start stored) actions = some s) :
    (∀ id, (s.composer.tab id).Sound) ∧ ∀ event ∈ s.log, event.Own := by
  have hstart : TabSavesInv (TabSaves.start stored) := by
    refine ⟨fun id => TabState.sound_of_unbound rfl, ?_, ?_, ?_⟩
    · simp [TabSaves.start]
    · simp [TabSaves.start]
    · simp [TabSaves.start]
  have hstep : ∀ s a next, TabSavesInv s → Undisturbed s a →
      TabSaves.step pairsOf s a = some next → TabSavesInv next := by
    intro s a next hinv hcondition hnext
    exact TabSaves.inv_step pairsOf hinv hcondition hnext
  have hinv := run_induction hstep hstart hundisturbed hrun
  exact ⟨hinv.sound, hinv.own⟩

/-! ## A draft that carries another request's identity -/

instance TabSaves.decidableFree (s : TabSaves) (id : Nat) : Decidable (s.Free id) := by
  unfold TabSaves.Free
  infer_instance

instance decidableUndisturbed (s : TabSaves) (a : SaveAction) : Decidable (Undisturbed s a) := by
  unfold Undisturbed
  split <;> infer_instance

instance SaveEvent.decidableOwn (event : SaveEvent) : Decidable event.Own := by
  cases event <;> unfold SaveEvent.Own <;> infer_instance

/-- A stored request to an address. -/
def storedRequest (id url : String) : RequestDoc where
  id := units id
  collectionId := units "c"
  name := units id
  content := { emptyRequest with url := units url }

/-- The place of a first save. -/
def secondPlace : NewPlace where
  id := units "two"
  collectionId := units "c"
  folderId := none
  name := units "two"

/-- A saved request is edited and saved, while another is opened in a tab of its own. -/
def savedBeside : List SaveAction :=
  [.composer (.openSaved (storedRequest "one" "https://one.test")),
    .composer (.edit { emptyDraft with url := units "https://edited.test" }), .save,
    .composer .newTab, .composer (.openSaved (storedRequest "two" "https://two.test")),
    .write 0 secondPlace, .refresh, .endSave 0]

/-- Each tab keeps its own request. -/
theorem savedBeside_keeps :
    ∃ s, run (TabSaves.step fun _ => []) (TabSaves.start [storedRequest "one" "https://one.test",
        storedRequest "two" "https://two.test"]) savedBeside = some s ∧
      (∀ id, (s.composer.tab id).Sound) ∧ ∀ event ∈ s.log, event.Own := by
  have hrun : (run (TabSaves.step fun _ => [])
      (TabSaves.start [storedRequest "one" "https://one.test",
        storedRequest "two" "https://two.test"]) savedBeside).isSome = true := by
    decide +kernel
  obtain ⟨s, hs⟩ := Option.isSome_iff_exists.mp hrun
  exact ⟨s, hs, run_saves_own _ _ (by decide +kernel) hs⟩

/-- A request is opened from history, saved as a new one, and saved again after an edit. -/
def savedFromHistory : List SaveAction :=
  [.composer (.openPast
      { id := some 1
        template := (storedRequest "one" "https://one.test").content
        carried := some (storedRequest "one" "https://one.test").carried }),
    .saveAs, .write 0 secondPlace, .endSave 0,
    .composer (.edit { emptyDraft with url := units "https://edited.test" }), .save,
    .write 1 secondPlace]

/-- The second save writes over the request that was sent, not the one the tab is bound to. -/
theorem savedFromHistory_writes_over :
    ∃ s, run (TabSaves.step fun _ => []) (TabSaves.start [storedRequest "one" "https://one.test"])
        savedFromHistory = some s ∧
      ¬ ((∀ id, (s.composer.tab id).Sound) ∧ ∀ event ∈ s.log, event.Own) := by
  have h : (run (TabSaves.step fun _ => [])
      (TabSaves.start [storedRequest "one" "https://one.test"]) savedFromHistory).any
        (fun s => s.log.any fun event => decide (¬ event.Own)) = true := by
    decide +kernel
  obtain ⟨s, hs, hany⟩ := exists_run_of_any h
  obtain ⟨event, hevent, hown⟩ := List.any_eq_true.mp hany
  exact ⟨s, hs, fun hall => of_decide_eq_true hown (hall.2 event hevent)⟩

end Wayfarer
