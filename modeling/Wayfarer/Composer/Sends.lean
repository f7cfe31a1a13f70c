import Wayfarer.Auth.RequestAuth
import Wayfarer.Composer.Tabs
import Wayfarer.Library.Run

/-!
# One send, one request

A send holds its tab and reads it again after each wait: the draft once its scripts' digests
are known, the saved request it is bound to at each use. A tab without unsaved changes is
where the next request is opened, whether or not a send of it is on its way. The machine of
this file has the steps of any number of sends between those of the user.

`run_uses_own` says what holds of every run in which no request is put into a tab whose send
is under way (`LeavesSends`): the scripts that run, what the request is built from, the auth
and the variables it is given, the collection its scripts change, the template that history
keeps and the tab its response is shown in are all of the request that the tab held when Send
was pressed.
-/

set_option autoImplicit false

namespace Wayfarer

open Library

/-! ## Sends of tabs -/

/-- What is stored, and changes while sends are on their way. -/
structure SendStores where
  tree : List CollectionTree
  /-- The rows of the active environment. -/
  environment : List Row
  globals : List Row

/-- What a saved request inherits from. -/
def SendStores.ancestors (stores : SendStores) (bound : Option RequestDoc) : List Ancestor :=
  ancestorsFor stores.tree bound

/-- Where the variables of a request get their values. -/
def SendStores.scopes (stores : SendStores) (bound : Option RequestDoc) : ScopeStack :=
  scopesOf stores.environment stores.globals (stores.ancestors bound)

/-- The rows of a collection, as a script leaves them. -/
def changeCollection (tree : List CollectionTree) (id : Text) (rows : List Row) :
    List CollectionTree :=
  tree.map fun entry =>
    if entry.collection.id = id then
      { entry with collection := { entry.collection with variableRows := rows } }
    else entry

/-- The two scripts of a request. -/
inductive ScriptKind where
  | pre
  | post
  deriving DecidableEq

/-- The script of a kind. -/
def Scripts.of (scripts : Scripts) : ScriptKind → Text
  | .pre => scripts.pre
  | .post => scripts.post

/-- The scripts of one kind a send runs, in order, the blank ones left out. -/
def scriptsToRun (inherited : List Ancestor) (draft : RequestContent) (kind : ScriptKind) :
    List Text :=
  (inherited.map (fun ancestor => ancestor.scripts.of kind) ++ [draft.scripts.of kind]).filter
    fun script => trim script ≠ []

/-- What a send takes from its tab when it is pressed. -/
structure Press where
  tab : Nat
  /-- What the tab held, how often its draft had been edited, and what was stored. Only statements
  read them. -/
  held : Held
  edits : Nat
  stores : SendStores
  draft : RequestContent
  /-- What the request inherits, read once: these scripts are checked, and they run. -/
  inherited : List Ancestor
  /-- What history will keep of a request that is not saved: the draft as it was sent. -/
  sent : RequestContent

/-- What a send is executed with, once its scripts are checked. -/
structure TabSpec where
  runScripts : Bool
  template : RequestContent
  /-- What the tab held when the template was read, and how often its draft had been edited. -/
  held : Held
  edits : Nat
  /-- The collection whose variables the scripts read and change. -/
  collectionId : Option Text
  deriving DecidableEq

/-- How far a send is. -/
inductive TabSendPhase where
  /-- The digests of its scripts are computed. -/
  | checking
  /-- These scripts are still to run, for the request as those before left it. -/
  | scripts (kind : ScriptKind) (spec : TabSpec) (content : RequestContent) (left : List Text)
  /-- A script runs, and these follow. -/
  | running (kind : ScriptKind) (spec : TabSpec) (content : RequestContent) (left : List Text)
  /-- The request is built: the vault, the user, a file or a token is waited for. -/
  | building (spec : TabSpec) (content : RequestContent) (retry : Bool)
  | waiting (spec : TabSpec) (content : RequestContent) (retried : Bool)
  /-- The response is shown, and history is written. -/
  | storing
  | ended
  deriving DecidableEq

/-- A send: what it was pressed with, and how far it is. -/
structure TabSend where
  press : Press
  phase : TabSendPhase

/-- The scripts of one kind that a send runs, where they are allowed. -/
def Press.scripts (press : Press) (allowed : Bool) (kind : ScriptKind) : List Text :=
  if allowed then scriptsToRun press.inherited press.draft kind else []

/-- A send whose response is not shown yet. -/
def TabSend.underWay (send : TabSend) : Bool :=
  send.phase ≠ .storing ∧ send.phase ≠ .ended

/-- What a send uses, with the stores as they are then. -/
inductive TabSendUse where
  | ran (press : Press) (kind : ScriptKind) (script : Text)
  | scopes (press : Press) (stores : SendStores) (rows : ScopeStack)
  | inherited (press : Press) (stores : SendStores) (ancestors : List Ancestor)
  /-- The address, the headers and the body are made from the template. -/
  | built (press : Press) (spec : TabSpec)
  | changed (press : Press) (collectionId : Text)
  /-- History keeps the template. -/
  | kept (press : Press) (spec : TabSpec)
  /-- What was sent, or its response, is put into a tab that holds this. -/
  | shown (press : Press) (held : Held)

/-- A template is of the request that the tab held when Send was pressed, as it was then unless
the user has edited it. -/
def TabSpec.Own (spec : TabSpec) (press : Press) : Prop :=
  spec.held = press.held ∧ (spec.edits = press.edits → spec.template = press.sent)

/-- What is used is of the request that the tab held when Send was pressed. -/
def TabSendUse.Own : TabSendUse → Prop
  | .ran press kind script =>
      script ∈ scriptsToRun (press.stores.ancestors press.held.bound) press.draft kind
  | .scopes press stores rows => rows = stores.scopes press.held.bound
  | .inherited press stores ancestors => ancestors = stores.ancestors press.held.bound
  | .built press spec => spec.Own press
  | .changed press collectionId =>
      press.held.bound.map RequestDoc.collectionId = some collectionId
  | .kept press spec => spec.Own press
  | .shown press held => held = press.held

/-- The composer, what is stored, and the sends so far. -/
structure TabSends where
  composer : Composer
  stores : SendStores
  sends : List TabSend
  /-- Newest first. -/
  log : List TabSendUse

/-- What a script leaves. -/
structure ScriptLeft where
  /-- The request as the script left it. -/
  content : RequestContent
  environment : List Row
  globals : List Row
  /-- The rows of the request's collection, where it changed them. -/
  collection : Option (List Row)
  /-- It ended in an error. -/
  failed : Bool

/-- A step of one send. -/
inductive SendStep where
  /-- The digests are known: the scripts run, or are left out. -/
  | checked (allowed : Bool)
  | runScript
  | scriptEnds (left : ScriptLeft)
  | build
  /-- Something that the building waited for came. -/
  | resume
  | built
  | unauthorized
  | answered
  | respond (statusCode : Option Nat) (errorText : Text)
  | stored (key : Option Nat)
  | fail

/-- What can happen next. -/
inductive TabSendAction where
  | composer (action : ComposerAction)
  /-- Someone else changes the environment or the globals. -/
  | edit (environment globals : List Row)
  /-- Send is pressed; `refused`: the address is none that a request can go to. -/
  | press (refused : Bool)
  | send (n : Nat) (step : SendStep)

namespace TabSends

/-! ## Steps -/

/-- A send goes on, and what it used. -/
def goOn (s : TabSends) (n : Nat) (send : TabSend) (phase : TabSendPhase)
    (uses : List TabSendUse) : TabSends :=
  { s with sends := s.sends.set n { send with phase }, log := uses ++ s.log }

/-- A tab is changed by its send. -/
def updateTab (s : TabSends) (id : Nat) (f : TabState → TabState) : TabSends :=
  { s with composer := s.composer.update id f }

/-- The saved request that the tab of a send is bound to now. -/
def boundOf (s : TabSends) (send : TabSend) : Option RequestDoc :=
  (s.composer.tab send.press.tab).bound

/-- What the tab of a send holds now. -/
def heldBy (s : TabSends) (send : TabSend) : Held :=
  (s.composer.tab send.press.tab).held

/-- A reading of the variables for a send. -/
def readScopes (s : TabSends) (send : TabSend) : TabSendUse :=
  .scopes send.press s.stores (s.stores.scopes (s.boundOf send))

/-- A reading of what the request of a send inherits. -/
def readAncestors (s : TabSends) (send : TabSend) : TabSendUse :=
  .inherited send.press s.stores (s.stores.ancestors (s.boundOf send))

/-- `send`: it holds the tab in front, and reads the draft and what it inherits. -/
def press (s : TabSends) (refused : Bool) : TabSends :=
  let id := s.composer.active
  let tab := s.composer.tab id
  if refused then s.updateTab id TabState.resetResponse
  else
    let press : Press :=
      { tab := id
        held := tab.held
        edits := tab.edits
        stores := s.stores
        draft := tab.draft
        inherited := s.stores.ancestors tab.bound
        sent := contentOf tab.draft }
    { s.updateTab id (fun tab => { tab with loadingState := true }) with
      sends := s.sends ++ [{ press, phase := .checking }] }

/-- `exchange` goes on once the scripts are checked. -/
def exchange (s : TabSends) (n : Nat) (send : TabSend) (allowed : Bool) : TabSends :=
  let tab := s.composer.tab send.press.tab
  let spec : TabSpec :=
    { runScripts := allowed
      template := contentOf tab.draft
      held := tab.held
      edits := tab.edits
      collectionId := tab.bound.map RequestDoc.collectionId }
  let scripts := send.press.scripts allowed .pre
  -- What a script may move the request away from: the request before the first of them.
  let composed := if scripts ≠ [] then [s.readScopes send] else []
  s.goOn n send (.scripts .pre spec spec.template scripts) composed

/-- A script has run: its changes are stored, scope by scope. -/
def applyScript (s : TabSends) (n : Nat) (send : TabSend) (kind : ScriptKind) (spec : TabSpec)
    (content : RequestContent) (left : List Text) (script : ScriptLeft) : TabSends :=
  let content := if kind = .pre then script.content else content
  let stored := { s.stores with environment := script.environment, globals := script.globals }
  match spec.collectionId, script.collection with
  | some id, some rows =>
      { s.goOn n send (.scripts kind spec content left) [.changed send.press id] with
        stores := { stored with tree := changeCollection stored.tree id rows } }
  | _, _ => { s.goOn n send (.scripts kind spec content left) [] with stores := stored }

/-- Nothing was sent, or nothing came: the tab shows no response. -/
def failed (s : TabSends) (n : Nat) (send : TabSend) : TabSends :=
  (s.goOn n send .ended []).updateTab send.press.tab fun tab =>
    { tab.resetResponse with loadingState := false }

/-- The auth asks for one more send of a 401. -/
def retriesUnauthorized (auth : AuthConfig) : Bool :=
  match auth with
  | .oauth2 auth => auth.retryOn401
  | _ => false

/-- The request is built: it is noted for the tab's export. -/
def recordForExport (s : TabSends) (n : Nat) (send : TabSend) (spec : TabSpec)
    (content : RequestContent) (retry : Bool) : TabSends :=
  s.goOn n send (.waiting spec content retry)
    [.shown send.press (s.heldBy send), .built send.press spec]

/-- An answer came, and no other is sent for: the post-response scripts are next. -/
def answer (s : TabSends) (n : Nat) (send : TabSend) (spec : TabSpec)
    (content : RequestContent) : TabSends :=
  s.goOn n send (.scripts .post spec content (send.press.scripts spec.runScripts .post)) []

/-- The response is shown, and history keeps the template. -/
def respond (s : TabSends) (n : Nat) (send : TabSend) (spec : TabSpec)
    (statusCode : Option Nat) (errorText : Text) : TabSends :=
  (s.goOn n send .storing
      [.shown send.press (s.heldBy send), .kept send.press spec]).updateTab send.press.tab
    fun tab =>
      { tab with loadingState := false, responseStatusCode := statusCode,
                 responseError := errorText }

/-- History is written: a tab that is not saved is not marked unsaved for what was sent. -/
def stored (s : TabSends) (n : Nat) (send : TabSend) (key : Option Nat) : TabSends :=
  (s.goOn n send .ended []).updateTab send.press.tab fun tab =>
    let tab := { tab with historyKey := key }
    if tab.bound.isNone && key.isSome then { tab with baseline := send.press.sent } else tab

/-- A step of one send. -/
def advance (s : TabSends) (n : Nat) (send : TabSend) (step : SendStep) : Option TabSends :=
  match step, send.phase with
  | .checked allowed, .checking => some (s.exchange n send allowed)
  | .runScript, .scripts kind spec content (script :: left) =>
      some (s.goOn n send (.running kind spec content left)
        [.ran send.press kind script, s.readScopes send])
  | .scriptEnds script, .running kind spec content left =>
      let next := s.applyScript n send kind spec content left script
      -- A pre-request script that ended in an error: the request is not sent.
      some (if kind = .pre && script.failed then next.failed n send else next)
  | .build, .scripts .pre spec content [] =>
      some (s.goOn n send (.building spec content false)
        [s.readAncestors send, s.readScopes send])
  | .resume, .building spec content retry =>
      some (s.goOn n send (.building spec content retry) [s.readScopes send])
  | .built, .building spec content retry =>
      some (s.recordForExport n send spec content retry)
  | .unauthorized, .waiting spec content false =>
      -- The request built again with a renewed token, when the auth asks for it.
      if retriesUnauthorized
          (effectiveAuth content.auth (s.stores.ancestors (s.boundOf send))) then
        some (s.goOn n send (.building spec content true)
          [s.readAncestors send, s.readScopes send])
      else none
  | .answered, .waiting spec content _ => some (s.answer n send spec content)
  -- The request could not be built again: the 401 is the response.
  | .answered, .building spec content true => some (s.answer n send spec content)
  | .respond statusCode errorText, .scripts .post spec _ [] =>
      some (s.respond n send spec statusCode errorText)
  | .stored key, .storing => some (s.stored n send key)
  | .fail, _ => if send.underWay then some (s.failed n send) else none
  | _, _ => none

/-- The step of the machine. -/
def step (pairsOf : Text → List (Text × Text)) (s : TabSends) : TabSendAction → Option TabSends
  | .composer action => some { s with composer := s.composer.step pairsOf action }
  | .edit environment globals => some { s with stores := { s.stores with environment, globals } }
  | .press refused => if s.composer.front.document then none else some (s.press refused)
  | .send n action => s.sends[n]?.bind fun send => s.advance n send action

/-- No send is on its way. -/
def start (composer : Composer) (stores : SendStores) : TabSends where
  composer := composer
  stores := stores
  sends := []
  log := []

end TabSends

/-! ## The law -/

/-- The action puts no request into a tab whose send is under way. -/
def LeavesSends (s : TabSends) (a : TabSendAction) : Prop :=
  match a with
  | .composer action =>
      ∀ send ∈ s.sends, send.underWay = true →
        s.composer.loadTarget action ≠ some send.press.tab
  | _ => True

/-! ## The invariant -/

/-- What a send is executed with is of the request it was pressed for. -/
def SpecKept (press : Press) (spec : TabSpec) : Prop :=
  spec.Own press ∧ spec.collectionId = press.held.bound.map RequestDoc.collectionId

/-- The scripts that are left are the request's. -/
def ScriptsKept (press : Press) (kind : ScriptKind) (left : List Text) : Prop :=
  ∀ script ∈ left, script ∈ scriptsToRun press.inherited press.draft kind

/-- A send starts with scripts of its request. -/
theorem scriptsKept_scripts (press : Press) (allowed : Bool) (kind : ScriptKind) :
    ScriptsKept press kind (press.scripts allowed kind) := by
  intro script hscript
  unfold Press.scripts at hscript
  split_ifs at hscript
  · exact hscript
  · simp at hscript

/-- What holds of how far a send is. -/
def PhaseKept (press : Press) : TabSendPhase → Prop
  | .checking => True
  | .scripts kind spec _ left => SpecKept press spec ∧ ScriptsKept press kind left
  | .running kind spec _ left => SpecKept press spec ∧ ScriptsKept press kind left
  | .building spec _ _ => SpecKept press spec
  | .waiting spec _ _ => SpecKept press spec
  | .storing => True
  | .ended => True

/-- The tab of a send holds what it held at the press, and its draft is as it was then unless it
was edited. -/
structure TabKept (press : Press) (tab : TabState) : Prop where
  held : tab.held = press.held
  edits : press.edits ≤ tab.edits
  draft : tab.edits = press.edits → contentOf tab.draft = press.sent

/-- What holds of a send: until its response is shown its tab holds what it was pressed with. -/
structure SendKept (s : TabSends) (send : TabSend) : Prop where
  there : send.press.tab < s.composer.next
  tab : send.underWay = true → TabKept send.press (s.composer.tab send.press.tab)
  inherited : send.press.inherited = send.press.stores.ancestors send.press.held.bound
  phase : PhaseKept send.press send.phase

/-- What a run keeps at every step. -/
structure TabSendsInv (s : TabSends) : Prop where
  sends : ∀ send ∈ s.sends, SendKept s send
  own : ∀ use ∈ s.log, use.Own

namespace TabSends

variable {s : TabSends} {n : Nat} {send : TabSend}

/-- The tab of a send under way is bound to what it was bound to at the press. -/
theorem boundOf_eq (hsend : SendKept s send) (hway : send.underWay = true) :
    s.boundOf send = send.press.held.bound :=
  congrArg Held.bound (hsend.tab hway).held

theorem own_readScopes (hsend : SendKept s send) (hway : send.underWay = true) :
    (s.readScopes send).Own := by
  change s.stores.scopes (s.boundOf send) = _
  rw [boundOf_eq hsend hway]

theorem own_readAncestors (hsend : SendKept s send) (hway : send.underWay = true) :
    (s.readAncestors send).Own := by
  change s.stores.ancestors (s.boundOf send) = _
  rw [boundOf_eq hsend hway]

/-- What holds of a send is about the tabs. -/
theorem sendKept_of_composer {s' : TabSends} (hsend : SendKept s send)
    (hcomposer : s'.composer = s.composer) : SendKept s' send := by
  refine ⟨?_, fun hway => ?_, hsend.inherited, hsend.phase⟩
  · rw [hcomposer]
    exact hsend.there
  · rw [hcomposer]
    exact hsend.tab hway

/-- The step lemma of a send: it goes on to a phase in order, and what it used is its own. -/
theorem inv_goOn (hinv : TabSendsInv s) (hsend : SendKept s send) {phase : TabSendPhase}
    {uses : List TabSendUse} (hway : send.underWay = true ∨ phase = .ended)
    (hphase : PhaseKept send.press phase) (huses : ∀ use ∈ uses, use.Own) :
    TabSendsInv (s.goOn n send phase uses) where
  sends := by
    intro other hother
    obtain hold | rfl := List.mem_or_eq_of_mem_set hother
    · exact sendKept_of_composer (hinv.sends other hold) rfl
    · refine ⟨hsend.there, fun hlater => ?_, hsend.inherited, hphase⟩
      obtain hway | rfl := hway
      · exact hsend.tab hway
      · simp [TabSend.underWay] at hlater
  own := by
    intro use huse
    obtain huse | huse := List.mem_append.mp huse
    · exact huses use huse
    · exact hinv.own use huse

/-- A tab that is changed, but for what it holds and its draft. -/
theorem tabKept_updateTab (s : TabSends) {press : Press} (id : Nat) (f : TabState → TabState)
    (hf : ∀ tab, (f tab).held = tab.held ∧ (f tab).edits = tab.edits ∧ (f tab).draft = tab.draft)
    (h : TabKept press (s.composer.tab press.tab)) :
    TabKept press ((s.updateTab id f).composer.tab press.tab) := by
  unfold updateTab
  rw [Composer.update_tab]
  split_ifs with heq
  · rw [heq] at h
    obtain ⟨hheld, hedits, hdraft⟩ := hf (s.composer.tab id)
    refine ⟨hheld.trans h.held, ?_, ?_⟩
    · rw [hedits]
      exact h.edits
    · rw [hedits, hdraft]
      exact h.draft
  · exact h

/-- A send that changes its tab, but for what the tab holds and its draft. -/
theorem inv_updateTab (hinv : TabSendsInv s) (id : Nat) (f : TabState → TabState)
    (hf : ∀ tab, (f tab).held = tab.held ∧ (f tab).edits = tab.edits ∧
      (f tab).draft = tab.draft) :
    TabSendsInv (s.updateTab id f) where
  sends := by
    intro other hother
    have h := hinv.sends other hother
    exact ⟨h.there, fun hway => tabKept_updateTab s id f hf (h.tab hway), h.inherited, h.phase⟩
  own := hinv.own

/-- What is stored is in no part of the invariant. -/
theorem inv_stores (hinv : TabSendsInv s) (stores : SendStores) :
    TabSendsInv { s with stores } where
  sends := fun other hother => sendKept_of_composer (hinv.sends other hother) rfl
  own := hinv.own

theorem inv_failed (hinv : TabSendsInv s) (hsend : SendKept s send) :
    TabSendsInv (s.failed n send) := by
  apply inv_updateTab
  · exact inv_goOn hinv hsend (Or.inr rfl) trivial (by simp)
  · intro tab
    exact ⟨rfl, rfl, rfl⟩

theorem inv_exchange (hinv : TabSendsInv s) (hsend : SendKept s send)
    (hway : send.underWay = true) (allowed : Bool) :
    TabSendsInv (s.exchange n send allowed) := by
  have hbound := boundOf_eq hsend hway
  apply inv_goOn hinv hsend (Or.inl hway)
  · have htab := hsend.tab hway
    refine ⟨⟨⟨htab.held, htab.draft⟩, ?_⟩, scriptsKept_scripts _ _ _⟩
    exact congrArg (Option.map RequestDoc.collectionId) hbound
  · intro use huse
    split at huse
    · rw [List.mem_singleton.mp huse]
      exact own_readScopes hsend hway
    · simp at huse

theorem inv_applyScript (hinv : TabSendsInv s) (hsend : SendKept s send)
    (hway : send.underWay = true) {kind : ScriptKind} {spec : TabSpec} {content : RequestContent}
    {left : List Text} (script : ScriptLeft) (hspec : SpecKept send.press spec)
    (hleft : ScriptsKept send.press kind left) :
    TabSendsInv (s.applyScript n send kind spec content left script) := by
  unfold applyScript
  dsimp only
  split
  · next id rows hcollection hrows =>
      apply inv_stores
      apply inv_goOn hinv hsend (Or.inl hway)
      · exact ⟨hspec, hleft⟩
      · intro use huse
        rw [List.mem_singleton.mp huse]
        exact hspec.2.symm.trans hcollection
  · apply inv_stores
    apply inv_goOn hinv hsend (Or.inl hway)
    · exact ⟨hspec, hleft⟩
    · simp

@[simp]
theorem applyScript_composer (s : TabSends) (n : Nat) (send : TabSend) (kind : ScriptKind)
    (spec : TabSpec) (content : RequestContent) (left : List Text) (script : ScriptLeft) :
    (s.applyScript n send kind spec content left script).composer = s.composer := by
  unfold applyScript
  dsimp only
  split
  · rfl
  · rfl

theorem inv_answer (hinv : TabSendsInv s) (hsend : SendKept s send)
    (hway : send.underWay = true) {spec : TabSpec} (content : RequestContent)
    (hspec : SpecKept send.press spec) :
    TabSendsInv (s.answer n send spec content) := by
  apply inv_goOn hinv hsend (Or.inl hway)
  · exact ⟨hspec, scriptsKept_scripts _ _ _⟩
  · simp

/-- A request starts to be built: what it inherits is read, and the variables. -/
theorem inv_reads (hinv : TabSendsInv s) (hsend : SendKept s send)
    (hway : send.underWay = true) {spec : TabSpec} {content : RequestContent} {retry : Bool}
    (hspec : SpecKept send.press spec) :
    TabSendsInv (s.goOn n send (.building spec content retry)
      [s.readAncestors send, s.readScopes send]) := by
  apply inv_goOn hinv hsend (Or.inl hway)
  · exact hspec
  · intro use huse
    obtain rfl | huse := List.mem_cons.mp huse
    · exact own_readAncestors hsend hway
    · rw [List.mem_singleton.mp huse]
      exact own_readScopes hsend hway

theorem inv_respond (hinv : TabSendsInv s) (hsend : SendKept s send)
    (hway : send.underWay = true) {spec : TabSpec} (hspec : SpecKept send.press spec)
    (statusCode : Option Nat) (errorText : Text) :
    TabSendsInv (s.respond n send spec statusCode errorText) := by
  apply inv_updateTab
  · apply inv_goOn hinv hsend (Or.inl hway)
    · trivial
    · intro use huse
      obtain rfl | huse := List.mem_cons.mp huse
      · exact (hsend.tab hway).held
      · rw [List.mem_singleton.mp huse]
        exact hspec.1
  · intro tab
    exact ⟨rfl, rfl, rfl⟩

theorem inv_press (hinv : TabSendsInv s) (refused : Bool) :
    TabSendsInv (s.press refused) := by
  unfold press
  dsimp only
  split_ifs
  · exact inv_updateTab hinv _ _ fun tab => ⟨rfl, rfl, rfl⟩
  · let sending := fun tab : TabState => { tab with loadingState := true }
    have htab := inv_updateTab hinv s.composer.active sending fun tab => ⟨rfl, rfl, rfl⟩
    refine ⟨fun send hsend => ?_, htab.own⟩
    obtain hsend | hsend := List.mem_append.mp hsend
    · exact sendKept_of_composer (htab.sends send hsend) rfl
    · rw [List.mem_singleton.mp hsend]
      refine ⟨s.composer.active_lt, fun _ => ?_, rfl, trivial⟩
      exact tabKept_updateTab s s.composer.active sending (fun tab => ⟨rfl, rfl, rfl⟩)
        ⟨rfl, le_rfl, fun _ => rfl⟩

/-- Each step of a send keeps the invariant. -/
theorem inv_advance (hinv : TabSendsInv s) (hsend : SendKept s send) {step : SendStep}
    {next : TabSends} (hstep : s.advance n send step = some next) : TabSendsInv next := by
  have hphase := hsend.phase
  have hway : send.phase ≠ .storing → send.phase ≠ .ended → send.underWay = true := by
    intro hstoring hended
    simp [TabSend.underWay, hstoring, hended]
  unfold advance at hstep
  split at hstep
  -- The press is checked, and the send begins.
  case h_1 allowed hp =>
    cases hstep
    exact inv_exchange hinv hsend (hway (by simp [hp]) (by simp [hp])) allowed
  -- A script is run, of those the request inherits, with the variables as they are now.
  case h_2 kind spec content script left hp =>
    cases hstep
    rw [hp] at hphase
    replace hway := hway (by simp [hp]) (by simp [hp])
    apply inv_goOn hinv hsend (Or.inl hway)
    · exact ⟨hphase.1, fun other hother => hphase.2 other (List.mem_cons_of_mem _ hother)⟩
    · intro use huse
      obtain rfl | huse := List.mem_cons.mp huse
      · change script ∈ scriptsToRun _ _ kind
        rw [← hsend.inherited]
        exact hphase.2 script List.mem_cons_self
      · rw [List.mem_singleton.mp huse]
        exact own_readScopes hsend hway
  -- It ends; one before the request that failed ends the send.
  case h_3 script kind spec content left hp =>
    cases hstep
    rw [hp] at hphase
    have hnext : TabSendsInv (s.applyScript n send kind spec content left script) :=
      inv_applyScript hinv hsend (hway (by simp [hp]) (by simp [hp])) script hphase.1 hphase.2
    split_ifs
    · exact inv_failed hnext (sendKept_of_composer hsend (applyScript_composer ..))
    · exact hnext
  -- The request is built, again where its secrets were unlocked meanwhile.
  case h_4 spec content hp =>
    cases hstep
    rw [hp] at hphase
    exact inv_reads hinv hsend (hway (by simp [hp]) (by simp [hp])) hphase.1
  case h_5 spec content retry hp =>
    cases hstep
    rw [hp] at hphase
    replace hway := hway (by simp [hp]) (by simp [hp])
    apply inv_goOn hinv hsend (Or.inl hway)
    · exact hphase
    · intro use huse
      rw [List.mem_singleton.mp huse]
      exact own_readScopes hsend hway
  -- It is on its way: noted for the export, and built once more after a 401.
  case h_6 spec content retry hp =>
    cases hstep
    rw [hp] at hphase
    replace hway := hway (by simp [hp]) (by simp [hp])
    apply inv_goOn hinv hsend (Or.inl hway)
    · exact hphase
    · intro use huse
      obtain rfl | huse := List.mem_cons.mp huse
      · exact (hsend.tab hway).held
      · rw [List.mem_singleton.mp huse]
        exact hphase.1
  case h_7 spec content hp =>
    rw [hp] at hphase
    split_ifs at hstep
    cases hstep
    exact inv_reads hinv hsend (hway (by simp [hp]) (by simp [hp])) hphase
  -- An answer, the first or the one the second try ends with.
  case h_8 spec content retried hp =>
    cases hstep
    rw [hp] at hphase
    exact inv_answer hinv hsend (hway (by simp [hp]) (by simp [hp])) content hphase
  case h_9 spec content hp =>
    cases hstep
    rw [hp] at hphase
    exact inv_answer hinv hsend (hway (by simp [hp]) (by simp [hp])) content hphase
  -- The scripts after it are through, and the history entry is written.
  case h_10 statusCode errorText spec content hp =>
    cases hstep
    rw [hp] at hphase
    exact inv_respond hinv hsend (hway (by simp [hp]) (by simp [hp])) hphase.1 statusCode errorText
  case h_11 key hp =>
    cases hstep
    apply inv_updateTab
    · exact inv_goOn hinv hsend (Or.inr rfl) trivial (by simp)
    · intro tab
      dsimp only
      split_ifs
      · exact ⟨rfl, rfl, rfl⟩
      · exact ⟨rfl, rfl, rfl⟩
  -- A send that is under way can fail at any point.
  case h_12 =>
    split_ifs at hstep
    cases hstep
    exact inv_failed hinv hsend
  case h_13 => cases hstep

/-- A tab that keeps what it holds, edited or not, is still as the press left it. -/
theorem tabKept_step {press : Press} {before after : TabState} (h : TabKept press before)
    (hkept : Composer.Kept before after) : TabKept press after := by
  obtain ⟨hheld, -, ⟨hdraft, hedits⟩ | hedits⟩ := hkept
  · refine ⟨hheld.trans h.held, ?_, ?_⟩
    · rw [hedits]
      exact h.edits
    · rw [hedits, hdraft]
      exact h.draft
  · have hle := h.edits
    refine ⟨hheld.trans h.held, ?_, ?_⟩
    · omega
    · intro hsame
      omega

/-- An action of the user that leaves the tabs of sends under way keeps the invariant. -/
theorem inv_composer (hinv : TabSendsInv s) (pairsOf : Text → List (Text × Text))
    {action : ComposerAction} (hleaves : LeavesSends s (.composer action)) :
    TabSendsInv { s with composer := s.composer.step pairsOf action } where
  sends := by
    intro send hsend
    have h := hinv.sends send hsend
    refine ⟨h.there.trans_le (s.composer.le_step_next pairsOf action), fun hway => ?_,
      h.inherited, h.phase⟩
    exact tabKept_step (h.tab hway)
      (Composer.step_kept pairsOf h.there (hleaves send hsend hway))
  own := hinv.own

/-- The step lemma. -/
theorem inv_step (pairsOf : Text → List (Text × Text)) {a : TabSendAction} {next : TabSends}
    (hinv : TabSendsInv s) (hleaves : LeavesSends s a) (hstep : s.step pairsOf a = some next) :
    TabSendsInv next := by
  cases a with
  | composer action =>
      cases hstep
      exact inv_composer hinv pairsOf hleaves
  | edit environment globals =>
      cases hstep
      exact inv_stores hinv _
  | press refused =>
      simp only [step] at hstep
      split_ifs at hstep
      cases hstep
      exact inv_press hinv refused
  | send n action =>
      obtain ⟨send, hsend, hadvance⟩ := Option.bind_eq_some_iff.mp hstep
      exact inv_advance hinv (hinv.sends send (List.mem_of_getElem? hsend)) hadvance

end TabSends

/-- In every run in which no request is put into a tab whose send is under way, everything a send
uses is of the request its tab held when Send was pressed. -/
theorem run_uses_own (pairsOf : Text → List (Text × Text)) (composer : Composer)
    (stores : SendStores) {actions : List TabSendAction} {s : TabSends}
    (hleaves : Meets (TabSends.step pairsOf) LeavesSends (TabSends.start composer stores) actions)
    (hrun : run (TabSends.step pairsOf) (TabSends.start composer stores) actions = some s) :
    ∀ use ∈ s.log, use.Own := by
  have hstart : TabSendsInv (TabSends.start composer stores) :=
    ⟨by simp [TabSends.start], by simp [TabSends.start]⟩
  have hstep : ∀ s a next, TabSendsInv s → LeavesSends s a →
      TabSends.step pairsOf s a = some next → TabSendsInv next := by
    intro s a next hinv hcondition hnext
    exact TabSends.inv_step pairsOf hinv hcondition hnext
  exact (run_induction hstep hstart hleaves hrun).own

/-! ## A request opened in the tab of a send -/

instance decidableLeavesSends (s : TabSends) (a : TabSendAction) : Decidable (LeavesSends s a) := by
  unfold LeavesSends
  split <;> infer_instance

instance TabSpec.decidableOwn (spec : TabSpec) (press : Press) : Decidable (spec.Own press) := by
  unfold TabSpec.Own
  infer_instance

instance TabSendUse.decidableOwn (use : TabSendUse) : Decidable use.Own := by
  cases use <;> unfold TabSendUse.Own <;> infer_instance

/-- A collection with one saved request, which inherits an OAuth 2.0 auth that retries a 401. -/
def sharedTree (id client : String) : CollectionTree where
  collection :=
    { id := units id
      name := units id
      auth := .oauth2
        { grant := .clientCredentials, authUrl := [], tokenUrl := units "https://id.test/"
          clientId := units client, clientSecret := [], scope := [], username := []
          password := [], clientAuth := .body, retryOn401 := true }
      scriptTrust := { trusted := true } }
  requests :=
    [{ id := units id
       collectionId := units id
       name := units id
       content := { emptyRequest with url := units "https://api.test/", auth := .inherit } }]

/-- Two such collections. -/
def twoStores : SendStores where
  tree := [sharedTree "one" "first", sharedTree "two" "second"]
  environment := []
  globals := []

/-- The saved request of a collection is opened. -/
def openFrom (entry : CollectionTree) : List TabSendAction :=
  entry.requests.map fun doc => .composer (.openSaved doc)

/-- A request is opened and sent; `meanwhile` happens before its 401 comes and it is built again. -/
def retriedSend (meanwhile : List TabSendAction) : List TabSendAction :=
  openFrom (sharedTree "one" "first") ++
    [.press false, .send 0 (.checked true), .send 0 .build, .send 0 .built] ++ meanwhile ++
    [.send 0 .unauthorized]

/-- The other request opened in a tab of its own leaves the send what it was pressed with. -/
theorem retriedSend_uses_own :
    ∃ s, run (TabSends.step fun _ => []) (TabSends.start Composer.start twoStores)
        (retriedSend (.composer .newTab :: openFrom (sharedTree "two" "second"))) = some s ∧
      ∀ use ∈ s.log, use.Own := by
  have hrun : (run (TabSends.step fun _ => []) (TabSends.start Composer.start twoStores)
      (retriedSend (.composer .newTab :: openFrom (sharedTree "two" "second")))).isSome = true := by
    decide +kernel
  obtain ⟨s, hs⟩ := Option.isSome_iff_exists.mp hrun
  exact ⟨s, hs, run_uses_own _ _ _ (by decide +kernel) hs⟩

/-- Opened in the tab of the send, it gives the send its own collection's auth. -/
theorem retriedSend_uses_another :
    ∃ s, run (TabSends.step fun _ => []) (TabSends.start Composer.start twoStores)
        (retriedSend (openFrom (sharedTree "two" "second"))) = some s ∧
      ¬ ∀ use ∈ s.log, use.Own := by
  have h : (run (TabSends.step fun _ => []) (TabSends.start Composer.start twoStores)
      (retriedSend (openFrom (sharedTree "two" "second")))).any
        (fun s => s.log.any fun use => decide (¬ use.Own)) = true := by
    decide +kernel
  obtain ⟨s, hs, hany⟩ := exists_run_of_any h
  obtain ⟨use, huse, hown⟩ := List.any_eq_true.mp hany
  exact ⟨s, hs, fun hall => of_decide_eq_true hown (hall use huse)⟩

end Wayfarer
