import Wayfarer.Library.Run
import Wayfarer.Run.Runner
import Wayfarer.Send.Composed
import Wayfarer.Send.Transmit

/-!
# Which host a vault secret goes to

A send compares the host its request is about to go to with the host of the request as it
was composed, asks the user where the two differ, reads the vault and builds the request
with the variables as they are by then. A machine of such sends, one after another as a
collection run makes them, with the edits of everyone else between any two steps: another
tab, a script, the user. A single send is a run of one request without a baseline.

The comparison and the build read the variables at two moments, and a retry after a 401 is
not compared at all. `run_keeps_hosts` says what holds of every run in which the address
still goes where it went when it was compared (`HostSteady`): a secret goes only to the
composed host or to one the user accepted, a host once accepted is not asked about again,
and a refusal is the last thing a run does.
-/

set_option autoImplicit false

namespace Wayfarer

open Library

/-! ## Sends of a run -/

/-- A request as the run holds it. -/
structure SendDoc where
  request : RunRequest
  content : RequestContent
  /-- A script runs before it, its own or an inherited one. -/
  preScripts : Bool

/-- What a run is made with. -/
structure SendSetting where
  platform : Platform
  docs : List SendDoc
  options : RunOptions
  /-- The variables as the run started; absent for a single send. -/
  baseline : Option ScopeStack

/-- The requests of a run, as the run knows them. -/
def SendSetting.requests (setting : SendSetting) : List RunRequest :=
  setting.docs.map SendDoc.request

/-- The request a run sends next, with what it holds of it. -/
def SendSetting.current (setting : SendSetting) (runner : Runner) : Option SendDoc :=
  if runner.ended.isSome then none else runner.at'.bind fun place => setting.docs[place]?

/-- What is built: the request as its scripts left it, what building it needs, and what it was
composed as. `home` is the host that resolved to when the two were compared. -/
structure SendJob where
  request : RunRequest
  content : RequestContent
  context : BuildContext
  composed : Option Composed
  home : Option Text

/-- How far a send is. -/
inductive SendPhase where
  | idle
  /-- The pre-request scripts run. -/
  | scripts (request : RunRequest) (composed : Option Composed)
  /-- The user is asked about a host. -/
  | asking (job : SendJob) (ids : List Text) (home away : Text)
  /-- The vault is read for a request whose address went to `host`. -/
  | reading (job : SendJob) (ids : List Text) (host : Text)
  /-- The request is on its way. `cleared`: the host it was compared at, if the vault was read. -/
  | waiting (job : SendJob) (cleared : Option Text) (retried : Bool)
  /-- The vault is read for the one more send of a 401. -/
  | rereading (job : SendJob) (cleared : Option Text) (ids : List Text)

/-- What a run does that can be seen from outside. -/
inductive HostEvent where
  | began (request : RunRequest)
  /-- The user was asked whether the request may go to `away`. -/
  | asked (home away : Text) (yes : Bool)
  /-- A request was handed to the transport. -/
  | handed (composed : Bool) (home : Option Text) (request : BuiltRequest)

/-- A run, and the variables everyone shares. -/
structure SendState where
  scopes : ScopeStack
  runner : Runner
  aborted : Bool
  /-- The hosts the user said yes to in this run. -/
  accepted : List Text
  phase : SendPhase
  /-- Newest first. -/
  log : List HostEvent

/-- What can happen next: a step of the send, or of anyone else. A resolver draws the dynamic
values it is given; the vault, the files and the tokens answer as the action says. -/
inductive HostAction where
  /-- A script, the user or another tab changes the variables. -/
  | edit (scopes : ScopeStack)
  | abort
  | begin
  /-- The scripts have run: the request is compared, and built where it needs no secret. -/
  | build (content : RequestContent) (context : BuildContext) (dynamic : Nat → Nat → Text → Text)
  | answer (yes : Bool)
  /-- The vault has been read: the request is built. -/
  | read (vault : Text → Option Text) (dynamic : Nat → Text → Text)
  /-- A 401 came. -/
  | unauthorized (context : BuildContext) (dynamic : Nat → Nat → Text → Text)
  | reread (vault : Text → Option Text) (dynamic : Nat → Text → Text)
  /-- The send ends: with a response, or without one. -/
  | stop (outcome : RunOutcome)

/-! ## Steps -/

/-- What a run says where it ends because the user declined a host. -/
def runDeclined : Text :=
  units ("Nothing was sent: you chose not to send a vault secret to the host the pre-request " ++
    "script set.")

/-- The outcome of a request that was not sent. -/
def refusedOutcome (message : Text) : RunOutcome :=
  { error := some message }

/-- The request as it was composed: under the variables of the run's start or, for a single send,
before its first script. -/
def SendSetting.composedAt (setting : SendSetting) (scopes : ScopeStack) (doc : SendDoc) :
    Option Composed :=
  match setting.baseline with
  | some baseline =>
      some { url := doc.content.url
             scopes := { environment := baseline.environment, collection := baseline.collection,
                         global := baseline.global, folder := scopes.folder,
                         data := scopes.data } }
  | none => if doc.preScripts then some { url := doc.content.url, scopes } else none

/-- The end of a send: what it came to decides what the run does next. -/
def SendState.finished (setting : SendSetting) (s : SendState) (request : RunRequest)
    (outcome : RunOutcome) : SendState :=
  { s with
    phase := .idle
    runner := s.runner.afterSend setting.requests setting.options request outcome s.aborted }

/-- The request built with a resolver, looked over and handed to the transport. -/
def SendState.hand (setting : SendSetting) (s : SendState) (job : SendJob) (r : Resolver)
    (cleared : Option Text) : SendState :=
  match checked setting.platform job.content r { job.context with scopes := s.scopes } with
  | .error error => s.finished setting job.request (refusedOutcome error.message)
  | .ok draft =>
      let request := draft.request setting.platform
      if containsSecretPlaceholder request.wire then
        s.finished setting job.request (refusedOutcome secretPlaceholderBlocked)
      else
        { s with
          phase := .waiting job cleared false
          log := .handed job.composed.isSome job.home request :: s.log }

/-- The request built once more after a 401. One that cannot be built or that the check stops is
not sent: the 401 is then the response. -/
def SendState.handAgain (setting : SendSetting) (s : SendState) (job : SendJob) (r : Resolver)
    (cleared : Option Text) : SendState :=
  match checked setting.platform job.content r
      { job.context with scopes := s.scopes, renewToken := true } with
  | .error (.nesting error) => s.finished setting job.request (refusedOutcome error.message)
  | .error _ => { s with phase := .waiting job cleared true }
  | .ok draft =>
      let request := draft.request setting.platform
      if containsSecretPlaceholder request.wire then
        { s with phase := .waiting job cleared true }
      else
        { s with
          phase := .waiting job cleared true
          log := .handed job.composed.isSome job.home request :: s.log }

/-- The hosts that are not asked about: those accepted in a run. A single send keeps none. -/
def SendState.known (setting : SendSetting) (s : SendState) : List Text :=
  if setting.baseline.isSome then s.accepted else []

/-- A job whose vault secrets are known: compared with what it was composed as. -/
def SendState.compared (setting : SendSetting) (s : SendState) (job : SendJob) (ids : List Text)
    (home : Option (Except VariableNestingError Text)) (away : Except VariableNestingError Text) :
    SendState :=
  match compareHosts home away (s.known setting) with
  | .refused error => s.finished setting job.request (refusedOutcome error.message)
  | .clear host => { s with phase := .reading job ids host }
  | .ask home away => { s with phase := .asking job ids home away }

/-- The first half of `buildRequest`: the probe, and the comparison where a secret is needed. -/
def SendState.build (setting : SendSetting) (s : SendState) (request : RunRequest)
    (composed : Option Composed) (content : RequestContent) (context : BuildContext)
    (dynamic : Nat → Nat → Text → Text) : SendState :=
  let resolver := fun n => Resolver.new s.scopes (fun _ => none) (dynamic n)
  let home := homeOf setting.platform composed (dynamic 1)
  let job : SendJob :=
    { request, content, context := { context with renewToken := false }, composed,
      home := home.bind Except.toOption }
  match probeSecrets content context.ancestors (resolver 0) with
  | .error error => s.finished setting request (refusedOutcome error.message)
  -- Nothing to read from the vault: the request is built at once.
  | .ok [] => s.hand setting job (resolver 3) none
  | .ok ids => s.compared setting job ids home (hostOf setting.platform content.url (resolver 2))

/-- The user's answer about a host. -/
def SendState.answered (setting : SendSetting) (s : SendState) (job : SendJob) (ids : List Text)
    (home away : Text) (yes : Bool) : SendState :=
  let asked := { s with log := .asked home away yes :: s.log }
  if yes then { asked with accepted := away :: s.accepted, phase := .reading job ids away }
  else asked.finished setting job.request
    { refusedOutcome hostDeclined with ends := some runDeclined }

/-- The one more send of a 401 is made where the auth asks for it: the request is not compared. -/
def SendState.retry (setting : SendSetting) (s : SendState) (job : SendJob)
    (cleared : Option Text) (context : BuildContext) (dynamic : Nat → Nat → Text → Text) :
    Option SendState :=
  match effectiveAuth job.content.auth context.ancestors with
  | .oauth2 auth =>
      if auth.retryOn401 then
        let resolver := fun n => Resolver.new s.scopes (fun _ => none) (dynamic n)
        let again := { job with context }
        match probeSecrets job.content context.ancestors (resolver 0) with
        | .error error => some (s.finished setting job.request (refusedOutcome error.message))
        | .ok [] => some (s.handAgain setting again (resolver 1) cleared)
        | .ok ids => some { s with phase := .rereading again cleared ids }
      else none
  | _ => none

/-- The step of the machine. -/
def SendSetting.step (setting : SendSetting) (s : SendState) : HostAction → Option SendState
  | .edit scopes => some { s with scopes }
  | .abort => some { s with aborted := true }
  | .begin =>
      match s.phase, setting.current s.runner with
      | .idle, some doc =>
          if s.aborted then some { s with runner := { s.runner with ended := some .cancelled } }
          else
            some { s with
              phase := .scripts doc.request (setting.composedAt s.scopes doc)
              log := .began doc.request :: s.log }
      | _, _ => none
  | .build content context dynamic =>
      match s.phase with
      | .scripts request composed =>
          some (s.build setting request composed content context dynamic)
      | _ => none
  | .answer yes =>
      match s.phase with
      | .asking job ids home away => some (s.answered setting job ids home away yes)
      | _ => none
  | .read vault dynamic =>
      match s.phase with
      | .reading job ids host =>
          some (s.hand setting job (Resolver.new s.scopes (vaultRead ids vault) dynamic)
            (some host))
      | _ => none
  | .unauthorized context dynamic =>
      match s.phase with
      | .waiting job cleared false => s.retry setting job cleared context dynamic
      | _ => none
  | .reread vault dynamic =>
      match s.phase with
      | .rereading job cleared ids =>
          some (s.handAgain setting job (Resolver.new s.scopes (vaultRead ids vault) dynamic)
            cleared)
      | _ => none
  | .stop outcome =>
      let stopped := fun request => some (s.finished setting request { outcome with ends := none })
      match s.phase with
      | .scripts request _ => stopped request
      | .reading job _ _ => stopped job.request
      | .waiting job _ _ => stopped job.request
      | .rereading job _ _ => stopped job.request
      | _ => none

/-- A run that begins. -/
def SendSetting.start (setting : SendSetting) (scopes : ScopeStack) : SendState where
  scopes := scopes
  runner := Runner.start setting.requests setting.options
  aborted := false
  accepted := []
  phase := .idle
  log := []

/-! ## What a run keeps -/

/-- The user said yes to a host. -/
def SaidYes (log : List HostEvent) (host : Text) : Prop :=
  ∃ home, HostEvent.asked home host true ∈ log

/-- A request that was compared with what it was composed as, and that holds a secret, went to the
composed host or to one the user had accepted. -/
def SecretsStayHome (P : Platform) : List HostEvent → Prop
  | [] => True
  | .handed true home request :: earlier =>
      (request.secrets ≠ [] →
        home = some (sentHost P request.url) ∨ SaidYes earlier (sentHost P request.url)) ∧
      SecretsStayHome P earlier
  | _ :: earlier => SecretsStayHome P earlier

/-- A host the user said yes to is not asked about again. -/
def AskedOnce : List HostEvent → Prop
  | [] => True
  | .asked _ away _ :: earlier => ¬ SaidYes earlier away ∧ AskedOnce earlier
  | _ :: earlier => AskedOnce earlier

/-- Nothing follows a refusal. -/
def RefusalLast (log : List HostEvent) : Prop :=
  log.Pairwise fun _ earlier => ∀ home away, earlier ≠ .asked home away false

/-- Where an address goes, as the resolver has it: it draws no dynamic value, and its host is the
given one. -/
def GoesTo (P : Platform) (r : Resolver) (url host : Text) : Prop :=
  match (r.resolve (trim url)).run {} with
  | .ok (address, f) => f.drawn = 0 ∧ sentHost P (normalizeUrl address) = host
  | .error _ => False

/-- The request is sent with an OAuth 2.0 token. -/
def takesToken (content : RequestContent) (ancestors : List Ancestor) : Bool :=
  match effectiveAuth content.auth ancestors with
  | .oauth2 _ => true
  | _ => false

/-- At the step that builds a request, its address still goes where it went when it was compared:
to the host the vault was read for. A request that needs no secret is not compared: it takes no
token, or goes to the composed host. A retry goes where the first send went. -/
def HostSteady (setting : SendSetting) (s : SendState) (a : HostAction) : Prop :=
  match a, s.phase with
  | .build content context dynamic, .scripts _ (some composed) =>
      probeSecrets content context.ancestors
          (Resolver.new s.scopes (fun _ => none) (dynamic 0)) = .ok [] →
        takesToken content context.ancestors = true →
        ∃ home ∈ ((homeOf setting.platform (some composed) (dynamic 1)).bind
            Except.toOption).toList,
          GoesTo setting.platform (Resolver.new s.scopes (fun _ => none) (dynamic 3)) content.url
            home
  | .read vault dynamic, .reading job ids host =>
      job.composed.isSome = true →
        GoesTo setting.platform (Resolver.new s.scopes (vaultRead ids vault) dynamic)
          job.content.url host
  | .unauthorized context dynamic, .waiting job cleared false =>
      job.composed.isSome = true →
        probeSecrets job.content context.ancestors
          (Resolver.new s.scopes (fun _ => none) (dynamic 0)) = .ok [] →
        ∃ host ∈ job.home.toList ++ cleared.toList,
          GoesTo setting.platform (Resolver.new s.scopes (fun _ => none) (dynamic 1))
            job.content.url host
  | .reread vault dynamic, .rereading job cleared ids =>
      job.composed.isSome = true →
        ∃ host ∈ job.home.toList ++ cleared.toList,
          GoesTo setting.platform (Resolver.new s.scopes (vaultRead ids vault) dynamic)
            job.content.url host
  | _, _ => True

/-- A request built where its address goes is sent there. -/
theorem GoesTo.sentHost {P : Platform} (hkeeps : P.KeepsHost) {content : RequestContent}
    {r : Resolver} {context : BuildContext} {draft : Draft} {host : Text}
    (h : GoesTo P r content.url host) (hbuilt : checked P content r context = .ok draft) :
    sentHost P (draft.request P).url = host := by
  unfold GoesTo at h
  split at h
  · next address f halone =>
      rw [Draft.sentHost_eq hkeeps hbuilt halone h.1, h.2]
  · exact h.elim

/-! ## The invariant -/

/-- A host that a job may go to with a secret. -/
def Cleared (log : List HostEvent) (job : SendJob) (host : Text) : Prop :=
  job.composed.isSome = true → job.home = some host ∨ SaidYes log host

/-- What holds of how far a send is. -/
def PhaseOk (setting : SendSetting) (log : List HostEvent) (accepted : List Text) :
    SendPhase → Prop
  | .idle => True
  | .scripts _ _ => True
  | .asking _ _ _ away => setting.baseline.isSome = true → away ∉ accepted
  | .reading job _ host => Cleared log job host
  | .waiting job cleared _ => ∀ host, cleared = some host → Cleared log job host
  | .rereading job cleared _ => ∀ host, cleared = some host → Cleared log job host

/-- What a run keeps at every step. -/
structure HostInv (setting : SendSetting) (s : SendState) : Prop where
  stay : SecretsStayHome setting.platform s.log
  once : setting.baseline.isSome = true → AskedOnce s.log
  last : RefusalLast s.log
  /-- The accepted hosts are those the user said yes to. -/
  yes : ∀ host, SaidYes s.log host ↔ host ∈ s.accepted
  /-- After a refusal the run has ended. -/
  refused : ∀ home away, HostEvent.asked home away false ∈ s.log →
    s.phase = .idle ∧ s.runner.ended.isSome = true
  phase : PhaseOk setting s.log s.accepted s.phase

@[simp]
theorem saidYes_began {request : RunRequest} {log : List HostEvent} {host : Text} :
    SaidYes (.began request :: log) host ↔ SaidYes log host := by
  simp [SaidYes]

@[simp]
theorem saidYes_handed {composed : Bool} {home : Option Text} {request : BuiltRequest}
    {log : List HostEvent} {host : Text} :
    SaidYes (.handed composed home request :: log) host ↔ SaidYes log host := by
  simp [SaidYes]

@[simp]
theorem saidYes_asked {home away : Text} {yes : Bool} {log : List HostEvent} {host : Text} :
    SaidYes (.asked home away yes :: log) host ↔
      (yes = true ∧ host = away) ∨ SaidYes log host := by
  unfold SaidYes
  constructor
  · rintro ⟨other, h⟩
    obtain h | h := List.mem_cons.mp h
    · cases h
      exact Or.inl ⟨rfl, rfl⟩
    · exact Or.inr ⟨other, h⟩
  · rintro (⟨rfl, rfl⟩ | ⟨other, h⟩)
    · exact ⟨home, List.mem_cons_self⟩
    · exact ⟨other, List.mem_cons_of_mem _ h⟩

/-- What is cleared stays cleared as the log grows. -/
theorem Cleared.cons {log : List HostEvent} {job : SendJob} {host : Text} (event : HostEvent)
    (h : Cleared log job host) : Cleared (event :: log) job host := by
  intro hcomposed
  obtain hhome | ⟨home, hmem⟩ := h hcomposed
  · exact Or.inl hhome
  · exact Or.inr ⟨home, List.mem_cons_of_mem event hmem⟩

section Invariant

variable {setting : SendSetting} {s : SendState}

/-- A send under way has not been refused. -/
theorem HostInv.not_refused (h : HostInv setting s) (hlive : s.phase ≠ .idle) (home away : Text) :
    HostEvent.asked home away false ∉ s.log :=
  fun hmem => hlive (h.refused home away hmem).1

/-- A send under way may go on to a phase that is right. -/
theorem HostInv.goesOn (h : HostInv setting s) (hlive : s.phase ≠ .idle) {phase : SendPhase}
    (hphase : PhaseOk setting s.log s.accepted phase) :
    HostInv setting { s with phase := phase } where
  stay := h.stay
  once := h.once
  last := h.last
  yes := h.yes
  refused home away hmem := absurd hmem (h.not_refused hlive home away)
  phase := hphase

/-- A send under way may end. -/
theorem HostInv.finished (h : HostInv setting s) (hlive : s.phase ≠ .idle) (request : RunRequest)
    (outcome : RunOutcome) : HostInv setting (s.finished setting request outcome) where
  stay := h.stay
  once := h.once
  last := h.last
  yes := h.yes
  refused home away hmem := absurd hmem (h.not_refused hlive home away)
  phase := trivial

/-- A request may be handed over that goes to a host its job is cleared for. -/
theorem HostInv.handed (h : HostInv setting s) (hlive : s.phase ≠ .idle) {job : SendJob}
    {request : BuiltRequest} {phase : SendPhase}
    (hhost : request.secrets ≠ [] → Cleared s.log job (sentHost setting.platform request.url))
    (hphase : PhaseOk setting (.handed job.composed.isSome job.home request :: s.log) s.accepted
      phase) :
    HostInv setting
      { s with phase := phase, log := .handed job.composed.isSome job.home request :: s.log } where
  stay := by
    cases hcomposed : job.composed.isSome with
    | false => exact h.stay
    | true => exact ⟨fun hsecret => hhost hsecret hcomposed, h.stay⟩
  once hbaseline := h.once hbaseline
  last := List.pairwise_cons.mpr ⟨fun event hmem home away heq =>
    h.not_refused hlive home away (heq ▸ hmem), h.last⟩
  yes host := saidYes_handed.trans (h.yes host)
  refused home away hmem := by
    obtain heq | hmem := List.mem_cons.mp hmem
    · cases heq
    · exact absurd hmem (h.not_refused hlive home away)
  phase := hphase

/-- What is handed over goes to a host its job is cleared for, where the address of what is built
goes to one. -/
theorem HostInv.hand (h : HostInv setting s) (hlive : s.phase ≠ .idle) {job : SendJob}
    {r : Resolver} {cleared : Option Text}
    (hcleared : ∀ host, cleared = some host → Cleared s.log job host)
    (hgoes : ∀ draft,
      checked setting.platform job.content r { job.context with scopes := s.scopes } = .ok draft →
      (draft.request setting.platform).secrets ≠ [] →
      Cleared s.log job (sentHost setting.platform (draft.request setting.platform).url)) :
    HostInv setting (s.hand setting job r cleared) := by
  unfold SendState.hand
  split
  · exact h.finished hlive _ _
  · next draft hbuilt =>
      dsimp only
      split
      · exact h.finished hlive _ _
      · exact h.handed hlive (hgoes draft hbuilt) fun host hhost => (hcleared host hhost).cons _

theorem HostInv.handAgain (h : HostInv setting s) (hlive : s.phase ≠ .idle) {job : SendJob}
    {r : Resolver} {cleared : Option Text}
    (hcleared : ∀ host, cleared = some host → Cleared s.log job host)
    (hgoes : ∀ draft,
      checked setting.platform job.content r
        { job.context with scopes := s.scopes, renewToken := true } = .ok draft →
      (draft.request setting.platform).secrets ≠ [] →
      Cleared s.log job (sentHost setting.platform (draft.request setting.platform).url)) :
    HostInv setting (s.handAgain setting job r cleared) := by
  unfold SendState.handAgain
  split
  · exact h.finished hlive _ _
  · exact h.goesOn hlive hcleared
  · next draft hbuilt =>
      dsimp only
      split
      · exact h.goesOn hlive hcleared
      · exact h.handed hlive (hgoes draft hbuilt) fun host hhost => (hcleared host hhost).cons _

/-- A job goes on to the vault only cleared for the host it was compared at, or to the question. -/
theorem HostInv.compared (h : HostInv setting s) (hlive : s.phase ≠ .idle) {job : SendJob}
    {ids : List Text} {home : Option (Except VariableNestingError Text)}
    {away : Except VariableNestingError Text} (hhome : job.home = home.bind Except.toOption)
    (hcomposed : job.composed.isSome = true → home.isSome = true) :
    HostInv setting (s.compared setting job ids home away) := by
  unfold SendState.compared
  split
  · exact h.finished hlive _ _
  · next host hclear =>
      refine h.goesOn hlive fun hsome => ?_
      obtain hnone | hsame | hknown := compareHosts_clear hclear
      · simp [hnone] at hcomposed
        simp [hcomposed] at hsome
      · exact Or.inl (by simp [hhome, hsame, Except.toOption])
      · refine Or.inr ((h.yes host).mpr ?_)
        unfold SendState.known at hknown
        split at hknown
        · exact hknown
        · simp at hknown
  · next home away hask =>
      refine h.goesOn hlive fun hbaseline => ?_
      have hunknown := compareHosts_ask hask
      simpa [SendState.known, hbaseline] using hunknown

/-- The first half of building keeps the invariant, where a request that needs no secret takes no
token or goes home. -/
theorem HostInv.build (hkeeps : setting.platform.KeepsHost) (h : HostInv setting s)
    {request : RunRequest} {composed : Option Composed}
    (hphase : s.phase = .scripts request composed) {content : RequestContent}
    {context : BuildContext} {dynamic : Nat → Nat → Text → Text}
    (hsteady : HostSteady setting s (.build content context dynamic)) :
    HostInv setting (s.build setting request composed content context dynamic) := by
  have hlive : s.phase ≠ .idle := by simp [hphase]
  unfold SendState.build
  dsimp only
  split
  · exact h.finished hlive _ _
  · next hnone =>
      refine h.hand hlive (fun host hhost => by cases hhost)
        fun draft hbuilt hsecret hcomposed => ?_
      obtain ⟨c, rfl⟩ := Option.isSome_iff_exists.mp hcomposed
      simp only [HostSteady, hphase] at hsteady
      cases htoken : takesToken content context.ancestors with
      | true =>
          obtain ⟨home, hhome, hgoes⟩ := hsteady hnone htoken
          rw [hgoes.sentHost hkeeps hbuilt]
          exact Or.inl (Option.mem_toList.mp hhome)
      | false =>
          -- No secret was read and no token taken, so the request holds none.
          refine absurd (Draft.secrets_eq_nil hbuilt (fun id => rfl) fun auth hauth => ?_) hsecret
          simp [takesToken, hauth] at htoken
  · refine h.compared hlive rfl fun hcomposed => ?_
    obtain ⟨c, rfl⟩ := Option.isSome_iff_exists.mp hcomposed
    rfl

/-- The user's answer keeps the invariant: a yes clears the host, a no ends the run. -/
theorem HostInv.answered (h : HostInv setting s) {job : SendJob} {ids : List Text}
    {home away : Text} (hphase : s.phase = .asking job ids home away) (yes : Bool) :
    HostInv setting (s.answered setting job ids home away yes) := by
  have hlive : s.phase ≠ .idle := by simp [hphase]
  have hnew : setting.baseline.isSome = true → ¬ SaidYes s.log away := by
    intro hbaseline hsaid
    have hasking := h.phase
    rw [hphase] at hasking
    exact hasking hbaseline ((h.yes away).mp hsaid)
  have hlast : ∀ yes, RefusalLast (.asked home away yes :: s.log) := fun yes =>
    List.pairwise_cons.mpr ⟨fun event hmem home' away' heq =>
      h.not_refused hlive home' away' (heq ▸ hmem), h.last⟩
  unfold SendState.answered
  cases yes with
  | true =>
      refine ⟨h.stay, fun hbaseline => ⟨hnew hbaseline, h.once hbaseline⟩, hlast true,
        fun host => ?_, fun home' away' hmem => ?_, fun _ => ?_⟩
      · simp [h.yes host]
      · obtain heq | hmem := List.mem_cons.mp hmem
        · cases heq
        · exact absurd hmem (h.not_refused hlive home' away')
      · exact Or.inr (saidYes_asked.mpr (Or.inl ⟨rfl, rfl⟩))
  | false =>
      refine ⟨h.stay, fun hbaseline => ⟨hnew hbaseline, h.once hbaseline⟩, hlast false,
        fun host => ?_, fun home' away' hmem => ⟨rfl, ?_⟩, trivial⟩
      · simpa [SendState.finished] using h.yes host
      · exact Runner.afterSend_ends _ _ _ _ _ rfl

/-- A host a retry may go to is one its job is cleared for. -/
theorem cleared_of_mem {job : SendJob} {cleared : Option Text} {host : Text}
    (hcleared : ∀ host, cleared = some host → Cleared s.log job host)
    (hhost : host ∈ job.home.toList ++ cleared.toList) : Cleared s.log job host := by
  intro hcomposed
  obtain hhome | hhost := List.mem_append.mp hhost
  · exact Or.inl (Option.mem_toList.mp hhome)
  · exact hcleared host (Option.mem_toList.mp hhost) hcomposed

/-- A retry keeps the invariant, where it goes to a host the first send was cleared for. -/
theorem HostInv.retry (hkeeps : setting.platform.KeepsHost) (h : HostInv setting s)
    {job : SendJob} {cleared : Option Text} (hphase : s.phase = .waiting job cleared false)
    {context : BuildContext} {dynamic : Nat → Nat → Text → Text}
    (hsteady : HostSteady setting s (.unauthorized context dynamic)) {next : SendState}
    (hstep : s.retry setting job cleared context dynamic = some next) :
    HostInv setting next := by
  have hlive : s.phase ≠ .idle := by simp [hphase]
  have hcleared : ∀ host, cleared = some host → Cleared s.log job host := by
    have hwaiting := h.phase
    rwa [hphase] at hwaiting
  unfold SendState.retry at hstep
  split at hstep
  · split at hstep
    · dsimp only at hstep
      split at hstep
      · cases hstep
        exact h.finished hlive _ _
      · next hnone =>
          cases hstep
          refine h.handAgain hlive hcleared fun draft hbuilt _ hcomposed => ?_
          simp only [HostSteady, hphase] at hsteady
          obtain ⟨host, hhost, hgoes⟩ := hsteady hcomposed hnone
          rw [hgoes.sentHost hkeeps hbuilt]
          exact cleared_of_mem hcleared hhost hcomposed
      · cases hstep
        exact h.goesOn hlive hcleared
    · cases hstep
  · cases hstep

/-- The next request of a run may begin. -/
theorem HostInv.begin (h : HostInv setting s) {doc : SendDoc} (hphase : s.phase = .idle)
    (hcurrent : setting.current s.runner = some doc) {next : SendState}
    (hstep : setting.step s .begin = some next) : HostInv setting next := by
  have hrunning : s.runner.ended.isSome ≠ true := by
    intro hended
    simp [SendSetting.current, hended] at hcurrent
  have hnot : ∀ home away, HostEvent.asked home away false ∉ s.log := fun home away hmem =>
    hrunning (h.refused home away hmem).2
  simp only [SendSetting.step, hphase, hcurrent] at hstep
  split at hstep
  · cases hstep
    exact ⟨h.stay, h.once, h.last, h.yes, fun home away hmem => absurd hmem (hnot home away),
      trivial⟩
  · cases hstep
    refine ⟨h.stay, h.once, ?_, fun host => saidYes_began.trans (h.yes host), ?_, trivial⟩
    · exact List.pairwise_cons.mpr ⟨fun event hmem home away heq => hnot home away (heq ▸ hmem),
        h.last⟩
    · intro home away hmem
      obtain heq | hmem := List.mem_cons.mp hmem
      · cases heq
      · exact absurd hmem (hnot home away)

/-- Every step that meets the condition keeps the invariant. -/
theorem HostInv.step (hkeeps : setting.platform.KeepsHost) (s : SendState) (a : HostAction)
    (next : SendState) (h : HostInv setting s) (hsteady : HostSteady setting s a)
    (hstep : setting.step s a = some next) : HostInv setting next := by
  cases a with
  -- An edit and an abort leave what is logged and handed on as it is.
  | edit scopes =>
      cases hstep
      exact ⟨h.stay, h.once, h.last, h.yes, h.refused, h.phase⟩
  | abort =>
      cases hstep
      exact ⟨h.stay, h.once, h.last, h.yes, h.refused, h.phase⟩
  | begin =>
      cases hphase : s.phase with
      | idle =>
          cases hcurrent : setting.current s.runner with
          | none => simp [SendSetting.step, hphase, hcurrent] at hstep
          | some doc => exact h.begin hphase hcurrent hstep
      | _ => simp [SendSetting.step, hphase] at hstep
  | build content context dynamic =>
      cases hphase : s.phase with
      | scripts request composed =>
          simp only [SendSetting.step, hphase] at hstep
          cases hstep
          exact h.build hkeeps hphase hsteady
      | _ => simp [SendSetting.step, hphase] at hstep
  | answer yes =>
      cases hphase : s.phase with
      | asking job ids home away =>
          simp only [SendSetting.step, hphase] at hstep
          cases hstep
          exact h.answered hphase yes
      | _ => simp [SendSetting.step, hphase] at hstep
  -- The host was cleared before the vault was read, and the build keeps it.
  | read vault dynamic =>
      cases hphase : s.phase with
      | reading job ids host =>
          simp only [SendSetting.step, hphase] at hstep
          cases hstep
          have hcleared : Cleared s.log job host := by
            have hreading := h.phase
            rwa [hphase] at hreading
          refine h.hand (by simp [hphase]) (fun other hother => ?_)
            fun draft hbuilt _ hcomposed => ?_
          · cases hother
            exact hcleared
          · simp only [HostSteady, hphase] at hsteady
            rw [(hsteady hcomposed).sentHost hkeeps hbuilt]
            exact hcleared hcomposed
      | _ => simp [SendSetting.step, hphase] at hstep
  | unauthorized context dynamic =>
      cases hphase : s.phase with
      | waiting job cleared retried =>
          cases retried with
          | true => simp [SendSetting.step, hphase] at hstep
          | false =>
              simp only [SendSetting.step, hphase] at hstep
              exact h.retry hkeeps hphase hsteady hstep
      | _ => simp [SendSetting.step, hphase] at hstep
  -- A retry after a 401 has no question of its own: it goes to the host cleared for the send.
  | reread vault dynamic =>
      cases hphase : s.phase with
      | rereading job cleared ids =>
          simp only [SendSetting.step, hphase] at hstep
          cases hstep
          have hcleared : ∀ host, cleared = some host → Cleared s.log job host := by
            have hrereading := h.phase
            rwa [hphase] at hrereading
          refine h.handAgain (by simp [hphase]) hcleared fun draft hbuilt _ hcomposed => ?_
          simp only [HostSteady, hphase] at hsteady
          obtain ⟨host, hhost, hgoes⟩ := hsteady hcomposed
          rw [hgoes.sentHost hkeeps hbuilt]
          exact cleared_of_mem hcleared hhost hcomposed
      | _ => simp [SendSetting.step, hphase] at hstep
  -- Every phase may end but two: idle, and the question about the secrets.
  | stop outcome =>
      cases hphase : s.phase with
      | idle => simp [SendSetting.step, hphase] at hstep
      | asking job ids home away => simp [SendSetting.step, hphase] at hstep
      | scripts request composed =>
          simp only [SendSetting.step, hphase] at hstep
          cases hstep
          exact h.finished (by simp [hphase]) _ _
      | reading job ids host =>
          simp only [SendSetting.step, hphase] at hstep
          cases hstep
          exact h.finished (by simp [hphase]) _ _
      | waiting job cleared retried =>
          simp only [SendSetting.step, hphase] at hstep
          cases hstep
          exact h.finished (by simp [hphase]) _ _
      | rereading job cleared ids =>
          simp only [SendSetting.step, hphase] at hstep
          cases hstep
          exact h.finished (by simp [hphase]) _ _

end Invariant

/-- A run begins with nothing asked and nothing sent. -/
theorem hostInv_start (setting : SendSetting) (scopes : ScopeStack) :
    HostInv setting (setting.start scopes) where
  stay := trivial
  once _ := trivial
  last := List.Pairwise.nil
  yes host := by simp [SaidYes, SendSetting.start]
  refused home away hmem := by simp [SendSetting.start] at hmem
  phase := trivial

/-- In a run whose steps all find the address where it was compared, a secret goes only to the
composed host or to one the user accepted; in a collection run a host once accepted is not asked
about again; and a refusal is the last thing the run does. -/
theorem run_keeps_hosts (setting : SendSetting) (hkeeps : setting.platform.KeepsHost)
    (scopes : ScopeStack) (actions : List HostAction) (s : SendState)
    (hsteady : Meets setting.step (HostSteady setting) (setting.start scopes) actions)
    (hrun : run setting.step (setting.start scopes) actions = some s) :
    SecretsStayHome setting.platform s.log ∧
      (setting.baseline.isSome = true → AskedOnce s.log) ∧ RefusalLast s.log := by
  have h := run_induction (HostInv.step hkeeps) (hostInv_start setting scopes) hsteady hrun
  exact ⟨h.stay, h.once, h.last⟩

/-! ## A host that changes between the comparison and the build -/

instance (P : Platform) (r : Resolver) (url host : Text) : Decidable (GoesTo P r url host) := by
  unfold GoesTo
  split <;> infer_instance

instance (setting : SendSetting) (s : SendState) (a : HostAction) :
    Decidable (HostSteady setting s a) := by
  unfold HostSteady
  split <;> infer_instance

/-- The one request of a log took a secret to another host than the composed one, unasked. -/
def strayed (P : Platform) : List HostEvent → Bool
  | [.handed true home request, .began _] =>
      request.secrets ≠ [] && home ≠ some (sentHost P request.url)
  | _ => false

/-- A log in which a secret strayed. -/
theorem not_stay_of_strayed {P : Platform} {log : List HostEvent} (h : strayed P log = true) :
    ¬ SecretsStayHome P log := by
  unfold strayed at h
  split at h
  · next home request _ =>
      simp only [Bool.and_eq_true, decide_eq_true_eq] at h
      rintro ⟨hstay, -⟩
      obtain hhome | ⟨other, hyes⟩ := hstay h.1
      · exact h.2 hhome
      · simp at hyes
  · cases h

/-- An environment with the host of a request. -/
def hostScopes (host : String) : ScopeStack where
  environment := [{ key := units "h", value := units host, enabled := true }]

/-- A request to the host of the environment, with a vault secret in a header. -/
def hostRequest : RequestContent where
  method := units "GET"
  url := units "https://\x7b\x7bh\x7d\x7d/"
  headers :=
    [{ key := units "X-Key", value := units "\x7b\x7b$secret.s1\x7d\x7d", enabled := true }]
  body := { mode := .none }
  auth := .none

/-- One send of it, with a pre-request script. -/
def hostSetting : SendSetting where
  platform := plainPlatform
  docs := [{ request := { id := units "r", name := units "r" }, content := hostRequest
             preScripts := true }]
  options := {}
  baseline := none

/-- The vault's answer. -/
def oneSecret (id : Text) : Option Text :=
  if id = units "s1" then some (units "s3cret") else none

/-- The steps of the send; `meanwhile` happens while the vault is read. -/
def hostActions (meanwhile : List HostAction) : List HostAction :=
  [.begin, .build hostRequest loneContext fun _ _ _ => []] ++ meanwhile ++
    [.read oneSecret fun _ _ => []]

/-- Left alone, the send takes the secret to the composed host. -/
theorem hostActions_stay_home :
    ∃ s, run hostSetting.step (hostSetting.start (hostScopes "good.test")) (hostActions []) =
        some s ∧
      SecretsStayHome hostSetting.platform s.log ∧
      (hostSetting.baseline.isSome = true → AskedOnce s.log) ∧ RefusalLast s.log := by
  have hrun : (run hostSetting.step (hostSetting.start (hostScopes "good.test"))
      (hostActions [])).isSome = true := by decide +kernel
  obtain ⟨s, hs⟩ := Option.isSome_iff_exists.mp hrun
  exact ⟨s, hs,
    run_keeps_hosts hostSetting plainPlatform_keepsHost _ _ s (by decide +kernel) hs⟩

/-- The environment changes while the vault is read, and the secret goes to another host. -/
theorem hostActions_stray :
    ∃ s, run hostSetting.step (hostSetting.start (hostScopes "good.test"))
        (hostActions [.edit (hostScopes "evil.test")]) = some s ∧
      ¬ SecretsStayHome hostSetting.platform s.log := by
  have h : (run hostSetting.step (hostSetting.start (hostScopes "good.test"))
      (hostActions [.edit (hostScopes "evil.test")])).any
        (fun s => strayed hostSetting.platform s.log) = true := by
    decide +kernel
  obtain ⟨s, hs, hstrayed⟩ := exists_run_of_any h
  exact ⟨s, hs, not_stay_of_strayed hstrayed⟩

end Wayfarer
