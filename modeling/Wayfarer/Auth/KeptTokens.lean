import Wayfarer.Library.Jobs
import Wayfarer.Library.OrderedMap
import Wayfarer.Library.Run
import Wayfarer.Library.Table
import Wayfarer.Library.Text

/-!
# Tokens, kept by several tabs

A tab holds tokens in its memory, and the vault keeps one under each token's name: an OAuth 2.0
token's, and the Local Bridge's. What the services do is a list of pieces of work, each one
transaction or what stands between two of them, and every interleaving of the tabs' work with their
locks and unlocks is a list of `TokenStep`s. A token is its number: how many were obtained before
it.

`InOrder` says when a step keeps to the order of the tokens: no store of a name is begun, and no
token forgotten, under another store of it, and what a tab writes once it is unlocked is no older
than what the vault holds.
-/

set_option autoImplicit false

namespace Wayfarer

open Library

/-! ## What tabs hold and the vault keeps -/

/-- What a token is kept under: the name of its vault secret. -/
inductive TokenName where
  | oauth (key : Text)
  | bridge
  deriving DecidableEq

/-- A token's secret in the vault. -/
structure TokenSecret where
  id : Nat
  name : TokenName
  token : Nat

/-- A tab: whether its vault is unlocked, the OAuth 2.0 tokens it holds, and the bridge's. -/
structure TokenTab where
  unlocked : Bool := false
  held : OrderedMap Text Nat := .empty
  bridge : Option Nat := none

/-- A piece of the work on the vault that a tab has still to do. -/
inductive TokenWork where
  /-- `store`: is there a secret of the name? -/
  | find (name : TokenName) (token : Nat)
  /-- `replaceSecret`: the token encrypted. -/
  | encrypt (name : TokenName) (token id : Nat)
  /-- `replaceCipher`. -/
  | put (name : TokenName) (token id : Nat)
  /-- `saveSecret`: the token encrypted under a new id. -/
  | fresh (name : TokenName) (token : Nat)
  /-- `writeCipher`. -/
  | add (name : TokenName) (token : Nat)
  /-- Is there a secret to delete? -/
  | forget (name : TokenName)
  | delete (id : Nat)
  /-- Is there a secret to read? -/
  | fetch (name : TokenName)
  /-- The listing of `sync`. -/
  | list (mine : Bool)
  /-- `readSecret`. -/
  | take (mine : Bool) (name : TokenName) (id : Nat)
  /-- `readCipher`. -/
  | read (name : TokenName) (id : Nat)
  /-- What was read, held. -/
  | keep (name : TokenName) (token : Nat)
  /-- `sync(true)`. -/
  | sync
  /-- What the bridge's settings do once unlocked. -/
  | syncBridge
  /-- What they do when another tab changed the secrets. -/
  | noticed
  deriving DecidableEq

/-- The bridge's settings do one thing after the other; every OAuth 2.0 token is stored beside the
others. -/
def TokenName.queued : TokenName → Bool
  | .oauth _ => false
  | .bridge => true

/-- What a piece of work will store, and under which name. -/
def TokenWork.stores : TokenWork → Option (TokenName × Nat)
  | .find name token => some (name, token)
  | .encrypt name token _ => some (name, token)
  | .put name token _ => some (name, token)
  | .fresh name token => some (name, token)
  | .add name token => some (name, token)
  | _ => none

/-- A token that was written: by which tab, over which token, and the tabs that had forgotten it. -/
structure TokenWrite where
  tab : Nat
  name : TokenName
  token : Nat
  former : Option Nat
  forgottenBy : List Nat

/-- A tab that forgot a name's token: every token obtained until then. -/
structure Forgetting where
  tab : Nat
  name : TokenName
  before : Nat

/-- The tabs, the vault they share, their work on its way, and what has happened: how many tokens
were obtained and secrets made, what was forgotten and what was written. -/
structure TokenTabs where
  tabs : Nat → TokenTab := fun _ => {}
  vault : Table TokenSecret.id := .empty
  jobs : List (Job Nat TokenWork) := []
  obtained : Nat := 0
  made : Nat := 0
  forgettings : List Forgetting := []
  writes : List TokenWrite := []

/-- What a tab holds under a name. -/
def TokenTab.token (tab : TokenTab) : TokenName → Option Nat
  | .oauth key => tab.held.get? key
  | .bridge => tab.bridge

/-- A tab that holds a token, or nothing any more. -/
def TokenTab.hold (tab : TokenTab) (name : TokenName) (token : Option Nat) : TokenTab :=
  match name, token with
  | .oauth key, some token => { tab with held := tab.held.set key token }
  | .oauth key, none => { tab with held := tab.held.erase key }
  | .bridge, token => { tab with bridge := token }

namespace TokenTabs

variable (s : TokenTabs)

/-- A tab changed. -/
def setTab (tab : Nat) (next : TokenTab) : TokenTabs :=
  { s with tabs := Function.update s.tabs tab next }

@[simp]
theorem tabs_setTab_self (tab : Nat) (next : TokenTab) : (s.setTab tab next).tabs tab = next :=
  Function.update_self ..

@[simp]
theorem tabs_setTab_of_ne {tab tab' : Nat} (next : TokenTab) (h : tab' ≠ tab) :
    (s.setTab tab next).tabs tab' = s.tabs tab' :=
  Function.update_of_ne h ..

/-- The secret of a name. -/
def stored (name : TokenName) : Option TokenSecret :=
  s.vault.rows.find? fun secret => secret.name = name

/-- The tabs that forgot a token. -/
def forgottenBy (name : TokenName) (token : Nat) : List Nat :=
  (s.forgettings.filter fun f => f.name = name && token < f.before).map Forgetting.tab

/-- A token written into the vault, under an id. -/
def write (tab : Nat) (name : TokenName) (token id : Nat) (former : Option Nat) : TokenTabs :=
  { s with
    vault := s.vault.put ⟨id, name, token⟩
    writes := s.writes ++ [⟨tab, name, token, former, s.forgottenBy name token⟩] }

/-- A piece of work of a tab done, and what it goes on with; nothing where it throws. -/
def perform (tab : Nat) : TokenWork → Option (TokenTabs × List TokenWork)
  | .find name token =>
      some (s, match s.stored name with
        | some secret => [.encrypt name token secret.id]
        | none => [.fresh name token])
  | .encrypt name token id =>
      -- Locked, `replaceSecret` gives false, and `saveSecret` then throws for want of the key.
      if (s.tabs tab).unlocked then some (s, [.put name token id]) else none
  | .put name token id =>
      match s.vault.get? id with
      | some secret => some (s.write tab secret.name token id (some secret.token), [])
      | none => some (s, [.fresh name token])
  | .fresh name token => if (s.tabs tab).unlocked then some (s, [.add name token]) else none
  | .add name token =>
      some ({ s.write tab name token s.made none with made := s.made + 1 }, [])
  | .forget name =>
      some (s, match s.stored name with
        | some secret => [.delete secret.id]
        | none => [])
  | .delete id => some ({ s with vault := s.vault.delete id }, [])
  | .fetch name =>
      some (s, match s.stored name with
        | some secret => [.take false name secret.id]
        | none => [])
  | .list mine =>
      some (s, s.vault.rows.filterMap fun secret =>
        match secret.name with
        | .oauth key => some (.take mine (.oauth key) secret.id)
        | .bridge => none)
  | .take mine name id =>
      some (s, if mine && ((s.tabs tab).token name).isSome || !(s.tabs tab).unlocked then []
        else [.read name id])
  | .read name id =>
      some (s, match s.vault.get? id with
        | some secret => [.keep name secret.token]
        | none => [])
  | .keep name token => some (s.setTab tab ((s.tabs tab).hold name (some token)), [])
  | .sync =>
      some (s, ((s.tabs tab).held.entries.map fun entry => .find (.oauth entry.1) entry.2) ++
        [.list true])
  | .syncBridge =>
      some (s, match (s.tabs tab).bridge with
        | some token => [.find .bridge token]
        | none => [.fetch .bridge])
  | .noticed => some (s, if (s.tabs tab).unlocked then [.fetch .bridge] else [])

/-- Work begun, in the tab's queue or beside everything else. -/
def begin (tab : Nat) (queued : Bool) (work : TokenWork) : TokenTabs :=
  { s with jobs := s.jobs ++ [⟨tab, queued, [work]⟩] }

end TokenTabs

/-- What can happen. -/
inductive TokenStep where
  /-- A token arrives in a tab: a token endpoint's answer, or the bridge's token typed or paired. -/
  | obtain (tab : Nat) (name : TokenName)
  | forget (tab : Nat) (name : TokenName)
  | unlock (tab : Nat)
  /-- The tab's idle time passed, or a lock reached it. -/
  | lock (tab : Nat)
  | close (tab : Nat)
  /-- Another tab's change of the secrets reaches the tab. -/
  | notice (tab : Nat)
  /-- A send asks for a token that the tab does not hold. -/
  | fetch (tab : Nat) (name : TokenName)
  /-- A job's next piece of work is done. -/
  | work (i : Nat)
  /-- It fails. -/
  | fail (i : Nat)

namespace TokenTabs

/-- What a step makes of the tabs and the vault. -/
def step (s : TokenTabs) : TokenStep → Option TokenTabs
  | .obtain tab name =>
      let held := s.setTab tab ((s.tabs tab).hold name (some s.obtained))
      let counted : TokenTabs := { held with obtained := s.obtained + 1 }
      some (if (s.tabs tab).unlocked then counted.begin tab name.queued (.find name s.obtained)
        else counted)
  | .forget tab name =>
      let held := s.setTab tab ((s.tabs tab).hold name none)
      let noted : TokenTabs :=
        { held with forgettings := s.forgettings ++ [⟨tab, name, s.obtained⟩] }
      -- A token of the bridge taken out of a locked tab stays in the vault.
      some (if name ≠ .bridge || (s.tabs tab).unlocked then
          noted.begin tab name.queued (.forget name)
        else noted)
  | .unlock tab =>
      if (s.tabs tab).unlocked then some s
      else
        let opened := s.setTab tab { s.tabs tab with unlocked := true }
        some ((opened.begin tab false .sync).begin tab true .syncBridge)
  | .lock tab => some (s.setTab tab { s.tabs tab with unlocked := false })
  | .close tab =>
      some { s.setTab tab {} with jobs := s.jobs.filter fun job => job.owner ≠ tab }
  | .notice tab =>
      let synced := if (s.tabs tab).unlocked then s.begin tab false (.list false) else s
      some (synced.begin tab true .noticed)
  | .fetch tab name =>
      if ((s.tabs tab).token name).isSome then some s
      else some (s.begin tab false (.fetch name))
  | .work i =>
      (Jobs.turn s.jobs i).map fun e =>
        match s.perform e.owner e.act with
        | some (next, acts) => { next with jobs := Jobs.continueWith s.jobs i acts }
        | none => { s with jobs := Jobs.endJob s.jobs i }
  | .fail i => some { s with jobs := Jobs.endJob s.jobs i }

/-! ## What the newest token asks of a step -/

/-- No store of a name is on its way but in a tab's own queue. -/
def OnlyQueued (s : TokenTabs) (tab : Nat) (name : TokenName) : Prop :=
  ∀ e ∈ Jobs.inFlight s.jobs, ∀ p ∈ e.act.stores, p.1 = name → e.queued = true ∧ e.owner = tab

/-- A token that a tab may write: no store of the name is on its way but a later one in the tab's
own queue, the vault holds none that was obtained after it, and no other tab forgot it. -/
structure Current (s : TokenTabs) (tab : Nat) (name : TokenName) (token : Nat) : Prop where
  queued : ∀ e ∈ Jobs.inFlight s.jobs, ∀ p ∈ e.act.stores, p.1 = name →
    (e.queued = true ∧ e.owner = tab) ∧ token ≤ p.2
  newest : ∀ secret ∈ s.vault.rows, secret.name = name → secret.token ≤ token
  kept : ∀ f ∈ s.forgettings, f.name = name → f.tab ≠ tab → f.before ≤ token

/-- A step that keeps to the order of the tokens. -/
def InOrder (s : TokenTabs) : TokenStep → Prop
  | .obtain tab name => (s.tabs tab).unlocked = true → s.OnlyQueued tab name
  | .forget tab name => ∀ e ∈ Jobs.inFlight s.jobs, ∀ p ∈ e.act.stores, p.1 = name → e.owner = tab
  | .work i => ∀ e ∈ Jobs.turn s.jobs i,
      (e.act = .sync → ∀ entry ∈ (s.tabs e.owner).held.entries,
        s.Current e.owner (.oauth entry.1) entry.2) ∧
      (e.act = .syncBridge → ∀ token ∈ (s.tabs e.owner).bridge, s.Current e.owner .bridge token)
  | _ => True

/-- The newest token wins: one secret of a name, no token written over one obtained after it, and
none written that another tab had forgotten. -/
structure NewestWins (s : TokenTabs) : Prop where
  one : (s.vault.rows.map TokenSecret.name).Nodup
  newer : ∀ w ∈ s.writes, ∀ old ∈ w.former, old ≤ w.token
  kept : ∀ w ∈ s.writes, ∀ tab ∈ w.forgottenBy, tab = w.tab

end TokenTabs

end Wayfarer
