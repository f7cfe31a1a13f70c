import Wayfarer.Auth.KeptTokens

/-!
# The newest token wins

`Orderly` is what holds of the tabs and the vault in every run whose steps keep to the order of the
tokens: whatever is stored under a name was obtained no later than what is on its way to be stored
there (`WorkOk`), and of two stores of one name the second waits for the first in one tab's queue
(`Follows`).
-/

set_option autoImplicit false

namespace Wayfarer

open Library

namespace TokenTabs

/-! ## The invariant -/

/-- A piece of a store that comes after its first. -/
def Started : TokenWork → Bool
  | .encrypt _ _ _ => true
  | .put _ _ _ => true
  | .fresh _ _ => true
  | .add _ _ => true
  | _ => false

/-- Work that stands after other work: in the same queue it has not started, and where both store
under one name they are in one queue, and it stores the later token. -/
structure Follows (a b : Flying Nat TokenWork) : Prop where
  waits : a.queued = true → b.queued = true → a.owner = b.owner → Started b.act = false
  later : ∀ p ∈ a.act.stores, ∀ q ∈ b.act.stores, p.1 = q.1 →
    (a.queued = true ∧ b.queued = true ∧ a.owner = b.owner) ∧ p.2 ≤ q.2

/-- Where a piece of work is about to write. -/
def Placed (s : TokenTabs) : TokenWork → Prop
  | .encrypt name _ id => id < s.made ∧ ∀ secret ∈ s.vault.rows, secret.id = id ↔ secret.name = name
  | .put name _ id => id < s.made ∧ ∀ secret ∈ s.vault.rows, secret.id = id ↔ secret.name = name
  | .fresh name _ => ∀ secret ∈ s.vault.rows, secret.name ≠ name
  | .add name _ => ∀ secret ∈ s.vault.rows, secret.name ≠ name
  | .keep _ token => token < s.obtained
  | _ => True

/-- Work on its way that may be done: what it stores was obtained after all that is stored under the
name, and after every other tab's forgetting of it. -/
structure WorkOk (s : TokenTabs) (e : Flying Nat TokenWork) : Prop where
  queued : ∀ p ∈ e.act.stores, e.queued = p.1.queued
  oauth : e.act = .sync → e.queued = false
  bridge : e.act = .syncBridge → e.queued = true
  obtained : ∀ p ∈ e.act.stores, p.2 < s.obtained
  newer : ∀ p ∈ e.act.stores, ∀ secret ∈ s.vault.rows, secret.name = p.1 → secret.token ≤ p.2
  kept : ∀ p ∈ e.act.stores, ∀ f ∈ s.forgettings, f.name = p.1 → f.tab ≠ e.owner → f.before ≤ p.2
  placed : s.Placed e.act

/-- What holds whatever is on its way. -/
structure Settled (s : TokenTabs) : Prop extends NewestWins s where
  made : ∀ secret ∈ s.vault.rows, secret.id < s.made
  obtained : ∀ secret ∈ s.vault.rows, secret.token < s.obtained
  forgotten : ∀ f ∈ s.forgettings, f.before ≤ s.obtained
  held : ∀ tab name, ∀ token ∈ (s.tabs tab).token name, token < s.obtained

/-- What holds between any two steps. -/
structure Orderly (s : TokenTabs) : Prop extends Settled s where
  follows : (Jobs.inFlight s.jobs).Pairwise Follows
  works : ∀ e ∈ Jobs.inFlight s.jobs, s.WorkOk e

theorem orderly_start : Orderly {} where
  one := List.nodup_nil
  newer w h := nomatch h
  kept w h := nomatch h
  made secret h := nomatch h
  obtained secret h := nomatch h
  forgotten f h := nomatch h
  held tab name token h := by cases name <;> cases h
  follows := List.Pairwise.nil
  works e h := nomatch h

/-! ## Work, as the state around it changes -/

variable {s s' : TokenTabs} {e : Flying Nat TokenWork}

/-- Work may still be done where secrets were only deleted, tokens only obtained, and what was
forgotten meanwhile was forgotten before the token or in its own tab. -/
theorem WorkOk.mono (h : s.WorkOk e) (hvault : ∀ secret ∈ s'.vault.rows, secret ∈ s.vault.rows)
    (hobtained : s.obtained ≤ s'.obtained) (hmade : s.made ≤ s'.made)
    (hforgot : ∀ f ∈ s'.forgettings, f ∈ s.forgettings ∨
      ∀ p ∈ e.act.stores, p.1 = f.name → f.tab = e.owner) : s'.WorkOk e where
  queued := h.queued
  oauth := h.oauth
  bridge := h.bridge
  obtained p hp := (h.obtained p hp).trans_le hobtained
  newer p hp secret hsecret := h.newer p hp secret (hvault secret hsecret)
  kept p hp f hf hname htab := by
    rcases hforgot f hf with hold | hown
    · exact h.kept p hp f hold hname htab
    · exact absurd (hown p hp hname.symm) htab
  placed := by
    have hplaced := h.placed
    cases hact : e.act with
    | encrypt name token id =>
        rw [hact] at hplaced
        exact ⟨hplaced.1.trans_le hmade, fun secret hin => hplaced.2 secret (hvault secret hin)⟩
    | put name token id =>
        rw [hact] at hplaced
        exact ⟨hplaced.1.trans_le hmade, fun secret hin => hplaced.2 secret (hvault secret hin)⟩
    | fresh name token =>
        rw [hact] at hplaced
        exact fun secret hin => hplaced secret (hvault secret hin)
    | add name token =>
        rw [hact] at hplaced
        exact fun secret hin => hplaced secret (hvault secret hin)
    | keep name token =>
        rw [hact] at hplaced
        exact lt_of_lt_of_le hplaced hobtained
    | _ => trivial

/-- Work that stores nothing and holds nothing can always be done. -/
theorem workOk_of_stores_eq_none (hstores : e.act.stores = none)
    (hoauth : e.act = .sync → e.queued = false) (hbridge : e.act = .syncBridge → e.queued = true)
    (hplaced : s.Placed e.act) : s.WorkOk e where
  queued p hp := by rw [hstores] at hp; cases hp
  oauth := hoauth
  bridge := hbridge
  obtained p hp := by rw [hstores] at hp; cases hp
  newer p hp := by rw [hstores] at hp; cases hp
  kept p hp := by rw [hstores] at hp; cases hp
  placed := hplaced

theorem follows_of_stores_eq_none {a b : Flying Nat TokenWork}
    (hstores : a.act.stores = none ∨ b.act.stores = none)
    (hwaits : a.queued = true → b.queued = true → a.owner = b.owner → Started b.act = false) :
    Follows a b where
  waits := hwaits
  later p hp q hq := by
    rcases hstores with hnone | hnone
    · rw [hnone] at hp
      cases hp
    · rw [hnone] at hq
      cases hq

/-! ## A turn -/

section Turn

variable {i : Nat} {before after : List (Flying Nat TokenWork)}

/-- Nothing of the queue of what is done stands before it. -/
def First (before : List (Flying Nat TokenWork)) (e : Flying Nat TokenWork) : Prop :=
  e.queued = true → ∀ b ∈ before, b.queued = true → b.owner ≠ e.owner

/-- What stands around what is done is on its way. -/
theorem mem_of_around (hflight : Jobs.inFlight s.jobs = before ++ e :: after)
    {e' : Flying Nat TokenWork} (he' : e' ∈ before ++ after) : e' ∈ Jobs.inFlight s.jobs := by
  rw [hflight]
  rcases List.mem_append.mp he' with hin | hin
  · exact List.mem_append_left _ hin
  · exact List.mem_append_right _ (List.mem_cons_of_mem _ hin)

/-- Of the work around what is done, only later stores in its queue are under its name. -/
theorem Orderly.around (h : s.Orderly) (hflight : Jobs.inFlight s.jobs = before ++ e :: after)
    (hfirst : First before e) {e' : Flying Nat TokenWork} (he' : e' ∈ before ++ after) :
    ∀ p ∈ e'.act.stores, ∀ q ∈ e.act.stores, p.1 = q.1 → Started e'.act = false ∧ q.2 ≤ p.2 := by
  intro p hp q hq hname
  have hpairs := h.follows
  rw [hflight, List.pairwise_append, List.pairwise_cons] at hpairs
  obtain ⟨-, ⟨hafter, -⟩, hbefore⟩ := hpairs
  rcases List.mem_append.mp he' with hin | hin
  · obtain ⟨⟨hqueued', hqueued, howner⟩, -⟩ :=
      (hbefore e' hin e (by simp)).later p hp q hq hname
    exact absurd howner (hfirst hqueued e' hin hqueued')
  · have hfollows := hafter e' hin
    obtain ⟨⟨hqueued, hqueued', howner⟩, hle⟩ := hfollows.later q hq p hp hname.symm
    exact ⟨hfollows.waits hqueued hqueued' howner, hle⟩

/-- What goes on in the place of what is done, and stores what it was to store or nothing, follows
what stands before it, and is followed by what stands after. -/
theorem Orderly.in_place (h : s.Orderly) (hflight : Jobs.inFlight s.jobs = before ++ e :: after)
    (hfirst : First before e) {act : TokenWork}
    (hstores : act.stores = none ∨ act.stores = e.act.stores) :
    (∀ b ∈ before, Follows b ⟨e.owner, e.queued, act⟩) ∧
      ∀ a ∈ after, Follows ⟨e.owner, e.queued, act⟩ a := by
  have hpairs := h.follows
  rw [hflight, List.pairwise_append, List.pairwise_cons] at hpairs
  obtain ⟨-, ⟨hafter, -⟩, hbefore⟩ := hpairs
  constructor
  · intro b hb
    constructor
    · intro hqueued' hqueued howner
      exact absurd howner (hfirst hqueued b hb hqueued')
    · intro p hp q hq hname
      rcases hstores with hnone | hsame
      · rw [hnone] at hq
        cases hq
      · exact (hbefore b hb e (by simp)).later p hp q (hsame ▸ hq) hname
  · intro a ha
    constructor
    · exact (hafter a ha).waits
    · intro p hp q hq hname
      rcases hstores with hnone | hsame
      · rw [hnone] at hp
        cases hp
      · exact (hafter a ha).later p (hsame ▸ hp) q hq hname

/-- A turn's work done: the state it leaves is settled, the work around it may still be done, and so
may what it goes on with, in its place. -/
theorem Orderly.turned (h : s.Orderly) (next : TokenTabs) {acts : List TokenWork}
    (hflight : Jobs.inFlight s.jobs = before ++ e :: after)
    (hturned : Jobs.inFlight (Jobs.continueWith s.jobs i acts) =
      before ++ (acts.map fun act => ⟨e.owner, e.queued, act⟩) ++ after)
    (hsettled : next.Settled) (hothers : ∀ e' ∈ before ++ after, next.WorkOk e')
    (hacts : ∀ act ∈ acts, next.WorkOk ⟨e.owner, e.queued, act⟩)
    (hplace : ∀ act ∈ acts, (∀ b ∈ before, Follows b ⟨e.owner, e.queued, act⟩) ∧
      ∀ a ∈ after, Follows ⟨e.owner, e.queued, act⟩ a)
    (hpairs : acts.Pairwise fun a b => Follows ⟨e.owner, e.queued, a⟩ ⟨e.owner, e.queued, b⟩) :
    Orderly { next with jobs := Jobs.continueWith s.jobs i acts } := by
  obtain ⟨⟨hone, hnewer, hkept⟩, hmade, hobtained, hforgotten, hheld⟩ := hsettled
  refine ⟨⟨⟨hone, hnewer, hkept⟩, hmade, hobtained, hforgotten, hheld⟩, ?_, ?_⟩
  · have hold := h.follows
    rw [hflight, List.pairwise_append, List.pairwise_cons] at hold
    obtain ⟨hbefore, ⟨-, hafter⟩, hacross⟩ := hold
    dsimp only
    rw [hturned, List.append_assoc, List.pairwise_append, List.pairwise_append, List.pairwise_map]
    refine ⟨hbefore, ⟨hpairs, hafter, ?_⟩, ?_⟩
    · intro a ha b hb
      obtain ⟨act, hact, rfl⟩ := List.mem_map.mp ha
      exact (hplace act hact).2 b hb
    · intro a ha b hb
      rcases List.mem_append.mp hb with hnew | hlater
      · obtain ⟨act, hact, rfl⟩ := List.mem_map.mp hnew
        exact (hplace act hact).1 a ha
      · exact hacross a ha b (by simp [hlater])
  · dsimp only
    rw [hturned]
    intro e' he'
    have hwork : next.WorkOk e' := by
      rcases List.mem_append.mp he' with hin | hin
      · rcases List.mem_append.mp hin with hbefore | hnew
        · exact hothers e' (List.mem_append_left _ hbefore)
        · obtain ⟨act, hact, rfl⟩ := List.mem_map.mp hnew
          exact hacts act hact
      · exact hothers e' (List.mem_append_right _ hin)
    exact ⟨hwork.queued, hwork.oauth, hwork.bridge, hwork.obtained, hwork.newer,
      hwork.kept, hwork.placed⟩

/-- A turn that leaves the state as it is. -/
theorem Orderly.turned_same (h : s.Orderly) {acts : List TokenWork}
    (hflight : Jobs.inFlight s.jobs = before ++ e :: after)
    (hturned : Jobs.inFlight (Jobs.continueWith s.jobs i acts) =
      before ++ (acts.map fun act => ⟨e.owner, e.queued, act⟩) ++ after)
    (hacts : ∀ act ∈ acts, s.WorkOk ⟨e.owner, e.queued, act⟩)
    (hplace : ∀ act ∈ acts, (∀ b ∈ before, Follows b ⟨e.owner, e.queued, act⟩) ∧
      ∀ a ∈ after, Follows ⟨e.owner, e.queued, act⟩ a)
    (hpairs : acts.Pairwise fun a b => Follows ⟨e.owner, e.queued, a⟩ ⟨e.owner, e.queued, b⟩) :
    Orderly { s with jobs := Jobs.continueWith s.jobs i acts } := by
  refine h.turned s hflight hturned h.toSettled ?_ hacts hplace hpairs
  exact fun e' he' => h.works e' (mem_of_around hflight he')

/-- A turn that leaves the state as it is, and goes on with one piece of work that stores what it
was to store or nothing. -/
theorem Orderly.turned_one (h : s.Orderly) (hfirst : First before e) {act : TokenWork}
    (hflight : Jobs.inFlight s.jobs = before ++ e :: after)
    (hturned : Jobs.inFlight (Jobs.continueWith s.jobs i [act]) =
      before ++ ([act].map fun act => ⟨e.owner, e.queued, act⟩) ++ after)
    (hact : s.WorkOk ⟨e.owner, e.queued, act⟩)
    (hstores : act.stores = none ∨ act.stores = e.act.stores) :
    Orderly { s with jobs := Jobs.continueWith s.jobs i [act] } := by
  refine h.turned_same hflight hturned ?_ ?_ (List.pairwise_singleton _ _)
  · intro act' hact'
    rw [List.mem_singleton.mp hact']
    exact hact
  · intro act' hact'
    rw [List.mem_singleton.mp hact']
    exact h.in_place hflight hfirst hstores

/-- A turn that leaves the state as it is, and goes on with work that stores nothing. -/
theorem Orderly.turned_idle (h : s.Orderly) (hfirst : First before e) {acts : List TokenWork}
    (hflight : Jobs.inFlight s.jobs = before ++ e :: after)
    (hturned : Jobs.inFlight (Jobs.continueWith s.jobs i acts) =
      before ++ (acts.map fun act => ⟨e.owner, e.queued, act⟩) ++ after)
    (hacts : ∀ act ∈ acts, act.stores = none ∧ Started act = false ∧
      (act ≠ .sync ∧ act ≠ .syncBridge) ∧ s.Placed act) :
    Orderly { s with jobs := Jobs.continueWith s.jobs i acts } := by
  refine h.turned_same hflight hturned ?_ ?_ ?_
  · intro act hact
    obtain ⟨hstores, -, ⟨hoauth, hbridge⟩, hplaced⟩ := hacts act hact
    exact workOk_of_stores_eq_none hstores (fun heq => absurd heq hoauth)
      (fun heq => absurd heq hbridge) hplaced
  · intro act hact
    exact h.in_place hflight hfirst (Or.inl (hacts act hact).1)
  · refine List.pairwise_of_forall_mem_list ?_
    intro a ha b hb
    exact follows_of_stores_eq_none (Or.inl (hacts a ha).1) fun _ _ _ => (hacts b hb).2.1

end Turn

/-! ## Writing into the vault -/

section Write

variable {tab id made : Nat} {name : TokenName} {token : Nat} {former : Option Nat}

/-- The secrets after one was written. -/
theorem mem_put {vault : Table TokenSecret.id} {secret : TokenSecret} :
    secret ∈ (vault.put ⟨id, name, token⟩).rows ↔
      secret = ⟨id, name, token⟩ ∨ secret ∈ vault.rows ∧ secret.id ≠ id :=
  Table.mem_put

/-- A token written in its place, where it was obtained after what it is written over and no other
tab forgot it. -/
theorem Settled.write (h : s.Settled)
    (hplace : ∀ secret ∈ s.vault.rows, secret.id = id ↔ secret.name = name)
    (hmade : s.made ≤ made) (hid : id < made) (htoken : token < s.obtained)
    (hover : ∀ old ∈ former, old ≤ token)
    (hkept : ∀ f ∈ s.forgettings, f.name = name → f.tab ≠ tab → f.before ≤ token) :
    Settled { s.write tab name token id former with made } where
  one := by
    have hrows : (s.write tab name token id former).vault.rows =
        (s.vault.delete id).rows ++ [⟨id, name, token⟩] := rfl
    dsimp only
    rw [hrows, List.map_append]
    apply List.Nodup.append
    · -- The record that had the id is taken out first, so that no two have one name.
      exact h.one.sublist (List.filter_sublist.map _)
    · exact List.nodup_singleton _
    · intro other hother hnew
      rw [List.map_singleton, List.mem_singleton] at hnew
      obtain ⟨secret, hsecret, rfl⟩ := List.mem_map.mp hother
      obtain ⟨hold, hne⟩ := Table.mem_delete.mp hsecret
      exact hne ((hplace secret hold).mpr hnew)
  newer := by
    intro w hw
    rcases List.mem_append.mp hw with hold | hnew
    · exact h.newer w hold
    · rw [List.mem_singleton.mp hnew]
      exact hover
  kept := by
    intro w hw
    rcases List.mem_append.mp hw with hold | hnew
    · exact h.kept w hold
    · rw [List.mem_singleton.mp hnew]
      intro other hother
      obtain ⟨f, hf, rfl⟩ := List.mem_map.mp hother
      rw [List.mem_filter, Bool.and_eq_true, decide_eq_true_iff, decide_eq_true_iff] at hf
      -- A forgetting that the new token is older than is another tab's, and came before.
      by_contra hne
      exact absurd (hkept f hf.1 hf.2.1 hne) (not_le.mpr hf.2.2)
  made := by
    intro secret hsecret
    rcases mem_put.mp hsecret with rfl | ⟨hold, -⟩
    · exact hid
    · exact (h.made secret hold).trans_le hmade
  obtained := by
    intro secret hsecret
    rcases mem_put.mp hsecret with rfl | ⟨hold, -⟩
    · exact htoken
    · exact h.obtained secret hold
  forgotten := h.forgotten
  held := h.held

/-- Work of another name, or a later store that has not started, after a token was written. -/
theorem WorkOk.write (h : s.WorkOk e) (hmade : s.made ≤ made)
    (hnew : (∃ secret ∈ s.vault.rows, secret.id = id ∧ secret.name = name) ∨ id = s.made)
    (hlater : ∀ p ∈ e.act.stores, p.1 = name → Started e.act = false ∧ token ≤ p.2) :
    WorkOk { s.write tab name token id former with made } e where
  queued := h.queued
  oauth := h.oauth
  bridge := h.bridge
  obtained := h.obtained
  newer p hp secret hsecret hname := by
    rcases mem_put.mp hsecret with rfl | ⟨hold, -⟩
    · exact (hlater p hp hname.symm).2
    · exact h.newer p hp secret hold hname
  kept := h.kept
  placed := by
    -- A store that has started is of another name, and about to write elsewhere.
    have hother : ∀ p ∈ e.act.stores, Started e.act = true → p.1 ≠ name := by
      intro p hp hstarted hname
      rw [(hlater p hp hname).1] at hstarted
      cases hstarted
    have helsewhere : ∀ id' < s.made, ∀ name' ≠ name,
        (∀ secret ∈ s.vault.rows, secret.id = id' ↔ secret.name = name') →
        ∀ secret ∈ (s.write tab name token id former).vault.rows,
          secret.id = id' ↔ secret.name = name' := by
      intro id' hid' name' hname' hiff secret hsecret
      rcases mem_put.mp hsecret with rfl | ⟨hold, -⟩
      · refine ⟨fun heq => ?_, fun heq => absurd heq.symm hname'⟩
        rcases hnew with ⟨stored, hstored, hsame, hnamed⟩ | hfresh
        · exact hnamed.symm.trans ((hiff stored hstored).mp (hsame.trans heq))
        · dsimp only at heq
          omega
      · exact hiff secret hold
    have hunnamed : ∀ name' ≠ name, (∀ secret ∈ s.vault.rows, secret.name ≠ name') →
        ∀ secret ∈ (s.write tab name token id former).vault.rows, secret.name ≠ name' := by
      intro name' hname' hnone secret hsecret
      rcases mem_put.mp hsecret with rfl | ⟨hold, -⟩
      · exact Ne.symm hname'
      · exact hnone secret hold
    have hplaced := h.placed
    cases hact : e.act with
    | encrypt name' token' id' =>
        rw [hact] at hplaced hother
        exact ⟨hplaced.1.trans_le hmade,
          helsewhere id' hplaced.1 name' (hother (name', token') rfl rfl) hplaced.2⟩
    | put name' token' id' =>
        rw [hact] at hplaced hother
        exact ⟨hplaced.1.trans_le hmade,
          helsewhere id' hplaced.1 name' (hother (name', token') rfl rfl) hplaced.2⟩
    | fresh name' token' =>
        rw [hact] at hplaced hother
        exact hunnamed name' (hother (name', token') rfl rfl) hplaced
    | add name' token' =>
        rw [hact] at hplaced hother
        exact hunnamed name' (hother (name', token') rfl rfl) hplaced
    | keep name' token' =>
        rw [hact] at hplaced
        exact hplaced
    | _ => trivial

end Write

/-! ## What each piece of work does -/

section Work

/-- What is current may be stored. -/
theorem Settled.workOk_find (h : s.Settled) {tab : Nat} {name : TokenName} {token : Nat}
    (hcurrent : s.Current tab name token) (htoken : token ∈ (s.tabs tab).token name) :
    s.WorkOk ⟨tab, name.queued, .find name token⟩ where
  queued p hp := by
    cases hp
    rfl
  oauth heq := nomatch heq
  bridge heq := nomatch heq
  obtained p hp := by
    cases hp
    exact h.held tab name token htoken
  newer p hp := by
    cases hp
    exact hcurrent.newest
  kept p hp := by
    cases hp
    exact hcurrent.kept
  placed := trivial

/-- A store of an OAuth 2.0 token stands beside all others. -/
theorem follows_oauth {a b : Flying Nat TokenWork} (hbeside : a.queued = false ∨ b.queued = false)
    (hnames : ∀ p ∈ a.act.stores, ∀ q ∈ b.act.stores, p.1 ≠ q.1) : Follows a b where
  waits ha hb := by
    rcases hbeside with hnot | hnot
    · rw [hnot] at ha
      cases ha
    · rw [hnot] at hb
      cases hb
  later p hp q hq hname := absurd hname (hnames p hp q hq)

/-- A store's next piece may be done, in its place. -/
theorem WorkOk.succ (h : s.WorkOk e) {act : TokenWork} (hstores : act.stores = e.act.stores)
    (hsync : act ≠ .sync ∧ act ≠ .syncBridge) (hplaced : s.Placed act) :
    s.WorkOk ⟨e.owner, e.queued, act⟩ where
  queued p hp := h.queued p (hstores ▸ hp)
  oauth heq := absurd heq hsync.1
  bridge heq := absurd heq hsync.2
  obtained p hp := h.obtained p (hstores ▸ hp)
  newer p hp := h.newer p (hstores ▸ hp)
  kept p hp := h.kept p (hstores ▸ hp)
  placed := hplaced

/-- Jobs given up. -/
theorem Orderly.fewer (h : s.Orderly) {jobs : List (Job Nat TokenWork)}
    (hsub : (Jobs.inFlight jobs).Sublist (Jobs.inFlight s.jobs)) :
    Orderly { s with jobs } where
  toNewestWins := ⟨h.one, h.newer, h.kept⟩
  made := h.made
  obtained := h.obtained
  forgotten := h.forgotten
  held := h.held
  follows := h.follows.sublist hsub
  works e he := (h.works e (hsub.subset he)).mono (fun _ hin => hin) le_rfl le_rfl
    fun _ hf => Or.inl hf

/-- The secret found under a name is the only one there. -/
theorem Settled.stored_spec (h : s.Settled) {name : TokenName} {secret : TokenSecret}
    (hstored : s.stored name = some secret) :
    secret.id < s.made ∧
      ∀ other ∈ s.vault.rows, other.id = secret.id ↔ other.name = name := by
  have hmem := List.mem_of_find?_eq_some hstored
  have hname : secret.name = name := by simpa using List.find?_some hstored
  refine ⟨h.made secret hmem, fun other hother => ⟨fun hid => ?_, fun hsame => ?_⟩⟩
  · rw [Table.eq_of_key_eq hother hmem hid, hname]
  · rw [List.inj_on_of_nodup_map h.one hother hmem (hsame.trans hname.symm)]

theorem ne_of_stored_eq_none {name : TokenName} (h : s.stored name = none) :
    ∀ secret ∈ s.vault.rows, secret.name ≠ name := by
  intro secret hsecret
  simpa using List.find?_eq_none.mp h secret hsecret

/-- What a tab holds once it held a token, or nothing, under a name. -/
theorem TokenTab.mem_token_hold {tab : TokenTab} {name name' : TokenName} {new : Option Nat}
    {token : Nat} (h : token ∈ (tab.hold name new).token name') :
    token ∈ new ∨ token ∈ tab.token name' := by
  cases name with
  | bridge =>
      cases name' with
      | bridge => exact Or.inl (by cases new <;> exact h)
      | oauth key => exact Or.inr (by cases new <;> exact h)
  | oauth key =>
      cases name' with
      | bridge => exact Or.inr (by cases new <;> exact h)
      | oauth key' =>
          cases new with
          | none =>
              right
              have hget : (tab.held.erase key).get? key' = some token := h
              rw [OrderedMap.get?_erase] at hget
              split_ifs at hget
              exact hget
          | some held =>
              have hget : (tab.held.set key held).get? key' = some token := h
              rw [OrderedMap.get?_set] at hget
              split_ifs at hget
              · exact Or.inl hget
              · exact Or.inr hget

/-- A tab that holds something else, no later than what was obtained. -/
theorem Settled.setTab (h : s.Settled) {tab : Nat} {next : TokenTab}
    (hnext : ∀ name, ∀ token ∈ next.token name, token < s.obtained) :
    (s.setTab tab next).Settled where
  toNewestWins := ⟨h.one, h.newer, h.kept⟩
  made := h.made
  obtained := h.obtained
  forgotten := h.forgotten
  held tab' name token htoken := by
    by_cases heq : tab' = tab
    · rw [heq, tabs_setTab_self] at htoken
      exact hnext name token htoken
    · rw [tabs_setTab_of_ne s next heq] at htoken
      exact h.held tab' name token htoken

variable {i : Nat} {next : TokenTabs}

/-- A piece of work done keeps the order, where a tab that was unlocked writes what is current. -/
theorem Orderly.work (h : s.Orderly) (horder : s.InOrder (.work i))
    (hstep : s.step (.work i) = some next) : next.Orderly := by
  obtain ⟨⟨tab, queued, act⟩, hturn, rfl⟩ := Option.map_eq_some_iff.mp hstep
  obtain ⟨before, after, hflight, hturned, hfirst⟩ := Jobs.turn_spec hturn
  have hwork : s.WorkOk ⟨tab, queued, act⟩ := h.works _ (by rw [hflight]; simp)
  have hothers : ∀ e' ∈ before ++ after, s.WorkOk e' :=
    fun e' he' => h.works e' (mem_of_around hflight he')
  have haround : ∀ e' ∈ before ++ after, ∀ p ∈ e'.act.stores, ∀ q ∈ act.stores, p.1 = q.1 →
      Started e'.act = false ∧ q.2 ≤ p.2 := fun _ he' => h.around hflight hfirst he'
  cases act with
  | find name token =>
      dsimp only [perform]
      cases hstored : s.stored name with
      | some secret =>
          obtain ⟨hid, hiff⟩ := h.stored_spec hstored
          exact h.turned_one hfirst hflight (hturned _)
            (hwork.succ rfl (by simp) ⟨hid, hiff⟩) (Or.inr rfl)
      | none =>
          exact h.turned_one hfirst hflight (hturned _)
            (hwork.succ rfl (by simp) (ne_of_stored_eq_none hstored)) (Or.inr rfl)
  | encrypt name token id =>
      dsimp only [perform]
      split_ifs
      · exact h.turned_one hfirst hflight (hturned _) (hwork.succ rfl (by simp) hwork.placed)
          (Or.inr rfl)
      · exact h.fewer (Jobs.inFlight_endJob_sublist _ i)
  | put name token id =>
      obtain ⟨hid, hiff⟩ := hwork.placed
      dsimp only [perform]
      cases hget : s.vault.get? id with
      | none =>
          refine h.turned_one hfirst hflight (hturned _) (hwork.succ rfl (by simp) ?_) (Or.inr rfl)
          intro secret hsecret hname
          exact Table.get?_eq_none_iff.mp hget secret hsecret ((hiff secret hsecret).mpr hname)
      | some secret =>
          obtain ⟨hsecret, hsame⟩ := Table.get?_eq_some_iff.mp hget
          have hname : secret.name = name := (hiff secret hsecret).mp hsame
          dsimp only
          rw [hname]
          apply h.turned (s.write tab name token id (some secret.token)) hflight (hturned _)
          · exact h.write hiff le_rfl hid (hwork.obtained _ rfl)
              (fun old hold => Option.mem_some.mp hold ▸ hwork.newer _ rfl secret hsecret hname)
              (hwork.kept _ rfl)
          · intro e' he'
            exact (hothers e' he').write le_rfl (Or.inl ⟨secret, hsecret, hsame, hname⟩)
              fun p hp hp' => haround e' he' p hp _ rfl hp'
          · exact fun _ hact => nomatch hact
          · exact fun _ hact => nomatch hact
          · exact List.Pairwise.nil
  | fresh name token =>
      dsimp only [perform]
      split_ifs
      · exact h.turned_one hfirst hflight (hturned _) (hwork.succ rfl (by simp) hwork.placed)
          (Or.inr rfl)
      · exact h.fewer (Jobs.inFlight_endJob_sublist _ i)
  | add name token =>
      have hnone : ∀ secret ∈ s.vault.rows, secret.name ≠ name := hwork.placed
      have hiff : ∀ secret ∈ s.vault.rows, secret.id = s.made ↔ secret.name = name :=
        fun secret hsecret => iff_of_false (h.made secret hsecret).ne (hnone secret hsecret)
      apply h.turned { s.write tab name token s.made none with made := s.made + 1 } hflight
        (hturned _)
      · exact h.write hiff (Nat.le_succ _) (Nat.lt_succ_self _) (hwork.obtained _ rfl)
          (fun _ hold => nomatch hold) (hwork.kept _ rfl)
      · intro e' he'
        exact (hothers e' he').write (Nat.le_succ _) (Or.inr rfl)
          fun p hp hp' => haround e' he' p hp _ rfl hp'
      · exact fun _ hact => nomatch hact
      · exact fun _ hact => nomatch hact
      · exact List.Pairwise.nil
  | forget name =>
      apply h.turned_idle hfirst hflight (hturned _)
      cases s.stored name <;> simp [TokenWork.stores, Started, Placed]
  | delete id =>
      have hdeleted : ∀ secret ∈ (s.vault.delete id).rows, secret ∈ s.vault.rows :=
        fun secret hsecret => (Table.mem_delete.mp hsecret).1
      apply h.turned { s with vault := s.vault.delete id } hflight (hturned _)
      · exact ⟨⟨h.one.sublist (List.filter_sublist.map _), h.newer, h.kept⟩,
          fun secret hsecret => h.made secret (hdeleted secret hsecret),
          fun secret hsecret => h.obtained secret (hdeleted secret hsecret), h.forgotten, h.held⟩
      · intro e' he'
        exact (hothers e' he').mono hdeleted le_rfl le_rfl fun _ hf => Or.inl hf
      · exact fun _ hact => nomatch hact
      · exact fun _ hact => nomatch hact
      · exact List.Pairwise.nil
  | fetch name =>
      apply h.turned_idle hfirst hflight (hturned _)
      cases s.stored name <;> simp [TokenWork.stores, Started, Placed]
  | list mine =>
      apply h.turned_idle hfirst hflight (hturned _)
      intro act hact
      obtain ⟨secret, -, htake⟩ := List.mem_filterMap.mp hact
      cases hname : secret.name with
      | bridge =>
          rw [hname] at htake
          cases htake
      | oauth key =>
          rw [hname] at htake
          cases htake
          exact ⟨rfl, rfl, by simp, trivial⟩
  | take mine name id =>
      apply h.turned_idle hfirst hflight (hturned _)
      split_ifs <;> simp [TokenWork.stores, Started, Placed]
  | read name id =>
      apply h.turned_idle hfirst hflight (hturned _)
      cases hget : s.vault.get? id with
      | none => exact fun _ hact => nomatch hact
      | some secret =>
          intro act hact
          rw [List.mem_singleton.mp hact]
          exact ⟨rfl, rfl, by simp, h.obtained secret (Table.get?_eq_some_iff.mp hget).1⟩
  | keep name token =>
      apply h.turned (s.setTab tab ((s.tabs tab).hold name (some token))) hflight (hturned _)
      · apply h.setTab
        intro name' token' htoken
        rcases TokenTab.mem_token_hold htoken with hnew | hold
        · rw [← Option.mem_some.mp hnew]
          exact hwork.placed
        · exact h.held tab name' token' hold
      · intro e' he'
        exact (hothers e' he').mono (fun _ hin => hin) le_rfl le_rfl fun _ hf => Or.inl hf
      · exact fun _ hact => nomatch hact
      · exact fun _ hact => nomatch hact
      · exact List.Pairwise.nil
  | sync =>
      have hcurrent := (horder _ hturn).1 rfl
      have hbeside : queued = false := hwork.oauth rfl
      subst hbeside
      -- No store of an OAuth 2.0 token that the tab holds is on its way.
      have hnone : ∀ entry ∈ (s.tabs tab).held.entries, ∀ e' ∈ before ++ after,
          ∀ p ∈ e'.act.stores, p.1 ≠ .oauth entry.1 := by
        intro entry hentry e' he' p hp hname
        have hin := mem_of_around hflight he'
        have hqueued := ((hcurrent entry hentry).queued e' hin p hp hname).1.1
        rw [(hothers e' he').queued p hp, hname] at hqueued
        cases hqueued
      refine h.turned_same hflight (hturned _) ?_ ?_ ?_
      · intro act hact
        rcases List.mem_append.mp hact with hfind | hlist
        · obtain ⟨entry, hentry, rfl⟩ := List.mem_map.mp hfind
          exact h.workOk_find (hcurrent entry hentry) (OrderedMap.get?_of_mem_entries hentry)
        · rw [List.mem_singleton.mp hlist]
          exact workOk_of_stores_eq_none rfl (fun _ => rfl) (fun heq => nomatch heq) trivial
      · intro act hact
        rcases List.mem_append.mp hact with hfind | hlist
        · obtain ⟨entry, hentry, rfl⟩ := List.mem_map.mp hfind
          constructor
          · intro b hb
            refine follows_oauth (Or.inr rfl) fun p hp q hq => ?_
            cases hq
            exact hnone entry hentry b (List.mem_append_left _ hb) p hp
          · intro a ha
            refine follows_oauth (Or.inl rfl) fun p hp q hq hname => ?_
            cases hp
            exact hnone entry hentry a (List.mem_append_right _ ha) q hq hname.symm
        · rw [List.mem_singleton.mp hlist]
          exact h.in_place hflight hfirst (Or.inl rfl)
      · rw [List.pairwise_append, List.pairwise_map]
        refine ⟨?_, List.pairwise_singleton _ _, ?_⟩
        · refine (List.pairwise_map.mp (s.tabs tab).held.nodup).imp ?_
          intro a b hne
          refine follows_oauth (Or.inl rfl) fun p hp q hq hname => ?_
          cases hp
          cases hq
          exact hne (TokenName.oauth.inj hname)
        · intro a _ b hb
          rw [List.mem_singleton.mp hb]
          exact follows_of_stores_eq_none (Or.inr rfl) fun _ _ _ => rfl
  | syncBridge =>
      have hqueued : queued = true := hwork.bridge rfl
      subst hqueued
      dsimp only [perform]
      cases hbridge : (s.tabs tab).bridge with
      | none =>
          apply h.turned_idle hfirst hflight (hturned _)
          simp [TokenWork.stores, Started, Placed]
      | some token =>
          have hcurrent := (horder _ hturn).2 rfl token hbridge
          refine h.turned_same hflight (hturned _) ?_ ?_ (List.pairwise_singleton _ _)
          · intro act hact
            rw [List.mem_singleton.mp hact]
            exact h.workOk_find hcurrent hbridge
          · intro act hact
            rw [List.mem_singleton.mp hact]
            constructor
            · intro b hb
              have hbefore := mem_of_around hflight (List.mem_append_left _ hb)
              refine ⟨fun _ _ _ => rfl, fun p hp q hq hname => ?_⟩
              cases hq
              obtain ⟨⟨hbqueued, howner⟩, -⟩ := hcurrent.queued b hbefore p hp hname
              exact absurd howner (hfirst rfl b hb hbqueued)
            · intro a ha
              have hafter := mem_of_around hflight (List.mem_append_right _ ha)
              refine ⟨?_, fun p hp q hq hname => ?_⟩
              · have hpairs := h.follows
                rw [hflight, List.pairwise_append, List.pairwise_cons] at hpairs
                exact (hpairs.2.1.1 a ha).waits
              · cases hp
                obtain ⟨⟨haqueued, howner⟩, hle⟩ := hcurrent.queued a hafter q hq hname.symm
                exact ⟨⟨rfl, haqueued, howner.symm⟩, hle⟩
  | noticed =>
      apply h.turned_idle hfirst hflight (hturned _)
      split_ifs <;> simp [TokenWork.stores, Started, Placed]

end Work

/-! ## What else can happen -/

section Steps

variable {next : TokenTabs}

/-- Work begun, where it may be done and follows what is on its way. -/
theorem Orderly.begin (h : s.Orderly) {tab : Nat} {queued : Bool} {work : TokenWork}
    (hwork : s.WorkOk ⟨tab, queued, work⟩)
    (hfollows : ∀ e ∈ Jobs.inFlight s.jobs, Follows e ⟨tab, queued, work⟩) :
    (s.begin tab queued work).Orderly := by
  have hflight : Jobs.inFlight (s.begin tab queued work).jobs =
      Jobs.inFlight s.jobs ++ [⟨tab, queued, work⟩] := by
    rw [TokenTabs.begin, Jobs.inFlight_append, Jobs.inFlight_singleton]
    rfl
  obtain ⟨⟨⟨hone, hnewer, hkept⟩, hmade, hobtained, hforgotten, hheld⟩, hold, hworks⟩ := h
  refine ⟨⟨⟨hone, hnewer, hkept⟩, hmade, hobtained, hforgotten, hheld⟩, ?_, ?_⟩
  · rw [hflight, List.pairwise_append]
    refine ⟨hold, List.pairwise_singleton _ _, fun e he work' hwork' => ?_⟩
    rw [List.mem_singleton.mp hwork']
    exact hfollows e he
  · rw [hflight]
    intro e he
    have hok : s.WorkOk e := by
      rcases List.mem_append.mp he with hin | hnew
      · exact hworks e hin
      · rw [List.mem_singleton.mp hnew]
        exact hwork
    exact hok.mono (fun _ hin => hin) le_rfl le_rfl fun _ hf => Or.inl hf

/-- Work begun that stores nothing yet. -/
theorem Orderly.begin_idle (h : s.Orderly) {tab : Nat} {queued : Bool} {work : TokenWork}
    (hstores : work.stores = none) (hstarted : Started work = false)
    (hoauth : work = .sync → queued = false) (hbridge : work = .syncBridge → queued = true)
    (hplaced : s.Placed work) : (s.begin tab queued work).Orderly :=
  h.begin (workOk_of_stores_eq_none hstores hoauth hbridge hplaced)
    fun _ _ => follows_of_stores_eq_none (Or.inr hstores) fun _ _ _ => hstarted

/-- A tab changed, more tokens obtained, and more forgotten: what is on its way stays so. -/
theorem Orderly.noted (h : s.Orderly) {tab : Nat} {held : TokenTab} {obtained : Nat}
    {forgettings : List Forgetting} (hobtained : s.obtained ≤ obtained)
    (hheld : ∀ name, ∀ token ∈ held.token name, token < obtained)
    (hbefore : ∀ f ∈ forgettings, f.before ≤ obtained)
    (hforgot : ∀ f ∈ forgettings, f ∈ s.forgettings ∨ ∀ e ∈ Jobs.inFlight s.jobs,
      ∀ p ∈ e.act.stores, p.1 = f.name → f.tab = e.owner) :
    Orderly { s.setTab tab held with obtained, forgettings } where
  one := h.one
  newer := h.newer
  kept := h.kept
  made := h.made
  obtained secret hsecret := (h.obtained secret hsecret).trans_le hobtained
  forgotten := hbefore
  held tab' name token htoken := by
    by_cases heq : tab' = tab
    · rw [heq, tabs_setTab_self] at htoken
      exact hheld name token htoken
    · rw [tabs_setTab_of_ne s held heq] at htoken
      exact (h.held tab' name token htoken).trans_le hobtained
  follows := h.follows
  works e he := (h.works e he).mono (fun _ hin => hin) hobtained le_rfl fun f hf =>
    (hforgot f hf).imp_right fun hown => hown e he

theorem Orderly.obtain (h : s.Orderly) {tab : Nat} {name : TokenName}
    (horder : s.InOrder (.obtain tab name)) (hstep : s.step (.obtain tab name) = some next) :
    next.Orderly := by
  have hcounted : Orderly { s.setTab tab ((s.tabs tab).hold name (some s.obtained)) with
      obtained := s.obtained + 1, forgettings := s.forgettings } := by
    apply h.noted (Nat.le_succ _)
    · intro name' token htoken
      rcases TokenTab.mem_token_hold htoken with hnew | hold
      · rw [← Option.mem_some.mp hnew]
        exact Nat.lt_succ_self _
      · exact (h.held tab name' token hold).trans (Nat.lt_succ_self _)
    · exact fun f hf => (h.forgotten f hf).trans (Nat.le_succ _)
    · exact fun f hf => Or.inl hf
  cases hstep
  split_ifs with hunlocked
  · have hqueued := horder hunlocked
    apply hcounted.begin
    · constructor
      · rintro p ⟨⟩
        rfl
      · exact fun heq => nomatch heq
      · exact fun heq => nomatch heq
      · rintro p ⟨⟩
        exact Nat.lt_succ_self _
      · rintro p ⟨⟩ secret hsecret -
        exact (h.obtained secret hsecret).le
      · rintro p ⟨⟩ f hf - -
        exact h.forgotten f hf
      · trivial
    · intro e he
      refine ⟨fun _ _ _ => rfl, ?_⟩
      rintro p hp q ⟨⟩ hname
      obtain ⟨hq, howner⟩ := hqueued e he p hp hname
      have hsame := (h.works e he).queued p hp
      rw [hq, hname] at hsame
      exact ⟨⟨hq, hsame.symm, howner⟩, ((h.works e he).obtained p hp).le⟩
  · exact hcounted

theorem Orderly.forget (h : s.Orderly) {tab : Nat} {name : TokenName}
    (horder : s.InOrder (.forget tab name)) (hstep : s.step (.forget tab name) = some next) :
    next.Orderly := by
  have hnoted : Orderly { s.setTab tab ((s.tabs tab).hold name none) with
      obtained := s.obtained, forgettings := s.forgettings ++ [⟨tab, name, s.obtained⟩] } := by
    apply h.noted le_rfl
    · intro name' token htoken
      rcases TokenTab.mem_token_hold htoken with hnew | hold
      · cases hnew
      · exact h.held tab name' token hold
    · intro f hf
      rcases List.mem_append.mp hf with hold | hnew
      · exact h.forgotten f hold
      · rw [List.mem_singleton.mp hnew]
    · intro f hf
      rcases List.mem_append.mp hf with hold | hnew
      · exact Or.inl hold
      · rw [List.mem_singleton.mp hnew]
        exact Or.inr fun e he p hp hname => (horder e he p hp hname).symm
  cases hstep
  split_ifs
  · exact hnoted.begin_idle rfl rfl (fun heq => nomatch heq) (fun heq => nomatch heq) trivial
  · exact hnoted

/-- A tab that is locked, unlocked or opened anew. -/
theorem Orderly.setTab (h : s.Orderly) {tab : Nat} {held : TokenTab}
    (hheld : ∀ name, ∀ token ∈ held.token name, token < s.obtained) :
    (s.setTab tab held).Orderly :=
  h.noted le_rfl hheld h.forgotten fun _ hf => Or.inl hf

/-- Each step in order keeps the order. -/
theorem Orderly.step (h : s.Orderly) {a : TokenStep} (horder : s.InOrder a)
    (hstep : s.step a = some next) : next.Orderly := by
  cases a with
  | obtain tab name => exact h.obtain horder hstep
  | forget tab name => exact h.forget horder hstep
  | unlock tab =>
      rw [TokenTabs.step] at hstep
      split_ifs at hstep
      · cases hstep
        exact h
      · cases hstep
        -- An unlocked tab reads the vault, and then the list, one after the other.
        have hopened : (s.setTab tab { s.tabs tab with unlocked := true }).Orderly :=
          h.setTab fun name token htoken => h.held tab name token (by cases name <;> exact htoken)
        have hsynced : ((s.setTab tab { s.tabs tab with unlocked := true }).begin tab false
            .sync).Orderly :=
          hopened.begin_idle rfl rfl (fun _ => rfl) (fun heq => nomatch heq) trivial
        exact hsynced.begin_idle rfl rfl (fun heq => nomatch heq) (fun _ => rfl) trivial
  | lock tab =>
      cases hstep
      exact h.setTab fun name token htoken =>
        h.held tab name token (by cases name <;> exact htoken)
  | close tab =>
      cases hstep
      have hclosed : (s.setTab tab {}).Orderly :=
        h.setTab fun name token htoken => by cases name <;> cases htoken
      -- The work of the tab that is closed is gone with it.
      exact hclosed.fewer (Jobs.inFlight_filter_sublist _ _)
  | notice tab =>
      cases hstep
      have hsynced :
          Orderly (if (s.tabs tab).unlocked then s.begin tab false (.list false) else s) := by
        split_ifs
        · exact h.begin_idle rfl rfl (fun heq => nomatch heq) (fun heq => nomatch heq) trivial
        · exact h
      exact hsynced.begin_idle rfl rfl (fun heq => nomatch heq) (fun heq => nomatch heq) trivial
  | fetch tab name =>
      rw [TokenTabs.step] at hstep
      split_ifs at hstep
      · cases hstep
        exact h
      · cases hstep
        exact h.begin_idle rfl rfl (fun heq => nomatch heq) (fun heq => nomatch heq) trivial
  | work i => exact h.work horder hstep
  | fail i =>
      cases hstep
      exact h.fewer (Jobs.inFlight_endJob_sublist _ i)

end Steps

/-- After any steps in order, in any number of tabs, the newest token has won. -/
theorem run_newestWins {actions : List TokenStep} {s : TokenTabs}
    (horder : Meets TokenTabs.step InOrder {} actions)
    (hrun : run TokenTabs.step {} actions = some s) : s.NewestWins :=
  (run_induction (fun _ _ _ h ha hstep => h.step ha hstep) orderly_start horder hrun).toNewestWins

/-! ## Two tabs -/

instance (s : TokenTabs) (tab : Nat) (name : TokenName) (token : Nat) :
    Decidable (s.Current tab name token) :=
  decidable_of_iff
    ((∀ e ∈ Jobs.inFlight s.jobs, ∀ p ∈ e.act.stores, p.1 = name →
        (e.queued = true ∧ e.owner = tab) ∧ token ≤ p.2) ∧
      (∀ secret ∈ s.vault.rows, secret.name = name → secret.token ≤ token) ∧
      ∀ f ∈ s.forgettings, f.name = name → f.tab ≠ tab → f.before ≤ token)
    ⟨fun ⟨hqueued, hnewest, hkept⟩ => ⟨hqueued, hnewest, hkept⟩, fun h => ⟨h.1, h.2, h.3⟩⟩

instance (s : TokenTabs) : DecidablePred s.InOrder
  | .obtain tab name => inferInstanceAs (Decidable ((s.tabs tab).unlocked = true →
      ∀ e ∈ Jobs.inFlight s.jobs, ∀ p ∈ e.act.stores, p.1 = name → e.queued = true ∧ e.owner = tab))
  | .forget tab name => inferInstanceAs (Decidable (∀ e ∈ Jobs.inFlight s.jobs,
      ∀ p ∈ e.act.stores, p.1 = name → e.owner = tab))
  | .work i => inferInstanceAs (Decidable (∀ e ∈ Jobs.turn s.jobs i,
      (e.act = .sync → ∀ entry ∈ (s.tabs e.owner).held.entries,
        s.Current e.owner (.oauth entry.1) entry.2) ∧
      (e.act = .syncBridge → ∀ token ∈ (s.tabs e.owner).bridge, s.Current e.owner .bridge token)))
  | .unlock _ => isTrue trivial
  | .lock _ => isTrue trivial
  | .close _ => isTrue trivial
  | .notice _ => isTrue trivial
  | .fetch _ _ => isTrue trivial
  | .fail _ => isTrue trivial

/-- A token is obtained in one tab and read by another, which is then locked while the first renews
it. -/
def renewed (key : Text) : List TokenStep :=
  [.unlock 0, .work 0, .work 0, .work 1, .work 1,
    .obtain 0 (.oauth key), .work 2, .work 2, .work 2,
    .unlock 1, .work 3, .work 3, .work 3, .work 3, .work 3, .work 4, .work 4,
    .lock 1,
    .obtain 0 (.oauth key), .work 5, .work 5, .work 5]

/-- The second tab is closed and opened before it is unlocked: it takes the renewed token. -/
theorem reopened_newestWins : ∃ s, run TokenTabs.step {}
    (renewed [] ++ [.close 1, .unlock 1, .work 4, .work 4, .work 4, .work 4, .work 4]) = some s ∧
      s.NewestWins := by
  have horder : Meets TokenTabs.step InOrder {}
      (renewed [] ++ [.close 1, .unlock 1, .work 4, .work 4, .work 4, .work 4, .work 4]) := by
    decide +kernel
  have hruns : (run TokenTabs.step {} (renewed [] ++
      [.close 1, .unlock 1, .work 4, .work 4, .work 4, .work 4, .work 4])).isSome = true := by
    decide +kernel
  obtain ⟨s, hrun⟩ := Option.isSome_iff_exists.mp hruns
  exact ⟨s, hrun, run_newestWins horder hrun⟩

/-- The second tab is unlocked with the token it held: that is written over the renewed one. -/
theorem unlocked_not_newestWins : ∃ s, run TokenTabs.step {}
    (renewed [] ++ [.notice 1, .unlock 1, .work 7, .work 7, .work 7, .work 7]) = some s ∧
      ¬ s.NewestWins := by
  have hover : (run TokenTabs.step {} (renewed [] ++
      [.notice 1, .unlock 1, .work 7, .work 7, .work 7, .work 7])).any (fun s =>
        s.writes.any fun w => w.former = some 1 ∧ w.token = 0) = true := by
    decide +kernel
  obtain ⟨s, hrun, hwrites⟩ := exists_run_of_any hover
  obtain ⟨w, hw, hold⟩ := List.any_eq_true.mp hwrites
  obtain ⟨hover, htoken⟩ := of_decide_eq_true hold
  refine ⟨s, hrun, fun h => ?_⟩
  have hle := h.newer w hw 1 hover
  omega

end TokenTabs

end Wayfarer
