import Mathlib.Order.Bounds.Basic
import Wayfarer.Library.OrderedMap
import Wayfarer.Library.Run
import Wayfarer.Run.Runner

/-!
# What a run sends

`RunLoop` is `runRequests` between two of its awaits: it may be about to send, or wait for its
sender, who answers or throws; and the signal may abort at any point. `TraceRight` says what a run
sends without the loop: where it begins (`RunLoop.Awaits.begins`), and what follows what by what the
sender said (`NextSend`). `run_trace_right` is that every run of the loop does this, whatever the
sender says and whenever it is aborted, and `sends_of_aborted` that nothing is sent after an abort.
-/

set_option autoImplicit false

namespace Wayfarer

open Library

/-! ## The loop -/

/-- What the sender was asked for. -/
structure RunSend where
  /-- The place of the request in the run's list. -/
  place : Nat
  request : RunRequest
  iteration : RunIteration
  deriving DecidableEq

/-- A run of the loop. -/
structure RunLoop where
  runner : Runner
  /-- The request its sender is busy with. -/
  sending : Option RunRequest
  /-- The signal has aborted. -/
  aborted : Bool
  /-- The sender threw: the run has no report. -/
  threw : Bool
  /-- What was sent, in order. -/
  sends : List RunSend
  /-- What the sender said of it, in order. -/
  answers : List RunOutcome

/-- What may happen to a run. -/
inductive RunAct where
  | abort
  /-- The loop comes to its next request. -/
  | turn
  | answer (outcome : RunOutcome)
  | throws

namespace RunLoop

variable (requests : List RunRequest) (options : RunOptions)

/-- A run that begins. -/
def start : RunLoop where
  runner := Runner.start requests options
  sending := none
  aborted := false
  threw := false
  sends := []
  answers := []

/-- The top of the loop: the signal is read, and the next request is sent. -/
def turn (s : RunLoop) : Option RunLoop :=
  if s.threw || s.sending.isSome then none
  else
    match s.runner.current requests, s.runner.at' with
    | some request, some place =>
        if s.aborted then
          some { s with runner := { s.runner with ended := some .cancelled } }
        else
          some { s with
            sending := some request
            sends := s.sends ++
              [{ place, request, iteration := options.iteration s.runner.index }] }
    | _, _ => none

/-- What may happen, and what it makes of the run. -/
def step (s : RunLoop) : RunAct → Option RunLoop
  | .abort => some { s with aborted := true }
  | .turn => s.turn requests options
  | .answer outcome => s.sending.map fun request =>
      { s with
        runner := s.runner.afterSend requests options request outcome s.aborted
        sending := none
        answers := s.answers ++ [outcome] }
  | .throws => s.sending.map fun _ => { s with sending := none, threw := true }

end RunLoop

/-! ## What is to be sent -/

/-- The row of an iteration: its own, or the last once the rows are used up. -/
def DataRow (data : List (List Row)) (index : Nat) (row : List Row) : Prop :=
  (∀ own, data[index]? = some own → row = own) ∧
    (data.length ≤ index → row = data.getLast?.getD [])

section Spec

variable (requests : List RunRequest) (options : RunOptions)

/-- Where an iteration goes on after the request of a place, by the next request that was set. -/
inductive NextPlace (place : Nat) : Option (Option Text) → Option Nat → Prop where
  | following (h : place + 1 < requests.length) : NextPlace place none (some (place + 1))
  | last (h : requests.length ≤ place + 1) : NextPlace place none none
  | ended : NextPlace place (some none) none
  | named {t : Text} {next : Nat}
      (h : IsGreatest {k | ∃ r, requests[k]? = some r ∧ (r.id = t ∨ r.name = t)} next) :
      NextPlace place (some (some t)) (some next)
  | unknown {t : Text} (h : ∀ r ∈ requests, ¬ (r.id = t ∨ r.name = t)) :
      NextPlace place (some (some t)) none

/-- What follows what was sent, by its iteration and place: in the iteration, or at the first
request of the next one, or nothing. -/
inductive NextSend (send : RunSend) (outcome : RunOutcome) : Option (Nat × Nat) → Prop where
  | goesOn {place : Nat} (h : NextPlace requests send.place outcome.nextRequest (some place)) :
      NextSend send outcome (some (send.iteration.index, place))
  | again (h : NextPlace requests send.place outcome.nextRequest none)
      (hmore : send.iteration.index + 1 < options.count) :
      NextSend send outcome (some (send.iteration.index + 1, 0))
  | over (h : NextPlace requests send.place outcome.nextRequest none)
      (hlast : options.count ≤ send.iteration.index + 1) : NextSend send outcome none

/-- What the sender said stops the run: an end, or the first failure where that stops it. -/
def StopsRun (outcome : RunOutcome) : Prop :=
  outcome.ends.isSome = true ∨ options.stopOnFailure = true ∧ runFailed outcome = true

/-- What a run that is not stopped sends next. -/
inductive RunLoop.Awaits (s : RunLoop) : Option (Nat × Nat) → Prop where
  | begins (hsends : s.sends = []) (hsome : 0 < options.count ∧ requests ≠ []) :
      Awaits s (some (0, 0))
  | idle (hsends : s.sends = []) (hnone : options.count = 0 ∨ requests = []) : Awaits s none
  | follows {send : RunSend} {outcome : RunOutcome} {next : Option (Nat × Nat)}
      (hsend : s.sends.getLast? = some send) (hanswer : s.answers.getLast? = some outcome)
      (hgoes : ¬ StopsRun options outcome) (hnext : NextSend requests options send outcome next) :
      Awaits s next

/-- A run's trace is right. -/
structure TraceRight (s : RunLoop) : Prop where
  /-- One request is sent at a time, and the next once the sender has answered. -/
  one : s.answers.length ≤ s.sends.length ∧ s.sends.length ≤ s.answers.length + 1
  /-- The results are what the sender said of each request, in the order they were sent. -/
  results : s.runner.results = List.zipWith (fun send outcome =>
    { request := send.request, iteration := send.iteration.index, outcome }) s.sends s.answers
  /-- What is sent is a request of the run, in one of its iterations and with that one's row. -/
  sent : ∀ send ∈ s.sends, requests[send.place]? = some send.request ∧
    send.iteration.index < options.count ∧ send.iteration.count = options.count ∧
    DataRow options.data send.iteration.index send.iteration.data
  first : ∀ send, s.sends[0]? = some send → send.iteration.index = 0 ∧ send.place = 0
  /-- Nothing is sent after an outcome that stops the run; after another, what follows it. -/
  next : ∀ k send outcome later, s.sends[k]? = some send → s.answers[k]? = some outcome →
    s.sends[k + 1]? = some later → ¬ StopsRun options outcome ∧
      NextSend requests options send outcome (some (later.iteration.index, later.place))
  /-- A run that has ended says why. -/
  ended : ∀ why, s.runner.ended = some why → s.sends.length = s.answers.length ∧
    match why with
    | .completed => s.Awaits requests options none
    | .cancelled => s.aborted = true
    | .failed => ∃ outcome, s.answers.getLast? = some outcome ∧ options.stopOnFailure = true ∧
        runFailed outcome = true
    | .ended reason => ∃ outcome, s.answers.getLast? = some outcome ∧ outcome.ends = some reason
  /-- A run that has not ended goes on, unless it is aborted. -/
  live : s.runner.ended = none → s.sending = none → s.threw = false → s.aborted = false →
    ∃ place, s.Awaits requests options (some (s.runner.index, place)) ∧
      ∃ request, requests[place]? = some request ∧
        s.step requests options .turn = some { s with
          sending := some request
          sends := s.sends ++ [{ place, request, iteration := options.iteration s.runner.index }] }

end Spec

/-! ## The next place -/

section Places

variable {requests : List RunRequest} {options : RunOptions}

/-- The place that is found is the last of the requests that the name or the id names. -/
theorem lastNamed_eq_some {t : Text} {place : Nat} (h : lastNamed requests t = some place) :
    IsGreatest {k | ∃ r, requests[k]? = some r ∧ (r.id = t ∨ r.name = t)} place := by
  obtain ⟨entry, hlast, rfl⟩ := Option.map_eq_some_iff.mp h
  obtain ⟨before, after, hsplit, hnamed, hlater⟩ := getLast?_filter_eq_some_iff.mp hlast
  have hmem : entry ∈ requests.zipIdx := by
    rw [hsplit]
    exact List.mem_append_right _ List.mem_cons_self
  have hplace : entry.2 = before.length := by
    have hget : requests.zipIdx[before.length]? = some entry := by
      rw [hsplit, List.getElem?_append_right le_rfl, Nat.sub_self, List.getElem?_cons_zero]
    rw [List.getElem?_zipIdx] at hget
    obtain ⟨r, -, hentry⟩ := Option.map_eq_some_iff.mp hget
    rw [← hentry]
    exact Nat.zero_add _
  constructor
  · exact ⟨entry.1, List.mem_zipIdx_iff_getElem?.mp hmem, by simpa using hnamed⟩
  · rintro k ⟨r, hr, hrnamed⟩
    by_contra hlt
    -- A later request of the name would stand among those that were passed over.
    have hk : requests.zipIdx[k]? = some (r, k) := by
      rw [List.getElem?_zipIdx, hr]
      simp
    rw [hsplit, List.getElem?_append_right (by omega)] at hk
    obtain ⟨m, hm⟩ : ∃ m, k - before.length = m + 1 := ⟨k - before.length - 1, by omega⟩
    rw [hm, List.getElem?_cons_succ] at hk
    have hskipped := hlater _ (List.mem_of_getElem? hk)
    simp only [Bool.or_eq_false_iff, decide_eq_false_iff_not] at hskipped
    exact hrnamed.elim hskipped.1 hskipped.2

theorem lastNamed_eq_none {t : Text} (h : lastNamed requests t = none) :
    ∀ r ∈ requests, ¬ (r.id = t ∨ r.name = t) := by
  intro r hr hnamed
  rw [lastNamed, Option.map_eq_none_iff, List.getLast?_eq_none_iff, List.filter_eq_nil_iff] at h
  obtain ⟨k, hk⟩ := List.mem_iff_getElem?.mp hr
  exact h (r, k) (List.mem_zipIdx_iff_getElem?.mpr hk) (by simpa using hnamed)

/-- The place a loop goes to next, as it is worked out. -/
def nextAt (requests : List RunRequest) (place : Nat) : Option (Option Text) → Option Nat
  | none => some (place + 1)
  | some none => none
  | some (some named) => lastNamed requests named

/-- Within the list it is the place that follows; past its end the iteration is over. -/
theorem nextPlace_of_lt {place next : Nat} {named : Option (Option Text)}
    (h : nextAt requests place named = some next) (hlt : next < requests.length) :
    NextPlace requests place named (some next) := by
  cases named with
  | none =>
      cases h
      exact .following hlt
  | some named =>
      cases named with
      | none => cases h
      | some t => exact .named (lastNamed_eq_some h)

theorem nextPlace_of_ge {place : Nat} {named : Option (Option Text)}
    (h : ∀ next, nextAt requests place named = some next → requests.length ≤ next) :
    NextPlace requests place named none := by
  cases named with
  | none => exact .last (h (place + 1) rfl)
  | some named =>
      cases named with
      | none => exact .ended
      | some t =>
          cases hlast : lastNamed requests t with
          | none => exact .unknown (lastNamed_eq_none hlast)
          | some next =>
              obtain ⟨⟨r, hr, -⟩, -⟩ := lastNamed_eq_some hlast
              have hge := h next hlast
              rw [List.getElem?_eq_none hge] at hr
              cases hr

/-- A run settles where it stands, or at the start of the next iteration, or it is over. -/
theorem settled_cases {runner : Runner} (hended : runner.ended = none) (hne : requests ≠ [])
    (hindex : runner.index < options.count) :
    (∃ place, runner.at' = some place ∧ place < requests.length ∧
      runner.settled requests options = runner) ∨
    (∀ place, runner.at' = some place → requests.length ≤ place) ∧
      (runner.index + 1 < options.count ∧ runner.settled requests options =
          { runner with index := runner.index + 1, at' := some 0 } ∨
        options.count ≤ runner.index + 1 ∧ runner.settled requests options =
          { runner with index := runner.index + 1, ended := some .completed }) := by
  have hgoes : ¬ (options.count ≤ runner.index ∨ requests = []) := by
    rintro (hle | hnil)
    · omega
    · exact hne hnil
  cases hat : runner.at' with
  | none =>
      refine .inr ⟨fun place h => (by cases h), ?_⟩
      by_cases hmore : runner.index + 1 < options.count
      · exact .inl ⟨hmore, by simp [Runner.settled, hended, hgoes, hat, hmore]⟩
      · exact .inr ⟨by omega, by simp [Runner.settled, hended, hgoes, hat, hmore]⟩
  | some place =>
      by_cases hlt : place < requests.length
      · exact .inl ⟨place, rfl, hlt, by simp [Runner.settled, hended, hgoes, hat, hlt]⟩
      · refine .inr ⟨fun other h => Option.some.inj h ▸ Nat.not_lt.mp hlt, ?_⟩
        by_cases hmore : runner.index + 1 < options.count
        · exact .inl ⟨hmore, by simp [Runner.settled, hended, hgoes, hat, hlt, hmore]⟩
        · exact .inr ⟨by omega, by simp [Runner.settled, hended, hgoes, hat, hlt, hmore]⟩

/-- The row of an iteration is the one that is its own, or the last. -/
theorem dataRow_iteration (options : RunOptions) (index : Nat) :
    DataRow options.data index (options.iteration index).data := by
  have hdata : (options.iteration index).data =
      (options.data[min index (options.data.length - 1)]?).getD [] := rfl
  constructor
  · intro own hown
    have hlt : index < options.data.length := (List.getElem?_eq_some_iff.mp hown).1
    rw [hdata, min_eq_left (by omega), hown]
    rfl
  · intro hle
    rw [hdata, min_eq_right (by omega), List.getLast?_eq_getElem?]

end Places

/-! ## Every run -/

section Invariant

variable {requests : List RunRequest} {options : RunOptions}

/-- What holds of a run at every point. -/
structure LoopInv (requests : List RunRequest) (options : RunOptions) (s : RunLoop) : Prop where
  lengths : s.sends.length = s.answers.length + if s.sending.isSome || s.threw then 1 else 0
  results : s.runner.results = List.zipWith (fun send outcome =>
    { request := send.request, iteration := send.iteration.index, outcome }) s.sends s.answers
  sent : ∀ send ∈ s.sends, requests[send.place]? = some send.request ∧
    send.iteration.index < options.count ∧ send.iteration.count = options.count ∧
    DataRow options.data send.iteration.index send.iteration.data
  first : ∀ send, s.sends[0]? = some send → send.iteration.index = 0 ∧ send.place = 0
  next : ∀ k send outcome later, s.sends[k]? = some send → s.answers[k]? = some outcome →
    s.sends[k + 1]? = some later → ¬ StopsRun options outcome ∧
      NextSend requests options send outcome (some (later.iteration.index, later.place))
  /-- While its sender is busy, the run stands at what was sent last. -/
  busy : ∀ request, s.sending = some request → s.threw = false ∧ s.runner.ended = none ∧
    ∃ send, s.sends.getLast? = some send ∧ s.runner.at' = some send.place ∧
      s.runner.index = send.iteration.index ∧ request = send.request
  /-- Between two requests it stands at what it awaits. -/
  ready : s.runner.ended = none → s.sending = none → s.threw = false →
    ∃ place, s.runner.at' = some place ∧ place < requests.length ∧
      s.runner.index < options.count ∧ s.Awaits requests options (some (s.runner.index, place))
  ended : ∀ why, s.runner.ended = some why → s.sending = none ∧ s.threw = false ∧
    match why with
    | .completed => s.Awaits requests options none
    | .cancelled => s.aborted = true
    | .failed => ∃ outcome, s.answers.getLast? = some outcome ∧ options.stopOnFailure = true ∧
        runFailed outcome = true
    | .ended reason => ∃ outcome, s.answers.getLast? = some outcome ∧ outcome.ends = some reason

/-- What is awaited depends on what was sent and said. -/
theorem RunLoop.Awaits.congr {s s' : RunLoop} {next : Option (Nat × Nat)}
    (h : s.Awaits requests options next) (hsends : s'.sends = s.sends)
    (hanswers : s'.answers = s.answers) : s'.Awaits requests options next := by
  cases h with
  | begins hempty hsome => exact .begins (hsends.trans hempty) hsome
  | idle hempty hnone => exact .idle (hsends.trans hempty) hnone
  | follows hsend hanswer hgoes hnext =>
      exact .follows (hsends ▸ hsend) (hanswers ▸ hanswer) hgoes hnext

theorem loopInv_start : LoopInv requests options (RunLoop.start requests options) := by
  by_cases hnone : options.count ≤ 0 ∨ requests = []
  · -- Nothing to run: the loop has ended before it begins.
    have hstart : (RunLoop.start requests options).runner =
        { index := 0, at' := some 0, results := [], ended := some .completed } := by
      simp only [RunLoop.start, Runner.start, Runner.settled]
      rw [if_neg (by simp), if_pos hnone]
    constructor
    · rfl
    · rw [hstart]
      rfl
    · intro send hsend
      cases hsend
    · intro send hsend
      cases hsend
    · intro k send outcome later hsend
      cases hsend
    · intro request hrequest
      cases hrequest
    · intro hended
      rw [hstart] at hended
      cases hended
    · intro why hwhy
      rw [hstart] at hwhy
      cases hwhy
      exact ⟨rfl, rfl, .idle rfl (hnone.imp Nat.le_zero.mp id)⟩
  · -- Else the first request of the first iteration is next.
    obtain ⟨hcount, hne⟩ := not_or.mp hnone
    have hlength : 0 < requests.length := List.length_pos_iff.mpr hne
    have hstart : (RunLoop.start requests options).runner =
        { index := 0, at' := some 0, results := [], ended := none } := by
      simp only [RunLoop.start, Runner.start, Runner.settled]
      rw [if_neg (by simp), if_neg hnone]
      simp [hlength]
    constructor
    · rfl
    · rw [hstart]
      rfl
    · intro send hsend
      cases hsend
    · intro send hsend
      cases hsend
    · intro k send outcome later hsend
      cases hsend
    · intro request hrequest
      cases hrequest
    · intro _ _ _
      rw [hstart]
      exact ⟨0, rfl, hlength, Nat.not_le.mp hcount, .begins rfl ⟨Nat.not_le.mp hcount, hne⟩⟩
    · intro why hwhy
      rw [hstart] at hwhy
      cases hwhy

/-- A run that turns to its next request: the signal has aborted, or the request is sent. -/
theorem turn_cases {s s' : RunLoop} (h : s.turn requests options = some s') :
    s.threw = false ∧ s.sending = none ∧ s.runner.ended = none ∧
      ((s.aborted = true ∧ s' = { s with runner := { s.runner with ended := some .cancelled } }) ∨
        s.aborted = false ∧ ∃ place request, s.runner.at' = some place ∧
          requests[place]? = some request ∧ s' = { s with
            sending := some request
            sends := s.sends ++
              [{ place, request, iteration := options.iteration s.runner.index }] }) := by
  rw [RunLoop.turn] at h
  by_cases hbusy : (s.threw || s.sending.isSome) = true
  · rw [if_pos hbusy] at h
    cases h
  · rw [if_neg hbusy] at h
    have hidle : s.threw = false ∧ s.sending = none := by simpa using hbusy
    refine ⟨hidle.1, hidle.2, ?_⟩
    cases hcurrent : s.runner.current requests with
    | none =>
        rw [hcurrent] at h
        cases h
    | some request =>
        cases hat : s.runner.at' with
        | none =>
            rw [hcurrent, hat] at h
            cases h
        | some place =>
            -- The current request is one only while the run goes on.
            have hended : s.runner.ended.isSome = false := by
              by_contra hsome
              rw [Runner.current_of_ended (Bool.not_eq_false _ ▸ hsome)] at hcurrent
              cases hcurrent
            simp only [hcurrent, hat] at h
            simp only [Runner.current, hended, hat, Bool.false_eq_true, if_false,
              Option.bind_some] at hcurrent
            refine ⟨by simpa using hended, ?_⟩
            -- Aborted, the run ends here; else the request is sent.
            by_cases haborted : s.aborted = true
            · rw [if_pos haborted] at h
              refine .inl ⟨haborted, ?_⟩
              rw [← Option.some.inj h]
              simp only [hat]
            · rw [if_neg haborted] at h
              exact .inr ⟨by simpa using haborted, place, request, rfl, hcurrent,
                (Option.some.inj h).symm⟩

/-- What was sent before and what is sent now: a place is of the one or the other. -/
theorem getElem?_concat_cases {α : Type} {l : List α} {a b : α} {k : Nat}
    (h : (l ++ [a])[k]? = some b) : l[k]? = some b ∨ k = l.length ∧ b = a := by
  rcases Nat.lt_trichotomy k l.length with hlt | rfl | hgt
  · rw [List.getElem?_append_left hlt] at h
    exact .inl h
  · rw [List.getElem?_append_right le_rfl, Nat.sub_self, List.getElem?_cons_zero] at h
    exact .inr ⟨rfl, (Option.some.inj h).symm⟩
  · rw [List.getElem?_eq_none (by simp; omega)] at h
    cases h

/-- What is sent and not yet answered has no result. -/
theorem zipWith_concat_left {α β γ : Type} {f : α → β → γ} {l : List α} {l' : List β} {a : α}
    (h : l.length = l'.length) : List.zipWith f (l ++ [a]) l' = List.zipWith f l l' := by
  have hzip : List.zipWith f (l ++ [a]) (l' ++ []) =
      List.zipWith f l l' ++ List.zipWith f [a] [] := List.zipWith_append h
  simpa using hzip

theorem LoopInv.abort {s : RunLoop} (h : LoopInv requests options s) :
    LoopInv requests options { s with aborted := true } where
  lengths := h.lengths
  results := h.results
  sent := h.sent
  first := h.first
  next := h.next
  busy := h.busy
  ready hended hsending hthrew := by
    obtain ⟨place, hat, hlt, hindex, hawaits⟩ := h.ready hended hsending hthrew
    exact ⟨place, hat, hlt, hindex, hawaits.congr rfl rfl⟩
  ended why hwhy := by
    obtain ⟨hsending, hthrew, hreason⟩ := h.ended why hwhy
    refine ⟨hsending, hthrew, ?_⟩
    cases why with
    | completed => exact hreason.congr rfl rfl
    | cancelled => rfl
    | failed => exact hreason
    | ended reason => exact hreason

theorem LoopInv.cancelled {s : RunLoop} (h : LoopInv requests options s)
    (hsending : s.sending = none) (hthrew : s.threw = false) (haborted : s.aborted = true) :
    LoopInv requests options
      { s with runner := { s.runner with ended := some .cancelled } } where
  lengths := h.lengths
  results := h.results
  sent := h.sent
  first := h.first
  next := h.next
  busy request hrequest := by
    rw [hsending] at hrequest
    cases hrequest
  ready hended := by cases hended
  ended why hwhy := by
    cases hwhy
    exact ⟨hsending, hthrew, haborted⟩

theorem LoopInv.sendsNext {s : RunLoop} (h : LoopInv requests options s)
    (hsending : s.sending = none) (hthrew : s.threw = false) (hended : s.runner.ended = none)
    {place : Nat} {request : RunRequest} (hat : s.runner.at' = some place)
    (hrequest : requests[place]? = some request) :
    LoopInv requests options { s with
      sending := some request
      sends := s.sends ++
        [{ place, request, iteration := options.iteration s.runner.index }] } := by
  obtain ⟨place', hat', -, hindex, hawaits⟩ := h.ready hended hsending hthrew
  obtain rfl : place = place' := Option.some.inj (hat.symm.trans hat')
  have hlengths := h.lengths
  rw [hsending, hthrew] at hlengths
  have hlength : s.sends.length = s.answers.length := hlengths
  constructor
  · simp [hlength]
  · exact h.results.trans (zipWith_concat_left hlength).symm
  · intro send hsend
    rcases List.mem_append.mp hsend with hsend | hsend
    · exact h.sent send hsend
    · obtain rfl := List.mem_singleton.mp hsend
      exact ⟨hrequest, hindex, rfl, dataRow_iteration options s.runner.index⟩
  · intro send hsend
    rcases getElem?_concat_cases hsend with hold | ⟨hzero, rfl⟩
    · exact h.first send hold
    · -- Nothing was sent before: the run begins.
      have hempty : s.sends = [] := List.eq_nil_of_length_eq_zero hzero.symm
      generalize hpos : some (s.runner.index, place) = pos at hawaits
      cases hawaits with
      | begins => exact Prod.mk.inj (Option.some.inj hpos)
      | idle => cases hpos
      | follows hlast =>
          rw [hempty] at hlast
          cases hlast
  · intro k send outcome later hsend hanswer hlater
    rcases getElem?_concat_cases hlater with hold | ⟨hnew, rfl⟩
    · rcases getElem?_concat_cases hsend with hsend | ⟨hk, -⟩
      · exact h.next k send outcome later hsend hanswer hold
      · have hlt := (List.getElem?_eq_some_iff.mp hold).1
        omega
    · have hsend' : s.sends[k]? = some send := by
        rcases getElem?_concat_cases hsend with hsend | ⟨hk, -⟩
        · exact hsend
        · omega
      generalize hpos : some (s.runner.index, place) = pos at hawaits
      cases hawaits with
      | begins hempty =>
          rw [hempty] at hsend'
          cases hsend'
      | idle => cases hpos
      | follows hlast hanswered hgoes hnext =>
          subst hpos
          rw [List.getLast?_eq_getElem?] at hlast hanswered
          have hk : k = s.sends.length - 1 := by omega
          have hk' : k = s.answers.length - 1 := by omega
          rw [hk, hlast] at hsend'
          rw [hk', hanswered] at hanswer
          cases hsend'
          cases hanswer
          exact ⟨hgoes, hnext⟩
  · intro other hother
    obtain rfl := Option.some.inj hother
    exact ⟨hthrew, hended, { place, request, iteration := options.iteration s.runner.index },
      List.getLast?_concat, hat, rfl, rfl⟩
  · intro _ hnone
    cases hnone
  · intro why hwhy
    have hwhy' : s.runner.ended = some why := hwhy
    rw [hended] at hwhy'
    cases hwhy'

/-- What a run comes to after a request: it was aborted meanwhile, or what its sender said stops it,
or it goes on. -/
theorem afterSend_cases {runner : Runner} {request : RunRequest} {outcome : RunOutcome}
    {aborted : Bool} {place : Nat} (hat : runner.at' = some place) :
    let kept : Runner :=
      { runner with results := runner.results ++ [{ request, iteration := runner.index, outcome }] }
    let after := runner.afterSend requests options request outcome aborted
    aborted = true ∧ after = { kept with ended := some .cancelled } ∨
    (∃ reason, outcome.ends = some reason ∧ after = { kept with ended := some (.ended reason) }) ∨
    options.stopOnFailure = true ∧ runFailed outcome = true ∧
        after = { kept with ended := some .failed } ∨
    ¬ StopsRun options outcome ∧ after = Runner.settled requests options
      { kept with at' := nextAt requests place outcome.nextRequest } := by
  intro kept after
  have hafter : after = runner.afterSend requests options request outcome aborted := rfl
  rw [Runner.afterSend] at hafter
  cases haborted : aborted with
  | true =>
      rw [haborted] at hafter
      exact .inl ⟨rfl, hafter⟩
  | false =>
      rw [haborted] at hafter
      simp only [Bool.false_eq_true, if_false] at hafter
      cases hends : outcome.ends with
      | some reason =>
          rw [hends] at hafter
          exact .inr (.inl ⟨reason, rfl, hafter⟩)
      | none =>
          simp only [hends] at hafter
          -- A failed send ends the run only when the run is to stop on one.
          by_cases hstops : options.stopOnFailure = true ∧ runFailed outcome = true
          · rw [if_pos (by simp [hstops])] at hafter
            exact .inr (.inr (.inl ⟨hstops.1, hstops.2, hafter⟩))
          · rw [if_neg (by simpa using hstops)] at hafter
            refine .inr (.inr (.inr ⟨?_, ?_⟩))
            · rintro (hsome | hfails)
              · rw [hends] at hsome
                cases hsome
              · exact hstops hfails
            · rw [hafter]
              cases hnext : outcome.nextRequest with
              | none => simp [nextAt, hat, kept]
              -- A script named the next request, or named none.
              | some named => cases named <;> rfl

/-- Where it goes on, it stands at what follows, or it is over. -/
theorem goesOn_cases {runner : Runner} {request : RunRequest} {outcome : RunOutcome}
    {send : RunSend}
    (hended : runner.ended = none) (hne : requests ≠ []) (hcount : runner.index < options.count)
    (hindex : runner.index = send.iteration.index) :
    let kept : Runner :=
      { runner with results := runner.results ++ [{ request, iteration := runner.index, outcome }] }
    let after := Runner.settled requests options
      { kept with at' := nextAt requests send.place outcome.nextRequest }
    (∃ index place, index < options.count ∧ place < requests.length ∧
      NextSend requests options send outcome (some (index, place)) ∧
      after = { kept with index, at' := some place }) ∨
    NextSend requests options send outcome none ∧ ∃ index at', after =
      { kept with index, at', ended := some .completed } := by
  intro kept after
  let moved : Runner := { kept with at' := nextAt requests send.place outcome.nextRequest }
  rcases @settled_cases requests options moved hended hne hcount with
    ⟨place, hplace, hlt, hsettled⟩ | ⟨hpast, hsettled⟩
  · refine .inl ⟨runner.index, place, hcount, hlt, ?_, ?_⟩
    · rw [hindex]
      exact .goesOn (nextPlace_of_lt hplace hlt)
    · have hat : nextAt requests send.place outcome.nextRequest = some place := hplace
      exact hsettled.trans (by simp only [moved, hat, kept])
  · have hplace := nextPlace_of_ge hpast
    rcases hsettled with ⟨hmore, hsettled⟩ | ⟨hover, hsettled⟩
    · refine .inl ⟨runner.index + 1, 0, hmore, List.length_pos_iff.mpr hne, ?_, hsettled⟩
      rw [hindex]
      exact .again hplace (hindex ▸ hmore)
    · exact .inr ⟨.over hplace (hindex ▸ hover), _, _, hsettled⟩

theorem LoopInv.answered {s : RunLoop} (h : LoopInv requests options s) {request : RunRequest}
    (hsending : s.sending = some request) (outcome : RunOutcome) :
    LoopInv requests options { s with
      runner := s.runner.afterSend requests options request outcome s.aborted
      sending := none
      answers := s.answers ++ [outcome] } := by
  obtain ⟨hthrew, hended, send, hlast, hat, hindex, rfl⟩ := h.busy request hsending
  have hlengths := h.lengths
  rw [hsending] at hlengths
  have hlength : s.sends.length = s.answers.length + 1 := hlengths
  obtain ⟨init, hinit⟩ := List.getLast?_eq_some_iff.mp hlast
  have hinitLength : init.length = s.answers.length := by
    rw [hinit, List.length_append, List.length_singleton] at hlength
    omega
  have hmem : send ∈ s.sends := by simp [hinit]
  obtain ⟨hrequest, hcount, -, -⟩ := h.sent send hmem
  have hne : requests ≠ [] := by
    rintro rfl
    cases hrequest
  have hsaid : (s.answers ++ [outcome]).getLast? = some outcome := List.getLast?_concat
  have hcases :=
    @afterSend_cases requests options s.runner send.request outcome s.aborted send.place
    hat
  have hgoes := @goesOn_cases requests options s.runner send.request outcome send hended hne
    (hindex ▸ hcount) hindex
  constructor
  · simp [hlength, hthrew]
  · -- Whatever follows, one result is kept.
    have hkept : (s.runner.afterSend requests options send.request outcome s.aborted).results =
        s.runner.results ++
          [{ request := send.request, iteration := s.runner.index, outcome }] := by
      rcases hcases with ⟨-, heq⟩ | ⟨_, -, heq⟩ | ⟨-, -, heq⟩ | ⟨-, heq⟩
      · rw [heq]
      · rw [heq]
      · rw [heq]
      · rw [heq]
        rcases hgoes with ⟨_, _, -, -, -, hafter⟩ | ⟨-, _, _, hafter⟩
        · rw [hafter]
        · rw [hafter]
    rw [hkept, h.results, hinit, zipWith_concat_left hinitLength, hindex]
    have hzip : List.zipWith (fun (send : RunSend) outcome =>
        ({ request := send.request, iteration := send.iteration.index, outcome } : RunResult))
        (init ++ [send]) (s.answers ++ [outcome]) = _ := List.zipWith_append hinitLength
    rw [hzip]
    rfl
  · exact h.sent
  · exact h.first
  · intro k before said later hbefore hsaid hlater
    rcases getElem?_concat_cases hsaid with hold | ⟨hk, -⟩
    · exact h.next k before said later hbefore hold hlater
    · have hlt : k + 1 < s.sends.length := (List.getElem?_eq_some_iff.mp hlater).1
      omega
  · intro other hother
    cases hother
  · intro hnone _ _
    have hnone' : (s.runner.afterSend requests options send.request outcome s.aborted).ended =
        none := hnone
    rcases hcases with ⟨-, heq⟩ | ⟨_, -, heq⟩ | ⟨-, -, heq⟩ | ⟨hfree, heq⟩
    · rw [heq] at hnone'
      cases hnone'
    · rw [heq] at hnone'
      cases hnone'
    · rw [heq] at hnone'
      cases hnone'
    · rw [heq] at hnone'
      rcases hgoes with ⟨index, place, hlt, hplace, hnext, hafter⟩ | ⟨-, _, _, hafter⟩
      · rw [heq, hafter]
        exact ⟨place, rfl, hplace, hlt, .follows hlast hsaid hfree hnext⟩
      · rw [hafter] at hnone'
        cases hnone'
  · intro why hwhy
    have hwhy' : (s.runner.afterSend requests options send.request outcome s.aborted).ended =
        some why := hwhy
    refine ⟨rfl, hthrew, ?_⟩
    rcases hcases with ⟨haborted, heq⟩ | ⟨reason, hreason, heq⟩ |
      ⟨hstop, hfails, heq⟩ | ⟨hfree, heq⟩
    · rw [heq] at hwhy'
      cases hwhy'
      exact haborted
    · rw [heq] at hwhy'
      cases hwhy'
      exact ⟨outcome, hsaid, hreason⟩
    · rw [heq] at hwhy'
      cases hwhy'
      exact ⟨outcome, hsaid, hstop, hfails⟩
    · rw [heq] at hwhy'
      rcases hgoes with ⟨index, place, -, -, -, hafter⟩ | ⟨hnext, _, _, hafter⟩
      · rw [hafter] at hwhy'
        have hnever : s.runner.ended = some why := hwhy'
        rw [hended] at hnever
        cases hnever
      · rw [hafter] at hwhy'
        cases hwhy'
        exact .follows hlast hsaid hfree hnext

theorem LoopInv.thrown {s : RunLoop} (h : LoopInv requests options s) {request : RunRequest}
    (hsending : s.sending = some request) :
    LoopInv requests options { s with sending := none, threw := true } := by
  obtain ⟨hthrew, hended, -⟩ := h.busy request hsending
  have hlengths := h.lengths
  rw [hsending] at hlengths
  constructor
  · exact hlengths
  · exact h.results
  · exact h.sent
  · exact h.first
  · exact h.next
  · intro other hother
    cases hother
  · intro _ _ hnot
    cases hnot
  · intro why hwhy
    have hnever : s.runner.ended = some why := hwhy
    rw [hended] at hnever
    cases hnever

/-- Every step keeps what holds of a run. -/
theorem loopInv_step (s : RunLoop) (a : RunAct) (s' : RunLoop) (h : LoopInv requests options s)
    (hstep : s.step requests options a = some s') : LoopInv requests options s' := by
  cases a with
  | abort =>
      cases hstep
      exact h.abort
  | turn =>
      obtain ⟨hthrew, hsending, hended,
          ⟨haborted, rfl⟩ | ⟨-, place, request, hat, hrequest, rfl⟩⟩ :=
        turn_cases hstep
      · exact h.cancelled hsending hthrew haborted
      · exact h.sendsNext hsending hthrew hended hat hrequest
  | answer outcome =>
      obtain ⟨request, hsending, rfl⟩ := Option.map_eq_some_iff.mp hstep
      exact h.answered hsending outcome
  | throws =>
      obtain ⟨request, hsending, rfl⟩ := Option.map_eq_some_iff.mp hstep
      exact h.thrown hsending

theorem LoopInv.traceRight {s : RunLoop} (h : LoopInv requests options s) :
    TraceRight requests options s where
  one := by
    have hlengths := h.lengths
    split_ifs at hlengths <;> omega
  results := h.results
  sent := h.sent
  first := h.first
  next := h.next
  ended why hwhy := by
    obtain ⟨hsending, hthrew, hreason⟩ := h.ended why hwhy
    have hlengths := h.lengths
    rw [hsending, hthrew] at hlengths
    exact ⟨hlengths, hreason⟩
  live hended hsending hthrew haborted := by
    obtain ⟨place, hat, hlt, -, hawaits⟩ := h.ready hended hsending hthrew
    refine ⟨place, hawaits, requests.get ⟨place, hlt⟩, List.getElem?_eq_getElem hlt, ?_⟩
    have hcurrent : s.runner.current requests = some (requests.get ⟨place, hlt⟩) := by
      simp [Runner.current, hended, hat]
    simp [RunLoop.step, RunLoop.turn, hthrew, hsending, haborted, hcurrent, hat]

/-- What was sent before an abort is all that a run ever sends. -/
theorem sends_of_aborted {s s' : RunLoop} {later : List RunAct}
    (hrun : run (RunLoop.step requests options) s later = some s') (haborted : s.aborted = true) :
    s'.sends = s.sends := by
  have hkept : s'.aborted = true ∧ s'.sends = s.sends := by
    refine @run_invariant _ _ (RunLoop.step requests options)
      (fun t => t.aborted = true ∧ t.sends = s.sends) ?_ _ _ _ ⟨haborted, rfl⟩ hrun
    rintro t a t' ⟨ht, hsends⟩ hstep
    cases a with
    | abort =>
        cases hstep
        exact ⟨rfl, hsends⟩
    | turn =>
        rcases (turn_cases hstep).2.2.2 with ⟨-, rfl⟩ | ⟨hgoes, -⟩
        · exact ⟨ht, hsends⟩
        · rw [ht] at hgoes
          cases hgoes
    | answer outcome =>
        obtain ⟨request, -, rfl⟩ := Option.map_eq_some_iff.mp hstep
        exact ⟨ht, hsends⟩
    | throws =>
        obtain ⟨request, -, rfl⟩ := Option.map_eq_some_iff.mp hstep
        exact ⟨ht, hsends⟩
  exact hkept.2

end Invariant

/-- What a run sends is right in every run, whatever its sender says and whenever it is aborted; and
what it had sent when it was aborted is all that it ever sends. -/
theorem run_trace_right (requests : List RunRequest) (options : RunOptions) (acts : List RunAct)
    (s : RunLoop)
    (hrun : run (RunLoop.step requests options) (RunLoop.start requests options) acts = some s) :
    TraceRight requests options s ∧
      ∀ later s', run (RunLoop.step requests options) s later = some s' → s.aborted = true →
        s'.sends = s.sends :=
  ⟨(run_invariant loopInv_step loopInv_start hrun).traceRight,
    fun _ _ hlater haborted => sends_of_aborted hlater haborted⟩

/-- Two requests, the second of which sends the run back to the first. -/
def pingRequests : List RunRequest :=
  [⟨units "1", units "ping"⟩, ⟨units "2", units "pong"⟩]

/-- Twice, over one row of data. -/
def pingOptions : RunOptions where
  iterations := some 2
  data := [[{ key := units "n", value := units "1", enabled := true }]]
  stopOnFailure := true

/-- Back once by name, then on to the end; the second iteration is aborted while it sends. -/
def pingActs : List RunAct :=
  [.turn, .answer {}, .turn, .answer { nextRequest := some (some (units "ping")) }, .turn,
    .answer { nextRequest := some none }, .turn, .abort, .answer {}]

/-- Such a run sends four requests, in two iterations. -/
theorem pingActs_trace : ∃ s,
    run (RunLoop.step pingRequests pingOptions) (RunLoop.start pingRequests pingOptions) pingActs =
      some s ∧
    s.sends.map (fun send => (send.iteration.index, send.place)) =
      [(0, 0), (0, 1), (0, 0), (1, 0)] ∧
    s.runner.ended = some .cancelled ∧ TraceRight pingRequests pingOptions s := by
  obtain ⟨s, hrun, htest⟩ := @exists_run_of_any _ _ (RunLoop.step pingRequests pingOptions)
    (fun s => s.sends.map (fun send => (send.iteration.index, send.place)) =
      [(0, 0), (0, 1), (0, 0), (1, 0)] && s.runner.ended = some .cancelled)
    (RunLoop.start pingRequests pingOptions) pingActs (by decide +kernel)
  simp only [Bool.and_eq_true, decide_eq_true_eq] at htest
  exact ⟨s, hrun, htest.1, htest.2,
    (run_trace_right pingRequests pingOptions pingActs s hrun).1⟩

end Wayfarer
