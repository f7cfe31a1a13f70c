import Wayfarer.Model.Request

/-!
# The order of a collection run

`runRequests` sends nothing itself: it says which request follows. Between two requests it
is a position, the results so far and, once it has ended, why. `Runner.afterSend` is one turn
of its loop: what the sender said of a request decides what follows.
-/

set_option autoImplicit false

namespace Wayfarer

open Library

/-- A request of a run, as the run knows it. -/
structure RunRequest where
  id : Text
  name : Text
  deriving DecidableEq

/-- Which iteration a request is sent in, and the row of the data file for it. -/
structure RunIteration where
  /-- From 0. -/
  index : Nat
  count : Nat
  data : List Row
  deriving DecidableEq

/-- A test of a request. -/
structure RunTest where
  name : Text
  passed : Bool
  error : Option Text := none

/-- What the sender says of one request of a run. -/
structure RunOutcome where
  /-- A pre-request script asked to send nothing. -/
  skipped : Bool := false
  status : Option Nat := none
  statusText : Option Text := none
  durationMs : Option Nat := none
  /-- Why there is no response, or which script ended in an error. -/
  error : Option Text := none
  tests : List RunTest := []
  /-- What the scripts gave as the next request: a name or an id, or `null` inside. -/
  nextRequest : Option (Option Text) := none
  /-- The run ends with this request, and this says why. -/
  ends : Option Text := none

/-- What a run keeps of a request. -/
structure RunResult where
  request : RunRequest
  iteration : Nat
  outcome : RunOutcome

/-- How a run ended. -/
inductive RunEnd where
  | completed
  | cancelled
  | failed
  | ended (reason : Text)
  deriving DecidableEq

/-- What a run is asked to do. -/
structure RunOptions where
  /-- Absent: once for each row of the data file, or once. -/
  iterations : Option Nat := none
  data : List (List Row) := []
  stopOnFailure : Bool := false

/-- How often the requests are run. -/
def RunOptions.count (options : RunOptions) : Nat :=
  options.iterations.getD (if options.data.length = 0 then 1 else options.data.length)

/-- The iteration of an index: past the last row, the last row again. -/
def RunOptions.iteration (options : RunOptions) (index : Nat) : RunIteration where
  index := index
  count := options.count
  data := (options.data[min index (options.data.length - 1)]?).getD []

/-- A failed test, or no response, or a script that ended in an error. -/
def runFailed (outcome : RunOutcome) : Bool :=
  outcome.error.isSome || outcome.tests.any fun test => !test.passed

/-- A run between two requests. -/
structure Runner where
  index : Nat
  /-- The request that follows; absent when the iteration is over. -/
  at' : Option Nat
  results : List RunResult
  ended : Option RunEnd

/-- The place of the last request of an id or a name. -/
def lastNamed (requests : List RunRequest) (named : Text) : Option Nat :=
  (requests.zipIdx.filter fun entry => entry.1.id = named || entry.1.name = named).getLast?.map
    Prod.snd

/-- The run at its first request that is left: an iteration that is over is followed by the next. -/
def Runner.settled (requests : List RunRequest) (options : RunOptions) (runner : Runner) :
    Runner :=
  if runner.ended.isSome then runner
  else if options.count ≤ runner.index ∨ requests = [] then
    { runner with ended := some .completed }
  else
    match runner.at' with
    | some place =>
        if place < requests.length then runner
        else if runner.index + 1 < options.count then
          { runner with index := runner.index + 1, at' := some 0 }
        else { runner with index := runner.index + 1, ended := some .completed }
    | none =>
        if runner.index + 1 < options.count then
          { runner with index := runner.index + 1, at' := some 0 }
        else { runner with index := runner.index + 1, ended := some .completed }

/-- A run that begins. -/
def Runner.start (requests : List RunRequest) (options : RunOptions) : Runner :=
  Runner.settled requests options { index := 0, at' := some 0, results := [], ended := none }

/-- The request a run sends next. -/
def Runner.current (requests : List RunRequest) (runner : Runner) : Option RunRequest :=
  if runner.ended.isSome then none else runner.at'.bind fun place => requests[place]?

/-- What follows a request, by what its sender said. `aborted`: the run was cancelled meanwhile. -/
def Runner.afterSend (requests : List RunRequest) (options : RunOptions) (runner : Runner)
    (request : RunRequest) (outcome : RunOutcome) (aborted : Bool) : Runner :=
  let kept : Runner :=
    { runner with results := runner.results ++ [{ request, iteration := runner.index, outcome }] }
  if aborted then { kept with ended := some .cancelled }
  else
    match outcome.ends with
    | some reason => { kept with ended := some (.ended reason) }
    | none =>
        if options.stopOnFailure && runFailed outcome then { kept with ended := some .failed }
        else
          Runner.settled requests options { kept with
            at' := match outcome.nextRequest with
              | none => runner.at'.map (· + 1)
              | some none => none
              | some (some named) => lastNamed requests named }

/-- A run that has ended sends nothing. -/
theorem Runner.current_of_ended {requests : List RunRequest} {runner : Runner}
    (h : runner.ended.isSome) : runner.current requests = none := by
  simp [Runner.current, h]

/-- A request whose sender ends the run is the last of it. -/
theorem Runner.afterSend_ends (requests : List RunRequest) (options : RunOptions)
    (runner : Runner) (request : RunRequest) {outcome : RunOutcome} (aborted : Bool)
    (h : outcome.ends.isSome) :
    (runner.afterSend requests options request outcome aborted).ended.isSome = true := by
  obtain ⟨reason, hreason⟩ := Option.isSome_iff_exists.mp h
  unfold Runner.afterSend
  cases aborted <;> simp [hreason]

end Wayfarer
