import Mathlib.Data.List.Basic
import Mathlib.Tactic.Common

/-!
# Jobs on their way

Several owners each start jobs, lists of acts that happen one after the other. A job runs beside all
others, or it is queued: then it waits for the queued jobs its owner started before it.

`inFlight` is everything still to be done, in the order of the jobs. `turn_spec` says what a turn of
one job makes of it: the act is taken from its place and what it goes on with stands there instead,
and where the job is queued nothing of its owner's queue stands before it.
-/

set_option autoImplicit false

namespace Library

universe u v

/-- A job of an owner: the acts it has still to do. -/
structure Job (ω : Type u) (α : Type v) where
  owner : ω
  queued : Bool
  acts : List α

/-- An act on its way, and whose it is. -/
structure Flying (ω : Type u) (α : Type v) where
  owner : ω
  queued : Bool
  act : α

namespace Jobs

variable {ω : Type u} {α : Type v}

/-- The acts of a job. -/
def ofJob (job : Job ω α) : List (Flying ω α) :=
  job.acts.map fun act => ⟨job.owner, job.queued, act⟩

/-- Everything on its way. -/
def inFlight (jobs : List (Job ω α)) : List (Flying ω α) :=
  jobs.flatMap ofJob

/-- A job goes on with other acts in the place of its first. -/
def continueWith (jobs : List (Job ω α)) (i : Nat) (acts : List α) : List (Job ω α) :=
  jobs.modify i fun job => { job with acts := acts ++ job.acts.tail }

/-- A job ends where it is. -/
def endJob (jobs : List (Job ω α)) (i : Nat) : List (Job ω α) :=
  jobs.modify i fun job => { job with acts := [] }

/-- The act whose turn it is when a job is next: none where the job is done, or has to wait. -/
def turn [DecidableEq ω] (jobs : List (Job ω α)) (i : Nat) : Option (Flying ω α) :=
  match jobs[i]? with
  | some ⟨owner, queued, act :: _⟩ =>
      if queued && (jobs.take i).any (fun job =>
          job.queued && decide (job.owner = owner) && !job.acts.isEmpty) then none
      else some ⟨owner, queued, act⟩
  | _ => none

theorem mem_inFlight {jobs : List (Job ω α)} {e : Flying ω α} :
    e ∈ inFlight jobs ↔ ∃ job ∈ jobs, e ∈ ofJob job :=
  List.mem_flatMap

@[simp]
theorem inFlight_nil : inFlight ([] : List (Job ω α)) = [] := rfl

theorem inFlight_append (jobs jobs' : List (Job ω α)) :
    inFlight (jobs ++ jobs') = inFlight jobs ++ inFlight jobs' :=
  List.flatMap_append

@[simp]
theorem inFlight_singleton (owner : ω) (queued : Bool) (acts : List α) :
    inFlight [⟨owner, queued, acts⟩] = acts.map fun act => ⟨owner, queued, act⟩ := by
  simp [inFlight, ofJob]

/-- What is on its way once some jobs were given up was on its way, in that order. -/
theorem inFlight_filter_sublist (p : Job ω α → Bool) (jobs : List (Job ω α)) :
    (inFlight (jobs.filter p)).Sublist (inFlight jobs) := by
  induction jobs with
  | nil => exact List.Sublist.refl _
  | cons job jobs ih =>
      have hcons : ∀ jobs : List (Job ω α), inFlight (job :: jobs) = ofJob job ++ inFlight jobs :=
        fun _ => List.flatMap_cons
      rw [List.filter_cons]
      split_ifs
      · rw [hcons, hcons]
        exact (List.Sublist.refl _).append ih
      · rw [hcons]
        exact ih.trans (List.sublist_append_right _ _)

/-- A job of a list, what stands around it, and the list once it was changed. -/
theorem exists_around {jobs : List (Job ω α)} {i : Nat} {job : Job ω α} (h : jobs[i]? = some job) :
    ∃ pre post, jobs = pre ++ job :: post ∧ jobs.take i = pre ∧
      ∀ f, jobs.modify i f = pre ++ f job :: post := by
  obtain ⟨hi, rfl⟩ := List.getElem?_eq_some_iff.mp h
  refine ⟨jobs.take i, jobs.drop (i + 1), ?_, rfl, fun f => ?_⟩
  · rw [← List.drop_eq_getElem_cons hi, List.take_append_drop]
  · rw [List.modify_eq_take_cons_drop hi]

/-- What a turn makes of what is on its way. -/
theorem turn_spec [DecidableEq ω] {jobs : List (Job ω α)} {i : Nat} {e : Flying ω α}
    (h : turn jobs i = some e) :
    ∃ before after, inFlight jobs = before ++ e :: after ∧
      (∀ acts, inFlight (continueWith jobs i acts) =
        before ++ (acts.map fun act => ⟨e.owner, e.queued, act⟩) ++ after) ∧
      (e.queued = true → ∀ e' ∈ before, e'.queued = true → e'.owner ≠ e.owner) := by
  unfold turn at h
  split at h
  · next owner queued act rest hjob =>
      obtain ⟨pre, post, hjobs, htake, hmodify⟩ := exists_around hjob
      split_ifs at h with hwaits
      cases h
      refine ⟨inFlight pre, (rest.map fun act => ⟨owner, queued, act⟩) ++ inFlight post, ?_, ?_, ?_⟩
      · rw [hjobs]
        simp [inFlight, ofJob]
      · intro acts
        rw [continueWith, hmodify]
        simp [inFlight, ofJob]
      · rintro hqueued e' he' hqueued' howner
        obtain ⟨job, hjob', hin⟩ := mem_inFlight.mp he'
        obtain ⟨act', hact', rfl⟩ := List.mem_map.mp hin
        rw [htake] at hwaits
        apply hwaits
        rw [Bool.and_eq_true]
        refine ⟨hqueued, List.any_eq_true.mpr ⟨job, hjob', ?_⟩⟩
        have hsome : job.acts ≠ [] := List.ne_nil_of_mem hact'
        dsimp only at hqueued' howner
        simp [hqueued', howner, hsome]
  · cases h

/-- An ended job leaves what is on its way around it. -/
theorem inFlight_endJob_sublist (jobs : List (Job ω α)) (i : Nat) :
    (inFlight (endJob jobs i)).Sublist (inFlight jobs) := by
  cases hjob : jobs[i]? with
  | none =>
      rw [endJob, List.modify_eq_self (List.getElem?_eq_none_iff.mp hjob)]
  | some job =>
      obtain ⟨pre, post, hjobs, -, hmodify⟩ := exists_around hjob
      rw [endJob, hmodify, hjobs]
      simp only [inFlight, List.flatMap_append, List.flatMap_cons, ofJob, List.map_nil,
        List.nil_append]
      exact (List.Sublist.refl _).append (List.sublist_append_right _ _)

end Jobs

end Library
