import Mathlib.Data.List.Sort
import Nocturne.Lib.Machine
import Nocturne.Lib.Refusal
import Nocturne.Store.Schema

namespace Nocturne.Learner

open Nocturne.Lib

/-- One event that asks for an optimization run. -/
structure OptimizationTrigger where
  eventUid : String
  threadId : Option Uuid
  deriving DecidableEq

variable {R : Type}

/-- A durable manual request; its result is written with the fit. -/
structure RetrainJob (R : Type) where
  jobId : Ulid
  result : Option R
  error : Option String
  deriving DecidableEq

def RetrainJob.Settled (job : RetrainJob R) : Prop := job.result.isSome ∨ job.error.isSome

instance (job : RetrainJob R) : Decidable job.Settled := inferInstanceAs (Decidable (_ ∨ _))

/-- Where the worker's task stands. -/
inductive Phase
  /-- There is no task. -/
  | off
  | waiting
  /-- Awake, and about to read which jobs are pending. -/
  | listing
  /-- The jobs it has read and not yet fitted. -/
  | retraining (jobIds : List Ulid)
  /-- A fit raised, and its job is about to be marked. -/
  | failing (jobId : Ulid)
  | compacting (trigger : OptimizationTrigger)
  deriving DecidableEq

structure LearnerWorker (R : Type) where
  jobs : Table Ulid (RetrainJob R) (·.jobId)
  wake : Bool
  stop : Bool
  pendingTrigger : Option OptimizationTrigger
  phase : Phase
  /-- The jobs that were on record at some notification. -/
  announced : List Ulid

inductive WorkerAction (R : Type)
  | submit (jobId : Ulid)
  | notify (trigger : Option OptimizationTrigger)
  | start
  | stop
  /-- The task gets past its wake event. -/
  | awake
  | list
  | retrained (result : R)
  | raised
  | marked
  | drained
  | compacted
  deriving DecidableEq

variable (w : LearnerWorker R)

/-- `run_pending_jobs` reads the open jobs in order of their identifiers. -/
def pendingJobIds : List Ulid :=
  ((w.jobs.rows.filter fun job => ¬job.Settled).map (·.jobId)).insertionSort (· ≤ ·)

/-- The result of a fit, written unless its job has an outcome. -/
def RetrainJob.complete (result : R) (job : RetrainJob R) : RetrainJob R :=
  if job.Settled then job else { job with result := some result }

/-- The mark of a fit that raised. -/
def RetrainJob.fail (job : RetrainJob R) : RetrainJob R :=
  if job.result.isSome then job
  else { job with error := some "Retraining failed. Start a new retrain to try again." }

theorem RetrainJob.jobId_complete (result : R) (job : RetrainJob R) :
    (job.complete result).jobId = job.jobId := by
  unfold complete
  split <;> rfl

theorem RetrainJob.jobId_fail (job : RetrainJob R) : job.fail.jobId = job.jobId := by
  unfold fail
  split <;> rfl

def step (w : LearnerWorker R) : WorkerAction R → Except Unit (LearnerWorker R)
  | .submit jobId => do
    let jobs ← require (w.jobs.insert? ⟨jobId, none, none⟩) ()
    return { w with jobs }
  | .notify trigger =>
    .ok { w with
      pendingTrigger := trigger.or w.pendingTrigger
      wake := true
      announced := w.jobs.rows.map (·.jobId) }
  | .start => do
    ensure (w.phase = .off) ()
    return { w with stop := false, wake := true, phase := .waiting }
  | .stop => do
    ensure (w.phase ≠ .off) ()
    return { w with stop := true, wake := true }
  | .awake => do
    ensure (w.phase = .waiting ∧ w.wake) ()
    return { w with wake := false, phase := if w.stop then .off else .listing }
  | .list => do
    ensure (w.phase = .listing) ()
    return { w with phase := .retraining (pendingJobIds w) }
  | .retrained result =>
    match w.phase with
    | .retraining (jobId :: jobIds) =>
      .ok { w with
        jobs := w.jobs.modify jobId (·.complete result) (RetrainJob.jobId_complete result)
        phase := .retraining jobIds }
    | _ => .error ()
  | .raised =>
    match w.phase with
    | .retraining (jobId :: _) => .ok { w with phase := .failing jobId }
    -- a compaction that raises is logged, and the loop goes on
    | .compacting _ => .ok { w with phase := .waiting }
    | _ => .error ()
  | .marked =>
    match w.phase with
    -- the error goes on to the loop, past the jobs and the trigger still pending
    | .failing jobId =>
      .ok { w with
        jobs := w.jobs.modify jobId (·.fail) RetrainJob.jobId_fail
        phase := .waiting }
    | _ => .error ()
  | .drained => do
    ensure (w.phase = .retraining []) ()
    return { w with
      pendingTrigger := none
      phase := w.pendingTrigger.elim .waiting .compacting }
  | .compacted =>
    match w.phase with
    | .compacting _ => .ok { w with phase := .waiting }
    | _ => .error ()

def worker (R : Type) : Machine (LearnerWorker R) (WorkerAction R) Unit where
  start w := w = ⟨.empty, false, false, none, .off, []⟩
  step := step

end Nocturne.Learner
