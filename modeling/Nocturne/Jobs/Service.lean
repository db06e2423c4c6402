import Mathlib.Logic.Function.Basic
import Nocturne.Jobs.Datetime
import Nocturne.Lib.Machine
import Nocturne.Lib.Refusal
import Nocturne.Memory.Text
import Nocturne.Store.Schema

namespace Nocturne.Jobs

open Nocturne.Lib

inductive JobError
  | invalid (detail : String)
  | http (status : Nat) (detail : String)
  /-- The row is locked by another transaction. -/
  | locked
  | noSuchClaim
  | clock
  deriving DecidableEq

inductive Tools
  | pydantic | none
  deriving DecidableEq, Repr

inductive MemoryScope
  | workspace | none
  deriving DecidableEq, Repr

inductive Trigger
  | file | queue | palace
  deriving DecidableEq, Repr

structure WorkflowDefinition where
  name : String
  prompt : String
  folder : String
  modelPolicy : String
  tools : Tools := .pydantic
  memoryScope : MemoryScope := .workspace
  budgetUsd : ℚ
  exitCondition : String
  cron : Option String := none
  trigger : Option Trigger := none
  triggerPath : Option String := none
  deriving DecidableEq

/-- The cron library: which lines it reads, and the next occurrence after an instant. -/
structure Croniter where
  isValid : String → Bool
  getNext : String → Datetime → Option Datetime
  lt_getNext : ∀ {cron now next}, getNext cron now = some next → now < next

/-- The saved recipe and its durable schedule cursor. -/
structure WorkflowJob where
  jobId : Ulid
  principalId : String
  machineId : String
  definition : WorkflowDefinition
  revision : Nat
  enabled : Bool
  nextRunAt : Option Datetime
  triggerCursor : Option String
  deriving DecidableEq

inductive FinishState
  | completed | failed | cancelled | interrupted
  deriving DecidableEq, Repr

inductive RunState
  | running
  | finished (state : FinishState)
  deriving DecidableEq, Repr

/-- The frozen recipe of one occurrence. -/
structure WorkflowRun where
  runId : Ulid
  jobId : Ulid
  threadId : Uuid
  triggerKey : String
  definition : WorkflowDefinition
  state : RunState
  verdict : Option String
  startedAt : Datetime
  finishedAt : Option Datetime
  deriving DecidableEq

structure SaveJob where
  principalId : String
  machineId : String
  definition : WorkflowDefinition
  expectedRevision : Nat
  enabled : Bool := true
  triggerCursor : Option String := none
  deriving DecidableEq

structure ClaimJob where
  principalId : String
  machineId : String
  runId : Ulid
  threadId : Uuid
  triggerKey : String
  expectedRevision : Int
  triggerCursor : Option String := none
  manual : Bool := false
  deriving DecidableEq

structure FinishJob where
  principalId : String
  machineId : String
  state : FinishState
  verdict : String
  deriving DecidableEq

/-- A claim between its checks and its writes: it holds the lock on the job row it read. -/
structure ClaimInFlight where
  body : ClaimJob
  job : WorkflowJob
  now : Datetime
  deriving DecidableEq

structure JobStore where
  jobs : Table Ulid WorkflowJob (·.jobId)
  runs : Table Ulid WorkflowRun (·.runId)
  locks : Ulid → Option ClaimInFlight
  clock : Datetime

def WorkflowDefinition.hasBlank (definition : WorkflowDefinition) : Prop :=
  ∃ value ∈ [definition.name, definition.prompt, definition.folder, definition.modelPolicy,
    definition.exitCondition], Text.isBlank value

instance (definition : WorkflowDefinition) : Decidable definition.hasBlank :=
  inferInstanceAs (Decidable (∃ value ∈ [_, _, _, _, _], _))

variable (croniter : Croniter)

/-- What the recipe's validators check, at the instant they check it. -/
def WorkflowDefinition.validate (definition : WorkflowDefinition) (now : Datetime) :
    Except JobError Unit := do
  ensure (¬definition.hasBlank) (.invalid "Workflow fields cannot be blank.")
  ensure (0 < definition.budgetUsd) (.invalid "Input should be greater than 0")
  ensure (∀ cron ∈ definition.cron, (Text.split cron).length = 5 ∧ croniter.isValid cron)
    (.invalid "Use a five-field cron line in UTC.")
  ensure (∀ cron ∈ definition.cron, (croniter.getNext cron now).isSome)
    (.invalid "failed to find next date")
  ensure (¬(definition.cron.isSome ∧ definition.trigger.isSome))
    (.invalid "Choose a cron line or an event trigger.")
  ensure (definition.trigger = some .file ↔ ∃ path ∈ definition.triggerPath, path ≠ "")
    (.invalid "A file trigger requires its file path.")

/-- The first occurrence after `now`; event triggers have none. -/
def WorkflowDefinition.nextRun (definition : WorkflowDefinition) (now : Datetime) :
    Option Datetime :=
  definition.cron.bind fun cron => croniter.getNext cron now

def WorkflowJob.ownedBy (job : WorkflowJob) (principalId machineId : String) : Prop :=
  job.principalId = principalId ∧ job.machineId = machineId

instance (job : WorkflowJob) (principalId machineId : String) :
    Decidable (job.ownedBy principalId machineId) :=
  inferInstanceAs (Decidable (_ ∧ _))

variable (s : JobStore)

/-- The job under this id, where it belongs to this principal and machine. -/
def ownedJob (jobId : Ulid) (principalId machineId : String) : Option WorkflowJob :=
  (s.jobs.get? jobId).filter fun job => job.ownedBy principalId machineId

def saveConflict : JobError := .http 409 "The workflow changed. Refresh before saving."

/-- The next occurrence a save reckons from the clock as read before its write. -/
def SaveJob.nextRunAt (body : SaveJob) (readAt : Datetime) : Option Datetime :=
  if body.enabled then body.definition.nextRun croniter readAt else none

def SaveJob.row (body : SaveJob) (jobId : Ulid) (readAt : Datetime) : WorkflowJob where
  jobId
  principalId := body.principalId
  machineId := body.machineId
  definition := body.definition
  revision := 1
  enabled := body.enabled
  nextRunAt := body.nextRunAt croniter readAt
  triggerCursor := body.triggerCursor

def SaveJob.edit (body : SaveJob) (readAt : Datetime) (row : WorkflowJob) : WorkflowJob :=
  { row with
    definition := body.definition
    enabled := body.enabled
    revision := row.revision + 1
    nextRunAt := body.nextRunAt croniter readAt
    triggerCursor := body.triggerCursor }

theorem SaveJob.jobId_edit (body : SaveJob) (readAt : Datetime) (row : WorkflowJob) :
    (body.edit croniter readAt row).jobId = row.jobId := rfl

def save (jobId : Ulid) (body : SaveJob) (readAt : Datetime) :
    Except JobError (WorkflowJob × JobStore) := do
  body.definition.validate croniter readAt
  if body.expectedRevision = 0 then
    let row := body.row croniter jobId readAt
    let jobs ← require (s.jobs.insert? row) saveConflict
    return (row, { s with jobs })
  else
    let job ← require ((ownedJob s jobId body.principalId body.machineId).filter
      fun job => job.revision = body.expectedRevision) saveConflict
    ensure (s.locks jobId = none) .locked
    return (body.edit croniter readAt job,
      { s with
        jobs := s.jobs.modify jobId (body.edit croniter readAt)
          (body.jobId_edit croniter readAt) })

def isRunning (jobId : Ulid) : Prop := ∃ run ∈ s.runs.rows, run.jobId = jobId ∧ run.state = .running

instance (jobId : Ulid) : Decidable (isRunning s jobId) :=
  inferInstanceAs (Decidable (∃ run ∈ s.runs.rows, _))

/-- A claim that no one makes by hand must find the job due. -/
def checkDue (job : WorkflowJob) (body : ClaimJob) (now : Datetime) : Except JobError Unit :=
  if body.manual then .ok ()
  else do
    ensure job.enabled (.http 409 "This schedule is paused.")
    match job.definition.cron with
    | some _ => do
      ensure (∃ next ∈ job.nextRunAt, next ≤ now) (.http 409 "This schedule is not due.")
      ensure (job.nextRunAt.map Datetime.isoformat = some body.triggerKey)
        (.http 409 "The scheduled occurrence changed.")
    | none =>
      ensure (job.definition.trigger.isSome ∧ body.triggerCursor ≠ none ∧
        body.triggerCursor ≠ job.triggerCursor) (.http 409 "No new trigger event.")

/-- A claim up to its writes: it locks the job row, then checks it. -/
def startClaim (jobId : Ulid) (body : ClaimJob) : Except JobError JobStore := do
  let job ← require (ownedJob s jobId body.principalId body.machineId)
    (.http 404 "Workflow not found.")
  ensure (s.locks jobId = none) .locked
  ensure (¬isRunning s jobId ∧ job.revision = body.expectedRevision)
    (.http 409 "Workflow is already running or changed. Refresh it.")
  job.definition.validate croniter s.clock
  checkDue job body s.clock
  return { s with locks := Function.update s.locks jobId (some ⟨body, job, s.clock⟩) }

def alreadyStarted : JobError := .http 409 "This occurrence was already started."

/-- A run holds the claim's thread, or its place in the job's occurrences. -/
def WorkflowRun.conflicts (run : WorkflowRun) (claim : ClaimInFlight) : Prop :=
  run.threadId = claim.body.threadId ∨
    run.jobId = claim.job.jobId ∧ run.triggerKey = claim.body.triggerKey

instance (run : WorkflowRun) (claim : ClaimInFlight) : Decidable (run.conflicts claim) :=
  inferInstanceAs (Decidable (_ ∨ _ ∧ _))

def ClaimInFlight.run (claim : ClaimInFlight) : WorkflowRun where
  runId := claim.body.runId
  jobId := claim.job.jobId
  threadId := claim.body.threadId
  triggerKey := claim.body.triggerKey
  definition := claim.job.definition
  state := .running
  verdict := none
  startedAt := claim.now
  finishedAt := none

/-- Where a claim leaves the schedule of its job. -/
def ClaimInFlight.advance (claim : ClaimInFlight) (row : WorkflowJob) : WorkflowJob :=
  if claim.body.manual then row
  else
    { row with
      nextRunAt := claim.job.definition.nextRun croniter claim.now
      triggerCursor := claim.body.triggerCursor }

theorem ClaimInFlight.jobId_advance (claim : ClaimInFlight) (row : WorkflowJob) :
    (claim.advance croniter row).jobId = row.jobId := by
  unfold advance
  split <;> rfl

/-- The writes of a claim: its run, and the schedule past the occurrence it started. -/
def writeClaim (jobId : Ulid) : Except JobError (WorkflowRun × JobStore) := do
  let claim ← require (s.locks jobId) .noSuchClaim
  ensure (∀ run ∈ s.runs.rows, ¬run.conflicts claim) alreadyStarted
  let runs ← require (s.runs.insert? claim.run) alreadyStarted
  return (claim.run,
    { s with
      runs
      jobs := s.jobs.modify jobId (claim.advance croniter) (claim.jobId_advance croniter)
      locks := Function.update s.locks jobId none })

def WorkflowRun.finish (run : WorkflowRun) (body : FinishJob) (now : Datetime) : WorkflowRun :=
  { run with
    state := .finished body.state
    verdict := some body.verdict
    finishedAt := some now }

theorem WorkflowRun.runId_finish (body : FinishJob) (now : Datetime) (run : WorkflowRun) :
    (run.finish body now).runId = run.runId := rfl

def finish (runId : Ulid) (body : FinishJob) : Except JobError (WorkflowRun × JobStore) := do
  let run ← require ((s.runs.get? runId).filter fun run => run.state = .running ∧
    (ownedJob s run.jobId body.principalId body.machineId).isSome)
    (.http 409 "Run is absent or already finished.")
  return (run.finish body s.clock,
    { s with
      runs := s.runs.modify runId (·.finish body s.clock)
        (WorkflowRun.runId_finish body s.clock) })

inductive Action
  /-- Time passes. -/
  | tick (now : Datetime)
  | save (jobId : Ulid) (body : SaveJob) (readAt : Datetime)
  | startClaim (jobId : Ulid) (body : ClaimJob)
  | writeClaim (jobId : Ulid)
  /-- A claim's transaction ends without its writes. -/
  | rollback (jobId : Ulid)
  | finish (runId : Ulid) (body : FinishJob)
  deriving DecidableEq

def step (s : JobStore) : Action → Except JobError JobStore
  | .tick now => do
    ensure (s.clock ≤ now) .clock
    return { s with clock := now }
  | .save jobId body readAt => do
    ensure (readAt ≤ s.clock) .clock
    let (_, s) ← save croniter s jobId body readAt
    return s
  | .startClaim jobId body => startClaim croniter s jobId body
  | .writeClaim jobId => do
    let (_, s) ← writeClaim croniter s jobId
    return s
  | .rollback jobId => .ok { s with locks := Function.update s.locks jobId none }
  | .finish runId body => do
    let (_, s) ← finish s runId body
    return s

def jobService : Machine JobStore Action JobError where
  start s := s.jobs = .empty ∧ s.runs = .empty ∧ s.locks = fun _ => none
  step := step croniter

section Small

/-- The start of the next minute, within one day. -/
def nextMinute (now : Datetime) : Option Datetime :=
  if hminute : now.minute + 1 < 60 then
    some { now with minute := now.minute + 1, minute_lt := hminute, second := 0,
                    second_lt := by decide, microsecond := 0, microsecond_lt := by decide }
  else if hhour : now.hour + 1 < 24 then
    some { now with hour := now.hour + 1, hour_lt := hhour, minute := 0, minute_lt := by decide,
                    second := 0, second_lt := by decide, microsecond := 0,
                    microsecond_lt := by decide }
  else none

theorem lt_nextMinute {now next : Datetime} (h : nextMinute now = some next) : now < next := by
  have hsecond := now.second_lt
  have hmicrosecond := now.microsecond_lt
  have hminute := now.minute_lt
  rw [Datetime.lt_iff]
  unfold nextMinute at h
  split at h
  · cases h
    simp only [Datetime.ordinal]
    omega
  split at h
  · cases h
    simp only [Datetime.ordinal]
    omega
  · cases h

/-- The line `* * * * *`. -/
def everyMinute : Croniter where
  isValid line := line = "* * * * *"
  getNext line now := if line = "* * * * *" then nextMinute now else none
  lt_getNext h := lt_nextMinute (Option.ite_none_right_eq_some.mp h).2

/-- Some minute and second of one morning. -/
def morning (minute second : Nat) (hminute : minute < 60 := by decide)
    (hsecond : second < 60 := by decide) : Datetime :=
  ⟨2026, 9, 16, 10, minute, second, 0, by decide, by decide, by decide, by decide, hminute,
    hsecond, by decide⟩

def halfMinute : Datetime := morning 0 30

def firstMinute : Datetime := morning 1 0

def checkRecipe : WorkflowDefinition :=
  { name := "Check"
    prompt := "Write hello"
    folder := "/tmp"
    modelPolicy := "elbow"
    budgetUsd := 1 / 10
    exitCondition := "true"
    cron := some "* * * * *" }

def savesRecipe (expectedRevision : Nat) : SaveJob :=
  { principalId := "owner", machineId := "m", definition := checkRecipe, expectedRevision }

def claimsMinute (runId : Ulid) (threadId : Uuid) (minute : Datetime) (expectedRevision : Int) :
    ClaimJob :=
  { principalId := "owner"
    machineId := "m"
    runId
    threadId
    triggerKey := minute.isoformat
    expectedRevision }

def noJobs : JobStore := ⟨.empty, .empty, fun _ => none, halfMinute⟩

/-- The job on record, after `revision` saves of its recipe. -/
def checkJob (revision : Nat) : WorkflowJob where
  jobId := 1
  principalId := "owner"
  machineId := "m"
  definition := checkRecipe
  revision
  enabled := true
  nextRunAt := some firstMinute
  triggerCursor := none

end Small

end Nocturne.Jobs
