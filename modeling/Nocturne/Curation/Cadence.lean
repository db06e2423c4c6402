import Mathlib.Data.List.Dedup
import Mathlib.Data.List.Sort
import Nocturne.Lib.Machine
import Nocturne.Store.Memory

namespace Nocturne.Curation

open Nocturne.Lib

inductive Trigger
  | writes | manual | injectionPressure | cron | compaction
  deriving DecidableEq, Repr

/-- What a principal's palace has counted, and how far its completed passes have read. -/
structure CuratorTriggerState where
  principalId : String
  admittedWrites : Nat
  lastRunWrites : Nat
  pressureEvents : Nat
  lastRunPressure : Nat
  deriving DecidableEq, Repr

/-- The row checks of `curator_trigger_state`. -/
def CuratorTriggerState.Checked (row : CuratorTriggerState) : Prop :=
  row.lastRunWrites ≤ row.admittedWrites ∧ row.lastRunPressure ≤ row.pressureEvents

instance : DecidablePred CuratorTriggerState.Checked :=
  fun _ => inferInstanceAs (Decidable (_ ∧ _))

structure CuratorRun where
  runUid : Ulid
  principalId : String
  trigger : Trigger
  admittedWritesSnapshot : Nat
  pressureSnapshot : Nat
  error : Option String
  deriving DecidableEq

inductive ProgressPhase
  | runStarted | runCompleted | runFailed
  deriving DecidableEq, Repr

structure CuratorProgress where
  principalId : String
  runUid : Ulid
  phase : ProgressPhase
  ts : Time
  deriving DecidableEq

/-- An approved card whose candidate carries a compaction revision. -/
structure CompactionApproval where
  principalId : String
  decidedAt : Time
  deriving DecidableEq

/-- How far the pass under a principal's advisory lock has come. -/
inductive PassPhase
  | started
  | snapshot (admitted pressure : Nat)
  | persisted (admitted pressure : Nat) (error : Option String)
  | advanced (admitted pressure : Nat)
  deriving DecidableEq

structure RunningPass where
  principalId : String
  runUid : Ulid
  trigger : Trigger
  phase : PassPhase
  deriving DecidableEq

/-- The counts a pass has read. -/
def PassPhase.counts : PassPhase → Option (Nat × Nat)
  | .started => none
  | .snapshot admitted pressure => some (admitted, pressure)
  | .persisted admitted pressure _ => some (admitted, pressure)
  | .advanced admitted pressure => some (admitted, pressure)

/-- What the curator's cadence rests on: the heads, the counts kept beside them by trigger,
and the record of passes. -/
structure Cadence where
  units : Table Uuid MemoryUnit (·.id)
  states : Table String CuratorTriggerState (·.principalId)
  runs : Table Ulid CuratorRun (·.runUid)
  progress : List CuratorProgress
  approvals : List CompactionApproval
  passes : Table String RunningPass (·.principalId)

section Triggers

/-- A row write that makes a head active. -/
def writeDelta (old : Option MemoryUnit) (new : MemoryUnit) : Nat :=
  if new.status = .active ∧ ∀ u ∈ old, u.status ≠ .active then 1 else 0

/-- The removals a row write adds to a head that is active after it. -/
def pressureDelta (old : Option MemoryUnit) (new : MemoryUnit) : Nat :=
  match old with
  | some u => if new.status = .active then new.stats.removals - u.stats.removals else 0
  | none => 0

/-- `nocturne_tick_curator_write`, fired for one row of `memory_unit`. -/
def tickCuratorWrite (states : Table String CuratorTriggerState (·.principalId))
    (old : Option MemoryUnit) (new : MemoryUnit) :
    Table String CuratorTriggerState (·.principalId) :=
  if 0 < writeDelta old new ∨ 0 < pressureDelta old new then
    states.upsert
      { principalId := new.principalId
        admittedWrites := writeDelta old new
        lastRunWrites := 0
        pressureEvents := pressureDelta old new
        lastRunPressure := 0 }
      (fun row =>
        { row with
          admittedWrites := row.admittedWrites + writeDelta old new
          pressureEvents := row.pressureEvents + pressureDelta old new })
      fun _ => rfl
  else states

/-- The counts the migrations install: every active head read, and all its removals. -/
def installedStates (units : List MemoryUnit) :
    Table String CuratorTriggerState (·.principalId) where
  rows := ((units.filter (·.status = .active)).map (·.principalId)).dedup.map fun principalId =>
    let active := units.filter fun u => u.status = .active ∧ u.principalId = principalId
    { principalId
      admittedWrites := active.length
      lastRunWrites := active.length
      pressureEvents := (active.map (·.stats.removals)).sum
      lastRunPressure := (active.map (·.stats.removals)).sum }
  nodup := by simpa [Function.comp_def] using List.nodup_dedup _

end Triggers

namespace Cadence

variable (c : Cadence)

def installed (units : Table Uuid MemoryUnit (·.id)) : Cadence where
  units := units
  states := installedStates units.rows
  runs := .empty
  progress := []
  approvals := []
  passes := .empty

/-- `_trigger_snapshot`. -/
def triggerSnapshot (principalId : String) : Nat × Nat :=
  match c.states.get? principalId with
  | some row => (row.admittedWrites, row.pressureEvents)
  | none => (0, 0)

/-- `_advance_cursor`; the row checks apply. -/
def advanceCursor (principalId : String) (admitted pressure : Nat) :
    Except SpineError (Table String CuratorTriggerState (·.principalId)) := do
  let states := c.states.upsert
    { principalId
      admittedWrites := admitted
      lastRunWrites := admitted
      pressureEvents := pressure
      lastRunPressure := pressure }
    (fun row => { row with lastRunWrites := admitted, lastRunPressure := pressure }) fun _ => rfl
  ensure (∀ row ∈ states.rows, row.Checked) (.integrity "curator_trigger_state_check")
  return states

def recordProgress (principalId : String) (runUid : Ulid) (phase : ProgressPhase) (ts : Time) :
    Cadence :=
  { c with progress := c.progress ++ [⟨principalId, runUid, phase, ts⟩] }

/-- The pass under the principal's lock goes on to its next phase. -/
def moved (pass : RunningPass) (phase : PassPhase) : Cadence :=
  { c with
    passes := c.passes.modify pass.principalId (fun pass => { pass with phase }) fun _ => rfl }

/-- `pg_advisory_unlock`. -/
def unlocked (principalId : String) : Cadence :=
  { c with passes := c.passes.erase principalId }

end Cadence

/-- One row write, or one transaction of a pass. -/
inductive CadenceAction
  | insert (unit : MemoryUnit)
  | update (unit : MemoryUnit)
  | approve (approval : CompactionApproval)
  | start (principalId : String) (runUid : Ulid) (trigger : Trigger) (now : Time)
  | snapshot (principalId : String)
  | persist (principalId : String) (error : Option String)
  | advance (principalId : String)
  | finish (principalId : String) (now : Time)
  | fail (principalId : String) (now : Time)
  | crash (principalId : String)

/-- Write a whole row in the place of the one with its id. -/
def replaceUnit (units : Table Uuid MemoryUnit (·.id)) (unit : MemoryUnit) :
    Table Uuid MemoryUnit (·.id) :=
  units.modify unit.id (fun old => if old.id = unit.id then unit else old) fun old => by
    by_cases h : old.id = unit.id <;> simp [h]

namespace Cadence

def step (c : Cadence) : CadenceAction → Except SpineError Cadence
  | .insert unit => do
    let units ← require (c.units.insert? unit) (.integrity "memory_unit_pkey")
    return { c with units, states := tickCuratorWrite c.states none unit }
  | .update unit => do
    let old ← require (c.units.get? unit.id) (.memoryNotFound unit.id)
    -- no statement writes a head's principal
    ensure (unit.principalId = old.principalId) (.contract "principal_id")
    return { c with
      units := replaceUnit c.units unit
      states := tickCuratorWrite c.states (some old) unit }
  | .approve approval => .ok { c with approvals := c.approvals ++ [approval] }
  | .start principalId runUid trigger now => do
    -- `pg_try_advisory_lock`: a second pass of the principal answers nothing
    let passes ← require (c.passes.insert? ⟨principalId, runUid, trigger, .started⟩)
      .noSuchOperation
    return { c with passes }.recordProgress principalId runUid .runStarted now
  | .snapshot principalId => do
    let pass ← require (c.passes.get? principalId) .noSuchOperation
    ensure (pass.phase = .started) .noSuchOperation
    let (admitted, pressure) := c.triggerSnapshot principalId
    return c.moved pass (.snapshot admitted pressure)
  | .persist principalId error => do
    let pass ← require (c.passes.get? principalId) .noSuchOperation
    match pass.phase with
    | .snapshot admitted pressure =>
      let runs ← require
        (c.runs.insert?
          { runUid := pass.runUid
            principalId
            trigger := pass.trigger
            admittedWritesSnapshot := admitted
            pressureSnapshot := pressure
            error })
        (.integrity "curator_run_pkey")
      return { c with runs }.moved pass (.persisted admitted pressure error)
    | _ => .error .noSuchOperation
  | .advance principalId => do
    let pass ← require (c.passes.get? principalId) .noSuchOperation
    match pass.phase with
    | .persisted admitted pressure none =>
      let states ← c.advanceCursor principalId admitted pressure
      return { c with states }.moved pass (.advanced admitted pressure)
    | _ => .error .noSuchOperation
  | .finish principalId now => do
    let pass ← require (c.passes.get? principalId) .noSuchOperation
    match pass.phase with
    | .advanced .. =>
      return (c.recordProgress principalId pass.runUid .runCompleted now).unlocked principalId
    | .persisted _ _ (some _) =>
      return (c.recordProgress principalId pass.runUid .runFailed now).unlocked principalId
    | _ => .error .noSuchOperation
  | .fail principalId now => do
    -- an exception leaves `run.failed` behind and gives the lock up
    let pass ← require (c.passes.get? principalId) .noSuchOperation
    return (c.recordProgress principalId pass.runUid .runFailed now).unlocked principalId
  | .crash principalId => .ok (c.unlocked principalId)

end Cadence

/-- The curator's cadence from the day its triggers were installed on. -/
def cadence : Machine Cadence CadenceAction SpineError where
  start c := ∃ units, c = .installed units
  step := Cadence.step

section Due

/-- How many writes and removals make a pass due. -/
structure Thresholds where
  triggerEvery : Nat
  pressureTriggerEvery : Nat
  positive : 0 < triggerEvery ∧ 0 < pressureTriggerEvery

variable (thresholds : Thresholds) (c : Cadence)

def CuratorTriggerState.WritesDue (row : CuratorTriggerState) : Prop :=
  thresholds.triggerEvery ≤ row.admittedWrites - row.lastRunWrites

def CuratorTriggerState.PressureDue (row : CuratorTriggerState) : Prop :=
  thresholds.pressureTriggerEvery ≤ row.pressureEvents - row.lastRunPressure

instance (row : CuratorTriggerState) : Decidable (row.WritesDue thresholds) :=
  inferInstanceAs (Decidable (_ ≤ _))

instance (row : CuratorTriggerState) : Decidable (row.PressureDue thresholds) :=
  inferInstanceAs (Decidable (_ ≤ _))

def dueRows : List CuratorTriggerState :=
  c.states.rows.filter fun row => row.WritesDue thresholds ∨ row.PressureDue thresholds

/-- Principals with a compaction approved since their last pass began. -/
def compacted : List String :=
  ((c.approvals.filter fun approval => ∀ event ∈ c.progress,
    event.principalId = approval.principalId → event.phase = .runStarted →
      event.ts < approval.decidedAt).map (·.principalId)).dedup

/-- The trigger a principal is run under: a count that is due comes before a compaction. -/
def triggerOf (principalId : String) : Option Trigger :=
  match (dueRows thresholds c).find? (·.principalId = principalId) with
  | some row => some (if row.WritesDue thresholds then .writes else .injectionPressure)
  | none => if principalId ∈ compacted c then some .compaction else none

/-- What `run_due` runs, in order. -/
def runDue : List (String × Trigger) :=
  (((compacted c ++ (dueRows thresholds c).map (·.principalId)).dedup.mergeSort
    fun a b => a ≤ b).filterMap fun principalId =>
      (triggerOf thresholds c principalId).map fun trigger => (principalId, trigger))

/-- What the activity view says is left to count before a pass is due. -/
def writesUntilRun (principalId : String) : Nat :=
  match c.states.get? principalId with
  | some row => thresholds.triggerEvery - (row.admittedWrites - row.lastRunWrites)
  | none => thresholds.triggerEvery

def pressureUntilRun (principalId : String) : Nat :=
  match c.states.get? principalId with
  | some row => thresholds.pressureTriggerEvery - (row.pressureEvents - row.lastRunPressure)
  | none => thresholds.pressureTriggerEvery

end Due

end Nocturne.Curation
