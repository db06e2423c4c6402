import Nocturne.Memory.Service

namespace Nocturne.Memory

open Nocturne.Lib

/-- The statuses a PATCH may name. -/
inductive PublicMemoryStatus
  | active | quarantined | tombstoned
  deriving DecidableEq, Repr

def PublicMemoryStatus.toStatus : PublicMemoryStatus → MemoryStatus
  | .active => .active
  | .quarantined => .quarantined
  | .tombstoned => .tombstoned

structure PatchMemoryRequest where
  memoryId : Uuid
  expectedRevision : Nat
  body : Option String := none
  label : Option String := none
  keywords : Option (List String) := none
  kind : Option MemoryKind := none
  originPath : Option String := none
  pin : Option Bool := none
  status : Option PublicMemoryStatus := none
  editor : String
  reason : String
  machineId : String
  deriving DecidableEq

def PatchMemoryRequest.isEmpty (request : PatchMemoryRequest) : Prop :=
  request.body = none ∧ request.label = none ∧ request.keywords = none ∧ request.kind = none ∧
    request.originPath = none ∧ request.pin = none ∧ request.status = none

instance (request : PatchMemoryRequest) : Decidable request.isEmpty :=
  inferInstanceAs (Decidable (_ ∧ _))

/-- A reinforcement repeats the current body and changes nothing else. -/
def PatchMemoryRequest.repeats (request : PatchMemoryRequest) (body : String) : Prop :=
  request.body = some body ∧ request.label = none ∧ request.keywords = none ∧
    request.kind = none ∧ request.originPath = none ∧ request.pin = none ∧ request.status = none

instance (request : PatchMemoryRequest) (body : String) : Decidable (request.repeats body) :=
  inferInstanceAs (Decidable (_ ∧ _))

/-- What a PATCH carries from its preflight read to its compare-and-set. -/
structure PatchPlan where
  request : PatchMemoryRequest
  changes : MemoryUnitChanges
  deriving DecidableEq

variable (env : Env) (s : Store)

/-- Everything a PATCH does before its write transaction. -/
def patchPreflight (request : PatchMemoryRequest) (embedding : Embedding) :
    Except SpineError PatchPlan := do
  ensure (request.editor ≠ "maintenance") (.memoryValidation "maintenance editor is reserved")
  ensure (¬request.isEmpty) .emptyPatch
  let current ← require (s.units.get? request.memoryId) (.memoryNotFound request.memoryId)
  let isReinforcement := request.reason = "remember/reinforce"
  ensure (isReinforcement → request.repeats current.body)
    (.memoryValidation
      "remember/reinforce requires the unchanged current body and no other changes")
  request.body.forM (validateBody env)
  request.label.forM (validateLabel env)
  return {
    request
    changes :=
      { body := request.body
        embedding := request.body.map fun _ => embedding
        embeddingModel := request.body.map fun _ => env.embeddingModel
        label := request.label
        keywords := request.keywords
        kind := request.kind
        originPath := request.originPath.map some
        pin := request.pin
        status := request.status.map (·.toStatus)
        stats :=
          if isReinforcement then
            some { current.stats with reinforcements := current.stats.reinforcements + 1 }
          else none } }

/-- CAS-update a head and append its resulting cloud revision. -/
def patch (plan : PatchPlan) : Except SpineError (MemoryUnit × Store) :=
  let updated := s.cas fun revUid =>
    { memoryId := plan.request.memoryId
      expectedRevision := plan.request.expectedRevision
      revUid
      editor := plan.request.editor
      originMachineId := plan.request.machineId
      reason := plan.request.reason
      changes := plan.changes }
  match updated with
  | .ok (row, s') => do
    let row ← contractMemory row
    return (row, s')
  | .error (.memoryCasConflict current) => do
    let current ← contractMemory current
    .error (.revisionConflict current)
  | .error (.integrity constraint) =>
    match s.units.get? plan.request.memoryId with
    | none => .error (.integrity constraint)
    | some current =>
      match findActiveLabel s current.principalId (plan.changes.label.getD current.label)
        (some current.id) with
      | some conflict =>
        if constraint = "memory_unit_active_label" ∧
            plan.changes.status.getD current.status = .active then
          .error (.labelConflict conflict.id conflict.label)
        else .error (.integrity constraint)
      | none => .error (.integrity constraint)
  | .error error => .error error

end Nocturne.Memory
