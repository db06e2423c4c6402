import Nocturne.Memory.Service

namespace Nocturne.Memory

open Nocturne.Lib

structure StageMemoryRequest where
  memoryId : Uuid
  principalId : String
  label : String
  body : String
  kind : MemoryKind
  keywords : List String := []
  projectKey : Option String := none
  originThreadId : Uuid
  originPath : Option String := none
  originLocation : Option String := none
  machineId : String
  runId : String
  originAgent : String
  deriving DecidableEq

def StageMemoryRequest.command (request : StageMemoryRequest) : CreateMemoryCommand :=
  { principalId := request.principalId
    label := request.label
    body := request.body
    kind := request.kind
    keywords := request.keywords
    projectKey := request.projectKey
    originThreadId := some request.originThreadId
    originPath := request.originPath
    originLocation := request.originLocation
    editor := "agent:" ++ request.originAgent
    machineId := request.machineId
    revisionReason := "symphony/staged" }

/-- `<run_id>/root` and, below it, positive numbers after dots. -/
def isAttempt (runId originAgent : String) : Prop :=
  (runId ++ "/root").toList <+: originAgent.toList ∧
    let parts := Text.splitOn '.' (originAgent.toList.drop (runId ++ "/root").length)
    parts.head? = some [] ∧
      ∀ part ∈ parts.tail, part ≠ [] ∧ part.head? ≠ some '0' ∧ ∀ c ∈ part, c.isDigit

instance (runId originAgent : String) : Decidable (isAttempt runId originAgent) :=
  have (part : List Char) : Decidable (∀ c ∈ part, c.isDigit) := List.decidableBAll _ _
  inferInstanceAs (Decidable (_ ∧ _ ∧ _))

variable (env : Env) (s : Store)

/-- The head already staged under this id, if it is an exact replay of the command. -/
def stagedReplayRow (memoryId : Uuid) (command : CreateMemoryCommand) :
    Except SpineError (Option MemoryUnit) :=
  match s.units.get? memoryId with
  | none => .ok none
  | some row => do
    let revision := s.revisions.rows.find? fun r => r.memoryId = memoryId ∧ r.revision = 1
    ensure (row.principalId = command.principalId ∧ row.label = command.label ∧
      row.body = command.body ∧ row.kind = command.kind ∧ row.keywords = command.keywords ∧
      row.projectKey = command.projectKey ∧ row.originThreadId = command.originThreadId ∧
      row.originPath = command.originPath ∧ row.originLocation = command.originLocation ∧
      row.status = .staged ∧ revision.isSome)
      (.stagedMemoryConflict "memory_id already names a different memory")
    ensure (∀ r ∈ revision, r.editor = command.editor ∧ r.originMachineId = command.machineId ∧
      r.reason = command.revisionReason)
      (.stagedMemoryConflict "memory_id already names different staging provenance")
    return some row

/-- Write or exactly replay one run-private Symphony memory head. -/
def stageSymphony (request : StageMemoryRequest) (embedding : Embedding) :
    Except SpineError (MemoryUnit × Store) := do
  ensure (isAttempt request.runId request.originAgent) (.contract "origin_agent")
  validateLabel env request.label
  validateBody env request.body
  match ← stagedReplayRow s request.memoryId request.command with
  | some existing =>
    ensure (existing.runId = some request.runId ∧ existing.originAgent = some request.originAgent)
      (.stagedMemoryConflict "memory_id already names a different run attempt")
    return (existing, s)
  | none =>
    insertRoot env s request.command embedding .staged (some request.memoryId)
      (some request.runId) (some request.originAgent)

end Nocturne.Memory
