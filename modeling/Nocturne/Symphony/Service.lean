import Nocturne.Memory.Staging
import Nocturne.Queue.Service

namespace Nocturne.Symphony

open Nocturne.Lib Nocturne.Memory Nocturne.Queue

structure ResolveRunRequest where
  principalId : String
  batchUid : Uuid
  winnerOriginAgent : String
  machineId : String
  judgedContext : String
  deriving DecidableEq

def originIsInRun (runId originAgent : String) : Prop :=
  originAgent = runId ++ "/root" ∨ (runId ++ "/root.").toList <+: originAgent.toList

instance (runId originAgent : String) : Decidable (originIsInRun runId originAgent) :=
  inferInstanceAs (Decidable (_ ∨ _))

/-- The candidate attempt is the winner's own or one below it. -/
def isOriginPrefix (winnerOriginAgent : String) (candidate : Option String) : Prop :=
  ∃ origin ∈ candidate,
    origin = winnerOriginAgent ∨ (winnerOriginAgent ++ ".").toList <+: origin.toList

instance (winnerOriginAgent : String) (candidate : Option String) :
    Decidable (isOriginPrefix winnerOriginAgent candidate) :=
  inferInstanceAs (Decidable (∃ origin ∈ candidate, _))

variable (s : Store)

/-- One complete grouped consent batch of symphony cards, decided ones included. -/
def listBatch (env : Env) (batchUid : Uuid) : Except SpineError (List QueueCard) :=
  ((s.items.rows.filter fun item => item.birthplace.IsSymphony ∧
    item.birthplace.batchUid = some batchUid).insertionSort fun a b =>
      a.createdAt < b.createdAt ∨ a.createdAt = b.createdAt ∧ a.itemUid ≤ b.itemUid).mapM
    (card env s)

def lockedRunRows (runId : String) : List MemoryUnit :=
  (s.units.rows.filter fun u => u.runId = some runId ∧ u.status = .staged).insertionSort
    fun a b => a.createdAt < b.createdAt ∨ a.createdAt = b.createdAt ∧ a.id ≤ b.id

def requireResolutionReplay (existing : SymphonyRunResolution) (request : ResolveRunRequest) :
    Except SpineError PUnit :=
  ensure (existing.principalId = request.principalId ∧ existing.batchUid = request.batchUid ∧
    existing.winnerOriginAgent = request.winnerOriginAgent ∧
    existing.machineId = request.machineId ∧ existing.judgedContext = request.judgedContext)
    (.symphonyConflict "the run already has a different resolution")

/-- Queue one winning head, or tombstone one losing head. -/
def routeRow (runId : String) (request : ResolveRunRequest) (s : Store) (row : MemoryUnit) :
    Except SpineError Store := do
  let winner := isOriginPrefix request.winnerOriginAgent row.originAgent
  let (_, s) ← s.cas fun revUid =>
    { memoryId := row.id
      expectedRevision := row.revision
      revUid
      editor := "judge"
      originMachineId := request.machineId
      reason := if winner then "symphony/winner-queued" else "symphony/loser-tombstone"
      changes := { status := some (if winner then .candidate else .tombstoned) } }
  if winner then
    s.drawn.insertItem
      { itemUid := s.freshUlid
        candidateMemoryId := row.id
        principalId := request.principalId
        birthplace := .symphony request.batchUid runId (row.originAgent.getD "")
        verdict := .new
        neighborIds := []
        targetIds := []
        state := .pending
        createdAt := s.session.now
        decidedAt := none }
  else return s

/-- Settle a run once: its winners wait for consent, its losers are tombstoned. -/
def resolve (runId : String) (request : ResolveRunRequest) : Except SpineError Store := do
  ensure (originIsInRun runId request.winnerOriginAgent)
    (.symphonyConflict "winner_origin_agent does not belong to the run")
  match s.resolutions.get? runId with
  | some existing => do
    requireResolutionReplay existing request
    return s
  | none => do
    let rows := lockedRunRows s runId
    ensure (rows ≠ []) (.symphonyNotFound "the run has no staged memories")
    ensure (∀ row ∈ rows, row.principalId = request.principalId)
      (.symphonyConflict "run_id spans a different principal")
    ensure (∃ row ∈ rows, isOriginPrefix request.winnerOriginAgent row.originAgent)
      (.symphonyNotFound "the winning attempt has no staged memories")
    ensure (∀ other ∈ s.resolutions.rows, other.batchUid ≠ request.batchUid)
      (.integrity "symphony_run_resolution_batch_uid_key")
    let resolutions ← require
      (s.resolutions.insert?
        { runId
          principalId := request.principalId
          batchUid := request.batchUid
          winnerOriginAgent := request.winnerOriginAgent
          machineId := request.machineId
          judgedContext := request.judgedContext })
      (.integrity "symphony_run_resolution_pkey")
    rows.foldlM (routeRow runId request) { s with resolutions }

structure ResolveRunResponse where
  runId : String
  batchUid : Uuid
  winnerOriginAgent : String
  queueCards : List QueueCard
  losers : List MemoryUnit
  deriving DecidableEq

/-- What a settled run answers, read back after its transaction. -/
def resolutionResponse (env : Env) (runId : String) (request : ResolveRunRequest) :
    Except SpineError ResolveRunResponse := do
  let queueCards ← listBatch s env request.batchUid
  return {
    runId
    batchUid := request.batchUid
    winnerOriginAgent := request.winnerOriginAgent
    queueCards
    losers :=
      (s.units.rows.filter fun u => u.runId = some runId ∧ u.principalId = request.principalId ∧
        u.status = .tombstoned).insertionSort
        fun a b => a.createdAt < b.createdAt ∨ a.createdAt = b.createdAt ∧ a.id ≤ b.id }

end Nocturne.Symphony
