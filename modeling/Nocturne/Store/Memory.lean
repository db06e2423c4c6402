import Nocturne.Lib.Refusal
import Nocturne.Store.Schema

namespace Nocturne

open Nocturne.Lib

inductive SpineError
  | memoryNotFound (memoryId : Uuid)
  | memoryCasConflict (current : MemoryUnit)
  | memoryLineage (memoryId : Uuid) (expectedRevision found : Nat)
  | emptyChanges
  | integrity (constraint : String)
  | contract (field : String)
  | labelConflict (memoryId : Uuid) (label : String)
  | duplicateMemory (memoryId : Uuid)
  | revisionConflict (current : MemoryUnit)
  | emptyPatch
  | memoryValidation (detail : String)
  | stagedMemoryConflict (detail : String)
  | queueNotFound
  | queueConflict (detail : String)
  | queueValidation (detail : String)
  | symphonyNotFound (detail : String)
  | symphonyConflict (detail : String)
  | curatorProvider (detail : String)
  | invalidRescoreState (detail : String)
  | threadAlreadyPrepared
  | threadIdentityConflict
  | scorerConfiguration (detail : String)
  | selection (error : Inject.SelectionError)
  | prepareConflict
  | injectionNotFound
  | invalidCommitChoices (detail : String)
  | outcomeConflict
  | decisionState (detail : String)
  | labelSearch
  | noSuchOperation
  deriving DecidableEq

/-- Allowlisted mutable head fields; `none` is not written. -/
structure MemoryUnitChanges where
  label : Option String := none
  body : Option String := none
  kind : Option MemoryKind := none
  keywords : Option (List String) := none
  embedding : Option Embedding := none
  embeddingModel : Option String := none
  projectKey : Option (Option String) := none
  threadOrigin : Option (Option String) := none
  originThreadId : Option (Option Uuid) := none
  originPath : Option (Option String) := none
  originLocation : Option (Option String) := none
  pin : Option Bool := none
  status : Option MemoryStatus := none
  stats : Option Stats := none
  bias : Option ℚ := none
  deriving DecidableEq

def MemoryUnitChanges.apply (changes : MemoryUnitChanges) (unit : MemoryUnit) : MemoryUnit :=
  { unit with
    label := changes.label.getD unit.label
    body := changes.body.getD unit.body
    kind := changes.kind.getD unit.kind
    keywords := changes.keywords.getD unit.keywords
    embedding := changes.embedding.getD unit.embedding
    embeddingModel := changes.embeddingModel.getD unit.embeddingModel
    projectKey := changes.projectKey.getD unit.projectKey
    threadOrigin := changes.threadOrigin.getD unit.threadOrigin
    originThreadId := changes.originThreadId.getD unit.originThreadId
    originPath := changes.originPath.getD unit.originPath
    originLocation := changes.originLocation.getD unit.originLocation
    pin := changes.pin.getD unit.pin
    status := changes.status.getD unit.status
    stats := changes.stats.getD unit.stats
    bias := changes.bias.getD unit.bias }

structure CasUpdate where
  memoryId : Uuid
  expectedRevision : Nat
  revUid : Ulid
  editor : String
  originMachineId : String
  reason : String
  changes : MemoryUnitChanges
  deriving DecidableEq

namespace Store

variable (s : Store)

section Minting

def ulids : List Ulid :=
  s.revisions.rows.map (·.revUid) ++ s.edges.rows.map (·.edgeUid) ++
    s.items.rows.map (·.itemUid) ++ s.decisions.rows.map (·.decisionUid) ++
    s.findings.rows.map (·.findingUid) ++ s.findings.rows.map (·.runUid) ++
    s.events.rows.map (·.eventUid)

def uuids : List Uuid :=
  s.edges.rows.map (·.fromMemoryId) ++ s.edges.rows.map (·.toMemoryId) ++
    s.units.rows.map (·.id) ++ s.threads.rows.map (·.id) ++ s.events.rows.map (·.injectionId)

/-- The drawn identifier, or one past all of them on a collision. -/
def fresh (used : List Nat) (draw : Nat) : Nat :=
  if draw ∈ used then used.foldr max 0 + 1 else draw

/-- What `mint_ulid` answers next. -/
def freshUlid : Ulid := fresh s.ulids (s.session.draws.headD 0)

/-- What `gen_random_uuid` and `uuid4` answer next. -/
def freshUuid : Uuid := fresh s.uuids (s.session.draws.headD 0)

/-- The draw is spent. -/
def drawn : Store := { s with session := { s.session with draws := s.session.draws.tail } }

end Minting

/-- Another active head of the principal already carries this label. -/
def LabelTaken (principalId label : String) (except : Uuid) : Prop :=
  ∃ other ∈ s.units.rows, other.id ≠ except ∧ other.status = .active ∧
    other.principalId = principalId ∧ other.label = label

instance (principalId label : String) (except : Uuid) :
    Decidable (s.LabelTaken principalId label except) :=
  inferInstanceAs (Decidable (∃ other ∈ s.units.rows, _))

/-- The partial unique index `memory_unit_active_label` admits the row. -/
def ActiveLabelFree (unit : MemoryUnit) : Prop :=
  unit.status = .active → ¬s.LabelTaken unit.principalId unit.label unit.id

instance (unit : MemoryUnit) : Decidable (s.ActiveLabelFree unit) :=
  inferInstanceAs (Decidable (_ → _))

def parentUids (memoryId : Uuid) (revision : Nat) : List Ulid :=
  (s.revisions.rows.filter fun r => r.memoryId = memoryId ∧ r.revision = revision).map (·.revUid)

def bumped (changes : MemoryUnitChanges) (unit : MemoryUnit) : MemoryUnit :=
  { changes.apply unit with revision := unit.revision + 1, updatedAt := s.session.now }

theorem bumped_id (changes : MemoryUnitChanges) (unit : MemoryUnit) :
    (s.bumped changes unit).id = unit.id := rfl

/-- CAS-update a head and append its resulting revision. -/
def casUpdateMemoryUnit (command : CasUpdate) : Except SpineError (MemoryUnit × Store) := do
  ensure (command.changes ≠ {}) .emptyChanges
  let current ← require (s.units.get? command.memoryId) (.memoryNotFound command.memoryId)
  ensure (current.revision = command.expectedRevision) (.memoryCasConflict current)
  let updated := s.bumped command.changes current
  ensure (s.ActiveLabelFree updated) (.integrity "memory_unit_active_label")
  let parentUids := s.parentUids command.memoryId command.expectedRevision
  match parentUids with
  | [parentUid] =>
    let revisions ← require
      (s.revisions.insert?
        { revUid := command.revUid
          parentUid := some parentUid
          memoryId := command.memoryId
          revision := updated.revision
          body := updated.body
          label := updated.label
          editor := command.editor
          originMachineId := command.originMachineId
          reason := command.reason
          ts := s.session.now })
      (.integrity "memory_revision_pkey")
    return (updated,
      { s with
        units := s.units.modify command.memoryId (s.bumped command.changes) (s.bumped_id _)
        revisions })
  | _ => .error (.memoryLineage command.memoryId command.expectedRevision parentUids.length)

/-- CAS under a freshly minted revision uid. -/
def cas (command : Ulid → CasUpdate) : Except SpineError (MemoryUnit × Store) :=
  s.drawn.casUpdateMemoryUnit (command s.freshUlid)

/-- Insert a head at revision 1; the label index and the row checks apply. -/
def insertUnit (unit : MemoryUnit) : Except SpineError Store := do
  ensure (unit.runId.isNone = unit.originAgent.isNone)
    (.integrity "memory_unit_run_lineage_pair_check")
  ensure (unit.status = .staged → unit.runId.isSome) (.integrity "memory_unit_staged_lineage_check")
  ensure (s.ActiveLabelFree unit) (.integrity "memory_unit_active_label")
  let units ← require (s.units.insert? unit) (.integrity "memory_unit_pkey")
  return { s with units }

def insertRevision (revision : MemoryRevision) : Except SpineError Store := do
  ensure (∀ uid ∈ revision.parentUid, (s.revisions.get? uid).isSome)
    (.integrity "memory_revision_parent_uid_fkey")
  let revisions ← require (s.revisions.insert? revision) (.integrity "memory_revision_pkey")
  return { s with revisions }

def insertEdge (fromMemoryId toMemoryId : Uuid) (edgeType : EdgeType) :
    Except SpineError Store := do
  ensure (∀ e ∈ s.edges.rows, ¬(e.fromMemoryId = fromMemoryId ∧ e.toMemoryId = toMemoryId ∧
    e.edgeType = edgeType)) (.integrity "memory_edge_from_memory_id_to_memory_id_edge_type_key")
  let edges ← require
    (s.edges.insert? { edgeUid := s.freshUlid, fromMemoryId, toMemoryId, edgeType })
    (.integrity "memory_edge_pkey")
  return { s.drawn with edges }

/-- Insert a card; a finding has at most one, and a candidate at most one outside curation. -/
def insertItem (item : ApprovalQueueItem) : Except SpineError Store := do
  ensure ((s.units.get? item.candidateMemoryId).isSome)
    (.integrity "approval_queue_item_candidate_memory_id_fkey")
  ensure (¬item.birthplace.IsCurator → ∀ other ∈ s.items.rows,
    other.candidateMemoryId = item.candidateMemoryId → other.birthplace.IsCurator)
    (.integrity "approval_queue_item_non_curator_candidate_uidx")
  ensure (∀ uid ∈ item.birthplace.findingUid, ∀ other ∈ s.items.rows,
    other.birthplace.findingUid ≠ some uid)
    (.integrity "approval_queue_item_curator_finding_uid_key")
  let items ← require (s.items.insert? item) (.integrity "approval_queue_item_pkey")
  return { s with items }

def insertDecision (decision : ApprovalDecision) : Except SpineError Store := do
  ensure (∀ other ∈ s.decisions.rows, other.itemUid ≠ decision.itemUid)
    (.integrity "approval_decision_item_uid_key")
  let decisions ← require (s.decisions.insert? decision) (.integrity "approval_decision_pkey")
  return { s with decisions }

def setItemState (itemUid : Ulid) (state : ItemState) : Store :=
  { s with
    items := s.items.modify itemUid
      (fun item => { item with state, decidedAt := some s.session.now }) fun _ => rfl }

end Store

end Nocturne
