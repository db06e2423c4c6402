import Nocturne.Lib.Machine
import Nocturne.Lib.Refusal
import Nocturne.Store.Schema

namespace Nocturne.Portability

open Nocturne.Lib

variable {ρ : Type}

/-- A row of `memory_unit`; `rest` is every column that nothing here reads. -/
structure MemoryRow (ρ : Type) where
  id : Uuid
  principalId : String
  label : String
  body : String
  status : MemoryStatus
  runId : Option String
  originAgent : Option String
  revision : ℤ
  rest : ρ
  deriving DecidableEq

/-- A row of `memory_revision`, whose number the schema lets be null. -/
structure RevisionRow (ρ : Type) where
  revUid : Ulid
  parentUid : Option Ulid
  memoryId : Uuid
  revision : Option ℤ
  body : String
  label : String
  rest : ρ
  deriving DecidableEq

structure EdgeRow (ρ : Type) where
  edgeUid : Ulid
  fromMemoryId : Uuid
  toMemoryId : Uuid
  edgeType : EdgeType
  rest : ρ
  deriving DecidableEq

/-- A row of `approval_queue_item`; just the curator's cards name a finding. -/
structure QueueRow (ρ : Type) where
  itemUid : Ulid
  candidateMemoryId : Uuid
  principalId : String
  curatorFindingUid : Option Ulid
  rest : ρ
  deriving DecidableEq

structure DecisionRow (ρ : Type) where
  decisionUid : Ulid
  itemUid : Ulid
  rest : ρ
  deriving DecidableEq

structure Database (ρ : Type) where
  memories : Table Uuid (MemoryRow ρ) (·.id)
  revisions : Table Ulid (RevisionRow ρ) (·.revUid)
  edges : Table Ulid (EdgeRow ρ) (·.edgeUid)
  queue : Table Ulid (QueueRow ρ) (·.itemUid)
  decisions : Table Ulid (DecisionRow ρ) (·.decisionUid)

def Database.empty : Database ρ := ⟨.empty, .empty, .empty, .empty, .empty⟩

/-- The rows of one principal, as `json_populate_recordset` reads them. -/
structure MemoryArchive (ρ : Type) where
  principalId : String
  memories : List (MemoryRow ρ)
  revisions : List (RevisionRow ρ)
  edges : List (EdgeRow ρ)
  queue : List (QueueRow ρ)
  decisions : List (DecisionRow ρ)
  deriving DecidableEq

inductive PortabilityError
  /-- An archive's own field check. -/
  | validation (field : String)
  | value (detail : String)
  | integrity (constraint : String)
  deriving DecidableEq

/-- The checks on a row of `memory_unit`. -/
def MemoryRow.Checked (row : MemoryRow ρ) : Prop :=
  row.runId.isNone = row.originAgent.isNone ∧ (row.status = .staged → row.runId.isSome)

instance : DecidablePred (MemoryRow.Checked (ρ := ρ)) :=
  fun _ => inferInstanceAs (Decidable (_ ∧ _))

section Constraints

/-- The partial unique index `memory_unit_active_label`. -/
def LabelsFree (memories : List (MemoryRow ρ)) : Prop :=
  ((memories.filter (·.status = .active)).map fun row => (row.principalId, row.label)).Nodup

instance : DecidablePred (LabelsFree (ρ := ρ)) :=
  fun _ => inferInstanceAs (Decidable (List.Nodup _))

/-- `UNIQUE (from_memory_id, to_memory_id, edge_type)`. -/
def EdgesDistinct (edges : List (EdgeRow ρ)) : Prop :=
  (edges.map fun row => (row.fromMemoryId, row.toMemoryId, row.edgeType)).Nodup

instance : DecidablePred (EdgesDistinct (ρ := ρ)) :=
  fun _ => inferInstanceAs (Decidable (List.Nodup _))

/-- A finding has at most one card, and a candidate at most one outside curation. -/
def CardsDistinct (queue : List (QueueRow ρ)) : Prop :=
  (queue.filterMap (·.curatorFindingUid)).Nodup ∧
    ((queue.filter (·.curatorFindingUid = none)).map (·.candidateMemoryId)).Nodup

instance : DecidablePred (CardsDistinct (ρ := ρ)) := fun _ => inferInstanceAs (Decidable (_ ∧ _))

end Constraints

section Archive

variable (db : Database ρ) (principalId : String)

/-- The archive's own fields: `principal_id` is not empty. -/
def validated (archive : MemoryArchive ρ) : Except PortabilityError (MemoryArchive ρ) := do
  ensure (archive.principalId ≠ "") (.validation "principal_id")
  return archive

/-- `SELECT id FROM memory_unit WHERE principal_id = :principal`. -/
def Database.Owns (memoryId : Uuid) : Prop :=
  ∃ row ∈ db.memories.rows, row.principalId = principalId ∧ row.id = memoryId

instance (memoryId : Uuid) : Decidable (db.Owns principalId memoryId) :=
  inferInstanceAs (Decidable (∃ row ∈ db.memories.rows, _))

def Database.OwnsItem (itemUid : Ulid) : Prop :=
  ∃ row ∈ db.queue.rows, row.principalId = principalId ∧ row.itemUid = itemUid

instance (itemUid : Ulid) : Decidable (db.OwnsItem principalId itemUid) :=
  inferInstanceAs (Decidable (∃ row ∈ db.queue.rows, _))

/-- `PortabilityService.export`: one snapshot of the five scopes. -/
def «export» : Except PortabilityError (MemoryArchive ρ) :=
  validated
    { principalId
      memories := db.memories.rows.filter (·.principalId = principalId)
      revisions := db.revisions.rows.filter fun row => db.Owns principalId row.memoryId
      edges := db.edges.rows.filter fun row =>
        db.Owns principalId row.fromMemoryId ∧ db.Owns principalId row.toMemoryId
      queue := db.queue.rows.filter (·.principalId = principalId)
      decisions := db.decisions.rows.filter fun row => db.OwnsItem principalId row.itemUid }

variable (archive : MemoryArchive ρ)

/-- What `import_archive` checks before it writes. -/
def checkArchive : Except PortabilityError Unit := do
  ensure (principalId = archive.principalId)
    (.value "The archive belongs to a different principal.")
  let memoryIds := archive.memories.map (·.id)
  let revisionIds := archive.revisions.map (·.revUid)
  let queueIds := archive.queue.map (·.itemUid)
  ensure ((∀ row ∈ archive.memories, row.principalId = principalId) ∧
      ∀ row ∈ archive.queue, row.principalId = principalId)
    (.value "The archive contains a different principal.")
  ensure (∀ row ∈ archive.revisions, row.memoryId ∈ memoryIds ∧
      ∀ uid ∈ row.parentUid, uid ∈ revisionIds)
    (.value "The archive has incomplete revision lineage.")
  ensure (∀ row ∈ archive.edges, row.fromMemoryId ∈ memoryIds ∧ row.toMemoryId ∈ memoryIds)
    (.value "The archive has incomplete memory relationships.")
  ensure ((∀ row ∈ archive.queue, row.candidateMemoryId ∈ memoryIds) ∧
      ∀ row ∈ archive.decisions, row.itemUid ∈ queueIds)
    (.value "The archive has incomplete review lineage.")

/-- The five inserts, each with the constraints of its table. -/
def insertArchive : Except PortabilityError (Database ρ) := do
  let memories ← require (db.memories.insertAll? archive.memories) (.integrity "memory_unit_pkey")
  ensure (LabelsFree memories.rows) (.integrity "memory_unit_active_label")
  ensure (∀ row ∈ archive.memories, row.Checked) (.integrity "memory_unit_lineage_check")
  let revisions ← require (db.revisions.insertAll? archive.revisions)
    (.integrity "memory_revision_pkey")
  ensure (∀ row ∈ archive.revisions, (memories.get? row.memoryId).isSome)
    (.integrity "memory_revision_memory_id_fkey")
  ensure (∀ row ∈ archive.revisions, ∀ uid ∈ row.parentUid, (revisions.get? uid).isSome)
    (.integrity "memory_revision_parent_uid_fkey")
  let edges ← require (db.edges.insertAll? archive.edges) (.integrity "memory_edge_pkey")
  ensure (EdgesDistinct edges.rows)
    (.integrity "memory_edge_from_memory_id_to_memory_id_edge_type_key")
  ensure (∀ row ∈ archive.edges, (memories.get? row.fromMemoryId).isSome ∧
    (memories.get? row.toMemoryId).isSome) (.integrity "memory_edge_memory_id_fkey")
  let queue ← require (db.queue.insertAll? archive.queue) (.integrity "approval_queue_item_pkey")
  ensure (CardsDistinct queue.rows) (.integrity "approval_queue_item_candidate_uidx")
  ensure (∀ row ∈ archive.queue, (memories.get? row.candidateMemoryId).isSome)
    (.integrity "approval_queue_item_candidate_memory_id_fkey")
  let decisions ← require (db.decisions.insertAll? archive.decisions)
    (.integrity "approval_decision_pkey")
  ensure ((decisions.rows.map (·.itemUid)).Nodup) (.integrity "approval_decision_item_uid_key")
  ensure (∀ row ∈ archive.decisions, (queue.get? row.itemUid).isSome)
    (.integrity "approval_decision_item_uid_fkey")
  return { memories, revisions, edges, queue, decisions }

def importArchive : Except PortabilityError (Database ρ) := do
  let archive ← validated archive
  checkArchive principalId archive
  insertArchive db archive

end Archive

section Heads

/-- The columns a compare-and-set may write; `none` is not written. -/
structure HeadChanges (ρ : Type) where
  label : Option String := none
  body : Option String := none
  status : Option MemoryStatus := none
  rest : Option ρ := none

def HeadChanges.IsEmpty (changes : HeadChanges ρ) : Prop :=
  changes.label = none ∧ changes.body = none ∧ changes.status = none ∧ changes.rest.isNone

instance : DecidablePred (HeadChanges.IsEmpty (ρ := ρ)) :=
  fun _ => inferInstanceAs (Decidable (_ ∧ _ ∧ _ ∧ _))

/-- A head at its next revision. -/
def MemoryRow.revised (changes : HeadChanges ρ) (row : MemoryRow ρ) : MemoryRow ρ :=
  { row with
    label := changes.label.getD row.label
    body := changes.body.getD row.body
    status := changes.status.getD row.status
    rest := changes.rest.getD row.rest
    revision := row.revision + 1 }

theorem MemoryRow.id_revised (changes : HeadChanges ρ) (row : MemoryRow ρ) :
    (row.revised changes).id = row.id := rfl

structure HeadUpdate (ρ : Type) where
  memoryId : Uuid
  expectedRevision : ℤ
  revUid : Ulid
  changes : HeadChanges ρ
  /-- Editor, machine, reason and time. -/
  receipt : ρ

inductive HeadError
  | noChanges
  | notFound
  | casConflict
  | lineage (found : Nat)
  | integrity (constraint : String)
  deriving DecidableEq

variable (db : Database ρ)

def Database.parentUids (memoryId : Uuid) (revision : ℤ) : List Ulid :=
  (db.revisions.rows.filter fun row =>
    row.memoryId = memoryId ∧ row.revision = some revision).map (·.revUid)

/-- `cas_update_memory_unit` on the imported tables. -/
def casUpdateMemoryUnit (command : HeadUpdate ρ) : Except HeadError (Database ρ) := do
  ensure (¬command.changes.IsEmpty) .noChanges
  let current ← require (db.memories.get? command.memoryId) .notFound
  ensure (current.revision = command.expectedRevision) .casConflict
  let updated := current.revised command.changes
  let memories := db.memories.modify command.memoryId (·.revised command.changes)
    (MemoryRow.id_revised command.changes)
  ensure (LabelsFree memories.rows) (.integrity "memory_unit_active_label")
  ensure updated.Checked (.integrity "memory_unit_lineage_check")
  let parentUids := db.parentUids command.memoryId command.expectedRevision
  match parentUids with
  | [parentUid] =>
    let revisions ← require
      (db.revisions.insert?
        { revUid := command.revUid
          parentUid := some parentUid
          memoryId := command.memoryId
          revision := some updated.revision
          body := updated.body
          label := updated.label
          rest := command.receipt })
      (.integrity "memory_revision_pkey")
    return { db with memories, revisions }
  | _ => .error (.lineage parentUids.length)

/-- Later compare-and-sets on an imported palace. -/
def heads (ρ : Type) : Machine (Database ρ) (HeadUpdate ρ) HeadError where
  start _ := True
  step := casUpdateMemoryUnit

end Heads

end Nocturne.Portability
