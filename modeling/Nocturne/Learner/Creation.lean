import Mathlib.Data.Prod.Lex
import Mathlib.Data.String.Basic
import Nocturne.Learner.Evidence
import Nocturne.Lib.Like
import Nocturne.Lib.Listing
import Nocturne.Lib.Machine
import Nocturne.Store.Memory

namespace Nocturne.Learner

open Nocturne.Inject Nocturne.Lib Nocturne.Lib.Like

/-- What the creation stream says of a memory, in the order of the names. -/
inductive CreationKind
  | admitted | created | curatorRetired | deleted | never | rejected | used | zeroInjection
  deriving DecidableEq, Repr

/-- Who made a memory, in the order of the names. -/
inductive CreationSource
  | agentSave | compaction | curator | extraction | remember | seed | unknown
  deriving DecidableEq, Repr

/-- The key of an entry: `revision:`, `injection:`, `injection:` with the outcome after it,
or `zero:`. -/
inductive EventKey
  | revision (revUid : Ulid)
  | injection (eventUid : Ulid)
  | decision (eventUid : Ulid) (outcome : Outcome)
  | zero (memoryId : Uuid)
  deriving DecidableEq

structure CreationOutcome where
  eventKey : EventKey
  memoryId : Uuid
  principalId : String
  machineId : String
  source : CreationSource
  outcome : CreationKind
  reason : String
  ts : Time
  deriving DecidableEq

section Capture

def sourceOf (r : MemoryRevision) : CreationSource :=
  if r.editor = "compaction" then .compaction
  else if r.editor = "extraction" then .extraction
  else if r.editor = "user" ∨ r.editor = "human" ∨ like r.reason "remember/%" then .remember
  else if like r.editor "seed%" ∨ like r.reason "seed%" then .seed
  else if like r.reason "curation/%" then .curator
  else if like r.editor "agent%" then .agentSave
  else .unknown

/-- `ORDER BY ts, rev_uid`. -/
def written (r : MemoryRevision) : Time ×ₗ Ulid := toLex (r.ts, r.revUid)

/-- `creation_source`. -/
def creationSource (revisions : List MemoryRevision) (target : Uuid) : Option CreationSource :=
  (listing written (revisions.filter (·.memoryId = target))).head?.map sourceOf

/-- The outcome a revision row says, if any. -/
def creationKind (r : MemoryRevision) : Option CreationKind :=
  if r.revision = 1 then some .created
  else if like r.reason "panel/delete%" then some .deleted
  else if r.reason = "rejected" ∨ like r.reason "curation/%/rejected" then some .rejected
  else if like r.reason "curation/%/retire" then some .curatorRetired
  else if r.reason = "approved" then some .admitted
  else none

/-- Decisions that say how a memory turned out. -/
def Decisive (o : Outcome) : Prop :=
  o = .removed .never ∨ o ∈ [.kept, .cited, .addedBack, .autoEntered, .midThreadAdded]

instance : DecidablePred Decisive := fun _ => inferInstanceAs (Decidable (_ ∨ _))

def decisionKind (o : Outcome) : CreationKind := if o = .removed .never then .never else .used

abbrev CreationLog := Table EventKey CreationOutcome (·.eventKey)

/-- `capture_creation_revision`. -/
def captureRevision (units : Table Uuid MemoryUnit (·.id)) (revisions : List MemoryRevision)
    (log : CreationLog) (r : MemoryRevision) : CreationLog :=
  match creationKind r, units.get? r.memoryId with
  | some kind, some unit => log.insertNew
      { eventKey := .revision r.revUid
        memoryId := r.memoryId
        principalId := unit.principalId
        machineId := r.originMachineId
        source := (creationSource revisions r.memoryId).getD .unknown
        outcome := kind
        reason := r.reason
        ts := r.ts }
  | _, _ => log

/-- A decision's entry, under one key or the other. -/
def decisionEntry (key : EventKey) (revisions : List MemoryRevision) (e : InjectionEvent)
    (o : Outcome) : CreationOutcome :=
  { eventKey := key
    memoryId := e.memoryId
    principalId := e.principalId
    machineId := e.machineId
    source := (creationSource revisions e.memoryId).getD .unknown
    outcome := decisionKind o
    reason := o.text
    ts := e.ts }

/-- `capture_creation_injection`, as migrations 0022 and then 0023 have it: at first once an
event, then once each of its outcomes, but for those an entry of the first kind tells of. -/
def captureInjection (reviewed : Bool) (revisions : List MemoryRevision) (log : CreationLog)
    (e : InjectionEvent) : CreationLog :=
  match e.outcome with
  | some o =>
    if ¬Decisive o then log
    else if reviewed then
      if ∃ row ∈ log.rows, row.eventKey = .injection e.eventUid ∧ row.reason = o.text then log
      else log.insertNew (decisionEntry (.decision e.eventUid o) revisions e o)
    else log.insertNew (decisionEntry (.injection e.eventUid) revisions e o)
  | none => log

/-- `ORDER BY ts, event_uid`. -/
def happened (e : InjectionEvent) : Time ×ₗ Ulid := toLex (e.ts, e.eventUid)

end Capture

/-- The rows the stream is captured from, the stream, and whether the reviewed gate's migration
has run. -/
structure CreationStream where
  units : Table Uuid MemoryUnit (·.id)
  revisions : Table Ulid MemoryRevision (·.revUid)
  events : Table Nat InjectionEvent (·.id)
  outcomes : CreationLog
  reviewed : Bool

namespace CreationStream

variable (c : CreationStream)

/-- What the tables' own constraints promise: revisions are of heads, events have their uids
to themselves. -/
structure Constrained : Prop where
  owned : ∀ r ∈ c.revisions.rows, (c.units.get? r.memoryId).isSome
  uids : (c.events.rows.map (·.eventUid)).Nodup

def capturedRevisions (units : Table Uuid MemoryUnit (·.id))
    (revisions : List MemoryRevision) : CreationLog :=
  (listing written revisions).foldl (captureRevision units revisions) .empty

/-- Migration 0022 on the rows it finds. -/
def installed (units : Table Uuid MemoryUnit (·.id))
    (revisions : Table Ulid MemoryRevision (·.revUid))
    (events : Table Nat InjectionEvent (·.id)) : CreationStream where
  units := units
  revisions := revisions
  events := events
  outcomes := (listing happened events.rows).foldl (captureInjection false revisions.rows)
    (capturedRevisions units revisions.rows)
  reviewed := false

/-- Heads a sweep looks at: active, and in no gate so far. -/
def Unused (principalId : String) (unit : MemoryUnit) : Prop :=
  unit.principalId = principalId ∧ unit.status = .active ∧
    ∀ e ∈ c.events.rows, e.memoryId = unit.id → ¬e.shownAs.Entered

instance (principalId : String) : DecidablePred (c.Unused principalId) :=
  fun _ => inferInstanceAs (Decidable (_ ∧ _ ∧ _))

/-- `sweep_unused`, for one head. -/
def sweepUnit (now : Time) (log : CreationLog) (unit : MemoryUnit) : CreationLog :=
  match c.revisions.rows.find? fun r => r.memoryId = unit.id ∧ r.revision = 1 with
  | some r => log.insertNew
      { eventKey := .zero unit.id
        memoryId := unit.id
        principalId := unit.principalId
        machineId := r.originMachineId
        source := (creationSource c.revisions.rows unit.id).getD .unknown
        outcome := .zeroInjection
        reason := "no injection at sweep"
        ts := now }
  | none => log

end CreationStream

/-- One row write, one sweep, or migration 0023. -/
inductive CreationAction
  | insertUnit (unit : MemoryUnit)
  | updateUnit (unit : MemoryUnit)
  | insertRevision (r : MemoryRevision)
  | insertEvent (e : InjectionEvent)
  | updateOutcome (id : Nat) (outcome : Outcome) (now : Time)
  | sweepUnused (principalId : String) (now : Time)
  | review

namespace CreationStream

theorem id_decided (outcome : Outcome) (e : InjectionEvent) :
    { e with outcome := some outcome }.id = e.id := rfl

def step (c : CreationStream) : CreationAction → Except SpineError CreationStream
  | .insertUnit unit => do
    let units ← require (c.units.insert? unit) (.integrity "memory_unit_pkey")
    return { c with units }
  | .updateUnit unit => do
    let old ← require (c.units.get? unit.id) (.memoryNotFound unit.id)
    -- no statement writes a head's principal
    ensure (unit.principalId = old.principalId) (.contract "principal_id")
    return { c with
      units := c.units.modify unit.id (fun old => { unit with id := old.id }) fun _ => rfl }
  | .insertRevision r => do
    ensure (c.units.get? r.memoryId).isSome (.integrity "memory_revision_memory_id_fkey")
    let revisions ← require (c.revisions.insert? r) (.integrity "memory_revision_pkey")
    return { c with
      revisions
      outcomes := captureRevision c.units revisions.rows c.outcomes r }
  | .insertEvent e => do
    ensure (∀ other ∈ c.events.rows, other.eventUid ≠ e.eventUid)
      (.integrity "injection_event_event_uid_key")
    let events ← require (c.events.insert? e) (.integrity "injection_event_pkey")
    return { c with
      events
      outcomes := captureInjection c.reviewed c.revisions.rows c.outcomes e }
  | .updateOutcome id outcome now => do
    let e ← require (c.events.get? id) .injectionNotFound
    let events :=
      c.events.modify id (fun e => { e with outcome := some outcome }) (id_decided outcome)
    -- only migration 0023 captures updates, and these under the clock
    return { c with
      events
      outcomes :=
        if c.reviewed then
          captureInjection true c.revisions.rows c.outcomes
            { e with outcome := some outcome, ts := now }
        else c.outcomes }
  | .sweepUnused principalId now =>
    .ok { c with
      outcomes := (c.units.rows.filter fun unit => c.Unused principalId unit).foldl
        (c.sweepUnit now) c.outcomes }
  | .review => do
    ensure (c.reviewed = false) .noSuchOperation
    return { c with
      outcomes := (listing happened c.events.rows).foldl
        (captureInjection true c.revisions.rows) c.outcomes
      reviewed := true }

end CreationStream

/-- The creation stream from the day its triggers were installed on. -/
def creations : Machine CreationStream CreationAction SpineError where
  start c := ∃ units revisions events,
    c = .installed units revisions events ∧ c.Constrained
  step := CreationStream.step

section Snapshot

/-- What the console shows of the memories one source made. -/
structure CreationReport where
  source : CreationSource
  created : Nat
  surviving : Nat
  used : Nat
  zeroInjectionObserved : Nat
  survivalRate : Option ℚ
  outcomes : List (CreationKind × Nat)
  deriving DecidableEq

structure CreationSnapshot where
  sources : List CreationReport
  events : List CreationOutcome
  hygieneExcludedEvents : Nat
  deriving DecidableEq

variable (lower : String → String) (c : CreationStream)
  (annotations : List InjectionEventAnnotation) (principal : Option String)

/-- Memories a verification annotation names through one of their events. -/
def annotatedMemories : List Uuid :=
  (c.events.rows.filter fun e => VerificationOnly annotations e.eventUid ∧
    ∀ principalId ∈ principal, e.principalId = principalId).map (·.memoryId)

/-- `ORDER BY ts, event_key`: the key's kind, its uid, and what it has after that. -/
def recorded (row : CreationOutcome) : Time ×ₗ Nat ×ₗ Nat ×ₗ String :=
  toLex (row.ts,
    match row.eventKey with
    | .injection eventUid => toLex (0, toLex (eventUid, ""))
    | .decision eventUid outcome => toLex (0, toLex (eventUid, outcome.text))
    | .revision revUid => toLex (1, toLex (revUid, ""))
    | .zero memoryId => toLex (2, toLex (memoryId, "")))

/-- The stream of a principal, or of all of them, in order. -/
def creationRows : List CreationOutcome :=
  listing recorded
    (c.outcomes.rows.filter fun row => ∀ principalId ∈ principal, row.principalId = principalId)

def creationExcluded (rows : List CreationOutcome) : List Uuid :=
  annotatedMemories c annotations principal ++
    (rows.filter fun row =>
      IdentityIsExcluded lower row.principalId row.machineId).map (·.memoryId)

/-- The memories a source's entries of a kind name, each once. -/
def creationGroup (events : List CreationOutcome) (source : CreationSource)
    (kind : CreationKind) : List Uuid :=
  ((events.filter fun row => row.source = source ∧ row.outcome = kind).map (·.memoryId)).dedup

def allSources : List CreationSource :=
  [.agentSave, .compaction, .curator, .extraction, .remember, .seed, .unknown]

def allKinds : List CreationKind :=
  [.admitted, .created, .curatorRetired, .deleted, .never, .rejected, .used, .zeroInjection]

def creationReport (events : List CreationOutcome) (source : CreationSource) : CreationReport :=
  let group := creationGroup events source
  let created := group .created
  let adverse := group .deleted ++ group .rejected ++ group .never ++ group .curatorRetired
  let surviving := created.filter (· ∉ adverse)
  { source
    created := created.length
    surviving := surviving.length
    used := (created.filter (· ∈ group .used)).length
    zeroInjectionObserved := (group .zeroInjection).length
    survivalRate :=
      if created = [] then none else some ((surviving.length : ℚ) / created.length)
    -- every kind but `admitted` is looked up, and so is there with no memory too
    outcomes := (allKinds.filter fun kind => kind ≠ .admitted ∨ group kind ≠ []).map fun kind =>
      (kind, (group kind).length) }

/-- `creation_snapshot`. -/
def creationSnapshot : CreationSnapshot :=
  let rows := creationRows c principal
  let excluded := creationExcluded lower c annotations principal rows
  let events := rows.filter fun row => row.memoryId ∉ excluded
  { sources := (allSources.filter fun source => ∃ row ∈ events, row.source = source).map
      (creationReport events)
    events
    hygieneExcludedEvents := rows.length - events.length }

end Snapshot

end Nocturne.Learner
