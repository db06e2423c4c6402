import Mathlib.Data.Prod.Lex
import Nocturne.Lib.Machine
import Nocturne.Lib.Refusal
import Nocturne.Lib.Table
import Nocturne.Store.Schema

namespace Nocturne.Transcripts

open Nocturne.Lib

structure TranscriptRecordInput where
  threadId : Uuid
  sequence : Nat
  sequence_pos : 0 < sequence
  journalLine : String
  sha256 : String
  deriving DecidableEq

/-- The order of one batch: by thread, then by sequence. -/
def TranscriptRecordInput.place (record : TranscriptRecordInput) : Uuid ×ₗ Nat :=
  toLex (record.threadId, record.sequence)

/-- A batch the wire contract lets through. -/
structure AppendTranscriptsRequest where
  principalId : String
  records : List TranscriptRecordInput
  minLength : 1 ≤ records.length
  maxLength : records.length ≤ 100
  uniqueOrdered : (records.map (·.place)).Pairwise (· < ·)
  deriving DecidableEq

/-- One immutable, exact line from an owner's local conversation journal. -/
structure TranscriptRecord where
  principalId : String
  threadId : Uuid
  sequence : Nat
  journalLine : String
  sha256 : String
  receivedAt : Time
  deriving DecidableEq

/-- The primary key. -/
def TranscriptRecord.key (row : TranscriptRecord) : String × Uuid × Nat :=
  (row.principalId, row.threadId, row.sequence)

/-- The proposed append disagrees with the immutable prefix. -/
structure TranscriptConflict where
  reason : String
  deriving DecidableEq

structure TranscriptStatus where
  principalId : String
  threadCount : Nat
  recordCount : Nat
  latestReceivedAt : Option Time
  deriving DecidableEq

structure TranscriptAppendResult where
  accepted : Nat
  replayed : Nat
  status : TranscriptStatus
  deriving DecidableEq

/-- The work of an append that holds its lock. -/
structure AppendWork where
  /-- The records still to come. -/
  rest : List TranscriptRecordInput
  /-- The rows added so far, which the transaction alone sees. -/
  added : List TranscriptRecord
  accepted : Nat
  replayed : Nat
  deriving DecidableEq

inductive AppendOutcome
  | accepted (result : TranscriptAppendResult)
  | refused (conflict : TranscriptConflict)
  /-- The transaction ended without its commit. -/
  | lost
  deriving DecidableEq

inductive AppendPhase
  | waiting
  | locked (work : AppendWork)
  | over (outcome : AppendOutcome)
  deriving DecidableEq

structure Append where
  body : AppendTranscriptsRequest
  /-- `now()`: the start of the transaction. -/
  ts : Time
  phase : AppendPhase
  deriving DecidableEq

structure Journal where
  rows : Table (String × Uuid × Nat) TranscriptRecord (·.key)
  appends : List Append
  clock : Time

inductive JournalError
  | noSuchAppend
  /-- The advisory lock is held. -/
  | locked
  | integrity

section Append

variable (visible : List TranscriptRecord)

def threadRows (principalId : String) (threadId : Uuid) : List TranscriptRecord :=
  visible.filter fun row => row.principalId = principalId ∧ row.threadId = threadId

/-- `max(sequence)` of a thread. -/
def latest (principalId : String) (threadId : Uuid) : Option Nat :=
  ((threadRows visible principalId threadId).map (·.sequence)).max?

/-- One pass of the loop of `append`: the row it adds, none for a replay. -/
def appendRecord (principalId : String) (ts : Time) (record : TranscriptRecordInput) :
    Except TranscriptConflict (Option TranscriptRecord) :=
  match visible.find? (·.key = (principalId, record.threadId, record.sequence)) with
  | some existing =>
    if existing.journalLine ≠ record.journalLine ∨ existing.sha256 ≠ record.sha256 then
      .error ⟨"changed_replay"⟩
    else .ok none
  | none =>
    if record.sequence ≠ (latest visible principalId record.threadId).getD 0 + 1 then
      .error ⟨"non_contiguous_sequence"⟩
    else
      .ok (some
        { principalId
          threadId := record.threadId
          sequence := record.sequence
          journalLine := record.journalLine
          sha256 := record.sha256
          receivedAt := ts })

/-- `_status` -/
def status (principalId : String) : TranscriptStatus :=
  let rows := visible.filter (·.principalId = principalId)
  { principalId
    recordCount := rows.length
    threadCount := (rows.map (·.threadId)).dedup.length
    latestReceivedAt := (rows.map (·.receivedAt)).max? }

end Append

def AppendWork.advance (work : AppendWork) (rest : List TranscriptRecordInput) :
    Option TranscriptRecord → AppendWork
  | none => { work with rest, replayed := work.replayed + 1 }
  | some row => { work with rest, added := work.added ++ [row], accepted := work.accepted + 1 }

def AppendPhase.work? : AppendPhase → Option AppendWork
  | .locked work => some work
  | .waiting | .over _ => none

def AppendPhase.outcome? : AppendPhase → Option AppendOutcome
  | .over outcome => some outcome
  | .waiting | .locked _ => none

variable (s : Journal)

def appendAt (k : Nat) : Except JournalError Append := require s.appends[k]? .noSuchAppend

def Journal.become (k : Nat) (append : Append) : Journal :=
  { s with appends := s.appends.set k append }

/-- A transaction sees what is committed and what it added itself. -/
def Journal.visible (work : AppendWork) : List TranscriptRecord := s.rows.rows ++ work.added

inductive Action
  /-- Time passes. -/
  | tick (elapsed : Time)
  | begin (body : AppendTranscriptsRequest)
  | lock (k : Nat)
  | record (k : Nat)
  | commit (k : Nat)
  /-- A transaction is rolled back. -/
  | abort (k : Nat)
  deriving DecidableEq

-- The advisory lock key of a principal: eight bytes of its hash.
variable (lockKey : String → Int)

/-- No transaction holds the lock of this principal. -/
def Journal.Unlocked (principalId : String) : Prop :=
  ∀ other ∈ s.appends, other.phase.work?.isSome →
    lockKey other.body.principalId ≠ lockKey principalId

instance (principalId : String) : Decidable (s.Unlocked lockKey principalId) :=
  inferInstanceAs (Decidable (∀ other ∈ s.appends, _))

def step (s : Journal) : Action → Except JournalError Journal
  | .tick elapsed => .ok { s with clock := s.clock + elapsed }
  | .begin body => .ok { s with appends := s.appends ++ [⟨body, s.clock, .waiting⟩] }
  | .lock k => do
    let append ← appendAt s k
    ensure (append.phase = .waiting) .noSuchAppend
    ensure (s.Unlocked lockKey append.body.principalId) .locked
    return s.become k { append with phase := .locked ⟨append.body.records, [], 0, 0⟩ }
  | .record k => do
    let append ← appendAt s k
    let work ← require append.phase.work? .noSuchAppend
    match work.rest with
    | [] => .error .noSuchAppend
    | record :: rest =>
      match appendRecord (s.visible work) append.body.principalId append.ts record with
      | .error conflict => .ok (s.become k { append with phase := .over (.refused conflict) })
      | .ok added => .ok (s.become k { append with phase := .locked (work.advance rest added) })
  | .commit k => do
    let append ← appendAt s k
    let work ← require append.phase.work? .noSuchAppend
    ensure (work.rest = []) .noSuchAppend
    let rows ← require (s.rows.insertAll? work.added) .integrity
    let result := ⟨work.accepted, work.replayed, status (s.visible work) append.body.principalId⟩
    return { s.become k { append with phase := .over (.accepted result) } with rows }
  | .abort k => do
    let append ← appendAt s k
    ensure (append.phase.outcome? = none) .noSuchAppend
    return s.become k { append with phase := .over .lost }

def journal : Machine Journal Action JournalError where
  start s := s.rows = .empty ∧ s.appends = []
  step := step lockKey

end Nocturne.Transcripts
