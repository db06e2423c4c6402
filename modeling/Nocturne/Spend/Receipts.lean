import Nocturne.Lib.Json
import Nocturne.Lib.Machine
import Nocturne.Lib.Refusal
import Nocturne.Lib.Table
import Nocturne.Store.Schema

namespace Nocturne.Spend

open Nocturne.Lib

inductive SpendProductType
  | llmRequest | llmEmbedding
  deriving DecidableEq, Repr

inductive SpendBasis
  | measured | allocated | estimated
  deriving DecidableEq, Repr

inductive SpendBehavior
  | variable | fixed | step
  deriving DecidableEq, Repr

inductive SpendPurpose
  | building | extraction | curation | judge | remember | embedding | scout
  deriving DecidableEq, Repr

/-- The columns of a receipt line other than its `meta`. -/
structure ReceiptColumns where
  eventUid : Ulid
  ts : Time
  productType : SpendProductType
  quantityType : String
  unitOfMeasure : String
  quantity : ℚ
  costUsd : Option ℚ
  basis : SpendBasis
  behavior : SpendBehavior
  purpose : SpendPurpose
  principalId : Option String
  machineId : Option String
  originAgent : Option String
  threadId : Option Uuid
  runId : Option Ulid
  promptId : Option Ulid
  memoryId : Option Uuid
  model : Option String
  provider : Option String
  quantization : Option String
  ref : String
  deriving DecidableEq

/-- One receipt line, as it is sent and as it is stored. -/
structure SpendEventInput extends ReceiptColumns where
  «meta» : JsonValue
  deriving DecidableEq

/-- `_row_values(row) == event_values(event)` -/
def SpendEventInput.SameValues (row event : SpendEventInput) : Prop :=
  row.toReceiptColumns = event.toReceiptColumns ∧ row.meta.PyEq event.meta

instance : DecidableRel SpendEventInput.SameValues := fun _ _ => inferInstanceAs (Decidable (_ ∧ _))

inductive ReceiptError
  /-- spend receipt batch must not be empty -/
  | emptyBatch
  /-- spend receipt batch must have unique event_uid values -/
  | repeatedUid
  /-- spend event … was not persisted -/
  | notPersisted (eventUid : Ulid)
  /-- spend event … conflicts with its append-only receipt -/
  | conflict (eventUid : Ulid)
  deriving DecidableEq

inductive ReceiptOutcome
  | accepted (count : Nat)
  | refused (error : ReceiptError)
  /-- The transaction ended without its commit. -/
  | lost
  deriving DecidableEq

/-- How far an append has come; the rows it inserted are its own until it commits. -/
inductive ReceiptPhase
  | inserting (rest inserted : List SpendEventInput)
  | checked (inserted : List SpendEventInput)
  | over (outcome : ReceiptOutcome)
  deriving DecidableEq

def ReceiptPhase.inserted : ReceiptPhase → List SpendEventInput
  | .inserting _ inserted | .checked inserted => inserted
  | .over _ => []

def ReceiptPhase.Ended : ReceiptPhase → Prop
  | .over _ => True
  | .inserting .. | .checked _ => False

instance : DecidablePred ReceiptPhase.Ended
  | .over _ => isTrue trivial
  | .inserting .. | .checked _ => isFalse id

structure ReceiptCall where
  events : List SpendEventInput
  phase : ReceiptPhase
  deriving DecidableEq

structure Receipts where
  rows : Table Ulid SpendEventInput (·.eventUid)
  calls : List ReceiptCall

inductive StepError
  | noSuchCall
  /-- Another transaction holds the row or the lock. -/
  | blocked
  | integrity
  deriving DecidableEq

variable (s : Receipts)

def receiptCallAt (k : Nat) : Except StepError ReceiptCall := require s.calls[k]? .noSuchCall

def Receipts.become (k : Nat) (call : ReceiptCall) : Receipts :=
  { s with calls := s.calls.set k call }

/-- What the batch meets before any transaction begins. -/
def startReceipts (events : List SpendEventInput) : ReceiptPhase :=
  if events = [] then .over (.refused .emptyBatch)
  else if ¬(events.map (·.eventUid)).Nodup then .over (.refused .repeatedUid)
  else .inserting events []

/-- `on_conflict_do_nothing`: one row of the insert, which waits for a row that another
transaction has yet to commit. -/
def insertReceipt (k : Nat) (event : SpendEventInput) (inserted : List SpendEventInput) :
    Except StepError (List SpendEventInput) :=
  if ∃ row ∈ s.rows.rows ++ inserted, row.eventUid = event.eventUid then .ok inserted
  else if ∃ j < s.calls.length, j ≠ k ∧ ∃ call ∈ s.calls[j]?, ∃ row ∈ call.phase.inserted,
      row.eventUid = event.eventUid then .error .blocked
  else .ok (inserted ++ [event])

/-- One pass of the loop that compares the batch with its rows. -/
def checkReceipt (visible : List SpendEventInput) (event : SpendEventInput) :
    Except ReceiptError Unit := do
  let row ← require (visible.find? (·.eventUid = event.eventUid)) (.notPersisted event.eventUid)
  ensure (row.SameValues event) (.conflict event.eventUid)

def checkReceipts (visible : List SpendEventInput) : List SpendEventInput → Except ReceiptError Unit
  | [] => .ok ()
  | event :: events => do
    checkReceipt visible event
    checkReceipts visible events

inductive ReceiptAction
  | begin (events : List SpendEventInput)
  | insert (k : Nat)
  | check (k : Nat)
  | commit (k : Nat)
  /-- A transaction is rolled back. -/
  | abort (k : Nat)
  deriving DecidableEq

def receiptStep (s : Receipts) : ReceiptAction → Except StepError Receipts
  | .begin events => .ok { s with calls := s.calls ++ [⟨events, startReceipts events⟩] }
  | .insert k => do
    let call ← receiptCallAt s k
    match call.phase with
    | .inserting (event :: rest) inserted => do
      let inserted ← insertReceipt s k event inserted
      return s.become k { call with phase := .inserting rest inserted }
    | _ => .error .noSuchCall
  | .check k => do
    let call ← receiptCallAt s k
    match call.phase with
    | .inserting [] inserted =>
      match checkReceipts (s.rows.rows ++ inserted) call.events with
      | .error error => .ok (s.become k { call with phase := .over (.refused error) })
      | .ok () => .ok (s.become k { call with phase := .checked inserted })
    | _ => .error .noSuchCall
  | .commit k => do
    let call ← receiptCallAt s k
    match call.phase with
    | .checked inserted => do
      let rows ← require (s.rows.insertAll? inserted) .integrity
      return { s.become k { call with phase := .over (.accepted call.events.length) } with rows }
    | _ => .error .noSuchCall
  | .abort k => do
    let call ← receiptCallAt s k
    ensure (¬call.phase.Ended) .noSuchCall
    return s.become k { call with phase := .over .lost }

def receipts : Machine Receipts ReceiptAction StepError where
  start s := s.rows = .empty ∧ s.calls = []
  step := receiptStep

end Nocturne.Spend
