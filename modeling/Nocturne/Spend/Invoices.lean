import Mathlib.Algebra.Order.Ring.Rat
import Nocturne.Lib.Machine
import Nocturne.Spend.Receipts
import Nocturne.Vitals.Service

namespace Nocturne.Spend

open Nocturne.Lib Nocturne.Vitals

section Contracts

/-- Within `max_digits` and `decimal_places`. -/
def FitsDigits (digits places : ℕ) (q : ℚ) : Prop :=
  (q * 10 ^ places).den = 1 ∧ q < 10 ^ (digits - places)

instance (digits places : ℕ) (q : ℚ) : Decidable (FitsDigits digits places q) :=
  inferInstanceAs (Decidable (_ ∧ _))

/-- The bounds of a cost in dollars. -/
def FitsUsd (cost : ℚ) : Prop := 0 ≤ cost ∧ FitsDigits 20 12 cost

instance : DecidablePred FitsUsd := fun _ => inferInstanceAs (Decidable (_ ∧ _))

/-- What the contract of `SpendEventInput` lets through. -/
def SpendEventInput.Conforms (event : SpendEventInput) : Prop :=
  NonBlank event.quantityType ∧ NonBlank event.unitOfMeasure ∧
    0 < event.quantity ∧ FitsDigits 30 9 event.quantity ∧
    (∀ cost ∈ event.costUsd, FitsUsd cost) ∧
    (∀ value ∈ event.principalId, NonBlank value) ∧
    (∀ value ∈ event.machineId, NonBlank value) ∧
    (∀ value ∈ event.originAgent, NonBlank value) ∧
    (∀ value ∈ event.model, NonBlank value) ∧
    (∀ value ∈ event.provider, NonBlank value) ∧
    (∀ value ∈ event.quantization, NonBlank value) ∧ NonBlank event.ref

instance : DecidablePred SpendEventInput.Conforms := fun _ => inferInstanceAs (Decidable (_ ∧ _))

/-- The manually entered monthly cloud invoice; its date is a number of days. -/
structure InfrastructureInvoice where
  amountUsd : ℚ
  invoiceDate : Nat
  invoiceId : String
  deriving DecidableEq

def InfrastructureInvoice.Conforms (invoice : InfrastructureInvoice) : Prop :=
  0 < invoice.amountUsd ∧ FitsDigits 20 12 invoice.amountUsd ∧ NonBlank invoice.invoiceId

instance : DecidablePred InfrastructureInvoice.Conforms :=
  fun _ => inferInstanceAs (Decidable (_ ∧ _))

/-- `gcp-invoice:…` -/
def InfrastructureInvoice.ref (invoice : InfrastructureInvoice) : String :=
  "gcp-invoice:" ++ invoice.invoiceId

end Contracts

section Rows

/-- The columns of an invoice's line that its invoice decides; the others are the same for all. -/
structure InvoiceReceipt where
  eventUid : Ulid
  ts : Time
  costUsd : ℚ
  principalId : String
  ref : String
  /-- `meta.invoice_id` -/
  invoiceId : String
  deriving DecidableEq

def microsecondsPerDay : Nat := 86400000000

/-- The receipt of `invoice`. -/
def invoiceReceipt (eventUid : Ulid) (principalId : String) (invoice : InfrastructureInvoice) :
    InvoiceReceipt where
  eventUid
  ts := invoice.invoiceDate * microsecondsPerDay
  costUsd := invoice.amountUsd
  principalId
  ref := invoice.ref
  invoiceId := invoice.invoiceId

inductive ProductType
  | llmRequest | llmEmbedding | infraRunServe
  deriving DecidableEq, Repr

/-- A row of `spend_event`. -/
inductive LedgerRow
  | line (event : SpendEventInput)
  | invoice (receipt : InvoiceReceipt)
  deriving DecidableEq

namespace LedgerRow

def eventUid : LedgerRow → Ulid
  | .line event => event.eventUid
  | .invoice receipt => receipt.eventUid

def ts : LedgerRow → Time
  | .line event => event.ts
  | .invoice receipt => receipt.ts

def productType : LedgerRow → ProductType
  | .line event =>
    match event.productType with
    | .llmRequest => .llmRequest
    | .llmEmbedding => .llmEmbedding
  | .invoice _ => .infraRunServe

def quantityType : LedgerRow → String
  | .line event => event.quantityType
  | .invoice _ => "invoice"

def unitOfMeasure : LedgerRow → String
  | .line event => event.unitOfMeasure
  | .invoice _ => "invoice"

def quantity : LedgerRow → ℚ
  | .line event => event.quantity
  | .invoice _ => 1

def costUsd : LedgerRow → Option ℚ
  | .line event => event.costUsd
  | .invoice receipt => some receipt.costUsd

def basis : LedgerRow → SpendBasis
  | .line event => event.basis
  | .invoice _ => .measured

def purpose : LedgerRow → SpendPurpose
  | .line event => event.purpose
  | .invoice _ => .building

def principalId : LedgerRow → Option String
  | .line event => event.principalId
  | .invoice receipt => some receipt.principalId

def originAgent : LedgerRow → Option String
  | .line event => event.originAgent
  | .invoice _ => none

def threadId : LedgerRow → Option Uuid
  | .line event => event.threadId
  | .invoice _ => none

def promptId : LedgerRow → Option Ulid
  | .line event => event.promptId
  | .invoice _ => none

def model : LedgerRow → Option String
  | .line event => event.model
  | .invoice _ => none

def provider : LedgerRow → Option String
  | .line event => event.provider
  | .invoice _ => some "gcp"

def ref : LedgerRow → String
  | .line event => event.ref
  | .invoice receipt => receipt.ref

def invoice? : LedgerRow → Option InvoiceReceipt
  | .line _ => none
  | .invoice receipt => some receipt

end LedgerRow

end Rows

inductive InvoiceError
  /-- Request does not match the endpoint contract -/
  | unprocessable
  /-- Only the Palace owner can record infrastructure invoices. -/
  | notOwner
  /-- The receipt does not match its contract. -/
  | receipt
  /-- spend event … conflicts with its append-only receipt -/
  | conflict (eventUid : Ulid)
  | integrity
  deriving DecidableEq

inductive InvoiceOutcome
  | accepted (count : Nat)
  | refused (error : InvoiceError)
  /-- The transaction ended without its commit. -/
  | lost
  deriving DecidableEq

/-- How far the recording of an invoice has come. -/
inductive InvoicePhase
  | waiting
  | locked
  /-- The line is on the ledger already. -/
  | found
  /-- The line is the transaction's own until it commits. -/
  | adding (receipt : InvoiceReceipt)
  | over (outcome : InvoiceOutcome)
  deriving DecidableEq

def InvoicePhase.Ended : InvoicePhase → Prop
  | .over _ => True
  | .waiting | .locked | .found | .adding _ => False

instance : DecidablePred InvoicePhase.Ended
  | .over _ => isTrue trivial
  | .waiting | .locked | .found | .adding _ => isFalse id

/-- `pg_advisory_xact_lock` holds until the transaction ends. -/
def InvoicePhase.HoldsLock : InvoicePhase → Prop
  | .locked | .found | .adding _ => True
  | .waiting | .over _ => False

instance : DecidablePred InvoicePhase.HoldsLock
  | .locked | .found | .adding _ => isTrue trivial
  | .waiting | .over _ => isFalse id

structure InvoiceCall where
  principalId : String
  invoice : InfrastructureInvoice
  phase : InvoicePhase
  deriving DecidableEq

/-- What the advisory lock is taken on, before it is hashed. -/
def InvoiceCall.identity (call : InvoiceCall) : String :=
  call.principalId ++ ":" ++ call.invoice.ref

structure SpendLedger where
  rows : Table Ulid LedgerRow (·.eventUid)
  calls : List InvoiceCall

section Step

/-- `owner_principal_id`, and the hash the lock's key is made with. -/
structure SpendSettings where
  ownerPrincipalId : String
  hashtextextended : String → Int

variable (w : SpendSettings) (s : SpendLedger)

def invoiceCallAt (k : Nat) : Except StepError InvoiceCall := require s.calls[k]? .noSuchCall

def SpendLedger.become (k : Nat) (call : InvoiceCall) : SpendLedger :=
  { s with calls := s.calls.set k call }

/-- What a request meets before any transaction begins. -/
def startInvoice (principalId : String) (invoice : InfrastructureInvoice) : InvoicePhase :=
  if ¬(principalId ≠ "" ∧ invoice.Conforms) then .over (.refused .unprocessable)
  else if principalId ≠ w.ownerPrincipalId then .over (.refused .notOwner)
  else .waiting

/-- The invoice's line, if it is on the ledger. -/
def existingInvoice (principalId ref : String) : Option InvoiceReceipt :=
  (s.rows.rows.filterMap LedgerRow.invoice?).find? fun row =>
    row.principalId = principalId ∧ row.ref = ref

/-- What `invoice` does once it holds the lock, up to its commit. -/
def readInvoice (call : InvoiceCall) (minted : Ulid) : InvoicePhase :=
  let existing := existingInvoice s call.principalId call.invoice.ref
  let receipt := invoiceReceipt ((existing.map (·.eventUid)).getD minted) call.principalId
    call.invoice
  if ¬NonBlank call.principalId then .over (.refused .receipt)
  else
    match existing with
    | some row => if row ≠ receipt then .over (.refused (.conflict row.eventUid)) else .found
    | none => .adding receipt

inductive LedgerAction
  /-- A batch of receipt lines is appended. -/
  | append (events : List SpendEventInput)
  | begin (principalId : String) (invoice : InfrastructureInvoice)
  | lock (k : Nat)
  | read (k : Nat) (minted : Ulid)
  | commit (k : Nat)
  /-- A transaction is rolled back. -/
  | abort (k : Nat)
  deriving DecidableEq

def ledgerStep (s : SpendLedger) : LedgerAction → Except StepError SpendLedger
  | .append events => do
    ensure (∀ event ∈ events, event.Conforms) .integrity
    let rows ← require (s.rows.insertAll? (events.map .line)) .integrity
    return { s with rows }
  | .begin principalId invoice =>
    let call : InvoiceCall := ⟨principalId, invoice, startInvoice w principalId invoice⟩
    .ok { s with calls := s.calls ++ [call] }
  | .lock k => do
    let call ← invoiceCallAt s k
    ensure (call.phase = .waiting) .noSuchCall
    ensure (∀ other ∈ s.calls, other.phase.HoldsLock →
      w.hashtextextended other.identity ≠ w.hashtextextended call.identity) .blocked
    return s.become k { call with phase := .locked }
  | .read k minted => do
    let call ← invoiceCallAt s k
    ensure (call.phase = .locked) .noSuchCall
    return s.become k { call with phase := readInvoice s call minted }
  | .commit k => do
    let call ← invoiceCallAt s k
    match call.phase with
    | .found => return s.become k { call with phase := .over (.accepted 1) }
    | .adding receipt =>
      match s.rows.insert? (.invoice receipt) with
      | some rows => return { s.become k { call with phase := .over (.accepted 1) } with rows }
      | none => return s.become k { call with phase := .over (.refused .integrity) }
    | _ => .error .noSuchCall
  | .abort k => do
    let call ← invoiceCallAt s k
    ensure (¬call.phase.Ended) .noSuchCall
    return s.become k { call with phase := .over .lost }

def spendLedger : Machine SpendLedger LedgerAction StepError where
  start s := s.rows = .empty ∧ s.calls = []
  step := ledgerStep w

end Step

end Nocturne.Spend
