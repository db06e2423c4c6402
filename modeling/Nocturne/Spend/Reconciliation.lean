import Mathlib.Data.List.Sort
import Mathlib.Data.Rat.Floor
import Nocturne.Lib.Machine
import Nocturne.Lib.Quantize
import Nocturne.Lib.Refusal
import Nocturne.Store.Schema

namespace Nocturne.Spend

open Nocturne.Lib

/-- One line of the spend ledger; a line that is not yet priced has no cost. -/
structure SpendEvent where
  productType : String
  costUsd : Option ℚ
  deriving DecidableEq

inductive ReconciliationStatus
  | baseline | balanced | drift
  deriving DecidableEq, Repr

inductive ErrorCode
  | brokerUnavailable | invalidBrokerResponse
  deriving DecidableEq, Repr

structure Amounts where
  brokerUsageUsd : ℚ
  ledgerCostUsd : ℚ
  brokerSinceBaselineUsd : ℚ
  ledgerSinceBaselineUsd : ℚ
  driftUsd : ℚ
  deriving DecidableEq

/-- The shapes a row may have: every amount, or an error code. -/
inductive Comparison
  | measured (status : ReconciliationStatus) (amounts : Amounts)
  | unavailable (errorCode : ErrorCode)
  deriving DecidableEq

/-- One immutable comparison of broker usage with the spend ledger. -/
structure SpendReconciliation where
  eventUid : Ulid
  ts : Time
  comparison : Comparison
  toleranceUsd : ℚ
  unpricedLines : Nat
  deriving DecidableEq

/-- What the broker's gateway returns or raises. -/
inductive BrokerAnswer
  | usage (value : ℚ)
  | notFinite
  | unavailable
  | invalid
  deriving DecidableEq

/-- How far a run has come since its transaction began. -/
inductive RunPhase
  | waiting
  | locked
  | observed (ledgerCost : ℚ) (unpriced : Nat)
  | over
  deriving DecidableEq

structure ReconciliationRun where
  /-- `now()`: the start of the transaction. -/
  ts : Time
  tolerance : ℚ
  phase : RunPhase
  deriving DecidableEq

structure Books where
  ledger : List SpendEvent
  rows : Table Ulid SpendReconciliation (·.eventUid)
  runs : List ReconciliationRun
  clock : Time

inductive ReconciliationError
  | tolerance
  | noSuchRun
  /-- The advisory lock is held. -/
  | locked
  | invalidOperation
  | numericOverflow
  | integrity
  deriving DecidableEq

/-- `_usd`: twelve decimal places, within the twenty-eight digits of a `Decimal`. -/
def usd (value : ℚ) : Option ℚ :=
  if |quantize 12 value| * 10 ^ 12 < 10 ^ 28 then some (quantize 12 value) else none

/-- `_ledger_totals`: what the priced model lines cost, and how many lines have no price. -/
def ledgerTotals (ledger : List SpendEvent) : Option (ℚ × Nat) :=
  let lines := ledger.filter fun event => event.productType ∈ ["llm.request", "llm.embedding"]
  (usd (lines.filterMap (·.costUsd)).sum).map fun cost =>
    (cost, (lines.filter fun event => event.costUsd = none).length)

namespace SpendReconciliation

def amounts? (row : SpendReconciliation) : Option Amounts :=
  match row.comparison with
  | .measured _ amounts => some amounts
  | .unavailable _ => none

def status? (row : SpendReconciliation) : Option ReconciliationStatus :=
  match row.comparison with
  | .measured status _ => some status
  | .unavailable _ => none

/-- The order of `ts, event_uid`. -/
def Before (row row' : SpendReconciliation) : Prop :=
  row.ts < row'.ts ∨ row.ts = row'.ts ∧ row.eventUid ≤ row'.eventUid

instance : DecidableRel Before := fun _ _ => inferInstanceAs (Decidable (_ ∨ _ ∧ _))

end SpendReconciliation

variable (b : Books)

/-- The row a run takes for its baseline: the earliest that is not `unavailable`. -/
def chosenBaseline : Option Amounts :=
  ((b.rows.rows.filter fun row => row.amounts?.isSome).insertionSort
    SpendReconciliation.Before).head?.bind (·.amounts?)

/-- `_row`: every amount once more to twelve places. -/
def measuredRow (status : ReconciliationStatus) (amounts : Amounts) : Option Comparison := do
  let brokerUsageUsd ← usd amounts.brokerUsageUsd
  let ledgerCostUsd ← usd amounts.ledgerCostUsd
  let brokerSinceBaselineUsd ← usd amounts.brokerSinceBaselineUsd
  let ledgerSinceBaselineUsd ← usd amounts.ledgerSinceBaselineUsd
  let driftUsd ← usd amounts.driftUsd
  return .measured status
    { brokerUsageUsd, ledgerCostUsd, brokerSinceBaselineUsd, ledgerSinceBaselineUsd, driftUsd }

/-- `_successful_row`; nothing where the broker's answer cannot be compared. -/
def successfulRow (brokerUsage ledgerCost tolerance : ℚ) : Option Comparison :=
  match chosenBaseline b with
  | none => measuredRow .baseline ⟨brokerUsage, ledgerCost, 0, 0, 0⟩
  | some baseline => do
    let brokerSince ← usd (brokerUsage - baseline.brokerUsageUsd)
    let ledgerSince ← usd (ledgerCost - baseline.ledgerCostUsd)
    if brokerSince < 0 ∨ ledgerSince < 0 then none
    else do
      let drift ← usd (ledgerSince - brokerSince)
      measuredRow (if tolerance < |drift| then .drift else .balanced)
        ⟨brokerUsage, ledgerCost, brokerSince, ledgerSince, drift⟩

def compare (answer : BrokerAnswer) (ledgerCost tolerance : ℚ) : Comparison :=
  match answer with
  | .unavailable => .unavailable .brokerUnavailable
  | .invalid | .notFinite => .unavailable .invalidBrokerResponse
  | .usage value =>
    if value < 0 then .unavailable .invalidBrokerResponse
    else ((usd value).bind fun brokerUsage => successfulRow b brokerUsage ledgerCost tolerance).getD
      (.unavailable .invalidBrokerResponse)

/-- The columns are `numeric(20, 12)`. -/
def Comparison.Fits : Comparison → Prop
  | .measured _ amounts => ∀ value ∈ [amounts.brokerUsageUsd, amounts.ledgerCostUsd,
      amounts.brokerSinceBaselineUsd, amounts.ledgerSinceBaselineUsd, amounts.driftUsd],
      |value| < 10 ^ 8
  | .unavailable _ => True

instance : (comparison : Comparison) → Decidable comparison.Fits
  | .measured _ _ => inferInstanceAs (Decidable (∀ value ∈ [_, _, _, _, _], _))
  | .unavailable _ => isTrue trivial

def RunPhase.HoldsLock : RunPhase → Prop
  | .locked | .observed .. => True
  | .waiting | .over => False

instance : DecidablePred RunPhase.HoldsLock
  | .locked | .observed .. => isTrue trivial
  | .waiting | .over => isFalse id

def runAt (k : Nat) : Except ReconciliationError ReconciliationRun :=
  require b.runs[k]? .noSuchRun

def Books.become (k : Nat) (run : ReconciliationRun) : Books := { b with runs := b.runs.set k run }

inductive Action
  /-- Time passes. -/
  | tick (elapsed : Time)
  | spend (event : SpendEvent)
  | begin (tolerance : ℚ)
  | lock (k : Nat)
  | observe (k : Nat)
  | record (k : Nat) (answer : BrokerAnswer) (eventUid : Ulid)
  /-- A run's transaction is rolled back. -/
  | abort (k : Nat)
  deriving DecidableEq

def step (b : Books) : Action → Except ReconciliationError Books
  | .tick elapsed => .ok { b with clock := b.clock + elapsed }
  | .spend event => .ok { b with ledger := b.ledger ++ [event] }
  | .begin tolerance => do
    ensure (0 < tolerance ∧ usd tolerance = some tolerance) .tolerance
    return { b with runs := b.runs ++ [⟨b.clock, tolerance, .waiting⟩] }
  | .lock k => do
    let run ← runAt b k
    ensure (run.phase = .waiting) .noSuchRun
    ensure (∀ other ∈ b.runs, ¬other.phase.HoldsLock) .locked
    return b.become k { run with phase := .locked }
  | .observe k => do
    let run ← runAt b k
    ensure (run.phase = .locked) .noSuchRun
    let (ledgerCost, unpriced) ← require (ledgerTotals b.ledger) .invalidOperation
    return b.become k { run with phase := .observed ledgerCost unpriced }
  | .record k answer eventUid => do
    let run ← runAt b k
    match run.phase with
    | .observed ledgerCost unpriced => do
      let comparison := compare b answer ledgerCost run.tolerance
      ensure comparison.Fits .numericOverflow
      let rows ← require
        (b.rows.insert? ⟨eventUid, run.ts, comparison, run.tolerance, unpriced⟩) .integrity
      return { b.become k { run with phase := .over } with rows }
    | _ => .error .noSuchRun
  | .abort k => do
    let run ← runAt b k
    return b.become k { run with phase := .over }

def reconciliation : Machine Books Action ReconciliationError where
  start b := b.rows = .empty ∧ b.runs = []
  step := step

end Nocturne.Spend
