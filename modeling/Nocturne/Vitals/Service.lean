import Mathlib.Data.Prod.Lex
import Mathlib.Data.String.Basic
import Mathlib.Order.WithBot
import Nocturne.Lib.Dict
import Nocturne.Memory.Text
import Nocturne.Spend.Receipts

namespace Nocturne.Vitals

open Nocturne.Lib Nocturne.Spend

inductive VitalsError
  /-- database returned an invalid … count -/
  | invalidCount (name : String)
  /-- v_spend_rate returned an invalid purpose -/
  | invalidPurpose
  /-- v_spend_rate returned an invalid model -/
  | invalidModel
  /-- v_spend_rate returned impossible receipt counts -/
  | impossibleCounts
  /-- v_spend_rate returned an invalid cost -/
  | invalidCost
  /-- The values do not make a snapshot. -/
  | contract
  deriving DecidableEq

/-- A `NUMERIC` as the driver reads it. -/
inductive Numeric
  | finite (value : ℚ)
  | special
  deriving DecidableEq

/-- What one minute, purpose, model and provider cost. -/
structure SpendRow where
  minute : Time
  purpose : String
  model : Option String
  provider : Option String
  receiptLines : ℤ
  costUsd : Option Numeric
  unpricedLines : ℤ
  deriving DecidableEq

section Totals

/-- `_PointTotal` -/
structure PointTotal where
  costUsd : ℚ := 0
  hasPricedLine : Bool := false
  receiptLines : ℤ := 0
  unpricedLines : ℤ := 0
  deriving DecidableEq

def PointTotal.add (total : PointTotal) (row : SpendRow) : Except VitalsError PointTotal := do
  ensure (0 ≤ row.receiptLines ∧ 0 ≤ row.unpricedLines ∧ row.unpricedLines ≤ row.receiptLines)
    .impossibleCounts
  match row.costUsd with
  | none =>
    return { total with
      receiptLines := total.receiptLines + row.receiptLines
      unpricedLines := total.unpricedLines + row.unpricedLines }
  | some .special => .error .invalidCost
  | some (.finite cost) => do
    ensure (0 ≤ cost) .invalidCost
    return {
      costUsd := total.costUsd + cost
      hasPricedLine := true
      receiptLines := total.receiptLines + row.receiptLines
      unpricedLines := total.unpricedLines + row.unpricedLines }

/-- `points.setdefault(minute, _PointTotal()).add(…)` -/
def addPoint (points : Dict Time PointTotal) (row : SpendRow) :
    Except VitalsError (Dict Time PointTotal) := do
  let total ← ((points.lookup row.minute).getD {}).add row
  return points.set row.minute total

/-- The same under a key, which gets its own points first. -/
def addLane (lanes : Dict String (Dict Time PointTotal)) (key : String) (row : SpendRow) :
    Except VitalsError (Dict String (Dict Time PointTotal)) := do
  let points ← addPoint ((lanes.lookup key).getD []) row
  return lanes.set key points

/-- `_model_lane_key` -/
def modelLaneKey : Option String → String
  | none => "unreported"
  | some model =>
    if model = "unreported" ∨ "~".toList <+: model.toList then "~" ++ model else model

/-- `_model_lane_label` -/
def modelLaneLabel (key : String) : String :=
  if key = "unreported" then "Model not reported"
  else if "~".toList <+: key.toList then .ofList (key.toList.drop "~".toList.length)
  else key

structure SpendTotals where
  total : Dict Time PointTotal := []
  purposes : Dict String (Dict Time PointTotal) := []
  models : Dict String (Dict Time PointTotal) := []
  latestMinute : Option Time := none

/-- The loop of `_spend_snapshot` for one more row. -/
def addRow (totals : SpendTotals) (row : SpendRow) : Except VitalsError SpendTotals := do
  ensure (0 ≤ row.receiptLines) (.invalidCount "receipt_lines")
  ensure (0 ≤ row.unpricedLines) (.invalidCount "unpriced_lines")
  ensure (row.purpose ≠ "") .invalidPurpose
  ensure (row.model ≠ some "") .invalidModel
  let total ← addPoint totals.total row
  let purposes ← addLane totals.purposes row.purpose row
  let models ← addLane totals.models (modelLaneKey row.model) row
  return {
    total, purposes, models
    latestMinute :=
      if ∀ latest ∈ totals.latestMinute, latest < row.minute then some row.minute
      else totals.latestMinute }

end Totals

section Snapshot

inductive SpendDimension
  | total | purpose | model
  deriving DecidableEq

/-- A point, its cost written out in full. -/
structure SpendPoint where
  minute : Time
  costUsd : Option ℚ
  receiptLines : ℤ
  unpricedLines : ℤ
  deriving DecidableEq

structure SpendLane where
  dimension : SpendDimension
  key : Option String
  label : String
  points : List SpendPoint
  deriving DecidableEq

inductive SourceView
  | spendRate
  | spendEvent
  deriving DecidableEq

structure SpendSnapshot where
  sourceView : SourceView
  latestMinute : Option Time
  lanes : List SpendLane
  deriving DecidableEq

/-- Nonblank without surrounding whitespace. -/
def NonBlank (value : String) : Prop := ¬Text.isBlank value ∧ Text.isTrimmed value

instance (value : String) : Decidable (NonBlank value) := inferInstanceAs (Decidable (_ ∧ _))

/-- The checks of `SpendPoint`. -/
def checkedPoint (point : SpendPoint) : Except VitalsError SpendPoint := do
  ensure (∀ cost ∈ point.costUsd, 0 ≤ cost) .contract
  ensure (0 ≤ point.receiptLines ∧ 0 ≤ point.unpricedLines ∧
    point.unpricedLines ≤ point.receiptLines) .contract
  return point

/-- `_lane` -/
def lane (dimension : SpendDimension) (key : Option String) (label : String)
    (totals : Dict Time PointTotal) : Except VitalsError SpendLane := do
  let points ← (totals.insertionSort (·.1 ≤ ·.1)).mapM fun (minute, total) => checkedPoint
    { minute
      costUsd := if total.hasPricedLine then some total.costUsd else none
      receiptLines := total.receiptLines
      unpricedLines := total.unpricedLines }
  ensure (∀ value ∈ key, NonBlank value) .contract
  ensure (NonBlank label) .contract
  ensure (dimension = .total ↔ key = none) .contract
  return { dimension, key, label, points }

/-- `_spend_snapshot` -/
def spendSnapshot (source : SourceView) (rows : List SpendRow) :
    Except VitalsError SpendSnapshot := do
  let totals ← rows.foldlM addRow {}
  let total ← lane .total none "All spend" totals.total
  let purposes ← (totals.purposes.insertionSort (·.1 ≤ ·.1)).mapM fun (key, points) =>
    lane .purpose (some key) key points
  let models ← (totals.models.insertionSort (·.1 ≤ ·.1)).mapM fun (key, points) =>
    lane .model (some key) (modelLaneLabel key) points
  return {
    sourceView := source
    latestMinute := totals.latestMinute
    lanes := total :: (purposes ++ models) }

end Snapshot

end Nocturne.Vitals
