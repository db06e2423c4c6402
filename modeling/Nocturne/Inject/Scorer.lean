import Mathlib.Algebra.Order.Field.Basic
import Mathlib.Algebra.Order.Floor.Ring
import Mathlib.Data.List.Sort
import Nocturne.Lib.Refusal
import Nocturne.Lib.Greedy

universe u

namespace Nocturne.Inject

open Nocturne.Lib

variable {K : Type u} [Field K] [LinearOrder K]

/-- The features a score, an axis or a preview can read. -/
inductive Feature
  | sem | kw | time | proj | freq | hist | loc | thread | «where»
  deriving DecidableEq, Repr

/-- The six linear weights; also the shape of a project's learned offsets. -/
structure ScorerWeights (K : Type u) where
  sem : K
  kw : K
  time : K
  proj : K
  freq : K
  hist : K
  deriving DecidableEq

namespace ScorerWeights

def values (w : ScorerWeights K) : List K := [w.sem, w.kw, w.time, w.proj, w.freq, w.hist]

def ofValues (l : List K) : ScorerWeights K :=
  ⟨l.getD 0 0, l.getD 1 0, l.getD 2 0, l.getD 3 0, l.getD 4 0, l.getD 5 0⟩

def add (v w : ScorerWeights K) : ScorerWeights K :=
  ⟨v.sem + w.sem, v.kw + w.kw, v.time + w.time, v.proj + w.proj, v.freq + w.freq, v.hist + w.hist⟩

def sum (w : ScorerWeights K) : K := w.values.sum

/-- Some weight is negative: `min(values) < 0`. -/
def dips (w : ScorerWeights K) : Prop := ∃ x ∈ w.values, x < 0

instance (w : ScorerWeights K) : Decidable w.dips := inferInstanceAs (Decidable (∃ x ∈ _, _))

end ScorerWeights

structure ScoreFeatures (K : Type u) where
  sem : K
  kw : K
  time : K
  proj : K
  freq : K
  hist : K
  loc : Option K
  thread : Option K
  «where» : Option K
  axes : List (String × K)
  deriving DecidableEq

namespace ScoreFeatures

def linear (f : ScoreFeatures K) : ScorerWeights K :=
  ⟨f.sem, f.kw, f.time, f.proj, f.freq, f.hist⟩

def get (f : ScoreFeatures K) : Feature → Option K
  | .sem => some f.sem
  | .kw => some f.kw
  | .time => some f.time
  | .proj => some f.proj
  | .freq => some f.freq
  | .hist => some f.hist
  | .loc => f.loc
  | .thread => f.thread
  | .where => f.where

end ScoreFeatures

structure AxisNomination (K : Type u) where
  name : String
  label : String
  inputs : Feature × Feature
  weight : K
  deriving DecidableEq

def AxisNomination.value (axis : AxisNomination K) (features : Feature → Option K) : Option K :=
  match features axis.inputs.1, features axis.inputs.2 with
  | some x, some y => some (x * y)
  | _, _ => none

def AxisNomination.apply (features : Feature → Option K) (score : K)
    (axis : AxisNomination K) : K :=
  match axis.value features with
  | some v => if axis.weight = 0 then score else (1 - axis.weight) * score + axis.weight * v
  | none => score

/-- The named axes, taken in name order. -/
def applyAxes (score : K) (features : Feature → Option K)
    (axes : List (String × AxisNomination K)) : K :=
  (axes.insertionSort fun a b => a.1 ≤ b.1).foldl
    (fun score axis => axis.2.apply features score) score

structure ScorerParams (K : Type u) where
  tau : K
  nearMissK : Nat
  memoryContextShare : K
  halfLifeTimeDays : K
  halfLifeHistDays : K
  candidatePool : Nat
  locationWeight : K
  halfLifeLocationHops : K
  threadWeight : K
  whereWeight : K
  legacyBudgetTokens : Option Nat
  deriving DecidableEq

structure ScorerConfig (K : Type u) where
  version : String
  weights : ScorerWeights K
  params : ScorerParams K
  biasOffsets : List (Nat × K)
  projectOffsets : List (String × ScorerWeights K)
  axes : List (String × AxisNomination K)
  deriving DecidableEq

/-- A locality feature, when present, is mixed in with its own weight. -/
def mixLocality (weight : K) (value : Option K) (score : K) : K :=
  match value with
  | some v => (1 - weight) * score + weight * v
  | none => score

def dot (w v : ScorerWeights K) : K :=
  w.sem * v.sem + w.kw * v.kw + w.time * v.time + w.proj * v.proj + w.freq * v.freq +
    w.hist * v.hist

/-- One scalar computation for serving, frozen-gate previews and backtests. -/
def scoreFeatures (features : ScoreFeatures K) (weights : ScorerWeights K)
    (params : ScorerParams K) (axes : List (String × AxisNomination K)) : K :=
  let score := dot weights features.linear
  let score := mixLocality params.locationWeight features.loc score
  let score := mixLocality params.threadWeight features.thread score
  let score := mixLocality params.whereWeight features.where score
  applyAxes score features.get axes

section Simplex

/-- The largest `index` whose sorted value still exceeds its running threshold. -/
def simplexSupport (cumulative : K) (index rho : Nat) : List K → Nat
  | [] => rho
  | value :: rest =>
    let cumulative := cumulative + value
    let rho := if 0 < value - (cumulative - 1) / (index : K) then index else rho
    simplexSupport cumulative (index + 1) rho rest

def addToLast (x : K) : List K → List K
  | [] => []
  | [y] => [y + x]
  | y :: l => y :: addToLast x l

/-- Euclidean projection onto non-negative values summing exactly to one. -/
def projectSimplex (values : List K) : List K :=
  let ordered := values.insertionSort (· ≥ ·)
  let rho := simplexSupport 0 1 0 ordered
  if rho = 0 then
    values.map fun _ => 1 / (values.length : K)
  else
    let theta := ((ordered.take rho).sum - 1) / (rho : K)
    let projected := values.map fun value => max (value - theta) 0
    let total := projected.sum
    let normalized := projected.map (· / total)
    addToLast (1 - normalized.sum) normalized

end Simplex

namespace ScorerConfig

def offsetsFor (config : ScorerConfig K) (project : Option String) : Option (ScorerWeights K) :=
  project.bind fun project => (config.projectOffsets.find? (·.1 = project)).map (·.2)

/-- Unseen projects use the global weights; learned offsets are partially pooled. -/
def weightsForProject (config : ScorerConfig K) (project : Option String) : ScorerWeights K :=
  match config.offsetsFor project with
  | none => config.weights
  | some offsets =>
    let values := config.weights.add offsets
    if values.dips then .ofValues (projectSimplex values.values) else values

def biasOffset (config : ScorerConfig K) (memoryId : Nat) : K :=
  ((config.biasOffsets.find? (·.1 = memoryId)).map (·.2)).getD 0

end ScorerConfig

/-- What the loader admits: every bound the typed parameters check on construction. -/
structure ScorerParams.Valid (params : ScorerParams K) : Prop where
  tau : 0 ≤ params.tau ∧ params.tau ≤ 1
  share : 1 / 100 ≤ params.memoryContextShare ∧ params.memoryContextShare ≤ 1 / 2
  legacy : ∀ budget ∈ params.legacyBudgetTokens, 0 < budget
  halfLives : 0 < params.halfLifeTimeDays ∧ 0 < params.halfLifeHistDays
  pool : 0 < params.candidatePool
  location : 0 ≤ params.locationWeight ∧ params.locationWeight < 1
  hops : 0 < params.halfLifeLocationHops
  thread : 0 ≤ params.threadWeight ∧ params.threadWeight < 1
  «where» : 0 ≤ params.whereWeight ∧ params.whereWeight < 1

instance (params : ScorerParams K) : Decidable params.Valid :=
  decidable_of_iff
    ((0 ≤ params.tau ∧ params.tau ≤ 1) ∧
      (1 / 100 ≤ params.memoryContextShare ∧ params.memoryContextShare ≤ 1 / 2) ∧
      (∀ budget ∈ params.legacyBudgetTokens, 0 < budget) ∧
      (0 < params.halfLifeTimeDays ∧ 0 < params.halfLifeHistDays) ∧ 0 < params.candidatePool ∧
      (0 ≤ params.locationWeight ∧ params.locationWeight < 1) ∧ 0 < params.halfLifeLocationHops ∧
      (0 ≤ params.threadWeight ∧ params.threadWeight < 1) ∧
      (0 ≤ params.whereWeight ∧ params.whereWeight < 1))
    ⟨fun ⟨a, b, c, d, e, f, g, h, i⟩ => ⟨a, b, c, d, e, f, g, h, i⟩,
      fun ⟨a, b, c, d, e, f, g, h, i⟩ => ⟨a, b, c, d, e, f, g, h, i⟩⟩

structure ScorerConfig.Valid (config : ScorerConfig K) : Prop where
  params : config.params.Valid
  offsets : ∀ offsets ∈ config.projectOffsets,
    |(config.weights.add offsets.2).sum - 1| ≤ 1 / 10 ^ 7
  axes : ∀ axis ∈ config.axes, 0 ≤ axis.2.weight ∧ axis.2.weight < 1

instance (config : ScorerConfig K) : Decidable config.Valid :=
  decidable_of_iff
    (config.params.Valid ∧
      (∀ offsets ∈ config.projectOffsets,
        |(config.weights.add offsets.2).sum - 1| ≤ 1 / 10 ^ 7) ∧
      ∀ axis ∈ config.axes, 0 ≤ axis.2.weight ∧ axis.2.weight < 1)
    ⟨fun ⟨a, b, c⟩ => ⟨a, b, c⟩, fun ⟨a, b, c⟩ => ⟨a, b, c⟩⟩

/-- One candidate's score, before or after its rank in the complete order is known. -/
structure Scored (ι : Type) (K : Type u) where
  candidate : ι
  memoryId : Nat
  pin : Bool
  features : ScoreFeatures K
  score : K
  rank : Nat
  tokenCost : Nat
  deriving DecidableEq

structure ScoringSelection (ι : Type) (K : Type u) where
  injected : List (Scored ι K)
  nearMisses : List (Scored ι K)
  budgetCuts : List (Scored ι K)
  unselected : List (Scored ι K)
  regularBudget : Nat
  pinTokenCost : Nat
  regularTokenCost : Nat
  totalTokenCost : Nat
  pinnedOverflowTokens : Nat

variable {ι : Type}

/-- Falling score, then rising id. -/
def rankBefore (a b : Scored ι K) : Prop :=
  b.score < a.score ∨ a.score = b.score ∧ a.memoryId ≤ b.memoryId

instance (a b : Scored ι K) : Decidable (rankBefore a b) :=
  inferInstanceAs (Decidable (_ ∨ _))

/-- Number a sorted pool from `start`. -/
def withRanks (start : Nat) : List (Scored ι K) → List (Scored ι K)
  | [] => []
  | scored :: rest => { scored with rank := start } :: withRanks (start + 1) rest

def tokenTotal (l : List (Scored ι K)) : Nat := (l.map (·.tokenCost)).sum

inductive SelectionError
  | modelContextTokens
  | pinnedNotPinned
  | regularPinned
  | duplicateIds
  | lockedNotEligible
  deriving DecidableEq, Repr

section Select

variable (pins regular : List (Scored ι K)) (lockedMemoryIds : List Nat)

/-- Locked ids that are not pins. -/
def lockedRegularIds : List Nat :=
  lockedMemoryIds.dedup.filter (· ∉ pins.map (·.memoryId))

def lockedPool : List (Scored ι K) :=
  regular.filter (·.memoryId ∈ lockedRegularIds pins lockedMemoryIds)

def regularPool : List (Scored ι K) :=
  regular.filter (·.memoryId ∉ lockedRegularIds pins lockedMemoryIds)

def rankedPins : List (Scored ι K) :=
  withRanks 1 (pins.insertionSort fun a b => a.memoryId ≤ b.memoryId)

def rankedLocked : List (Scored ι K) :=
  withRanks ((rankedPins pins).length + 1)
    ((lockedPool pins regular lockedMemoryIds).insertionSort rankBefore)

def rankedRegular : List (Scored ι K) :=
  withRanks ((rankedPins pins).length + (rankedLocked pins regular lockedMemoryIds).length + 1)
    ((regularPool pins regular lockedMemoryIds).insertionSort rankBefore)

variable [FloorRing K] (modelContextTokens : Nat) (params : ScorerParams K)

/-- `floor(share * tokens)` on the exact decimal value of the share. -/
def shareTokens : Nat :=
  let tokens := ⌊params.memoryContextShare * (modelContextTokens : K)⌋₊
  match params.legacyBudgetTokens with
  | some budget => min budget tokens
  | none => tokens

/-- The room left for unlocked regular cards. -/
def regularRoom : Nat :=
  shareTokens modelContextTokens params - tokenTotal (rankedLocked pins regular lockedMemoryIds)

def regularCut : Greedy.Cut (Scored ι K) :=
  Greedy.pass (fun s => params.tau ≤ s.score) (·.tokenCost)
    (regularRoom pins regular lockedMemoryIds modelContextTokens params)
    (rankedRegular pins regular lockedMemoryIds)

/-- The pin, rank and budget law on a pool that passed its checks. -/
def selectionOf : ScoringSelection ι K :=
  let cut := regularCut pins regular lockedMemoryIds modelContextTokens params
  let pinCost := tokenTotal (rankedPins pins)
  let regularCost := tokenTotal (rankedLocked pins regular lockedMemoryIds) + tokenTotal cut.taken
  let share := shareTokens modelContextTokens params
  { injected := rankedPins pins ++ rankedLocked pins regular lockedMemoryIds ++ cut.taken
    nearMisses := cut.left.take params.nearMissK
    budgetCuts := cut.dropped
    unselected := cut.left
    regularBudget := share
    pinTokenCost := pinCost
    regularTokenCost := regularCost
    totalTokenCost := pinCost + regularCost
    pinnedOverflowTokens := min pinCost (pinCost + regularCost - share) }

/-- Select from an already scored eligible pool. -/
def scoreAndSelect : Except SelectionError (ScoringSelection ι K) := do
  ensure (0 < modelContextTokens) .modelContextTokens
  ensure (∀ c ∈ pins, c.pin = true) .pinnedNotPinned
  ensure (∀ c ∈ regular, c.pin = false) .regularPinned
  ensure ((pins ++ regular).map (·.memoryId)).Nodup .duplicateIds
  ensure ((lockedPool pins regular lockedMemoryIds).length =
    (lockedRegularIds pins lockedMemoryIds).length) .lockedNotEligible
  return selectionOf pins regular lockedMemoryIds modelContextTokens params

end Select

end Nocturne.Inject
