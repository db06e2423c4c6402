import Mathlib.Data.Rat.Cast.OfScientific
import Nocturne.Inject.Scorer
import Nocturne.Lib.Refusal
import Nocturne.Store.Schema

namespace Nocturne.Inject.ScorerWeights

variable {K : Type*} [Field K]

def map (f : K → K) (w : ScorerWeights K) : ScorerWeights K :=
  ⟨f w.sem, f w.kw, f w.time, f w.proj, f w.freq, f w.hist⟩

def sub (v w : ScorerWeights K) : ScorerWeights K :=
  ⟨v.sem - w.sem, v.kw - w.kw, v.time - w.time, v.proj - w.proj, v.freq - w.freq, v.hist - w.hist⟩

def zero : ScorerWeights K := ⟨0, 0, 0, 0, 0, 0⟩

end Nocturne.Inject.ScorerWeights

namespace Nocturne.Learner

open Nocturne.Inject Nocturne.Lib

variable {K : Type} [Field K] [LinearOrder K]

inductive LearnerError
  | gates
  | pairs
  | activeRows (found : Nat)
  | invalid (version : String)
  | mismatch (version : String)
  /-- event … references missing scorer … -/
  | missingScorer (eventUid : Ulid) (scorerVersion : String)
  /-- event … feature … is not numeric -/
  | notNumeric (eventUid : Ulid) (feature : Feature)
  /-- event … feature … is outside [0,1] -/
  | outsideUnit (eventUid : Ulid) (feature : Feature)
  /-- event … has no frozen memory body -/
  | noFrozenBody (eventUid : Ulid)
  /-- injection … crosses thread strata -/
  | crossesThreads (injectionId : Uuid)
  /-- injection … exceeds the optimization corpus maximum -/
  | exceedsCorpus (injectionId : Uuid)
  deriving DecidableEq

/-- The key a feature is stored under. -/
def featureKey : Feature → String
  | .sem => "sem"
  | .kw => "kw"
  | .time => "time"
  | .proj => "proj"
  | .freq => "freq"
  | .hist => "hist"
  | .loc => "loc"
  | .thread => "thread"
  | .where => "where"

/-- One hygiene-passing disposition with its frozen replay inputs. -/
structure LearningExample (K : Type) where
  eventUid : Ulid
  injectionId : Uuid
  memoryId : Uuid
  ts : Nat
  features : ScorerWeights K
  baselineBias : K
  targetInjected : Bool
  actorWeight : K
  shownAs : ShownAs
  bodyTokens : Nat
  locationFeature : Option K
  locationWeight : K
  threadFeature : Option K
  threadId : Option Uuid
  whereFeature : Option K
  whereWeight : K
  projectKey : Option String
  deriving DecidableEq

def LearningExample.recordedInjected (row : LearningExample K) : Bool :=
  row.shownAs ≠ .nearMiss ∧ row.shownAs ≠ .budgetCut

inductive BoundaryKind
  | valuableBudgetCut | marginalUncited | marginalRemoved | pinOverflow
  deriving DecidableEq, Repr

/-- One replay-visible reason for the memory room to grow or shrink. -/
structure ShareBoundary (K : Type) where
  eventUid : Ulid
  injectionId : Uuid
  requiredShare : K
  targetAtLeast : Bool
  actorWeight : K
  kind : BoundaryKind
  deriving DecidableEq

structure FitSettings (K : Type) where
  pairMargin : K
  biasL2 : K

/-- What a proposal keeps of its fit. -/
structure FitManifest (K : Type) where
  iterations : Nat
  objective : K
  pairCount : Nat
  threadWeight : K
  whereWeight : K
  tau : K
  memoryContextShare : K
  shareTauActive : Bool
  deriving DecidableEq

structure FitResult (K : Type) extends FitManifest K where
  weights : ScorerWeights K
  biasOffsets : List (Uuid × K)
  projectOffsets : List (String × ScorerWeights K)

/-- A kept and a removed memory of one gate. -/
structure Pair (K : Type) where
  positive : LearningExample K
  negative : LearningExample K
  actorWeight : K

/-- The latest event of a gate. -/
def gateTs (rows : List (LearningExample K)) : Nat := (rows.map (·.ts)).foldl max 0

variable [FloorRing K]

/-- Create one deterministic newest-gates holdout without row leakage. -/
def splitGates (examples : List (LearningExample K)) (holdoutFraction : K) :
    Except LearnerError (List (LearningExample K) × List (LearningExample K) × Nat) := do
  let gates := ((examples.map (·.injectionId)).dedup.map fun injectionId =>
    (injectionId, examples.filter (·.injectionId = injectionId))).insertionSort fun a b =>
      gateTs a.2 < gateTs b.2 ∨ gateTs a.2 = gateTs b.2 ∧ a.1 ≤ b.1
  ensure (2 ≤ gates.length) .gates
  let holdoutCount := min (max 1 ⌈(gates.length : K) * holdoutFraction⌉₊) (gates.length - 1)
  let training := ((gates.take (gates.length - holdoutCount)).map (·.2)).flatten
  let holdout := ((gates.drop (gates.length - holdoutCount)).map (·.2)).flatten
  return (training, holdout, gateTs training)

omit [FloorRing K]

def pairs (examples : List (LearningExample K)) : List (Pair K) :=
  let injections := (examples.map (·.injectionId)).dedup.insertionSort (· ≤ ·)
  injections.flatMap fun injectionId =>
    let rows := (examples.filter (·.injectionId = injectionId)).insertionSort
      fun a b => a.eventUid ≤ b.eventUid
    (rows.filter (·.targetInjected)).flatMap fun positive =>
      (rows.filter (!·.targetInjected)).map fun negative =>
        ⟨positive, negative, min positive.actorWeight negative.actorWeight⟩

/-- The learned offset of a memory, none counting as zero. -/
def biasOf (biases : List (Uuid × K)) (id : Uuid) : K :=
  ((biases.find? (·.1 = id)).map (·.2)).getD 0

section Scores

/-- One locality feature scales what is linear and moves what is constant. -/
def mixed (weight : K) (value : Option K) (line : K × K) : K × K :=
  match value with
  | some value => (line.1 * (1 - weight), (1 - weight) * line.2 + weight * value)
  | none => line

/-- Express one score as six linear weights plus a fixed locality constant. -/
def linearized (row : LearningExample K) (threadWeight whereWeight : K) : ScorerWeights K × K :=
  let line := mixed whereWeight row.whereFeature
    (mixed threadWeight row.threadFeature
      (mixed row.locationWeight row.locationFeature (1, 0)))
  (row.features.map (line.1 * ·), row.baselineBias + line.2)

def exampleScore (row : LearningExample K) (weights : ScorerWeights K)
    (threadWeight whereWeight : K) : K :=
  let line := linearized row threadWeight whereWeight
  dot weights line.1 + line.2

/-- How far the kept memory scores above the removed one. -/
def Pair.difference (pair : Pair K) (weights : ScorerWeights K) (biases : Uuid → K)
    (threadWeight whereWeight : K) : K :=
  exampleScore pair.positive weights threadWeight whereWeight -
    exampleScore pair.negative weights threadWeight whereWeight +
    (biases pair.positive.memoryId - biases pair.negative.memoryId)

/-- What the six weights see of a pair. -/
def Pair.featureDelta (pair : Pair K) (threadWeight whereWeight : K) : ScorerWeights K :=
  (linearized pair.positive threadWeight whereWeight).1.sub
    (linearized pair.negative threadWeight whereWeight).1

end Scores

section Gradient

variable (pairs : List (Pair K)) (memoryIds : List Uuid) (threadWeight whereWeight : K)
  (settings : FitSettings K)

/-- The six weights and the per-memory biases of a fit in progress. -/
structure Fitted (K : Type) where
  weights : ScorerWeights K
  biases : Uuid → K

def hinge (fitted : Fitted K) (pair : Pair K) : K :=
  settings.pairMargin - pair.difference fitted.weights fitted.biases threadWeight whereWeight

/-- The pairs closer than the margin. -/
def violated (fitted : Fitted K) : List (Pair K) :=
  pairs.filter fun pair => 0 < hinge threadWeight whereWeight settings fitted pair

def objective (fitted : Fitted K) : K :=
  settings.biasL2 * (memoryIds.map fun id => fitted.biases id * fitted.biases id).sum +
    ((violated pairs threadWeight whereWeight settings fitted).map fun pair =>
      pair.actorWeight * hinge threadWeight whereWeight settings fitted pair *
        hinge threadWeight whereWeight settings fitted pair).sum

def gradientFactor (fitted : Fitted K) (pair : Pair K) : K :=
  -2.0 * pair.actorWeight * hinge threadWeight whereWeight settings fitted pair

def weightGradient (fitted : Fitted K) : ScorerWeights K :=
  (violated pairs threadWeight whereWeight settings fitted).foldl
    (fun gradient pair => gradient.add ((pair.featureDelta threadWeight whereWeight).map
      (gradientFactor threadWeight whereWeight settings fitted pair * ·))) .zero

def biasGradient (fitted : Fitted K) (id : Uuid) : K :=
  (violated pairs threadWeight whereWeight settings fitted).foldl
    (fun gradient pair =>
      let factor := gradientFactor threadWeight whereWeight settings fitted pair
      let gradient := if id = pair.positive.memoryId then gradient + factor else gradient
      if id = pair.negative.memoryId then gradient - factor else gradient)
    (2.0 * settings.biasL2 * fitted.biases id)

/-- `1 / max(lipschitz, 1)`. -/
def fitStep : K :=
  1 / max (2.0 * settings.biasL2 + (pairs.map fun pair =>
    let delta := pair.featureDelta threadWeight whereWeight
    2.0 * pair.actorWeight * (dot delta delta + 2.0)).sum) 1

/-- One step of projected gradient. -/
def descendOnce (fitted : Fitted K) : Fitted K :=
  let step := fitStep pairs threadWeight whereWeight settings
  { weights := .ofValues (projectSimplex (fitted.weights.sub
      ((weightGradient pairs threadWeight whereWeight settings fitted).map (step * ·))).values)
    biases := fun id => if id ∈ memoryIds then
      fitted.biases id - step * biasGradient pairs threadWeight whereWeight settings fitted id
    else 0 }

/-- The step moved nothing, or improved nothing, that counts. -/
def Converged (fitted next : Fitted K) : Prop :=
  let change := ((next.weights.sub fitted.weights).values ++
    memoryIds.map fun id => fitted.biases id - next.biases id)
  let improvement := objective pairs memoryIds threadWeight whereWeight settings fitted -
    objective pairs memoryIds threadWeight whereWeight settings next
  (∀ x ∈ change, |x| ≤ 1e-11) ∨ 0 ≤ improvement ∧ improvement ≤ 1e-13

instance (fitted next : Fitted K) :
    Decidable (Converged pairs memoryIds threadWeight whereWeight settings fitted next) :=
  inferInstanceAs (Decidable ((∀ x ∈ _, _) ∨ _ ∧ _))

/-- At most `fuel` steps, with the number of those taken. -/
def descend (fitted : Fitted K) (iterations : Nat) : Nat → Fitted K × Nat
  | 0 => (fitted, iterations)
  | fuel + 1 =>
    let next := descendOnce pairs memoryIds threadWeight whereWeight settings fitted
    if Converged pairs memoryIds threadWeight whereWeight settings fitted next then
      (next, iterations + 1)
    else descend next (iterations + 1) fuel

end Gradient

section Locality

/-- `min(max(value, 0.0), 1.0 - 1e-12)`. -/
def clampWeight (value : K) : K := min (max value 0) (1 - 1e-12)

variable (pairs : List (Pair K)) (pairMargin : K)

/-- Steps of one bounded coefficient, the six weights and biases held fixed. -/
def descendLocality (derivative : Pair K → K) (difference : K → Pair K → K) (step weight : K)
    (iterations : Nat) : Nat → K × Nat
  | 0 => (weight, iterations)
  | fuel + 1 =>
    let gradient := (pairs.map fun pair =>
      let hinge := pairMargin - difference weight pair
      if 0 < hinge then -2.0 * pair.actorWeight * hinge * derivative pair else 0).sum
    let next := clampWeight (weight - step * gradient)
    if |next - weight| ≤ 1e-11 then (next, iterations + 1)
    else descendLocality derivative difference step next (iterations + 1) fuel

/-- `_fit_thread_weight` and `_fit_where_weight` but for their derivative and score. -/
def fitLocality (derivative : LearningExample K → K) (difference : K → Pair K → K)
    (initial : K) : K × Nat :=
  let slope := fun pair : Pair K => derivative pair.positive - derivative pair.negative
  let lipschitz := 2.0 * (pairs.map fun pair => pair.actorWeight * slope pair * slope pair).sum
  if lipschitz ≤ 0 then (clampWeight initial, 0)
  else descendLocality pairs pairMargin slope difference (1 / lipschitz) (clampWeight initial) 0
    10000

def threadDerivative (weights : ScorerWeights K) (whereWeight : K) (row : LearningExample K) : K :=
  match row.threadFeature with
  | none => 0
  | some value =>
    (1 - whereWeight) *
      (value - mixLocality row.locationWeight row.locationFeature (dot weights row.features))

def whereDerivative (weights : ScorerWeights K) (threadWeight : K) (row : LearningExample K) : K :=
  match row.whereFeature with
  | none => 0
  | some value =>
    value - mixLocality threadWeight row.threadFeature
      (mixLocality row.locationWeight row.locationFeature (dot weights row.features))

def fitThreadWeight (fitted : Fitted K) (initial whereWeight : K) : K × Nat :=
  fitLocality pairs pairMargin (threadDerivative fitted.weights whereWeight)
    (fun weight pair => pair.difference fitted.weights fitted.biases weight whereWeight) initial

def fitWhereWeight (fitted : Fitted K) (initial threadWeight : K) : K × Nat :=
  fitLocality pairs pairMargin (whereDerivative fitted.weights threadWeight)
    (fun weight pair => pair.difference fitted.weights fitted.biases threadWeight weight) initial

end Locality

section Projects

variable (weights : ScorerWeights K) (settings : FitSettings K)

/-- What a project's residual sees of a pair: its features, its global lead and its weight. -/
structure ProjectDelta (K : Type) where
  delta : ScorerWeights K
  baseline : K
  actorWeight : K

def offsetGradient (deltas : List (ProjectDelta K)) (offsets : ScorerWeights K) :
    ScorerWeights K :=
  deltas.foldl (fun gradient row =>
      let hinge := max 0 (settings.pairMargin - row.baseline - dot offsets row.delta)
      gradient.sub (row.delta.map (2.0 * row.actorWeight * hinge * ·)))
    (offsets.map (2.0 * settings.biasL2 * ·))

def offsetStep (deltas : List (ProjectDelta K)) : K :=
  1 / max 1 (2.0 * settings.biasL2 +
    (deltas.map fun row => 2.0 * row.actorWeight * dot row.delta row.delta).sum)

/-- The offsets of the projected step from `offsets`. -/
def nextOffsets (deltas : List (ProjectDelta K)) (offsets : ScorerWeights K) : ScorerWeights K :=
  let gradient := offsetGradient settings deltas offsets
  (ScorerWeights.ofValues (projectSimplex ((weights.add offsets).sub
    (gradient.map (offsetStep settings deltas * ·))).values)).sub weights

def descendOffsets (deltas : List (ProjectDelta K)) (offsets : ScorerWeights K) :
    Nat → ScorerWeights K
  | 0 => offsets
  | fuel + 1 =>
    let updated := nextOffsets weights settings deltas offsets
    if ∀ x ∈ (updated.sub offsets).values, |x| < 1e-11 then updated
    else descendOffsets deltas updated fuel

/-- Fit project residuals after the globals, from zero. -/
def fitProjectOffsets (examples : List (LearningExample K)) (biases : Uuid → K)
    (threadWeight whereWeight : K) : List (String × ScorerWeights K) :=
  ((examples.filterMap (·.projectKey)).dedup.insertionSort (· ≤ ·)).filterMap fun project =>
    match pairs (examples.filter (·.projectKey = some project)) with
    | [] => none
    | pair :: rest =>
      let deltas := (pair :: rest).map fun pair =>
        { delta := pair.featureDelta threadWeight whereWeight
          baseline := pair.difference weights biases threadWeight whereWeight
          actorWeight := pair.actorWeight : ProjectDelta K }
      some (project, descendOffsets weights settings deltas .zero 10000)

end Projects

section Controls

/-- Keys compare entry by entry. -/
def KeyBefore (a b : K × Nat × K) : Prop :=
  a.1 < b.1 ∨ a.1 = b.1 ∧ (a.2.1 < b.2.1 ∨ a.2.1 = b.2.1 ∧ a.2.2 < b.2.2)

instance (a b : K × Nat × K) : Decidable (KeyBefore a b) :=
  inferInstanceAs (Decidable (_ ∨ _ ∧ (_ ∨ _ ∧ _)))

/-- The better of the best so far, with its key, and a candidate; the earlier where they tie. -/
def preferred (key : K → K × Nat × K) (best : K × Option (K × Nat × K)) (candidate : K) :
    K × Option (K × Nat × K) :=
  if ∀ bestKey ∈ best.2, KeyBefore (key candidate) bestKey then (candidate, some (key candidate))
  else best

/-- The first candidate with the least key; the incumbent where there is none. -/
def chooseControl (key : K → K × Nat × K) (incumbent : K) (candidates : List K) : K :=
  (candidates.foldl (preferred key) (incumbent, none)).1

/-- The incumbent among the hundredths from `low` to `high`. -/
def hundredths (incumbent : K) (low high : Nat) : List K :=
  (incumbent :: (List.range' low (high + 1 - low)).map fun index : ℕ =>
    (index : K) / (100 : ℕ)).dedup.insertionSort (· ≤ ·)

def fitTau (examples : List (LearningExample K)) (fitted : Fitted K)
    (threadWeight whereWeight incumbent : K) : K :=
  let selected := fun (candidate : K) (row : LearningExample K) =>
    decide (row.shownAs = .pinned ∨ candidate ≤
      exampleScore row fitted.weights threadWeight whereWeight + fitted.biases row.memoryId)
  chooseControl (fun candidate =>
      (((examples.filter fun row => selected candidate row ≠ row.targetInjected).map
          (·.actorWeight)).sum,
        ((examples.filter fun row => selected candidate row).map (·.bodyTokens)).sum,
        -candidate))
    incumbent (hundredths incumbent 0 100)

/-- The room is wide enough for what a boundary asks. -/
def ShareBoundary.wrong (boundary : ShareBoundary K) (share : K) : Bool :=
  decide (boundary.requiredShare ≤ share + 1e-12) ≠ boundary.targetAtLeast

def fitShare (boundaries : List (ShareBoundary K)) (incumbent : K) : K :=
  if boundaries = [] then incumbent
  else chooseControl (fun candidate =>
      (((boundaries.filter (·.wrong candidate)).map (·.actorWeight)).sum,
        (boundaries.filter (·.wrong candidate)).length, candidate))
    incumbent (hundredths incumbent 1 50)

end Controls

section Fit

variable (examples : List (LearningExample K)) (incumbentWeights : ScorerWeights K)
  (incumbentThreadWeight incumbentWhereWeight incumbentTau incumbentMemoryContextShare : K)
  (shareBoundaries : List (ShareBoundary K)) (tuneShareAndTau : Bool) (settings : FitSettings K)

/-- Solve the full convex squared-hinge objective by projected gradient. -/
def fitPairwise : Except LearnerError (FitResult K) := do
  let weights := ScorerWeights.ofValues (projectSimplex incumbentWeights.values)
  let pairs := pairs examples
  ensure (pairs ≠ []) .pairs
  let memoryIds := (pairs.flatMap fun pair =>
    [pair.positive.memoryId, pair.negative.memoryId]).dedup.insertionSort (· ≤ ·)
  let (fitted, iterations) := descend pairs memoryIds incumbentThreadWeight incumbentWhereWeight
    settings ⟨weights, fun _ => 0⟩ 0 10000
  let normalizedBiases := (memoryIds.filter fun id => 1e-12 < |fitted.biases id|).map fun id =>
    (id, fitted.biases id)
  let (threadWeight, threadIterations) := fitThreadWeight pairs settings.pairMargin fitted
    incumbentThreadWeight incumbentWhereWeight
  let (whereWeight, whereIterations) := fitWhereWeight pairs settings.pairMargin fitted
    incumbentWhereWeight threadWeight
  let projectOffsets := fitProjectOffsets fitted.weights settings examples
    (biasOf normalizedBiases) threadWeight whereWeight
  let boundaryIterations := if tuneShareAndTau then
    (hundredths incumbentTau 0 100).length +
      (if shareBoundaries = [] then 0 else (hundredths incumbentMemoryContextShare 1 50).length)
    else 0
  return {
    weights := fitted.weights
    threadWeight
    whereWeight
    tau := if tuneShareAndTau then
      fitTau examples fitted threadWeight whereWeight incumbentTau else incumbentTau
    memoryContextShare := if tuneShareAndTau then
      fitShare shareBoundaries incumbentMemoryContextShare else incumbentMemoryContextShare
    shareTauActive := tuneShareAndTau
    biasOffsets := normalizedBiases
    pairCount := pairs.length
    iterations := iterations + threadIterations + whereIterations + boundaryIterations
    objective := objective pairs memoryIds threadWeight whereWeight settings fitted
    projectOffsets }

end Fit

section Replay

structure ReplayScore (K : Type) where
  disagreements : Nat
  weightedDisagreements : K
  injectedTokens : Nat
  shareDisagreements : Nat
  weightedShareDisagreements : K
  deriving DecidableEq

variable (examples : List (LearningExample K)) (shareBoundaries : List (ShareBoundary K))
  (memoryContextShare : K)

/-- `_replay_score` and, over it, `_with_share_score`. -/
def replayScore (predicted : LearningExample K → Bool) : ReplayScore K :=
  let wrong := examples.filter fun row => predicted row ≠ row.targetInjected
  let wrongShares := shareBoundaries.filter (·.wrong memoryContextShare)
  { disagreements := wrong.length + wrongShares.length
    weightedDisagreements := (wrong.map (·.actorWeight)).sum + (wrongShares.map (·.actorWeight)).sum
    injectedTokens := ((examples.filter predicted).map (·.bodyTokens)).sum
    shareDisagreements := wrongShares.length
    weightedShareDisagreements := (wrongShares.map (·.actorWeight)).sum }

/-- Score the incumbent decisions that actually served the gates. -/
def recordedScore : ReplayScore K :=
  replayScore examples shareBoundaries memoryContextShare (·.recordedInjected)

def exampleFeatures (row : LearningExample K) : Feature → Option K
  | .sem => some row.features.sem
  | .kw => some row.features.kw
  | .time => some row.features.time
  | .proj => some row.features.proj
  | .freq => some row.features.freq
  | .hist => some row.features.hist
  | .loc => row.locationFeature
  | .thread => row.threadFeature
  | .where => row.whereFeature

/-- The fitted weights moved by a project's offsets, as they are: a fit may leave them negative. -/
def FitResult.moved (fit : FitResult K) (projectKey : Option String) : ScorerWeights K :=
  fit.weights.add (((projectKey.bind fun project =>
    fit.projectOffsets.find? (·.1 = project)).map (·.2)).getD .zero)

/-- The fitted score with the axes applied around the frozen bias. -/
def axisScore (row : LearningExample K) (weights : ScorerWeights K) (threadWeight whereWeight : K)
    (axes : List (String × AxisNomination K)) : K :=
  applyAxes (exampleScore row weights threadWeight whereWeight - row.baselineBias)
    (exampleFeatures row) axes + row.baselineBias

/-- Score one fitted challenger against the binary dispositions. -/
def challengerScore (fit : FitResult K) (axes : List (String × AxisNomination K)) : ReplayScore K :=
  replayScore examples shareBoundaries fit.memoryContextShare fun row =>
    let moved := fit.moved row.projectKey
    let effective := if moved.dips then .ofValues (projectSimplex moved.values) else moved
    row.shownAs = .pinned ∨ fit.tau ≤
      axisScore row effective fit.threadWeight fit.whereWeight axes +
        biasOf fit.biasOffsets row.memoryId

/-- Apply the real-margin rule, then the exact cheaper-at-tie exception. -/
def challengerWins (incumbent challenger : ReplayScore K) (margin : K) : Prop :=
  let improvement := incumbent.weightedDisagreements - challenger.weightedDisagreements
  margin ≤ improvement ∨ improvement = 0 ∧ challenger.injectedTokens < incumbent.injectedTokens

instance (incumbent challenger : ReplayScore K) (margin : K) :
    Decidable (challengerWins incumbent challenger margin) :=
  inferInstanceAs (Decidable (_ ∨ _ ∧ _))

end Replay

end Nocturne.Learner
