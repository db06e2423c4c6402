import Mathlib.Data.Rat.Floor
import Nocturne.Learner.Axes
import Nocturne.Lib.Table
import Nocturne.Memory.Text

namespace Nocturne.M2k

open Nocturne.Inject Nocturne.Learner Nocturne.Lib

structure LearnerSettings where
  minDispositions : Nat
  holdoutFraction : ℚ
  passiveDiscount : ℚ
  pairMargin : ℚ
  biasL2 : ℚ
  winMargin : ℚ
  deriving DecidableEq

/-- One parameter of the registry, its owning loop, authentic floor and status. -/
structure Trainable where
  parameter : String
  loop : String
  floor : Option Nat
  status : String
  «definition» : Option String
  label : Option String
  deriving DecidableEq

/-- `settings_manifest`: what a proposal keeps of the settings it was made under. -/
structure SettingsManifest extends LearnerSettings where
  corpusMaxDispositions : Nat
  trainables : List Trainable
  deriving DecidableEq

/-- `_learner`: where a proposal comes from. -/
structure LearnerMetadata where
  status : String
  algorithm : String
  sourceDigest : String
  sourceBoundary : Ulid
  trainingCutoff : Time
  holdoutDispositions : Option Nat
  holdoutWeight : Option ℚ
  settings : SettingsManifest
  fit : FitManifest ℚ
  replay : ReplayScore ℚ × ReplayScore ℚ
  biasOffsets : List (Uuid × ℚ)
  deriving DecidableEq

/-- `_control`: the human control that wrote a version. -/
structure ControlMetadata where
  eventUid : String
  parentVersion : String
  actorClass : ActorClass
  machineId : String
  changedParameterIds : List String
  deriving DecidableEq

/-- The `params` object of a stored version; a key that may be absent is optional. -/
structure StoredParams where
  tau : ℚ
  topK : Nat
  nearMissK : Nat
  memoryContextShare : Option ℚ
  budgetPct : Option ℚ
  budgetTokens : Option Nat
  halfLifeTimeDays : ℚ
  halfLifeHistDays : ℚ
  candidatePool : Nat
  locationWeight : Option ℚ
  halfLifeLocationHops : Option ℚ
  threadWeight : Option ℚ
  whereWeight : Option ℚ
  projectOffsets : Option (List (String × ScorerWeights ℚ))
  axes : Option (Axes ℚ)
  learner : Option LearnerMetadata
  control : Option ControlMetadata
  deriving DecidableEq

/-- Versioned scorer weights and parameters. -/
structure ConfigRow where
  version : String
  weights : ScorerWeights ℚ
  params : StoredParams
  createdAt : Time
  active : Bool
  deriving DecidableEq

section Runtime

/-- `AxisNomination.model_validate` but for the weight, which the configuration checks. -/
def NamesItself (axis : StoredAxis ℚ) : Prop :=
  axis.name ≠ "" ∧ axis.label ≠ "" ∧ axis.rationale ≠ ""

instance : DecidablePred NamesItself := fun _ => inferInstanceAs (Decidable (_ ∧ _ ∧ _))

/-- The share a version is served under: the old key where the new one is not there. -/
def StoredParams.share? (params : StoredParams) : Option ℚ :=
  params.memoryContextShare <|> params.budgetPct

/-- The old token budget, which counts only where the new key is not there. -/
def StoredParams.legacyBudget? (params : StoredParams) : Option (Option Nat) :=
  if params.memoryContextShare.isSome then some none else params.budgetTokens.map some

def StoredParams.typed (params : StoredParams) (memoryContextShare : ℚ)
    (legacyBudgetTokens : Option Nat) : ScorerParams ℚ :=
  { tau := params.tau
    nearMissK := params.nearMissK
    memoryContextShare
    halfLifeTimeDays := params.halfLifeTimeDays
    halfLifeHistDays := params.halfLifeHistDays
    candidatePool := params.candidatePool
    locationWeight := params.locationWeight.getD 0
    halfLifeLocationHops := params.halfLifeLocationHops.getD 2
    threadWeight := params.threadWeight.getD 0
    whereWeight := params.whereWeight.getD 0
    legacyBudgetTokens }

/-- The typed pure boundary from the two stored objects, where their keys are there. -/
def configOf? (version : String) (weights : ScorerWeights ℚ) (params : StoredParams) :
    Option (ScorerConfig ℚ) := do
  let memoryContextShare ← params.share?
  let legacyBudgetTokens ← params.legacyBudget?
  return {
    version
    weights
    params := params.typed memoryContextShare legacyBudgetTokens
    biasOffsets := (params.learner.map (·.biasOffsets)).getD []
    projectOffsets := params.projectOffsets.getD []
    axes := (params.axes.getD []).nominations }

/-- `ScorerConfig.from_mappings`. -/
def fromMappings (version : String) (weights : ScorerWeights ℚ) (params : StoredParams) :
    Option (ScorerConfig ℚ) := do
  let config ← configOf? version weights params
  if ¬Text.isBlank version ∧ config.Valid ∧
      ∀ axis ∈ params.axes.getD [], NamesItself axis.2 then some config
  else none

def ConfigRow.runtime? (row : ConfigRow) : Option (ScorerConfig ℚ) :=
  fromMappings row.version row.weights row.params

/-- `weights_for_project`; nothing where a project's offsets do not sum to zero. -/
def weightsForProject? (config : ScorerConfig ℚ) (project : Option String) :
    Option (ScorerWeights ℚ) :=
  if ∀ offsets ∈ config.offsetsFor project, |(config.weights.add offsets).sum - 1| ≤ 1 / 10 ^ 7 then
    some (config.weightsForProject project)
  else none

end Runtime

section Values

/-- The eleven values the console shows and sets. -/
structure RawValues where
  tau : ℚ
  topK : Nat
  memoryContextShare : ℚ
  halfLifeTimeDays : ℚ
  halfLifeHistDays : ℚ
  weights : ScorerWeights ℚ
  deriving DecidableEq

structure RawValues.Valid (values : RawValues) : Prop where
  tau : 0 ≤ values.tau ∧ values.tau ≤ 1
  topK : 1 ≤ values.topK ∧ values.topK ≤ 8
  share : 1 / 100 ≤ values.memoryContextShare ∧ values.memoryContextShare ≤ 1 / 2
  halfLives : 0 < values.halfLifeTimeDays ∧ 0 < values.halfLifeHistDays
  weights : ∀ x ∈ values.weights.values, 0 ≤ x ∧ x ≤ 1
  sum : |values.weights.sum - 1| ≤ 1 / 10 ^ 9

instance (values : RawValues) : Decidable values.Valid :=
  decidable_of_iff
    ((0 ≤ values.tau ∧ values.tau ≤ 1) ∧ (1 ≤ values.topK ∧ values.topK ≤ 8) ∧
      (1 / 100 ≤ values.memoryContextShare ∧ values.memoryContextShare ≤ 1 / 2) ∧
      (0 < values.halfLifeTimeDays ∧ 0 < values.halfLifeHistDays) ∧
      (∀ x ∈ values.weights.values, 0 ≤ x ∧ x ≤ 1) ∧ |values.weights.sum - 1| ≤ 1 / 10 ^ 9)
    ⟨fun ⟨a, b, c, d, e, f⟩ => ⟨a, b, c, d, e, f⟩, fun ⟨a, b, c, d, e, f⟩ => ⟨a, b, c, d, e, f⟩⟩

/-- Values are checked where they are built. -/
abbrev ScorerValues := { values : RawValues // values.Valid }

/-- `_flat_values`: every value under its parameter id. -/
def RawValues.flat (values : RawValues) : List (String × ℚ) :=
  [("scorer.tau", values.tau), ("scorer.top_k", values.topK),
    ("scorer.memory_context_share", values.memoryContextShare),
    ("scorer.half_life_time_days", values.halfLifeTimeDays),
    ("scorer.half_life_hist_days", values.halfLifeHistDays),
    ("scorer.weight.sem", values.weights.sem), ("scorer.weight.kw", values.weights.kw),
    ("scorer.weight.time", values.weights.time), ("scorer.weight.proj", values.weights.proj),
    ("scorer.weight.freq", values.weights.freq), ("scorer.weight.hist", values.weights.hist)]

/-- One parameter's old and new value. -/
structure Change where
  parameterId : String
  old : ℚ
  new : ℚ
  deriving DecidableEq

def changesBetween (old new : ScorerValues) : List Change :=
  ((old.1.flat.zip new.1.flat).filter fun pair => pair.1.2 ≠ pair.2.2).map fun pair =>
    ⟨pair.1.1, pair.1.2, pair.2.2⟩

/-- `_values`, where they can be shown. -/
def ConfigRow.values? (row : ConfigRow) : Option ScorerValues := do
  let memoryContextShare ← row.params.share?
  let values : RawValues :=
    { tau := row.params.tau
      topK := row.params.topK
      memoryContextShare
      halfLifeTimeDays := row.params.halfLifeTimeDays
      halfLifeHistDays := row.params.halfLifeHistDays
      weights := row.weights }
  if h : values.Valid then some ⟨values, h⟩ else none

end Values

section View

inductive ConfigStatus
  | active | proposed | inactive
  deriving DecidableEq, Repr

/-- The row carries a proposal of the learner. -/
def ConfigRow.Proposes (row : ConfigRow) : Prop :=
  ∃ learner ∈ row.params.learner, learner.status = "proposed"

instance (row : ConfigRow) : Decidable row.Proposes :=
  inferInstanceAs (Decidable (∃ learner ∈ row.params.learner, _))

def ConfigRow.status (row : ConfigRow) : ConfigStatus :=
  if row.active then .active
  else if row.Proposes ∧ row.params.control = none then .proposed
  else .inactive

structure ScorerConfigurationView where
  version : String
  createdAt : Time
  status : ConfigStatus
  values : ScorerValues
  replay : Option (ReplayScore ℚ × ReplayScore ℚ)
  axes : Axes ℚ
  projectOffsets : List (String × ScorerWeights ℚ)
  deriving DecidableEq

/-- `_config_view`, where the row's values can be shown. -/
def ConfigRow.view? (row : ConfigRow) : Option ScorerConfigurationView := do
  let values ← row.values?
  return {
    version := row.version
    createdAt := row.createdAt
    status := row.status
    values
    replay := row.params.learner.map (·.replay)
    axes := row.params.axes.getD []
    projectOffsets := row.params.projectOffsets.getD [] }

end View

end Nocturne.M2k
