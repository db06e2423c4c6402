import Nocturne.M2k.Config

namespace Nocturne.M2k

open Nocturne.Inject Nocturne.Learner Nocturne.Lib

/-- The capped corpus one optimization reads. -/
structure BalancedCorpus where
  examples : List (LearningExample ℚ)
  shareBoundaries : List (ShareBoundary ℚ)
  fingerprint : String
  strategy : String
  maxSize : Nat

def algorithmId : String := "m3ll-project-offsets-transparent-axes-v4"

/-- `_canonical_example`: all of an example but its thread. -/
def canonicalExample (row : LearningExample ℚ) : LearningExample ℚ := { row with threadId := none }

/-- Every authority input used by a proposal. -/
structure DigestManifest where
  incumbentVersion : String
  training : List (LearningExample ℚ)
  holdout : List (LearningExample ℚ)
  shareBoundaries : List (ShareBoundary ℚ)
  algorithm : String
  learner : SettingsManifest
  incumbentWeights : ScorerWeights ℚ
  incumbentParams : StoredParams
  corpusFingerprint : String
  corpusStrategy : String
  learnerWithoutControl : Bool
  deriving DecidableEq

/-- `canonical_digest`: the hex SHA-256 of the manifest's canonical encoding. -/
abbrev CanonicalDigest := DigestManifest → String

structure Proposal where
  version : String
  weights : ScorerWeights ℚ
  params : StoredParams
  deriving DecidableEq

inductive Outcome
  | insufficientData
  | notBetter
  | proposed (proposal : Proposal)
  deriving DecidableEq

section Registry

/-- The parameters that are never added to: name, loop, floor where one holds, status past it. -/
def registry (minimum : Nat) : List (String × String × Option Nat × String) :=
  (featureNames.map fun feature =>
    ("weight." ++ feature.name, "injection_scoring", some minimum, "trained")) ++
  [("thread_weight", "injection_scoring", some minimum, "trained"),
    ("where_weight", "injection_scoring", some minimum, "trained"),
    ("bias_offsets", "injection_scoring", some minimum, "trained"),
    ("project_offsets", "injection_scoring", some minimum, "trained"),
    ("tau", "injection_scoring", some 100, "trained"),
    ("memory_context_share", "injection_scoring", some 100, "trained"),
    ("location_weight", "injection_scoring", none, "configured"),
    ("half_life_time_days", "injection_scoring", none, "configured"),
    ("half_life_hist_days", "injection_scoring", none, "configured"),
    ("half_life_location_hops", "injection_scoring", none, "configured"),
    ("corpus_max_dispositions", "injection_scoring", none, "configured"),
    ("f_sess", "injection_scoring", none, "replay_only"),
    ("compaction_instructions", "creation", none, "signals_only"),
    ("memory_size_cap", "creation", none, "unbuilt"),
    ("dedup_bands", "creation", none, "configured"),
    ("curator_review_sim", "creation", none, "configured"),
    ("axes", "scorer_structure", some minimum, "proposed_then_owner_activation"),
    ("optimizer", "beyond", none, "gated"),
    ("model_weights", "beyond", none, "gated"),
    ("role_model_policies", "beyond", none, "configured"),
    ("return_share_percent", "beyond", none, "configured"),
    ("return_share_bounds", "beyond", none, "configured")]

/-- `LearnerService.manifest`: parameters, their owning loop, authentic floor and status. -/
def trainables (eligibleDispositions minimum : Nat) (axes : Axes ℚ) : List Trainable :=
  ((registry minimum).map fun (parameter, loop, floor, status) =>
    { parameter
      loop
      floor
      status := if ∃ least ∈ floor, eligibleDispositions < least then "frozen" else status
      «definition» := none
      label := none }) ++
  (axes.insertionSort fun a b => a.1 ≤ b.1).map fun (name, axis) =>
    { parameter := "axes." ++ name ++ ".weight"
      loop := "scorer_structure"
      floor := some minimum
      status := if axis.action = .axisRetire then "retired" else "trainable"
      «definition» := some (featureKey axis.inputs.1 ++ " × " ++ featureKey axis.inputs.2)
      label := some axis.label }

end Registry

section Fit

variable (settings : LearnerSettings) (active : ConfigRow) (incumbent : ScorerConfig ℚ)

/-- A fit of the training gates against the versions it would replace. -/
@[ext] structure Challenge where
  training : List (LearningExample ℚ)
  holdout : List (LearningExample ℚ)
  cutoff : Time
  trainingBoundaries : List (ShareBoundary ℚ)
  fit : FitResult ℚ
  axes : Axes ℚ
  incumbentScore : ReplayScore ℚ
  fittedScore : ReplayScore ℚ

/-- The boundaries of the gates among `examples`. -/
def boundariesOf (corpus : BalancedCorpus) (examples : List (LearningExample ℚ)) :
    List (ShareBoundary ℚ) :=
  corpus.shareBoundaries.filter (·.injectionId ∈ examples.map (·.injectionId))

def LearnerSettings.fit (settings : LearnerSettings) : FitSettings ℚ :=
  ⟨settings.pairMargin, settings.biasL2⟩

/-- Split the gates, fit the training ones, and score both versions on the holdout. -/
def challenge (corpus : BalancedCorpus) : Except LearnerError Challenge := do
  let (training, holdout, cutoff) ← splitGates corpus.examples settings.holdoutFraction
  let trainingBoundaries := boundariesOf corpus training
  let fit ← fitPairwise training incumbent.weights incumbent.params.threadWeight
    incumbent.params.whereWeight incumbent.params.tau incumbent.params.memoryContextShare
    trainingBoundaries (decide (100 ≤ corpus.examples.length)) settings.fit
  let axes := nominateAxes training fit settings.fit corpus.fingerprint
    (active.params.axes.getD [])
  return {
    training, holdout, cutoff, trainingBoundaries, fit, axes
    incumbentScore := recordedScore holdout (boundariesOf corpus holdout)
      incumbent.params.memoryContextShare
    fittedScore := challengerScore holdout (boundariesOf corpus holdout) fit axes.nominations }

/-- A retired near-zero term saves serving work at an exact replay tie. -/
def Challenge.RetiresTerm (c : Challenge) : Prop :=
  ∃ axis ∈ c.axes, axis.2.action = .axisRetire ∧
    ∃ held ∈ Axes.get? (active.params.axes.getD []) axis.1, 0 < held.weight

instance (c : Challenge) : Decidable (c.RetiresTerm active) :=
  inferInstanceAs (Decidable (∃ axis ∈ c.axes, _ ∧ ∃ held ∈ Axes.get? _ axis.1, _))

def Challenge.Wins (c : Challenge) : Prop :=
  challengerWins c.incumbentScore c.fittedScore settings.winMargin ∨
    c.RetiresTerm active ∧ c.fittedScore = c.incumbentScore

instance (c : Challenge) : Decidable (c.Wins settings active) :=
  inferInstanceAs (Decidable (_ ∨ _ ∧ _))

/-- A fitted value takes a key that is there, or makes one where it is not the default. -/
def fittedKey {α : Type} [DecidableEq α] (default : α) (stored : Option α) (fitted : α) :
    Option α :=
  if stored.isSome ∨ fitted ≠ default then some fitted else none

/-- The active version's `params` with what was fitted; its `_control` stays behind. -/
def proposalParams (params : StoredParams) (fit : FitResult ℚ) (axes : Axes ℚ)
    (learner : LearnerMetadata) : StoredParams :=
  { params with
    control := none
    learner := some learner
    projectOffsets :=
      if params.projectOffsets.isSome ∨ fit.projectOffsets ≠ [] then some fit.projectOffsets
      else none
    axes := if params.axes.isSome ∨ axes ≠ [] then some axes else none
    threadWeight := fittedKey 0 params.threadWeight fit.threadWeight
    whereWeight := fittedKey 0 params.whereWeight fit.whereWeight
    tau := if fit.shareTauActive then fit.tau else params.tau
    memoryContextShare :=
      if fit.shareTauActive then some fit.memoryContextShare else params.memoryContextShare }

/-- The cap on the corpus is the service's, which the corpus was made under. -/
def Challenge.settingsManifest (c : Challenge) (eligibleDispositions : Nat)
    (corpus : BalancedCorpus) : SettingsManifest :=
  { settings with
    corpusMaxDispositions := corpus.maxSize
    trainables := trainables eligibleDispositions settings.minDispositions c.axes }

def Challenge.manifest (c : Challenge) (eligibleDispositions : Nat) (corpus : BalancedCorpus) :
    DigestManifest :=
  { incumbentVersion := incumbent.version
    training := c.training.map canonicalExample
    holdout := c.holdout.map canonicalExample
    shareBoundaries := c.trainingBoundaries
    algorithm := algorithmId
    learner := c.settingsManifest settings eligibleDispositions corpus
    incumbentWeights := active.weights
    incumbentParams := active.params
    corpusFingerprint := corpus.fingerprint
    corpusStrategy := corpus.strategy
    learnerWithoutControl := active.params.control.isSome }

/-- The version a winning fit is proposed under, named by its digest. -/
def Challenge.proposal (c : Challenge) (canonicalDigest : CanonicalDigest)
    (eligibleDispositions : Nat) (corpus : BalancedCorpus) : Proposal :=
  let digest := canonicalDigest (c.manifest settings active incumbent eligibleDispositions corpus)
  { version := "m2f-" ++ String.ofList (digest.toList.take 16)
    weights := c.fit.weights
    params := proposalParams active.params c.fit c.axes {
      status := "proposed"
      algorithm := algorithmId
      sourceDigest := digest
      sourceBoundary := (corpus.examples.map (·.eventUid)).foldl max 0
      trainingCutoff := c.cutoff
      holdoutDispositions := some c.holdout.length
      holdoutWeight := some (c.holdout.map (·.actorWeight)).sum
      settings := c.settingsManifest settings eligibleDispositions corpus
      fit := c.fit.toFitManifest
      replay := (c.incumbentScore, c.fittedScore)
      biasOffsets := c.fit.biasOffsets } }

/-- `_fit` up to what it writes. -/
def fitOutcome (canonicalDigest : CanonicalDigest) (configs : List ConfigRow)
    (eligibleDispositions : Nat) (corpus : BalancedCorpus) : Outcome :=
  if (∀ row ∈ configs, row.params.learner = none) ∧
      eligibleDispositions < settings.minDispositions then .insufficientData
  else
    match challenge settings active incumbent corpus with
    | .error _ => .insufficientData
    | .ok c =>
      if c.Wins settings active then
        .proposed (c.proposal settings active incumbent canonicalDigest eligibleDispositions corpus)
      else .notBetter

end Fit

/-- The proposals of old that say less of their holdout. -/
def legacyParams (params : StoredParams) : List StoredParams :=
  [{ params with learner := params.learner.map fun learner =>
      { learner with holdoutWeight := none } },
    { params with learner := params.learner.map fun learner =>
      { learner with holdoutWeight := none, holdoutDispositions := none } }]

/-- A proposal is written once; what is on record under its version has to be its content. -/
def persist (snapshot : List ConfigRow) (ts : Time) (proposal : Proposal) :
    Except LearnerError (Option ConfigRow) :=
  match snapshot.find? (·.version = proposal.version) with
  | none => .ok (some ⟨proposal.version, proposal.weights, proposal.params, ts, false⟩)
  | some existing => do
    ensure (existing.weights = proposal.weights ∧
        existing.params ∈ proposal.params :: legacyParams proposal.params)
      (.mismatch proposal.version)
    return none

/-- `_retrain_in_snapshot` on the rows its transaction sees: the row it adds, if any. -/
def retrainInSnapshot (settings : LearnerSettings) (canonicalDigest : CanonicalDigest)
    (snapshot : List ConfigRow) (ts : Time) (eligibleDispositions : Nat)
    (corpus : BalancedCorpus) : Except LearnerError (Option ConfigRow) := do
  match snapshot.filter (·.active) with
  | [active] =>
    let _ ← snapshot.mapM fun row => require row.runtime? (.invalid row.version)
    let incumbent ← require active.runtime? (.invalid active.version)
    match fitOutcome settings active incumbent canonicalDigest snapshot eligibleDispositions
        corpus with
    | .proposed proposal => persist snapshot ts proposal
    | .insufficientData => return none
    | .notBetter => return none
  | rows => .error (.activeRows rows.length)

end Nocturne.M2k
