import Nocturne.Inject.Restore
import Nocturne.Learner.Evidence
import Nocturne.M2k.Config

namespace Nocturne.M2k

open Nocturne.Inject Nocturne.Learner Nocturne.Lib

/-- What `_instant` leaves to binary floating point. -/
structure Floats where
  /-- `value ** exponent` -/
  pow : ℚ → ℚ → ℚ
  /-- `int(share * context_tokens)` -/
  intProduct : ℚ → ℕ → ℕ

inductive SimulationError
  | missingInjection
  | missingEventScorer (version : String)
  | invalidScorer (version : String)
  | invalidEventFeature (eventUid : Ulid) (feature : Feature)
  /-- Arithmetic on a stored feature that is no number. -/
  | typeError (feature : Feature)
  /-- The previewed values make no configuration. -/
  | value
  deriving DecidableEq

section Rows

/-- A number or null, as a features object keeps it. -/
def storedNumber : Option ℚ → PyValue
  | some value => .float value
  | none => .none

/-- `_event_values`: what a decision row stores of its features, of which more is never read. -/
def storedFeatures (event : InjectionEvent) : List (String × PyValue) :=
  [("sem", .float event.features.sem), ("kw", .float event.features.kw),
    ("time", .float event.features.time), ("proj", .float event.features.proj),
    ("freq", .float event.features.freq), ("hist", .float event.features.hist),
    ("loc", storedNumber event.features.loc), ("thread", storedNumber event.features.thread),
    ("where", storedNumber event.features.where)] ++
  (if event.features.axes = [] then []
    else [("axes", .mapping (event.features.axes.map fun axis => (axis.1, .float axis.2)))]) ++
  [("_memory", .mapping
      [("label", .str event.frozen.label), ("body", .str event.frozen.body),
        ("pin", .bool event.frozen.pin), ("updated_at", .str event.frozen.updatedAt)]),
    ("_prepare", .mapping
      [("model_context_tokens", .int event.modelContextTokens),
        ("memory_context_share", .float event.allocation.memoryContextShare),
        ("share_tokens", .int event.allocation.shareTokens),
        ("regular_tokens", .int event.allocation.regularTokens),
        ("pinned_tokens", .int event.allocation.pinnedTokens),
        ("total_tokens", .int event.allocation.totalTokens),
        ("pinned_overflow_tokens", .int event.allocation.pinnedOverflowTokens)])]

/-- A decision row as it is read back. -/
def logged (event : InjectionEvent) : LoggedEvent where
  eventUid := event.eventUid
  injectionId := event.injectionId
  threadId := event.threadId
  machineId := event.machineId
  principalId := event.principalId
  projectKey := event.projectKey
  scorerVersion := event.scorerVersion
  memoryId := event.memoryId
  features := storedFeatures event
  score := event.score
  rank := event.rank
  shownAs := event.shownAs
  actorClass := event.actorClass
  outcome := event.outcome
  ts := event.ts

end Rows

section Features

variable (row : LoggedEvent)

/-- `_feature` -/
def eventFeature (feature : Feature) : Except SimulationError ℚ := do
  let normalized ← require (row.stored feature).asNumber
    (.invalidEventFeature row.eventUid feature)
  ensure (0 ≤ normalized ∧ normalized ≤ 1) (.invalidEventFeature row.eventUid feature)
  return normalized

/-- A feature that `score_features` mixes in, when it is there, as it was stored. -/
def mixedFeature (feature : Feature) : Except SimulationError (Option ℚ) :=
  match row.stored feature with
  | .none => .ok none
  | .bool value => .ok (some (if value then 1 else 0))
  | .int value => .ok (some value)
  | .float value => .ok (some value)
  | .str _ | .list _ | .mapping _ | .other _ => .error (.typeError feature)

def eventFeatures : Except SimulationError (ScoreFeatures ℚ) := do
  let sem ← eventFeature row .sem
  let kw ← eventFeature row .kw
  let time ← eventFeature row .time
  let proj ← eventFeature row .proj
  let freq ← eventFeature row .freq
  let hist ← eventFeature row .hist
  let loc ← mixedFeature row .loc
  let thread ← mixedFeature row .thread
  let «where» ← mixedFeature row .where
  return { sem, kw, time, proj, freq, hist, loc, thread, «where», axes := [] }

/-- `bool(value)` -/
def truthy : PyValue → Bool
  | .none => false
  | .bool value => value
  | .int value => value ≠ 0
  | .float value => value ≠ 0
  | .str value => value ≠ ""
  | .list items => !items.isEmpty
  | .mapping items => !items.isEmpty
  | .other _ => true

/-- `features["_memory"]`, where it has a body. -/
def frozenMemory : Option (List (String × PyValue) × String) := do
  let memory ← (PyValue.get row.features "_memory").asMapping
  let body ← (PyValue.get memory "body").asStr
  return (memory, body)

end Features

section Candidates

variable (floats : Floats) (env : Env) (configs : List (ScorerConfig ℚ))
  (preview : ScorerConfig ℚ) (values : ScorerValues)

def rescaleDecay (value sourceHalfLife targetHalfLife : ℚ) : ℚ :=
  if value = 0 then 0 else floats.pow value (sourceHalfLife / targetHalfLife)

/-- One recorded row under the previewed values; nothing where its memory was not frozen. -/
def instantCandidate (row : LoggedEvent) :
    Except SimulationError (Option (Scored LoggedEvent ℚ)) := do
  let source ← require (configs.find? (·.version = row.scorerVersion))
    (.missingEventScorer row.scorerVersion)
  let features ← eventFeatures row
  let adjusted := { features with
    time := rescaleDecay floats features.time source.params.halfLifeTimeDays
      values.1.halfLifeTimeDays
    hist := rescaleDecay floats features.hist source.params.halfLifeHistDays
      values.1.halfLifeHistDays }
  let baselineBias := row.score - scoreFeatures features
    (source.weightsForProject row.projectKey) source.params source.axes -
      source.biasOffset row.memoryId
  let previewScore := scoreFeatures adjusted (preview.weightsForProject row.projectKey)
    preview.params preview.axes + baselineBias + preview.biasOffset row.memoryId
  return (frozenMemory row).map fun (memory, body) =>
    { candidate := row
      memoryId := row.memoryId
      pin := truthy (PyValue.get memory "pin") || row.shownAs = .pinned
      features := adjusted
      score := previewScore
      rank := 0
      tokenCost := env.cl100kTokenCount body }

/-- The rows in turn, up to the first whose memory was not frozen. -/
def instantCandidates :
    List LoggedEvent → Except SimulationError (Option (List (Scored LoggedEvent ℚ)))
  | [] => .ok (some [])
  | row :: rest => do
    match ← instantCandidate floats env configs preview values row with
    | none => return none
    | some item =>
      let items ← instantCandidates rest
      return items.map (item :: ·)

end Candidates

section Selection

/-- One pass over the regular cards: whatever clears the threshold and still fits. -/
def previewTaken (tau : ℚ) : ℕ → List (Scored LoggedEvent ℚ) → List Uuid
  | _, [] => []
  | remaining, item :: rest =>
    if tau ≤ item.score ∧ item.tokenCost ≤ remaining then
      item.memoryId :: previewTaken tau (remaining - item.tokenCost) rest
    else previewTaken tau remaining rest

inductive ComparisonDisposition
  | alsoShown | wouldAdd | wouldDrop | stillOut
  deriving DecidableEq, Repr

def comparisonDisposition : Bool → Bool → ComparisonDisposition
  | true, true => .alsoShown
  | false, true => .wouldAdd
  | true, false => .wouldDrop
  | false, false => .stillOut

structure ScorerComparisonRow where
  memoryId : Uuid
  label : String
  incumbentScore : ℚ
  previewScore : ℚ
  scoreDelta : ℚ
  incumbentRank : ℤ
  previewRank : Nat
  incumbentSelected : Bool
  previewSelected : Bool
  disposition : ComparisonDisposition

/-- `_event_selected` -/
def eventSelected (row : LoggedEvent) : Bool :=
  match row.outcome with
  | none => row.shownAs ≠ .nearMiss ∧ row.shownAs ≠ .budgetCut
  | some outcome => Selected outcome

def comparisonRow (previewSelected : List Uuid) (item : Scored LoggedEvent ℚ) :
    ScorerComparisonRow :=
  let row := item.candidate
  let selected := decide (row.memoryId ∈ previewSelected)
  { memoryId := row.memoryId
    label := ((frozenMemory row).bind fun frozen =>
      (PyValue.get frozen.1 "label").asStr).getD ""
    incumbentScore := row.score
    previewScore := item.score
    scoreDelta := item.score - row.score
    incumbentRank := row.rank
    previewRank := item.rank
    incumbentSelected := eventSelected row
    previewSelected := selected
    disposition := comparisonDisposition (eventSelected row) selected }

/-- The recorded candidates under a previewed configuration, and the room they compete for. -/
structure InstantPool where
  items : List (Scored LoggedEvent ℚ)
  contextTokens : ℕ
  preview : ScorerConfig ℚ
  values : ScorerValues

namespace InstantPool

variable (pool : InstantPool)

def pins : List (Scored LoggedEvent ℚ) := pool.items.filter (·.pin)

def regular : List (Scored LoggedEvent ℚ) := pool.items.filter (!·.pin)

def sortedPins : List (Scored LoggedEvent ℚ) :=
  pool.pins.insertionSort fun a b => a.memoryId ≤ b.memoryId

def sortedRegular : List (Scored LoggedEvent ℚ) := pool.regular.insertionSort rankBefore

/-- `preview_selected` -/
def selectedIds (floats : Floats) : List Uuid :=
  pool.sortedPins.map (·.memoryId) ++ previewTaken pool.values.1.tau
    (floats.intProduct pool.values.1.memoryContextShare pool.contextTokens) pool.sortedRegular

def comparisons (floats : Floats) : List ScorerComparisonRow :=
  (withRanks 1 (pool.sortedPins ++ pool.sortedRegular)).map
    (comparisonRow (pool.selectedIds floats))

end InstantPool

end Selection

section Simulation

inductive InstantSimulation
  | notRequested
  | notReplayable (injectionId : Uuid)
  | ready (injectionId : Uuid) (candidates : List ScorerComparisonRow)

variable (floats : Floats) (env : Env) (events : List LoggedEvent) (configRows : List ConfigRow)
  (principalId : String) (injectionId : Uuid) (preview : ConfigRow) (values : ScorerValues)

/-- The rows of the injection, by rank. -/
def injectionRows : List LoggedEvent :=
  (events.filter fun row => row.injectionId = injectionId ∧
    row.principalId = principalId).insertionSort fun a b =>
      a.rank < b.rank ∨ a.rank = b.rank ∧ a.eventUid ≤ b.eventUid

/-- `{**preview.params, **preview_values.model_dump(exclude={"weights"})}` -/
def previewParams : StoredParams :=
  { preview.params with
    tau := values.1.tau
    topK := values.1.topK
    memoryContextShare := some values.1.memoryContextShare
    halfLifeTimeDays := values.1.halfLifeTimeDays
    halfLifeHistDays := values.1.halfLifeHistDays }

/-- `_instant` up to the selection; nothing where the injection cannot be replayed. -/
def instantPool : Except SimulationError (Option InstantPool) := do
  match injectionRows events principalId injectionId with
  | [] => .error .missingInjection
  | first :: rest =>
    match first.prepared "model_context_tokens" with
    | none => return none
    | some contextTokens =>
      if contextTokens ≤ 0 then return none
      else
        let configs ← configRows.mapM fun row =>
          require row.runtime? (SimulationError.invalidScorer row.version)
        let runtime ← require
          (fromMappings preview.version values.1.weights (previewParams preview values)) .value
        let items ← instantCandidates floats env configs runtime values (first :: rest)
        return items.map fun items =>
          { items, contextTokens := contextTokens.toNat, preview := runtime, values }

/-- `_instant` -/
def instant (injectionId : Option Uuid) : Except SimulationError InstantSimulation :=
  match injectionId with
  | none => .ok .notRequested
  | some injectionId => do
    match ← instantPool floats env events configRows principalId injectionId preview values with
    | none => return .notReplayable injectionId
    | some pool => return .ready injectionId (pool.comparisons floats)

end Simulation

end Nocturne.M2k
