import Mathlib.Data.List.MinMax
import Mathlib.Data.Prod.Lex
import Nocturne.Inject.Annotations
import Nocturne.Learner.Model
import Nocturne.Lib.Listing
import Nocturne.Lib.PyValue
import Nocturne.Memory.Service

namespace Nocturne.Learner

open Nocturne.Inject Nocturne.Lib

/-- A row of `injection_event` as the learner reads it: its features are what was stored. -/
structure LoggedEvent where
  eventUid : Ulid
  injectionId : Uuid
  threadId : Uuid
  machineId : String
  principalId : String
  projectKey : Option String
  scorerVersion : String
  memoryId : Uuid
  features : List (String × PyValue)
  score : ℚ
  rank : ℤ
  shownAs : ShownAs
  actorClass : ActorClass
  outcome : Option Outcome
  ts : Time

section Labels

def ExplicitPositive (outcome : Option Outcome) : Prop :=
  outcome ∈ [some .addedBack, some .cited, some .midThreadAdded]

def Negative (outcome : Option Outcome) : Prop :=
  outcome ∈ [some (.removed .notRelevant), some (.removed .never), some .midThreadRemoved]

def PassivePositive (outcome : Option Outcome) : Prop :=
  outcome ∈ [some .kept, some .autoEntered]

instance : DecidablePred ExplicitPositive := fun _ => inferInstanceAs (Decidable (_ ∈ _))

instance : DecidablePred Negative := fun _ => inferInstanceAs (Decidable (_ ∈ _))

instance : DecidablePred PassivePositive := fun _ => inferInstanceAs (Decidable (_ ∈ _))

/-- Map one stored outcome to its binary label and actor weight. -/
def disposition (outcome : Option Outcome) (actorClass : ActorClass) (passiveDiscount : ℚ) :
    Option (Bool × ℚ) :=
  if ExplicitPositive outcome then some (true, 1)
  else if Negative outcome then some (false, 1)
  else if actorClass = .human then
    if outcome = some .kept then some (true, 1) else none
  else if actorClass = .passive ∧ PassivePositive outcome then some (true, passiveDiscount)
  else none

def LoggedEvent.label (row : LoggedEvent) (passiveDiscount : ℚ) : Option (Bool × ℚ) :=
  disposition row.outcome row.actorClass passiveDiscount

end Labels

section Identities

variable (lower : String → String)

def normalizeIdentity (value : String) : List Char :=
  (lower (Text.strip value)).toList.map fun c => if c = '_' then '-' else c

def excludedTokens : List (List Char) :=
  ["test".toList, "fixture".toList, "verification".toList]

def IdentityValueIsExcluded (value : String) : Prop :=
  let normalized := normalizeIdentity lower value
  normalized ∈ excludedTokens ∨
    ∃ token ∈ Text.splitOn '-' (normalized.map fun c => if c = ':' then '-' else c),
      token ∈ excludedTokens

instance (value : String) : Decidable (IdentityValueIsExcluded lower value) :=
  inferInstanceAs (Decidable (_ ∨ ∃ token ∈ _, _))

/-- Recognize the enacted fixture/test/verification identity classes. -/
def IdentityIsExcluded (principalId machineId : String) : Prop :=
  IdentityValueIsExcluded lower principalId ∨ IdentityValueIsExcluded lower machineId ∨
    lower (Text.strip machineId) = "d1-relay" ∨
    "nocturne-deploy-verify-".toList <+: (lower (Text.strip principalId)).toList

instance (principalId machineId : String) :
    Decidable (IdentityIsExcluded lower principalId machineId) :=
  inferInstanceAs (Decidable (_ ∨ _ ∨ _ ∨ _))

end Identities

section Gates

variable (env : Env) (rows : List LoggedEvent) (annotations : List InjectionEventAnnotation)

def VerificationOnly (eventUid : Ulid) : Prop :=
  ∃ entry ∈ annotations, entry.targetEventUid = eventUid ∧
    entry.kind = "verification_only"

instance (eventUid : Ulid) : Decidable (VerificationOnly annotations eventUid) :=
  inferInstanceAs (Decidable (∃ entry ∈ annotations, _))

/-- A row that keeps its gate out of learning. -/
def LoggedEvent.Excludes (row : LoggedEvent) : Prop :=
  VerificationOnly annotations row.eventUid ∨
    IdentityIsExcluded env.lower row.principalId row.machineId

instance (row : LoggedEvent) : Decidable (row.Excludes env annotations) :=
  inferInstanceAs (Decidable (_ ∨ _))

/-- One excluded member excludes its whole gate. -/
def ExcludedGate (injectionId : Uuid) : Prop :=
  ∃ member ∈ rows, member.injectionId = injectionId ∧ member.Excludes env annotations

instance (injectionId : Uuid) : Decidable (ExcludedGate env rows annotations injectionId) :=
  inferInstanceAs (Decidable (∃ member ∈ rows, _))

def eligibleRows : List LoggedEvent :=
  rows.filter fun row => ¬ExcludedGate env rows annotations row.injectionId

end Gates

section Features

namespace LoggedEvent

variable (row : LoggedEvent)

def stored (feature : Feature) : PyValue := PyValue.get row.features (featureKey feature)

def unitNumber (feature : Feature) (value : PyValue) : Except LearnerError ℚ := do
  let normalized ← require value.asNumber (.notNumeric row.eventUid feature)
  ensure (0 ≤ normalized ∧ normalized ≤ 1) (.outsideUnit row.eventUid feature)
  return normalized

def requiredFeature (feature : Feature) : Except LearnerError ℚ :=
  row.unitNumber feature (row.stored feature)

/-- `_features` -/
def linearFeatures : Except LearnerError (ScorerWeights ℚ) := do
  let sem ← row.requiredFeature .sem
  let kw ← row.requiredFeature .kw
  let time ← row.requiredFeature .time
  let proj ← row.requiredFeature .proj
  let freq ← row.requiredFeature .freq
  let hist ← row.requiredFeature .hist
  return { sem, kw, time, proj, freq, hist }

/-- `_optional_feature`; a feature that is not there reads as `None`. -/
def optionalFeature (feature : Feature) : Except LearnerError (Option ℚ) :=
  match (row.stored feature).asPresent with
  | none => .ok none
  | some value => do
    let normalized ← row.unitNumber feature value
    return some normalized

/-- `row.features.get(name)`, of the nine features already checked. -/
def checkedFeature (feature : Feature) : Option ℚ := (row.stored feature).asNumber

def frozenBody : Except LearnerError String :=
  require ((PyValue.get row.features "_memory").asMapping.bind fun memory =>
    (PyValue.get memory "body").asStr) (.noFrozenBody row.eventUid)

/-- An integer the prepare recorded of itself. -/
def prepared (name : String) : Option ℤ :=
  (PyValue.get row.features "_prepare").asMapping.bind fun prepare =>
    (PyValue.get prepare name).asInt

def bodyTokens (env : Env) : Except LearnerError Nat := do
  let body ← row.frozenBody
  return env.cl100kTokenCount body

/-- One labeled row with its frozen replay inputs. -/
def learningExample (env : Env) (configs : List (ScorerConfig ℚ)) (label : Bool × ℚ) :
    Except LearnerError (LearningExample ℚ) := do
  let source ← require (configs.find? (·.version = row.scorerVersion))
    (.missingScorer row.eventUid row.scorerVersion)
  let features ← row.linearFeatures
  let location ← row.optionalFeature .loc
  let thread ← row.optionalFeature .thread
  let «where» ← row.optionalFeature .where
  let preLocation := dot (source.weightsForProject row.projectKey) features
  let localized := mixLocality source.params.locationWeight location preLocation
  let localized := mixLocality source.params.threadWeight thread localized
  let localized := mixLocality source.params.whereWeight «where» localized
  let localized := applyAxes localized row.checkedFeature source.axes
  let bodyTokens ← row.bodyTokens env
  return {
    eventUid := row.eventUid
    injectionId := row.injectionId
    memoryId := row.memoryId
    ts := row.ts
    features
    baselineBias := row.score - localized - source.biasOffset row.memoryId
    targetInjected := label.1
    actorWeight := label.2
    shownAs := row.shownAs
    bodyTokens
    locationFeature := location
    locationWeight := source.params.locationWeight
    threadFeature := thread
    threadId := some row.threadId
    whereFeature := «where»
    whereWeight := source.params.whereWeight
    projectKey := row.projectKey }

end LoggedEvent

end Features

section Boundaries

variable (env : Env) (configs : List (ScorerConfig ℚ)) (passiveDiscount : ℚ)

/-- The weight a memory's explicit positives give it, where it has any. -/
def explicitPositiveWeight (rows : List LoggedEvent) (memoryId : Uuid) : Option ℚ :=
  match rows.filterMap fun row =>
    if row.memoryId = memoryId ∧ ExplicitPositive row.outcome then
      ((row.label passiveDiscount).filter (·.1)).map (·.2)
    else none with
  | [] => none
  | weights => some (weights.foldl max 0)

/-- `_context_tokens` -/
def contextTokens (members : List LoggedEvent) : Option ℤ :=
  members.findSome? fun row => (row.prepared "model_context_tokens").filter (0 < ·)

/-- `_recorded_share_tokens` -/
def recordedShareTokens (members : List LoggedEvent) (source : ScorerConfig ℚ)
    (contextTokens : ℤ) : ℤ :=
  match members.findSome? fun row => (row.prepared "share_tokens").filter (0 ≤ ·) with
  | some shareTokens => shareTokens
  | none =>
    let shareTokens := ⌊source.params.memoryContextShare * contextTokens⌋
    source.params.legacyBudgetTokens.elim shareTokens fun budget => min shareTokens budget

def tokenTotal (rows : List LoggedEvent) : Except LearnerError Nat := do
  let costs ← rows.mapM (·.bodyTokens env)
  return costs.sum

def LoggedEvent.stamp (row : LoggedEvent) : ℤ ×ₗ Ulid := toLex (row.rank, row.eventUid)

instance stampOrder : LinearOrder (ℤ ×ₗ Ulid) := Prod.Lex.instLinearOrder ℤ Ulid

instance stampPreorder : Preorder (ℤ ×ₗ Ulid) := stampOrder.toPreorder

/-- The first cut of each memory that was wanted after all, with its weight. -/
def valuableCuts (positives : Uuid → Option ℚ) :
    List Uuid → List LoggedEvent → List (LoggedEvent × ℚ)
  | _, [] => []
  | seen, row :: rows =>
    match positives row.memoryId with
    | some weight =>
      if row.shownAs = .budgetCut ∧ row.memoryId ∉ seen then
        (row, weight) :: valuableCuts positives (row.memoryId :: seen) rows
      else valuableCuts positives seen rows
    | none => valuableCuts positives seen rows

def cutBoundary (regularTokens : Nat) (contextTokens : ℤ) (cut : LoggedEvent × ℚ) :
    Except LearnerError (ShareBoundary ℚ) := do
  let bodyTokens ← cut.1.bodyTokens env
  return {
    eventUid := cut.1.eventUid
    injectionId := cut.1.injectionId
    requiredShare := (regularTokens + bodyTokens) / contextTokens
    targetAtLeast := true
    actorWeight := cut.2
    kind := .valuableBudgetCut }

/-- What becomes of the last card that entered says whether it was worth its room. -/
def marginalBoundary (requiredShare : ℚ) (marginal : LoggedEvent) : Option (ShareBoundary ℚ) :=
  let boundary : ShareBoundary ℚ :=
    { eventUid := marginal.eventUid
      injectionId := marginal.injectionId
      requiredShare
      targetAtLeast := false
      actorWeight := 1
      kind := .marginalRemoved }
  if Negative marginal.outcome then some boundary
  else if marginal.outcome = some .kept then
    some { boundary with actorWeight := passiveDiscount, kind := .marginalUncited }
  else none

/-- Pins that overflowed the room of their prepare. -/
def pinBoundary (members : List LoggedEvent) (totalTokens : Nat) (contextTokens : ℤ) :
    Except LearnerError (Option (ShareBoundary ℚ)) :=
  match members.head?, (members.filter (·.shownAs = .pinned)).argmin (·.stamp) with
  | some first, some firstPin => do
    let source ← require (configs.find? (·.version = first.scorerVersion))
      (.missingScorer first.eventUid first.scorerVersion)
    if recordedShareTokens members source contextTokens < totalTokens then
      return some {
        eventUid := firstPin.eventUid
        injectionId := firstPin.injectionId
        requiredShare := totalTokens / contextTokens
        targetAtLeast := true
        actorWeight := 1
        kind := .pinOverflow }
    else return none
  | _, _ => .ok none

def gateBoundaries (positives : Uuid → Option ℚ) (members : List LoggedEvent) :
    Except LearnerError (List (ShareBoundary ℚ)) :=
  match contextTokens members with
  | none => .ok []
  | some contextTokens => do
    let selectedRegular := members.filter (·.shownAs = .injected)
    let regularTokens ← tokenTotal env selectedRegular
    let pinnedTokens ← tokenTotal env (members.filter (·.shownAs = .pinned))
    let cuts ← (valuableCuts positives [] (listing LoggedEvent.stamp members)).mapM
      (cutBoundary env regularTokens contextTokens)
    let marginal := (selectedRegular.argmax (·.stamp)).bind
      (marginalBoundary passiveDiscount (regularTokens / contextTokens))
    let pin ← pinBoundary configs members (regularTokens + pinnedTokens) contextTokens
    return cuts ++ marginal.toList ++ pin.toList

def gateIds (rows : List LoggedEvent) : List Uuid :=
  (rows.map (·.injectionId)).dedup.insertionSort (· ≤ ·)

def gateMembers (rows : List LoggedEvent) (injectionId : Uuid) : List LoggedEvent :=
  rows.filter (·.injectionId = injectionId)

/-- Project room-up/down evidence without minting feedback. -/
def shareBoundaries (rows : List LoggedEvent) : Except LearnerError (List (ShareBoundary ℚ)) := do
  let gates ← (gateIds rows).mapM fun injectionId =>
    gateBoundaries env configs passiveDiscount (explicitPositiveWeight passiveDiscount rows)
      (gateMembers rows injectionId)
  return gates.flatten

end Boundaries

structure LearningEvidence where
  examples : List (LearningExample ℚ)
  shareBoundaries : List (ShareBoundary ℚ)
  hygieneExcludedDispositions : Nat

section Projection

variable (env : Env) (rows : List LoggedEvent) (annotations : List InjectionEventAnnotation)
  (configs : List (ScorerConfig ℚ)) (passiveDiscount : ℚ)

def labeledRows (rows : List LoggedEvent) : List (LoggedEvent × (Bool × ℚ)) :=
  rows.filterMap fun row => (row.label passiveDiscount).map (row, ·)

/-- Apply grading and whole-gate hygiene exactly once for all consumers. -/
def projectLearningEvidence : Except LearnerError LearningEvidence := do
  let eligible := eligibleRows env rows annotations
  let examples ← (labeledRows passiveDiscount eligible).mapM fun labeled =>
    labeled.1.learningExample env configs labeled.2
  let shareBoundaries ← shareBoundaries env configs passiveDiscount eligible
  return {
    examples
    shareBoundaries
    hygieneExcludedDispositions := (rows.filter fun row =>
      ExcludedGate env rows annotations row.injectionId ∧
        (row.label passiveDiscount).isSome).length }

end Projection

end Nocturne.Learner
