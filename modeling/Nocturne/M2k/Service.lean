import Mathlib.Data.Prod.Lex
import Mathlib.Data.String.Basic
import Nocturne.Lib.Listing
import Nocturne.M2k.Retrain
import Nocturne.Lib.Machine

namespace Nocturne.M2k

open Nocturne.Learner Nocturne.Lib

inductive ConsoleError
  | staleBase
  | simulationStale
  | versionCollision
  | invalidValues
  | invalidActiveScorer
  | notProposed
  | missingVersion
  | eventUidConflict
  | invalidScorer (version : String)
  | simulation
  | integrity
  | locked
  | noSuchRequest
  | learner (error : LearnerError)
  deriving DecidableEq

inductive ActivationReason
  | humanControl | learnerProposal | contractMigration
  deriving DecidableEq, Repr

/-- What `_deep_receipt` answers of a simulation, as it is kept under `_force`. -/
structure SimulationReceipt where
  simulationDigest : String
  sourceBoundary : Option Ulid
  holdoutDispositions : Nat
  incumbentAccuracyPercent : Option String
  accuracyPercent : Option String
  deltaPercent : Option String
  deriving DecidableEq

/-- One line of the append-only authority log. -/
structure ScorerActivation where
  eventUid : String
  version : String
  previousVersion : String
  actorClass : ActorClass
  machineId : String
  reason : ActivationReason
  changes : List Change
  force : Option SimulationReceipt
  ts : Time
  deriving DecidableEq

structure CreateScorerConfigRequest where
  eventUid : String
  baseVersion : String
  values : ScorerValues
  simulationDigest : String
  machineId : String

structure ActivateScorerConfigRequest where
  eventUid : String
  machineId : String

/-- How far a request has come; its transaction's `now()` is `ts`. -/
inductive Request
  /-- It took the control lock, then began. -/
  | creating (ts : Time)
  /-- It began, and waits for the control lock. -/
  | waiting (ts : Time)
  | activating (ts : Time)
  | over
  deriving DecidableEq

/-- A retraining transaction: the rows of its snapshot. -/
structure Retraining where
  snapshot : List ConfigRow
  ts : Time

structure Console where
  configs : Table String ConfigRow (·.version)
  activations : Table String ScorerActivation (·.eventUid)
  clock : Time
  requests : List Request
  /-- The request that holds the control lock. -/
  control : Option Nat
  retraining : Option Retraining

section Reads

variable (c : Console)

def activeConfig : Except ConsoleError ConfigRow :=
  match c.configs.rows.filter (·.active) with
  | [active] => .ok active
  | _ => .error .invalidActiveScorer

def valuesOf (row : ConfigRow) : Except ConsoleError ScorerValues :=
  require row.values? (.invalidScorer row.version)

def configView (row : ConfigRow) : Except ConsoleError ScorerConfigurationView :=
  require row.view? (.invalidScorer row.version)

/-- What `scorer_console` lists. -/
def configViews : Except ConsoleError (List ScorerConfigurationView) :=
  c.configs.rows.mapM configView

/-- `audition` up to its guard: the versions it compares. -/
def audition (proposalVersion : String) :
    Except ConsoleError (ConfigRow × ScorerConfigurationView) := do
  let incumbent ← activeConfig c
  let proposal ← require (c.configs.get? proposalVersion) .notProposed
  ensure (proposal.active = false ∧ proposal.Proposes) .notProposed
  let view ← configView proposal
  return (incumbent, view)

end Reads

section Writes

variable (c : Console) (ts : Time)

def ConfigRow.deactivated (row : ConfigRow) : ConfigRow := { row with active := false }

def ConfigRow.activated (row : ConfigRow) : ConfigRow := { row with active := true }

@[simp] theorem ConfigRow.version_deactivated (row : ConfigRow) :
    row.deactivated.version = row.version := rfl

@[simp] theorem ConfigRow.version_activated (row : ConfigRow) :
    row.activated.version = row.version := rfl

/-- The partial unique index over active rows. -/
def checkOneActive (configs : Table String ConfigRow (·.version)) : Except ConsoleError Unit :=
  ensure ((configs.rows.filter (·.active)).length ≤ 1) .integrity

def validateControlReplay (activation : ScorerActivation) (targetVersion : String)
    (body : CreateScorerConfigRequest) : Except ConsoleError ScorerConfigurationView := do
  let target ← require (c.configs.get? targetVersion) .eventUidConflict
  ensure (activation.version = targetVersion ∧ activation.previousVersion = body.baseVersion ∧
    activation.actorClass = .human ∧ activation.machineId = body.machineId ∧
    activation.reason = .humanControl) .eventUidConflict
  let values ← valuesOf target
  ensure (values = body.values ∧
    activation.force.map (·.simulationDigest) = some body.simulationDigest) .eventUidConflict
  configView target

/-- The active version's `params` under the values and the `_control` of a request. -/
def controlParams (active : ConfigRow) (body : CreateScorerConfigRequest)
    (changes : List Change) : StoredParams :=
  { active.params with
    tau := body.values.1.tau
    topK := body.values.1.topK
    memoryContextShare := some body.values.1.memoryContextShare
    halfLifeTimeDays := body.values.1.halfLifeTimeDays
    halfLifeHistDays := body.values.1.halfLifeHistDays
    control := some {
      eventUid := body.eventUid
      parentVersion := active.version
      actorClass := .human
      machineId := body.machineId
      changedParameterIds := (changes.map (·.parameterId)).insertionSort (· ≤ ·) } }

/-- The version a request writes. -/
def controlRow (active : ConfigRow) (body : CreateScorerConfigRequest) (changes : List Change) :
    ConfigRow :=
  { version := "m2k-" ++ body.eventUid
    weights := body.values.1.weights
    params := controlParams active body changes
    createdAt := ts
    active := true }

def createInSnapshot (body : CreateScorerConfigRequest) (receipt : Option SimulationReceipt) :
    Except ConsoleError (ScorerConfigurationView × Console) := do
  let targetVersion := "m2k-" ++ body.eventUid
  match c.activations.get? body.eventUid with
  | some replay =>
    let view ← validateControlReplay c replay targetVersion body
    return (view, c)
  | none =>
    let active ← activeConfig c
    ensure (active.version = body.baseVersion) .staleBase
    let receipt ← require receipt .simulation
    ensure (receipt.simulationDigest = body.simulationDigest) .simulationStale
    ensure (c.configs.get? targetVersion = none) .versionCollision
    let values ← valuesOf active
    let changes := changesBetween values body.values
    let target := controlRow ts active body changes
    ensure (target.runtime?.isSome) .invalidValues
    let configs ← require ((c.configs.modify active.version ConfigRow.deactivated
      ConfigRow.version_deactivated).insert? target) .integrity
    checkOneActive configs
    let activations ← require (c.activations.insert?
      { eventUid := body.eventUid
        version := targetVersion
        previousVersion := active.version
        actorClass := .human
        machineId := body.machineId
        reason := .humanControl
        changes
        force := some receipt
        ts }) .integrity
    let view ← configView target
    return (view, { c with configs, activations })

/-- The rows with the active flag moved. -/
def flipped (active target : ConfigRow) : Table String ConfigRow (·.version) :=
  (c.configs.modify active.version ConfigRow.deactivated
    ConfigRow.version_deactivated).modify target.version ConfigRow.activated
      ConfigRow.version_activated

/-- The line of an activated proposal. -/
def proposalLine (active target : ConfigRow) (body : ActivateScorerConfigRequest)
    (changes : List Change) : ScorerActivation :=
  { eventUid := body.eventUid
    version := target.version
    previousVersion := active.version
    actorClass := .human
    machineId := body.machineId
    reason := .learnerProposal
    changes
    force := none
    ts }

def activateProposal (version : String) (body : ActivateScorerConfigRequest) :
    Except ConsoleError (ScorerConfigurationView × Console) := do
  match c.activations.get? body.eventUid with
  | some replay =>
    ensure (replay.version = version ∧ replay.actorClass = .human ∧
      replay.machineId = body.machineId ∧ replay.reason = .learnerProposal) .eventUidConflict
    let target ← require (c.configs.get? version) .missingVersion
    let view ← configView target
    return (view, c)
  | none =>
    let active ← activeConfig c
    let target ← require (c.configs.get? version) .missingVersion
    ensure (target.active = false ∧ target.Proposes) .notProposed
    let activeValues ← valuesOf active
    let targetValues ← valuesOf target
    checkOneActive (flipped c active target)
    let activations ← require (c.activations.insert?
      (proposalLine ts active target body (changesBetween activeValues targetValues))) .integrity
    let view ← configView target.activated
    return (view, { c with configs := flipped c active target, activations })

end Writes

/-- A deployment: the learner's settings and its digest. -/
structure Deployment where
  settings : LearnerSettings
  canonicalDigest : CanonicalDigest

/-- One retraining, on the rows of its snapshot, committed into the rows there are. -/
def retrain (w : Deployment) (c : Console) (eligibleDispositions : Nat) (corpus : BalancedCorpus) :
    Except ConsoleError Console := do
  let retraining ← require c.retraining .noSuchRequest
  match retrainInSnapshot w.settings w.canonicalDigest retraining.snapshot retraining.ts
      eligibleDispositions corpus with
  | .error error => .error (.learner error)
  | .ok none => return { c with retraining := none }
  | .ok (some proposal) =>
    let configs ← require (c.configs.insert? proposal) .integrity
    return { c with configs, retraining := none }

section Machine

/-- The request is over, and the lock free again if it held it. -/
def Console.finish (c : Console) (k : Nat) : Console :=
  { c with
    requests := c.requests.set k .over
    control := if c.control = some k then none else c.control }

inductive Action
  /-- Time passes. -/
  | tick (elapsed : Time)
  | lockCreate
  | create (k : Nat) (body : CreateScorerConfigRequest) (receipt : Option SimulationReceipt)
  | beginActivate
  | lockActivate (k : Nat)
  | activate (k : Nat) (version : String) (body : ActivateScorerConfigRequest)
  /-- A request's transaction is rolled back. -/
  | abort (k : Nat)
  | beginRetrain
  | retrain (eligibleDispositions : Nat) (corpus : BalancedCorpus)
  | abortRetrain

def Request.creating? : Request → Option Time
  | .creating ts => some ts
  | _ => none

def Request.waiting? : Request → Option Time
  | .waiting ts => some ts
  | _ => none

def Request.activating? : Request → Option Time
  | .activating ts => some ts
  | _ => none

def step (w : Deployment) (c : Console) : Action → Except ConsoleError Console
  | .tick elapsed => .ok { c with clock := c.clock + elapsed }
  | .lockCreate => do
    ensure (c.control = none) .locked
    return { c with
      requests := c.requests ++ [.creating c.clock]
      control := some c.requests.length }
  | .create k body receipt => do
    let ts ← require (c.requests[k]?.bind Request.creating?) .noSuchRequest
    let (_, c') ← createInSnapshot c ts body receipt
    return c'.finish k
  | .beginActivate => .ok { c with requests := c.requests ++ [.waiting c.clock] }
  | .lockActivate k => do
    let ts ← require (c.requests[k]?.bind Request.waiting?) .noSuchRequest
    ensure (c.control = none) .locked
    return { c with requests := c.requests.set k (.activating ts), control := some k }
  | .activate k version body => do
    let ts ← require (c.requests[k]?.bind Request.activating?) .noSuchRequest
    let (_, c') ← activateProposal c ts version body
    return c'.finish k
  | .abort k => .ok (c.finish k)
  | .beginRetrain => do
    ensure (c.retraining.isNone) .locked
    return { c with retraining := some ⟨c.configs.rows, c.clock⟩ }
  | .retrain eligibleDispositions corpus => retrain w c eligibleDispositions corpus
  | .abortRetrain => .ok { c with retraining := none }

/-- What the service lists activations by: the timestamp, then the event uid. -/
def ScorerActivation.stamp (line : ScorerActivation) : Time ×ₗ String :=
  toLex (line.ts, line.eventUid)

/-- The activation history as the service shows it. -/
def Console.history (c : Console) : List ScorerActivation :=
  listing ScorerActivation.stamp c.activations.rows

/-- Each line follows on the one before it, and the last made the active version. -/
structure Chained (c : Console) : Prop where
  links : c.history.IsChain fun a b => b.previousVersion = a.version
  last : ∀ a ∈ c.history.getLast?, ∀ row ∈ c.configs.rows, row.active = true →
    a.version = row.version

/-- The version loads, and answers for every project. -/
def ConfigRow.Serves (row : ConfigRow) : Prop :=
  ∃ config, row.runtime? = some config ∧ ∀ project, (weightsForProject? config project).isSome

/-- A human control's version that carries a learner's proposal on. -/
def ConfigRow.Inherits (row : ConfigRow) : Prop := row.Proposes ∧ row.params.control ≠ none

instance : DecidablePred ConfigRow.Inherits := fun _ => inferInstanceAs (Decidable (_ ∧ _))

/-- One active version, and every version one that serves and that the console can show. -/
structure Console.Sound (c : Console) : Prop where
  active : (c.configs.rows.filter (·.active)).length = 1
  serves : ∀ row ∈ c.configs.rows, row.Serves
  shown : ∀ row ∈ c.configs.rows, row.values?.isSome

def console (w : Deployment) : Machine Console Action ConsoleError where
  start c := c.Sound ∧ Chained c ∧ (∀ row ∈ c.configs.rows, ¬row.Inherits) ∧
    c.requests = [] ∧ c.control = none ∧ c.retraining = none
  step := step w

end Machine

section Small

def plainParams : StoredParams where
  tau := 1 / 2
  topK := 4
  nearMissK := 4
  memoryContextShare := some (1 / 10)
  budgetPct := none
  budgetTokens := none
  halfLifeTimeDays := 30
  halfLifeHistDays := 30
  candidatePool := 64
  locationWeight := none
  halfLifeLocationHops := none
  threadWeight := none
  whereWeight := none
  projectOffsets := none
  axes := none
  learner := none
  control := none

/-- The version a deployment starts with. -/
def firstRow : ConfigRow := ⟨"v1", ⟨1 / 2, 1 / 2, 0, 0, 0, 0⟩, plainParams, 0, true⟩

def someScore : ReplayScore ℚ := ⟨0, 0, 0, 0, 0⟩

/-- A version the learner proposed. -/
def proposedRow : ConfigRow where
  version := "m2f-00"
  weights := ⟨1, 0, 0, 0, 0, 0⟩
  params := { plainParams with
    learner := some
      { status := "proposed"
        algorithm := algorithmId
        sourceDigest := "00"
        sourceBoundary := 9
        trainingCutoff := 1
        holdoutDispositions := some 1
        holdoutWeight := some 1
        settings := ⟨⟨25, 1 / 5, 3 / 10, 1 / 50, 1 / 100, 1⟩, 1000, trainables 25 25 []⟩
        fit := ⟨1, 0, 1, 0, 0, 1 / 2, 1 / 10, false⟩
        replay := (someScore, someScore)
        biasOffsets := [] } }
  createdAt := 0
  active := false

def firstConsole : Console := ⟨⟨[firstRow, proposedRow], by decide⟩, .empty, 1, [], none, none⟩

def someValues : ScorerValues :=
  ⟨{ tau := 1 / 2
     topK := 4
     memoryContextShare := 1 / 5
     halfLifeTimeDays := 30
     halfLifeHistDays := 30
     weights := ⟨1 / 2, 1 / 2, 0, 0, 0, 0⟩ }, by decide +kernel⟩

def someReceipt : SimulationReceipt := ⟨"ab", none, 0, none, none, none⟩

def createsFrom (baseVersion eventUid : String) : CreateScorerConfigRequest :=
  ⟨eventUid, baseVersion, someValues, "ab", "m"⟩

/-- A learner that is never asked. -/
def idleDeployment : Deployment := ⟨⟨25, 1 / 5, 3 / 10, 1 / 50, 1 / 100, 1⟩, fun _ => "00"⟩

end Small

end Nocturne.M2k
