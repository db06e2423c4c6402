import Mathlib.Data.Rat.Floor
import Nocturne.Lib.Table
import Nocturne.Inject.Scorer

namespace Nocturne

open Nocturne.Lib Nocturne.Inject

/-- UUIDs and ULIDs are ordered by the number they encode. -/
abbrev Uuid := Nat
abbrev Ulid := Nat

/-- Instants on the database clock. -/
abbrev Time := Nat

abbrev Embedding := List ℚ

inductive MemoryKind
  | fact | preference | procedure | projectNote | persona | pinned
  deriving DecidableEq, Repr

inductive MemoryStatus
  | active | candidate | staged | quarantined | tombstoned
  deriving DecidableEq, Repr

/-- Queue-only heads: admitted to the store, not yet to memory. -/
def MemoryStatus.Unadmitted : MemoryStatus → Prop
  | .candidate | .staged => True
  | _ => False

instance : DecidablePred MemoryStatus.Unadmitted
  | .candidate | .staged => isTrue trivial
  | .active | .quarantined | .tombstoned => isFalse id

structure Stats where
  injections : Nat
  removals : Nat
  citations : Nat
  neverKills : Nat
  lastInjectedAt : Option Time
  reinforcements : Nat
  deriving DecidableEq, Repr

def Stats.zero : Stats := ⟨0, 0, 0, 0, none, 0⟩

/-- The mutable cloud head for one atomic memory unit. -/
structure MemoryUnit where
  id : Uuid
  principalId : String
  label : String
  body : String
  kind : MemoryKind
  keywords : List String
  embedding : Embedding
  embeddingModel : String
  projectKey : Option String
  threadOrigin : Option String
  originThreadId : Option Uuid
  originPath : Option String
  originLocation : Option String
  originLocations : List String
  runId : Option String
  originAgent : Option String
  pin : Bool
  status : MemoryStatus
  revision : Nat
  stats : Stats
  bias : ℚ
  createdAt : Time
  updatedAt : Time
  deriving DecidableEq

/-- One append-only memory head revision. -/
structure MemoryRevision where
  revUid : Ulid
  parentUid : Option Ulid
  memoryId : Uuid
  revision : Nat
  body : String
  label : String
  editor : String
  originMachineId : String
  reason : String
  ts : Time
  deriving DecidableEq

inductive EdgeType
  | mergedFrom | supersedes | contradicts | relatesTo
  deriving DecidableEq, Repr

structure MemoryEdge where
  edgeUid : Ulid
  fromMemoryId : Uuid
  toMemoryId : Uuid
  edgeType : EdgeType
  deriving DecidableEq

inductive Verdict
  | new | merge | supersede | contradict | retire | keywordRepair | split
  deriving DecidableEq, Repr

/-- Verdicts that propose a new head in place of the implicated ones. -/
def Verdict.Replaces (v : Verdict) : Prop := v = .merge ∨ v = .supersede

instance : DecidablePred Verdict.Replaces := fun _ => inferInstanceAs (Decidable (_ ∨ _))

structure SplitChild where
  label : String
  body : String
  keywords : List String
  deriving DecidableEq, Repr

/-- The JSON fields a curator verdict may carry; an absent field is `none`. -/
structure Proposal where
  label : Option String
  body : Option String
  keywords : Option (List String)
  children : Option (List SplitChild)
  deriving DecidableEq, Repr

/-- Where a consent card was born, with the columns that birthplace requires. -/
inductive Birthplace
  | thread (threadId : Uuid)
  | seed (batchUid : Uuid) (sourceName sourceSha256 : String)
  | symphony (batchUid : Uuid) (runId originAgent : String)
  | curator (runUid findingUid : Ulid) (candidateRevision : Nat) (payload : Proposal)
  deriving DecidableEq

inductive ItemState
  | pending | approved | rejected
  deriving DecidableEq, Repr

/-- One durable typed consent card for a candidate memory. -/
structure ApprovalQueueItem where
  itemUid : Ulid
  candidateMemoryId : Uuid
  principalId : String
  birthplace : Birthplace
  verdict : Verdict
  neighborIds : List Uuid
  targetIds : List Uuid
  state : ItemState
  createdAt : Time
  decidedAt : Option Time
  deriving DecidableEq

inductive Decision
  | approve | deny
  deriving DecidableEq, Repr

/-- The state a decision closes its card in. -/
def Decision.itemState : Decision → ItemState
  | .approve => .approved
  | .deny => .rejected

inductive ApprovalMode
  | explicit | passive
  deriving DecidableEq, Repr

inductive ActorClass
  | human | passive
  deriving DecidableEq, Repr

structure ApprovalDecision where
  decisionUid : Ulid
  itemUid : Ulid
  decision : Decision
  approvalMode : ApprovalMode
  actorClass : ActorClass
  deriving DecidableEq

structure SymphonyRunResolution where
  runId : String
  principalId : String
  batchUid : Uuid
  winnerOriginAgent : String
  machineId : String
  judgedContext : String
  deriving DecidableEq

structure Thread where
  id : Uuid
  principalId : String
  agentId : String
  machineId : String
  projectKey : Option String
  snapshotTs : Option Time
  deriving DecidableEq

inductive ShownAs
  | injected | nearMiss | pinned | budgetCut
  deriving DecidableEq, Repr

inductive RemovalReason
  | notRelevant | wrong | never
  deriving DecidableEq, Repr

inductive Outcome
  | kept | addedBack | removed (reason : RemovalReason)
  | cited | midThreadRemoved | midThreadAdded
  | autoEntered | autoExited | budgetCut
  deriving DecidableEq, Repr

namespace Outcome

def text : Outcome → String
  | kept => "kept"
  | addedBack => "added_back"
  | removed .notRelevant => "removed:not_relevant"
  | removed .wrong => "removed:wrong"
  | removed .never => "removed:never"
  | cited => "cited"
  | midThreadRemoved => "mid_thread_removed"
  | midThreadAdded => "mid_thread_added"
  | autoEntered => "auto_entered"
  | autoExited => "auto_exited"
  | budgetCut => "budget_cut"

def IsRemoval : Outcome → Prop
  | removed _ => True
  | _ => False

instance : DecidablePred IsRemoval := fun o => by
  cases o <;> unfold IsRemoval <;> infer_instance

/-- Outcomes a committed block renders. -/
def Positive (o : Outcome) : Prop := o = kept ∨ o = addedBack ∨ o = cited

instance : DecidablePred Positive := fun _ => inferInstanceAs (Decidable (_ ∨ _ ∨ _))

def IsFeedback (o : Outcome) : Prop := o = cited ∨ o = midThreadRemoved ∨ o = midThreadAdded

instance : DecidablePred IsFeedback := fun _ => inferInstanceAs (Decidable (_ ∨ _ ∨ _))

end Outcome

/-- A gate shows it as part of the conversation's memory. -/
def ShownAs.Entered (shownAs : ShownAs) : Prop := shownAs = .injected ∨ shownAs = .pinned

instance : DecidablePred ShownAs.Entered := fun _ => inferInstanceAs (Decidable (_ ∨ _))

/-- The card frozen into an event as `features._memory`. -/
structure FrozenMemory where
  label : String
  body : String
  pin : Bool
  updatedAt : String
  deriving DecidableEq

structure MemoryAllocation where
  memoryContextShare : ℚ
  shareTokens : Nat
  regularTokens : Nat
  pinnedTokens : Nat
  totalTokens : Nat
  pinnedOverflowTokens : Nat
  deriving DecidableEq

/-- Append-only injection decision; only its outcome ever changes. -/
structure InjectionEvent where
  id : Nat
  eventUid : Ulid
  injectionId : Uuid
  threadId : Uuid
  agentId : String
  machineId : String
  principalId : String
  projectKey : Option String
  scorerVersion : String
  memoryId : Uuid
  memoryKind : MemoryKind
  features : ScoreFeatures ℚ
  frozen : FrozenMemory
  modelContextTokens : Nat
  allocation : MemoryAllocation
  score : ℚ
  rank : Nat
  shownAs : ShownAs
  actorClass : ActorClass
  outcome : Option Outcome
  ts : Time
  deriving DecidableEq

/-- One scorer version: its typed configuration and the raw never-rule parameters. -/
structure ScorerConfigRow where
  config : ScorerConfig ℚ
  neverBiasStep : Option ℚ
  quarantineKills : Option Int
  active : Bool
  deriving DecidableEq

inductive FindingKind
  | duplicate | contradiction | stale | slop | keyword
  deriving DecidableEq, Repr

/-- One diagnosed finding and the head revisions it recorded as evidence. -/
structure HealthFinding where
  kind : FindingKind
  evidence : List (Uuid × Nat)
  deriving DecidableEq

def HealthFinding.memoryIds (finding : HealthFinding) : List Uuid := finding.evidence.map (·.1)

inductive CuratorActionName
  | keep | act (verdict : Verdict)
  deriving DecidableEq

/-- A judged finding; its pass holds it in memory until the pass is `persisted`. -/
structure CuratorFinding where
  findingUid : Ulid
  runUid : Ulid
  principalId : String
  finding : HealthFinding
  action : CuratorActionName
  persisted : Bool
  deriving DecidableEq

/-- What one transaction draws from its surroundings: the clock and random identifiers. -/
structure Session where
  now : Time
  draws : List Nat
  deriving DecidableEq

structure Store where
  units : Table Uuid MemoryUnit (·.id)
  revisions : Table Ulid MemoryRevision (·.revUid)
  edges : Table Ulid MemoryEdge (·.edgeUid)
  items : Table Ulid ApprovalQueueItem (·.itemUid)
  decisions : Table Ulid ApprovalDecision (·.decisionUid)
  resolutions : Table String SymphonyRunResolution (·.runId)
  findings : Table Ulid CuratorFinding (·.findingUid)
  threads : Table Uuid Thread (·.id)
  events : Table Nat InjectionEvent (·.id)
  configs : Table String ScorerConfigRow (·.config.version)
  session : Session

namespace Store

/-- A palace before its first memory, under the scorer versions it was deployed with. -/
structure Empty (s : Store) : Prop where
  units : s.units = .empty
  revisions : s.revisions = .empty
  edges : s.edges = .empty
  items : s.items = .empty
  decisions : s.decisions = .empty
  resolutions : s.resolutions = .empty
  findings : s.findings = .empty
  threads : s.threads = .empty
  events : s.events = .empty

def deployed (configs : Table String ScorerConfigRow (·.config.version)) : Store where
  units := .empty
  revisions := .empty
  edges := .empty
  items := .empty
  decisions := .empty
  resolutions := .empty
  findings := .empty
  threads := .empty
  events := .empty
  configs := configs
  session := ⟨0, []⟩

/-- Begin a transaction: its clock reading and the identifiers it will draw. -/
def begin (s : Store) (session : Session) : Store := { s with session }

end Store

namespace Birthplace

def IsCurator : Birthplace → Prop
  | .curator .. => True
  | _ => False

instance : DecidablePred IsCurator
  | .curator .. => isTrue trivial
  | .thread _ | .seed .. | .symphony .. => isFalse id

def IsSymphony : Birthplace → Prop
  | .symphony .. => True
  | _ => False

instance : DecidablePred IsSymphony
  | .symphony .. => isTrue trivial
  | .thread _ | .seed .. | .curator .. => isFalse id

def batchUid : Birthplace → Option Uuid
  | .seed batchUid _ _ => some batchUid
  | .symphony batchUid _ _ => some batchUid
  | _ => none

def sourceSha256 : Birthplace → Option String
  | .seed _ _ sourceSha256 => some sourceSha256
  | _ => none

def findingUid : Birthplace → Option Ulid
  | .curator _ findingUid _ _ => some findingUid
  | _ => none

/-- The head revision a curator card was filed on. -/
def candidateRevision : Birthplace → Option Nat
  | .curator _ _ candidateRevision _ => some candidateRevision
  | _ => none

/-- What a curator card proposes. -/
def payload : Birthplace → Option Proposal
  | .curator _ _ _ payload => some payload
  | _ => none

end Birthplace

end Nocturne
