import Nocturne.Lib.Machine
import Nocturne.Curation.Service
import Nocturne.Inject.Decisions
import Nocturne.Inject.Prepare
import Nocturne.Memory.Patch
import Nocturne.Memory.Staging
import Nocturne.Symphony.Service

namespace Nocturne

open Nocturne.Lib Nocturne.Memory Nocturne.Queue Nocturne.Curation Nocturne.Symphony Nocturne.Inject

/-- A request between two of its transactions, with what it has read so far. -/
inductive Operation
  | patching (plan : PatchPlan)
  | seeding (request : SeedRequest)
  | admitting (admission : Admission)
  | curating (pass : CuratorPass)
  | deciding (plan : DecisionPlan)
  | preparing (plan : PreparePlan)
  | done

namespace Operation

def patching? : Operation → Option PatchPlan
  | patching plan => some plan
  | _ => none

def seeding? : Operation → Option SeedRequest
  | seeding request => some request
  | _ => none

def admitting? : Operation → Option Admission
  | admitting admission => some admission
  | _ => none

def curating? : Operation → Option CuratorPass
  | curating pass => some pass
  | _ => none

def deciding? : Operation → Option DecisionPlan
  | deciding plan => some plan
  | _ => none

def preparing? : Operation → Option PreparePlan
  | preparing plan => some plan
  | _ => none

/-- The principal whose curator lock an operation holds. -/
def curates (op : Operation) : Option String := op.curating?.map (·.principalId)

variable {op : Operation}

@[simp] theorem patching?_eq_some {plan : PatchPlan} :
    op.patching? = some plan ↔ op = .patching plan := by
  cases op <;> simp [patching?]

@[simp] theorem seeding?_eq_some {request : SeedRequest} :
    op.seeding? = some request ↔ op = .seeding request := by
  cases op <;> simp [seeding?]

@[simp] theorem admitting?_eq_some {admission : Admission} :
    op.admitting? = some admission ↔ op = .admitting admission := by
  cases op <;> simp [admitting?]

@[simp] theorem curating?_eq_some {pass : CuratorPass} :
    op.curating? = some pass ↔ op = .curating pass := by
  cases op <;> simp [curating?]

@[simp] theorem deciding?_eq_some {plan : DecisionPlan} :
    op.deciding? = some plan ↔ op = .deciding plan := by
  cases op <;> simp [deciding?]

@[simp] theorem preparing?_eq_some {plan : PreparePlan} :
    op.preparing? = some plan ↔ op = .preparing plan := by
  cases op <;> simp [preparing?]

end Operation

/-- The store, and every request still in flight. -/
structure Palace where
  store : Store
  ops : List Operation

inductive Action
  | create (command : CreateMemoryCommand) (embedding : Embedding)
  | split (command : SplitMemoryCommand) (sourceEmbedding : Embedding)
    (childEmbeddings : List Embedding)
  | stage (request : StageMemoryRequest) (embedding : Embedding)
  | resolve (runId : String) (request : ResolveRunRequest)
  | startPatch (request : PatchMemoryRequest) (embedding : Embedding)
  | patch (op : Nat)
  | startExtract (request : ExtractionRequest)
  | startSeed (request : SeedRequest)
  | seedSource (op : Nat) (embedding : Embedding)
  | ingest (op : Nat) (embedding : Embedding)
  | startPass (principalId machineId : String)
  | advance (op : Nat) (draft : Option CuratorVerdictDraft) (embedding : Embedding)
  | startDecision (itemUid : Ulid) (request : QueueDecisionRequest) (embedding : Embedding)
    (embeddings : List Embedding)
  | decide (op : Nat)
  | decideBatch (batchUid : Uuid) (request : QueueDecisionRequest)
  | prepare (command : PrepareCommand) (query : Embedding)
  | prepareWrite (op : Nat)
  | commit (command : CommitCommand)
  | feedback (command : FeedbackCommand)
  | abandon (op : Nat)

/-- One transaction: what it does, the clock it reads and the identifiers it draws. -/
structure Call where
  session : Session
  action : Action

/-- Everything outside the repository that its decisions rest on. -/
structure World where
  env : Env
  scoring : Scoring
  diagnosis : Diagnosis

namespace Palace

variable (w : World) (p : Palace)

/-- A request enters flight. -/
def launch (s : Store) (op : Operation) : Palace := ⟨s, p.ops ++ [op]⟩

/-- A request in flight moves on. -/
def become (k : Nat) (s : Store) (op : Operation) : Palace := ⟨s, p.ops.set k op⟩

/-- The operation `k`, where it is of the kind `f` reads. -/
def inFlight {α : Type} (k : Nat) (f : Operation → Option α) : Except SpineError α :=
  require (p.ops[k]?.bind f) .noSuchOperation

def step (call : Call) : Except SpineError Palace :=
  let s := p.store.begin call.session
  match call.action with
  | .create command embedding => do
    let (_, s) ← create w.env s command embedding
    return ⟨s, p.ops⟩
  | .split command sourceEmbedding childEmbeddings => do
    let (_, s) ← split w.env s command sourceEmbedding childEmbeddings
    return ⟨s, p.ops⟩
  | .stage request embedding => do
    let (_, s) ← stageSymphony w.env s request embedding
    return ⟨s, p.ops⟩
  | .resolve runId request => do
    let s ← resolve s runId request
    return ⟨s, p.ops⟩
  | .startPatch request embedding => do
    let plan ← patchPreflight w.env s request embedding
    return p.launch s (.patching plan)
  | .patch k => do
    let plan ← p.inFlight k Operation.patching?
    let (_, s) ← patch s plan
    return p.become k s .done
  | .startExtract request => do
    let admission ← startExtract request
    return p.launch s (.admitting admission)
  | .startSeed request => do
    validateSeed w.env request
    match ← seedBatch w.env s request with
    | some _ => return ⟨s, p.ops⟩
    | none => return p.launch s (.seeding request)
  | .seedSource k embedding => do
    let request ← p.inFlight k Operation.seeding?
    let (admission, s) ← seedSource w.env s request embedding
    return p.become k s (.admitting admission)
  | .ingest k embedding => do
    let admission ← p.inFlight k Operation.admitting?
    let (admission, s) ← ingest w.env s admission embedding
    return p.become k s (admission.elim .done .admitting)
  | .startPass principalId machineId => do
    -- one pass at a time for each principal, under its advisory lock
    ensure (∀ op ∈ p.ops, op.curates ≠ some principalId) .noSuchOperation
    let (pass, s) := startPass w.env w.diagnosis s principalId machineId
    return p.launch s (.curating pass)
  | .advance k draft embedding => do
    let pass ← p.inFlight k Operation.curating?
    let (pass, s) ← advance w.env s pass draft embedding
    return p.become k s (pass.elim .done .curating)
  | .startDecision itemUid request embedding embeddings => do
    let plan ← decidePreflight w.env s itemUid request embedding embeddings
    return p.launch s (.deciding plan)
  | .decide k => do
    let plan ← p.inFlight k Operation.deciding?
    let (_, s) ← decide w.env s plan
    return p.become k s .done
  | .decideBatch batchUid request => do
    let (_, s) ← decideBatch w.env s batchUid request
    return ⟨s, p.ops⟩
  | .prepare command query => do
    let plan ← prepareRead w.env w.scoring s command query
    return p.launch s (.preparing plan)
  | .prepareWrite k => do
    let plan ← p.inFlight k Operation.preparing?
    let (_, s) ← prepareWrite w.env s plan
    return p.become k s .done
  | .commit command => do
    let (_, s) ← commit s command
    return ⟨s, p.ops⟩
  | .feedback command => do
    let s ← feedback s command
    return ⟨s, p.ops⟩
  | .abandon k => .ok (p.become k s .done)

end Palace

/-- A palace from its first, empty day on: each call is one transaction, taken whole or
refused whole, in any order. -/
def palace (w : World) : Machine Palace Call SpineError where
  start p := ∃ configs, p = ⟨.deployed configs, []⟩
  step := Palace.step w

section Steps

variable {w : World} {p : Palace} {session : Session}

theorem Palace.ops_launch (p : Palace) (s : Store) (op : Operation) :
    (p.launch s op).ops[p.ops.length]? = some op := by
  simp [Palace.launch]

theorem Palace.get?_launch {s : Store} {op : Operation} (j : Nat) :
    (p.launch s op).ops[j]? = if j = p.ops.length then some op else p.ops[j]? := by
  simp only [launch, List.getElem?_append]
  split
  · rw [if_neg (by omega)]
  · split
    · next hj => simp [hj]
    · rw [List.getElem?_eq_none (by simp; omega), List.getElem?_eq_none (by omega)]

theorem Palace.get?_become {s : Store} {op : Operation} {k : Nat} (j : Nat) :
    (p.become k s op).ops[j]? = if j = k then p.ops[k]?.map fun _ => op else p.ops[j]? := by
  split
  · next hj =>
    subst hj
    exact List.getElem?_set_self'
  · next hj => exact List.getElem?_set_ne (Ne.symm hj)

theorem step_prepare {command : PrepareCommand} {query : Embedding} {plan : PreparePlan}
    (h : prepareRead w.env w.scoring (p.store.begin session) command query = .ok plan) :
    (palace w).step p ⟨session, .prepare command query⟩ =
      .ok (p.launch (p.store.begin session) (.preparing plan)) := by
  simp only [palace, Palace.step, h, ok_bind]
  rfl

theorem step_prepareWrite {k : Nat} {plan : PreparePlan} {r : PrepareResponse × Store}
    (hop : p.ops[k]? = some (.preparing plan))
    (h : prepareWrite w.env (p.store.begin session) plan = .ok r) :
    (palace w).step p ⟨session, .prepareWrite k⟩ = .ok (p.become k r.2 .done) := by
  simp only [palace, Palace.step, Palace.inFlight, hop, Option.bind_some, Operation.preparing?,
    require_some, ok_bind, h]
  rfl

end Steps

section Small

instance : Inhabited Env where
  default :=
    { characterEnv with lower := fun text => .ofList (text.toList.map Char.toLower) }

/-- Features of a memory that shares nothing with the prompt but its direction. -/
instance : Inhabited Scoring where
  default :=
    { features := fun _ query snapshotTs _ candidate =>
        { sem := if candidate.unit.embedding = query then 1 else 0
          kw := 0
          time := if candidate.unit.updatedAt = snapshotTs then 1 else 0
          proj := 0
          freq := 0
          hist := 0
          loc := none
          thread := none
          «where» := none
          axes := [] }
      ftsRank := fun _ _ => none
      postgresReal := id }

instance : Inhabited Diagnosis where
  default :=
    { duplicateFloor := 1
      staleAfter := 180
      cosine := fun a b => if a = b then 1 else 0
      printed := id
      byRelevance := fun _ _ _ => false }

instance : Inhabited World := ⟨⟨default, default, default⟩⟩

/-- A scorer version that reads meaning alone and offers three near misses. -/
def plainConfig : ScorerConfig ℚ :=
  { version := "plain"
    weights := ⟨1, 0, 0, 0, 0, 0⟩
    params :=
      { tau := 1 / 2
        nearMissK := 3
        memoryContextShare := 1 / 10
        halfLifeTimeDays := 1
        halfLifeHistDays := 1
        candidatePool := 10
        locationWeight := 0
        halfLifeLocationHops := 1
        threadWeight := 0
        whereWeight := 0
        legacyBudgetTokens := none }
    biasOffsets := []
    projectOffsets := []
    axes := [] }

/-- One scorer version, whose first `never` already quarantines. -/
def plainPalace : Palace :=
  ⟨.deployed ⟨[⟨plainConfig, some (-1 / 4), some 1, true⟩], by simp⟩, []⟩

/-- A memory as its owner first saves it. -/
def savedMemory (label body : String) : CreateMemoryCommand :=
  { principalId := "owner"
    label
    body
    kind := .fact
    editor := "user"
    machineId := "m" }

/-- A conversation of that owner, asking for what points the way `[1]` does. -/
def openedGate (threadId : Uuid) : PrepareCommand :=
  { threadId
    agentId := "agent"
    machineId := "m"
    principalId := "owner"
    projectKey := none
    locationPath := none
    currentLocation := none
    prompt := "what do I drink?"
    modelContextTokens := 1000
    mode := .gate
    currentMemoryIds := []
    confirmedMemoryIds := []
    excludedMemoryIds := [] }

/-- What a conversation offers to remember. -/
def offeredCandidate (label body : String) : ExtractionCandidate :=
  { label, body, kind := .fact, keywords := ["drink", "taste"], verdict := .new }

def offeredMemories (candidates : List ExtractionCandidate) : ExtractionRequest :=
  { principalId := "owner", threadId := 1, machineId := "m", editor := "agent", candidates }

def explicitly (decision : Decision) : QueueDecisionRequest :=
  { decision, approvalMode := .explicit, actorClass := .human, machineId := "m" }

end Small

end Nocturne
