import Nocturne.Memory.Service

namespace Nocturne.Queue

open Nocturne.Lib Nocturne.Memory

structure ExtractionCandidate where
  label : String
  body : String
  kind : MemoryKind
  keywords : List String
  projectKey : Option String := none
  originLocations : List String := []
  verdict : Verdict
  targetIds : List Uuid := []
  deriving DecidableEq

/-- The bounds the request contract puts on one candidate. -/
def ExtractionCandidate.Shape (draft : ExtractionCandidate) : Prop :=
  1 ≤ draft.label.length ∧ draft.label.length ≤ 64 ∧ 1 ≤ draft.body.length ∧
    2 ≤ draft.keywords.length ∧ draft.keywords.length ≤ 5 ∧
    (∀ keyword ∈ draft.keywords, ¬Text.isBlank keyword ∧ Text.isTrimmed keyword) ∧
    draft.keywords.Nodup ∧ draft.targetIds.Nodup ∧ (draft.verdict = .new ↔ draft.targetIds = [])

instance (draft : ExtractionCandidate) : Decidable draft.Shape :=
  inferInstanceAs (Decidable (_ ∧ _))

/-- The heads a draft proposes to replace. -/
def ExtractionCandidate.replaces (draft : ExtractionCandidate) : List Uuid :=
  if draft.verdict.Replaces then draft.targetIds else []

structure ExtractionRequest where
  principalId : String
  threadId : Uuid
  machineId : String
  editor : String
  originLocation : Option String := none
  candidates : List ExtractionCandidate
  deriving DecidableEq

structure SeedRequest where
  principalId : String
  batchUid : Uuid
  sourceName : String
  sourceSha256 : String
  markdown : String
  machineId : String
  editor : String
  candidates : List ExtractionCandidate
  deriving DecidableEq

/-- The request a run of admissions serves; a seed's children hang off its source revision. -/
inductive Source
  | thread (request : ExtractionRequest)
  | seed (request : SeedRequest) (sourceRevisionUid : Ulid)
  deriving DecidableEq

namespace Source

def principalId : Source → String
  | thread request => request.principalId
  | seed request _ => request.principalId

def machineId : Source → String
  | thread request => request.machineId
  | seed request _ => request.machineId

def birthplace : Source → Birthplace
  | thread request => .thread request.threadId
  | seed request _ => .seed request.batchUid request.sourceName request.sourceSha256

def command (draft : ExtractionCandidate) : Source → CreateMemoryCommand
  | thread request =>
    { principalId := request.principalId
      label := draft.label
      body := draft.body
      kind := draft.kind
      keywords := draft.keywords
      projectKey := draft.projectKey
      threadOrigin := some (toString request.threadId)
      originThreadId := some request.threadId
      originLocation := request.originLocation
      originLocations := draft.originLocations
      editor := request.editor
      machineId := request.machineId }
  | seed request sourceRevisionUid =>
    { principalId := request.principalId
      label := draft.label
      body := draft.body
      kind := draft.kind
      keywords := draft.keywords
      projectKey := draft.projectKey
      originPath := some request.sourceName
      editor := request.editor
      machineId := request.machineId
      parentUid := some sourceRevisionUid
      revisionReason := "seed_split_child" }

end Source

/-- A candidate in the store whose card is not filed yet: its neighbors are read again,
one at a time, before the verdict's targets are believed. -/
structure Unfiled where
  draft : ExtractionCandidate
  memoryId : Uuid
  unchecked : List Uuid
  activeNeighbors : List Uuid
  deriving DecidableEq

/-- An extraction or a seed between two of its transactions. -/
structure Admission where
  source : Source
  remaining : List ExtractionCandidate
  unfiled : Option Unfiled
  cards : List Uuid
  duplicates : Nat
  deriving DecidableEq

structure QueueCard where
  item : ApprovalQueueItem
  candidate : MemoryUnit
  neighbors : List SimilarityMemoryCard
  deriving DecidableEq

structure QueueDecisionRequest where
  decision : Decision
  approvalMode : ApprovalMode
  actorClass : ActorClass
  machineId : String
  amendedBody : Option String := none
  deriving DecidableEq

/-- The signal pairs the request contract admits. -/
def QueueDecisionRequest.SignalPair (request : QueueDecisionRequest) : Prop :=
  (request.decision = .deny → request.approvalMode = .explicit ∧ request.actorClass = .human) ∧
    (request.approvalMode = .passive ↔ request.actorClass = .passive)

instance (request : QueueDecisionRequest) : Decidable request.SignalPair :=
  inferInstanceAs (Decidable (_ ∧ _))

structure QueueDecisionResponse where
  card : QueueCard
  decision : Decision
  approvalMode : ApprovalMode
  actorClass : ActorClass
  decisionUid : Ulid
  deriving DecidableEq

/-- What a decision carries from its preflight to its transaction. -/
structure DecisionPlan where
  itemUid : Ulid
  request : QueueDecisionRequest
  preparedSplit : Option (List (SplitChild × Embedding))
  amendment : Option MemoryUnitChanges
  deriving DecidableEq

variable (env : Env) (s : Store)

def lockedMemory (memoryId : Uuid) : Except SpineError MemoryUnit :=
  require (s.units.get? memoryId) (.queueConflict s!"memory {memoryId} is missing")

def card (item : ApprovalQueueItem) : Except SpineError QueueCard := do
  let row ← require (s.units.get? item.candidateMemoryId) .queueNotFound
  let candidate ← contractMemory row
  return {
    item
    candidate
    neighbors := item.neighborIds.filterMap fun id => (s.units.get? id).map fun u =>
      { memoryId := id, score := env.cosine u.embedding row.embedding } }

section Ingest

def isActive (principalId : String) (memoryId : Uuid) : Prop :=
  ∃ u ∈ s.units.get? memoryId, u.principalId = principalId ∧ u.status = .active

instance (principalId : String) (memoryId : Uuid) : Decidable (isActive s principalId memoryId) :=
  inferInstanceAs (Decidable (∃ u ∈ s.units.get? memoryId, _))

def startExtract (request : ExtractionRequest) : Except SpineError Admission := do
  ensure (∀ draft ∈ request.candidates, draft.Shape) (.contract "candidates")
  return ⟨.thread request, request.candidates, none, [], 0⟩

/-- 24 KiB. -/
def seedBytes : Nat := 24 * 1024

def validateSeed (request : SeedRequest) : Except SpineError PUnit := do
  ensure (1 ≤ request.candidates.length ∧ request.candidates.length ≤ 64 ∧
    ∀ draft ∈ request.candidates, draft.Shape) (.contract "candidates")
  ensure (Text.pathName request.sourceName = request.sourceName.toList ∧
    (".md".toList <:+ (env.lower request.sourceName).toList ∨
      ".markdown".toList <:+ (env.lower request.sourceName).toList))
    (.queueValidation "source_name must be a Markdown basename")
  ensure (¬Text.isBlank request.markdown) (.queueValidation "seed markdown must not be blank")
  ensure (request.markdown.utf8ByteSize ≤ seedBytes)
    (.queueValidation "seed markdown exceeds the 24 KiB limit")
  ensure (env.sha256 request.markdown = request.sourceSha256)
    (.queueValidation "seed markdown digest does not match source_sha256")

/-- The cards this batch already has, if it was ingested before. -/
def seedBatch (request : SeedRequest) : Except SpineError (Option (List ApprovalQueueItem)) :=
  let conflict : SpineError := .queueConflict "seed batch UID already names a different document"
  let rows := (s.items.rows.filter (·.birthplace.batchUid = some request.batchUid)).insertionSort
    fun a b => a.createdAt < b.createdAt ∨ a.createdAt = b.createdAt ∧ a.itemUid ≤ b.itemUid
  match rows with
  | first :: _ => do
    ensure (first.principalId = request.principalId ∧ first.birthplace =
      .seed request.batchUid request.sourceName request.sourceSha256) conflict
    return some rows
  | [] =>
    if ∃ item ∈ s.items.rows, item.principalId = request.principalId ∧ item.state = .rejected ∧
        item.birthplace.sourceSha256 = some request.sourceSha256 then
      return some []
    else
      match s.units.rows.filter fun u => u.principalId = request.principalId ∧
        u.threadOrigin = some s!"seed:{request.batchUid}" with
      | [] => return none
      | source :: _ => do
        ensure (source.originPath = some request.sourceName ∧
          env.sha256 source.body = request.sourceSha256) conflict
        return some []

def SeedRequest.sourceCommand (request : SeedRequest) : CreateMemoryCommand :=
  { principalId := request.principalId
    label := .ofList (("Seed source · " ++ request.sourceName).toList.take 120)
    body := request.markdown
    kind := .projectNote
    keywords := ["seed", "source"]
    threadOrigin := some s!"seed:{request.batchUid}"
    originPath := some request.sourceName
    editor := request.editor
    machineId := request.machineId
    revisionReason := "seed_source_split" }

/-- Keep the whole document as the revision its children hang off. -/
def seedSource (request : SeedRequest) (embedding : Embedding) :
    Except SpineError (Admission × Store) := do
  let ((_, revisionUid), s) ← createSplitSource env s request.sourceCommand embedding
  return (⟨.seed request revisionUid, request.candidates, none, [], 0⟩, s)

def discardCandidate (memoryId : Uuid) (machineId : String) : Except SpineError Store := do
  let candidate ← lockedMemory s memoryId
  let (_, s) ← s.cas fun revUid =>
    { memoryId
      expectedRevision := candidate.revision
      revUid
      editor := "extraction"
      originMachineId := machineId
      reason := "invalid_queue_target"
      changes := { status := some .tombstoned } }
  return s

/-- The card of an admitted candidate. -/
def Admission.item (admission : Admission) (unfiled : Unfiled) : ApprovalQueueItem :=
  { itemUid := s.freshUlid
    candidateMemoryId := unfiled.memoryId
    principalId := admission.source.principalId
    birthplace := admission.source.birthplace
    verdict := unfiled.draft.verdict
    neighborIds := unfiled.activeNeighbors
    targetIds := unfiled.draft.targetIds
    state := .pending
    createdAt := s.session.now
    decidedAt := none }

/-- File the card once its neighbors are read, or discard the candidate: a verdict may
only name neighbors still active. -/
def enqueue (admission : Admission) (unfiled : Unfiled) :
    Except SpineError (Option Admission × Store) := do
  if ∃ id ∈ unfiled.draft.targetIds, id ∉ unfiled.activeNeighbors then
    let s ← discardCandidate s unfiled.memoryId admission.source.machineId
    return (none, s)
  else
    let s ← s.drawn.insertItem (admission.item s unfiled)
    return (some { admission with
      unfiled := none
      cards := admission.cards ++ [unfiled.memoryId] }, s)

/-- The next transaction of an extraction or a seed; `none` once it has answered. -/
def ingest (admission : Admission) (embedding : Embedding) :
    Except SpineError (Option Admission × Store) :=
  match admission.unfiled, admission.remaining with
  | some unfiled, _ =>
    match unfiled.unchecked with
    | id :: unchecked =>
      .ok (some { admission with
        unfiled := some { unfiled with
          unchecked
          activeNeighbors :=
            if isActive s admission.source.principalId id then unfiled.activeNeighbors ++ [id]
            else unfiled.activeNeighbors } }, s)
    | [] => enqueue s admission unfiled
  | none, draft :: remaining => do
    let (created, s) ← createCandidate env s (admission.source.command draft) draft.replaces
      embedding
    match created with
    | none =>
      return (some { admission with remaining, duplicates := admission.duplicates + 1 }, s)
    | some created =>
      return (some { admission with
        remaining
        unfiled := some ⟨draft, created.memory.id, created.neighbors.map (·.memoryId), []⟩ }, s)
  | none, [] =>
    match admission.source with
    | .thread _ => return (none, s)
    | .seed .. => do
      let s ← relateSiblings s admission.cards
      return (none, s)

end Ingest

section Curator

def proposalText (value : Option String) (key : String) : Except SpineError String := do
  let text ← require value (.queueValidation s!"curator {key} must be nonblank text")
  ensure (¬Text.isBlank text) (.queueValidation s!"curator {key} must be nonblank text")
  return text

def proposalKeywords (value : Option (List String)) : Except SpineError (List String) := do
  let keywords ← require value (.queueValidation "curator keywords must contain 2-5 values")
  ensure (2 ≤ keywords.length ∧ keywords.length ≤ 5)
    (.queueValidation "curator keywords must contain 2-5 values")
  ensure ((∀ word ∈ keywords, word ≠ "" ∧ Text.isTrimmed word ∧ word = env.lower word) ∧
    keywords.Nodup) (.queueValidation "curator keywords must be distinct lowercase terms")
  return keywords

def proposalChild (child : SplitChild) : Except SpineError SplitChild := do
  let label ← proposalText (some child.label) "label"
  let body ← proposalText (some child.body) "body"
  let keywords ← proposalKeywords env (some child.keywords)
  return ⟨label, body, keywords⟩

def proposalChildren (proposal : Proposal) : Except SpineError (List SplitChild) := do
  let children ← require proposal.children (.queueValidation "curator split requires children")
  children.mapM (proposalChild env)

def memoryRow (memoryId : Uuid) (principalId : String) : Except SpineError MemoryUnit := do
  let missing : SpineError := .queueValidation s!"curator memory {memoryId} is missing"
  let row ← require (s.units.get? memoryId) missing
  ensure (row.principalId = principalId) missing
  return row

/-- What one curator verdict asks the queue to file. -/
structure CuratorEnqueue where
  runUid : Ulid
  findingUid : Ulid
  principalId : String
  machineId : String
  action : Verdict
  memoryIds : List Uuid
  proposal : Proposal
  deriving DecidableEq

/-- A replacement head drawn from the first implicated one. -/
def CuratorEnqueue.command (request : CuratorEnqueue) (source : MemoryUnit) :
    Except SpineError CreateMemoryCommand := do
  let label ← proposalText request.proposal.label "label"
  let body ← proposalText request.proposal.body "body"
  let keywords ← proposalKeywords env request.proposal.keywords
  return {
    principalId := request.principalId
    label
    body
    kind := source.kind
    keywords
    projectKey := source.projectKey
    threadOrigin := source.threadOrigin
    originThreadId := source.originThreadId
    originPath := source.originPath
    editor := "maintenance"
    machineId := request.machineId
    revisionReason := s!"curation/{request.findingUid}/proposal" }

/-- The heads besides the candidate that an approval will touch. -/
def CuratorEnqueue.targetIds (request : CuratorEnqueue) : List Uuid :=
  if request.action.Replaces then request.memoryIds
  else if request.action = .contradict then request.memoryIds.tail
  else []

/-- A curator card on the candidate row as it was last read. -/
def CuratorEnqueue.item (request : CuratorEnqueue) (candidateRow : MemoryUnit)
    (neighbors : List Uuid) : ApprovalQueueItem :=
  { itemUid := s.freshUlid
    candidateMemoryId := candidateRow.id
    principalId := request.principalId
    birthplace :=
      .curator request.runUid request.findingUid candidateRow.revision request.proposal
    verdict := request.action
    neighborIds := neighbors
    targetIds := request.targetIds
    state := .pending
    createdAt := s.session.now
    decidedAt := none }

def insertCuratorItem (request : CuratorEnqueue) (candidateRow : MemoryUnit)
    (neighbors : List Uuid) : Except SpineError Store := do
  let item := request.item s candidateRow neighbors
  let s ← s.drawn.insertItem item
  let _ ← card env s item
  return s

end Curator

section Decide

def edgeType : Verdict → Option EdgeType
  | .merge => some .mergedFrom
  | .supersede => some .supersedes
  | .contradict => some .contradicts
  | _ => none

def targetReason (item : ApprovalQueueItem) (action : String) : String :=
  match item.birthplace.findingUid with
  | some findingUid => s!"curation/{findingUid}/{action}"
  | none => action

/-- One implicated head: tombstoned by a replacement, linked by every verdict. -/
def enactTarget (item : ApprovalQueueItem) (candidate : MemoryUnit) (machineId : String)
    (edge : EdgeType) (s : Store) (targetId : Uuid) : Except SpineError Store := do
  let target ← lockedMemory s targetId
  ensure (target.principalId = candidate.principalId ∧ target.status = .active)
    (.queueConflict "verdict target is no longer an active same-principal unit")
  if item.verdict.Replaces then
    let (_, s) ← s.cas fun revUid =>
      { memoryId := targetId
        expectedRevision := target.revision
        revUid
        editor := "maintenance"
        originMachineId := machineId
        reason := targetReason item (if item.verdict = .merge then "merge" else "supersede")
        changes := { status := some .tombstoned } }
    s.insertEdge candidate.id targetId edge
  else s.insertEdge candidate.id targetId edge

def enactTargets (item : ApprovalQueueItem) (candidate : MemoryUnit) (machineId : String) :
    Except SpineError Store :=
  match edgeType item.verdict with
  | none => .ok s
  | some edge => item.targetIds.foldlM (enactTarget item candidate machineId edge) s

/-- Record the owner's decision and close the card. -/
def close (item : ApprovalQueueItem) (request : QueueDecisionRequest) :
    Except SpineError (QueueDecisionResponse × Store) := do
  let decisionUid := s.freshUlid
  let s ← s.drawn.insertDecision
    { decisionUid
      itemUid := item.itemUid
      decision := request.decision
      approvalMode := request.approvalMode
      actorClass := request.actorClass }
  let state := request.decision.itemState
  let s := s.setItemState item.itemUid state
  let card ← card env s { item with state, decidedAt := some s.session.now }
  return (⟨card, request.decision, request.approvalMode, request.actorClass, decisionUid⟩, s)

def curatorCas (candidate : MemoryUnit) (machineId : String) (findingUid : Ulid)
    (suffix : String) (changes : MemoryUnitChanges) : Except SpineError Store := do
  let (_, s) ← s.cas fun revUid =>
    { memoryId := candidate.id
      expectedRevision := candidate.revision
      revUid
      editor := "maintenance"
      originMachineId := machineId
      reason := s!"curation/{findingUid}/{suffix}"
      changes }
  return s

/-- Carry an approved curator verdict out. -/
def enactCurator (item : ApprovalQueueItem) (candidate : MemoryUnit) (findingUid : Ulid)
    (payload : Proposal) (plan : DecisionPlan) : Except SpineError Store :=
  let machineId := plan.request.machineId
  match item.verdict with
  | .merge | .supersede => do
    ensure (candidate.status = .candidate)
      (.queueConflict "curator replacement is no longer pending")
    let s ← enactTargets s item candidate machineId
    curatorCas s candidate machineId findingUid "activate"
      (plan.amendment.getD { status := some .active })
  | .contradict => do
    ensure (candidate.status = .active)
      (.queueConflict "curator contradiction source is no longer active")
    enactTargets s item candidate machineId
  | .retire =>
    curatorCas s candidate machineId findingUid "retire" { status := some .tombstoned }
  | .keywordRepair => do
    let keywords ← proposalKeywords env payload.keywords
    curatorCas s candidate machineId findingUid "keyword-repair" { keywords := some keywords }
  | .split => do
    let children ← require plan.preparedSplit
      (.queueValidation "curator split children were not prepared")
    enactCuratorSplit env s candidate children machineId findingUid
  | .new => .error (.queueValidation "unknown curator action")

def decideCuratorRow (item : ApprovalQueueItem) (candidate : MemoryUnit) (findingUid : Ulid)
    (candidateRevision : Nat) (payload : Proposal) (plan : DecisionPlan) :
    Except SpineError (QueueDecisionResponse × Store) := do
  let request := plan.request
  ensure (request.approvalMode = .explicit ∧ request.actorClass = .human)
    (.queueValidation "curator verdicts require an explicit human decision")
  ensure (candidate.revision = candidateRevision)
    (.queueConflict "curator target changed after diagnosis; run curators again")
  let s ←
    match request.decision with
    | .deny =>
      if candidate.status = .candidate then
        curatorCas s candidate request.machineId findingUid "rejected"
          { status := some .tombstoned }
      else .ok s
    | .approve => enactCurator env s item candidate findingUid payload plan
  close env s item request

/-- What a decision does before it writes its candidate, and what it writes there. -/
def enactCandidate (item : ApprovalQueueItem) (candidate : MemoryUnit)
    (request : QueueDecisionRequest) : Except SpineError (MemoryUnitChanges × Store) :=
  match request.decision with
  | .deny => .ok ({ status := some .tombstoned }, s)
  | .approve => do
    let s ← enactTargets s item candidate request.machineId
    let label ← approvalLabel env s candidate
    return ({ status := some .active, label := some label }, s)

/-- A thread-, seed- or symphony-born candidate becomes active or is tombstoned. -/
def decideCandidate (item : ApprovalQueueItem) (candidate : MemoryUnit)
    (request : QueueDecisionRequest) : Except SpineError (QueueDecisionResponse × Store) := do
  ensure (candidate.status = .candidate) (.queueConflict "queue candidate is no longer pending")
  let (changes, s) ← enactCandidate env s item candidate request
  let (_, s) ← s.cas fun revUid =>
    { memoryId := candidate.id
      expectedRevision := candidate.revision
      revUid
      editor := if request.actorClass = .human then "human" else "passive"
      originMachineId := request.machineId
      reason := if request.decision = .approve then "approved" else "rejected"
      changes }
  close env s item request

/-- A decided card answers the same decision again and refuses any other. -/
def replayDecision (item : ApprovalQueueItem) (prior : ApprovalDecision)
    (request : QueueDecisionRequest) : Except SpineError QueueDecisionResponse := do
  request.amendedBody.forM fun body => do
    let current ← lockedMemory s item.candidateMemoryId
    ensure (current.body = body)
      (.queueConflict "the decided replacement has different text")
  ensure (prior.decision = request.decision ∧ prior.approvalMode = request.approvalMode ∧
    prior.actorClass = request.actorClass)
    (.queueConflict "queue item already has a different decision")
  let card ← card env s item
  return ⟨card, prior.decision, prior.approvalMode, prior.actorClass, prior.decisionUid⟩

def decideRow (item : ApprovalQueueItem) (plan : DecisionPlan) :
    Except SpineError (QueueDecisionResponse × Store) :=
  match s.decisions.rows.find? (·.itemUid = item.itemUid) with
  | some prior => do
    let response ← replayDecision env s item prior plan.request
    return (response, s)
  | none => do
    ensure (¬(item.verdict = .contradict ∧ plan.request.approvalMode = .passive))
      (.queueValidation "contradictions require explicit approval")
    let candidate ← lockedMemory s item.candidateMemoryId
    match item.birthplace with
    | .curator _ findingUid candidateRevision payload =>
      decideCuratorRow env s item candidate findingUid candidateRevision payload plan
    | .thread _ | .seed .. | .symphony .. => decideCandidate env s item candidate plan.request

/-- The owner's replacement text, validated before the decision transaction. -/
def prepareCuratorAmendment (body : String) (embedding : Embedding) :
    Except SpineError MemoryUnitChanges := do
  validateBody env body
  return {
    body := some body
    embedding := some embedding
    embeddingModel := some env.embeddingModel
    status := some .active }

def amendmentOf (item : Option ApprovalQueueItem) (request : QueueDecisionRequest)
    (embedding : Embedding) : Except SpineError (Option MemoryUnitChanges) :=
  match request.amendedBody with
  | none => .ok none
  | some body => do
    let item ← require item .queueNotFound
    ensure (item.birthplace.IsCurator ∧ item.verdict.Replaces ∧ request.decision = .approve ∧
      request.actorClass = .human)
      (.queueValidation "only an explicit curator replacement can be amended")
    let changes ← prepareCuratorAmendment env body embedding
    return some changes

def preparedSplitOf (item : Option ApprovalQueueItem) (embeddings : List Embedding) :
    Except SpineError (Option (List (SplitChild × Embedding))) :=
  match item with
  | none => .ok none
  | some item =>
    match item.verdict, item.birthplace with
    | .split, .curator _ _ _ payload => do
      let children ← proposalChildren env payload
      let prepared ← prepareCuratorSplit env children embeddings
      return some prepared
    | _, _ => .ok none

/-- Everything a decision does before its transaction. -/
def decidePreflight (itemUid : Ulid) (request : QueueDecisionRequest) (embedding : Embedding)
    (embeddings : List Embedding) : Except SpineError DecisionPlan := do
  ensure request.SignalPair (.contract "decision")
  let item := s.items.get? itemUid
  let amendment ← amendmentOf env item request embedding
  let preparedSplit ← preparedSplitOf env item embeddings
  return { itemUid, request, preparedSplit, amendment }

def decide (plan : DecisionPlan) : Except SpineError (QueueDecisionResponse × Store) := do
  let item ← require (s.items.get? plan.itemUid) .queueNotFound
  decideRow env s item plan

def decideBatchRow (request : QueueDecisionRequest) (item : ApprovalQueueItem) (s : Store) :
    Except SpineError (QueueCard × Store) :=
  if item.state = .pending then do
    let (response, s) ← decideRow env s item ⟨item.itemUid, request, none, none⟩
    return (response.card, s)
  else do
    let card ← card env s item
    return (card, s)

def decideBatchRows (request : QueueDecisionRequest) (s : Store) :
    List ApprovalQueueItem → Except SpineError (List QueueCard × Store)
  | [] => .ok ([], s)
  | item :: rest => do
    let (card, s) ← decideBatchRow env request item s
    let (cards, s) ← decideBatchRows request s rest
    return (card :: cards, s)

/-- The cards one owner action decides together. -/
def batchRows (batchUid : Uuid) : List ApprovalQueueItem :=
  (s.items.rows.filter (·.birthplace.batchUid = some batchUid)).insertionSort fun a b =>
    a.createdAt < b.createdAt ∨ a.createdAt = b.createdAt ∧ a.itemUid ≤ b.itemUid

/-- One decision for every pending card of a batch, all or nothing. -/
def decideBatch (batchUid : Uuid) (request : QueueDecisionRequest) :
    Except SpineError (List QueueCard × Store) := do
  ensure request.SignalPair (.contract "decision")
  ensure (request.approvalMode = .explicit ∧ request.actorClass = .human)
    (.queueValidation "queue batches require an explicit human decision")
  ensure (request.amendedBody = none) (.queueValidation "amend one curator replacement at a time")
  let rows := batchRows s batchUid
  ensure (rows ≠ []) .queueNotFound
  decideBatchRows env request s rows

end Decide

end Nocturne.Queue
