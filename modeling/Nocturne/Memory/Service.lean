import Nocturne.Memory.Text
import Nocturne.Store.Memory

namespace Nocturne

open Nocturne.Lib

/-- The settings and the outside functions the services are built over: the tokenizer,
Unicode case folding, SHA-256, pgvector's cosine and the clock's text form. -/
structure Env where
  dedupDup : ℚ
  dedupSim : ℚ
  labelMax : Nat
  memoryMaxTokens : Nat
  embeddingModel : String
  cl100kTokenCount : String → Nat
  lower : String → String
  sha256 : String → String
  cosine : Embedding → Embedding → ℚ
  isoformat : Time → String
  dedup_ordered : 0 ≤ dedupSim ∧ dedupSim < dedupDup ∧ dedupDup ≤ 1
  limits_pos : 0 < labelMax ∧ 0 < memoryMaxTokens

/-- Characters for tokens and one-hot embeddings. -/
def characterEnv : Env where
  dedupDup := 92 / 100
  dedupSim := 80 / 100
  labelMax := 64
  memoryMaxTokens := 128
  embeddingModel := "one-hot"
  cl100kTokenCount := String.length
  lower := id
  sha256 := id
  cosine := fun a b => if a = b then 1 else 0
  isoformat := toString
  dedup_ordered := by norm_num
  limits_pos := by decide

namespace Memory

open Text

structure CreateMemoryCommand where
  principalId : String
  label : String
  body : String
  kind : MemoryKind
  keywords : List String := []
  projectKey : Option String := none
  threadOrigin : Option String := none
  originThreadId : Option Uuid := none
  originPath : Option String := none
  originLocation : Option String := none
  originLocations : List String := []
  editor : String
  machineId : String
  force : Bool := false
  parentUid : Option Ulid := none
  revisionReason : String := ""
  deriving DecidableEq

structure SimilarityMemoryCard where
  memoryId : Uuid
  score : ℚ
  deriving DecidableEq

inductive CreateOutcome
  | created (memory : MemoryUnit)
  | similar (cards : List SimilarityMemoryCard)
  deriving DecidableEq

structure CandidateCreated where
  memory : MemoryUnit
  neighbors : List SimilarityMemoryCard
  deriving DecidableEq

inductive DedupBand
  | distinct | similar | duplicate
  deriving DecidableEq, Repr

variable (env : Env) (s : Store)

/-- The public head; its contract has no staged status. -/
def contractMemory (unit : MemoryUnit) : Except SpineError MemoryUnit := do
  ensure (unit.status ≠ .staged) (.contract "status")
  return unit

def validateLabel (label : String) : Except SpineError PUnit :=
  ensure (label.length ≤ env.labelMax)
    (.memoryValidation s!"label has {label.length} Unicode code points; maximum is {env.labelMax}")

def validateBody (body : String) : Except SpineError PUnit :=
  let tokens := env.cl100kTokenCount body
  ensure (tokens ≤ env.memoryMaxTokens)
    (.memoryValidation s!"body has {tokens} cl100k_base tokens; maximum is {env.memoryMaxTokens}")

def validateSplitKeywordsFrom (seen : List String) : List String → Except SpineError PUnit
  | [] => .ok .unit
  | keyword :: rest => do
    ensure (keyword ≠ "" ∧ isTrimmed keyword ∧ env.lower keyword = keyword)
      (.memoryValidation "split child keywords must be trimmed nonblank lowercase terms")
    ensure (keyword ∉ seen) (.memoryValidation "split child keywords must be distinct")
    validateSplitKeywordsFrom (keyword :: seen) rest

def validateSplitKeywords (keywords : List String) : Except SpineError PUnit := do
  ensure (2 ≤ keywords.length ∧ keywords.length ≤ 5)
    (.memoryValidation "split children require 2-5 keywords")
  validateSplitKeywordsFrom env [] keywords

def classifyDedupScore (score : Option ℚ) : DedupBand :=
  match score with
  | none => .distinct
  | some score =>
    if score < env.dedupSim then .distinct
    else if score < env.dedupDup then .similar
    else .duplicate

def dedupMatches (principalId : String) (embedding : Embedding)
    (statuses : List MemoryStatus := [.active]) (excluded : List Uuid := []) :
    List SimilarityMemoryCard :=
  ((s.units.rows.filter fun u => u.principalId = principalId ∧ u.status ∈ statuses ∧
      env.dedupSim ≤ env.cosine u.embedding embedding ∧ u.id ∉ excluded).map fun u =>
    { memoryId := u.id, score := env.cosine u.embedding embedding : SimilarityMemoryCard})
  |>.insertionSort fun a b => b.score < a.score ∨ b.score = a.score ∧ a.memoryId ≤ b.memoryId

/-- The lowest id among the active heads carrying the label. -/
def findActiveLabel (principalId label : String) (excluded : Option Uuid := none) :
    Option MemoryUnit :=
  ((s.units.rows.filter fun u => u.principalId = principalId ∧ u.label = label ∧
      u.status = .active ∧ some u.id ≠ excluded).insertionSort fun a b => a.id ≤ b.id).head?

def rejectedBody (principalId body : String) : Prop :=
  ∃ u ∈ s.units.rows, ∃ q ∈ s.items.rows, q.candidateMemoryId = u.id ∧
    u.principalId = principalId ∧ q.principalId = principalId ∧ q.state = .rejected ∧
    u.status = .tombstoned ∧ u.body = body

instance (principalId body : String) : Decidable (rejectedBody s principalId body) :=
  inferInstanceAs (Decidable (∃ u ∈ s.units.rows, ∃ q ∈ s.items.rows, _))

/-- Insert a head at revision 1 and its first revision row. -/
def insertRoot (command : CreateMemoryCommand) (embedding : Embedding)
    (status : MemoryStatus := .active) (memoryId : Option Uuid := none)
    (runId originAgent : Option String := none) : Except SpineError (MemoryUnit × Store) := do
  let unit : MemoryUnit :=
    { id := memoryId.getD s.freshUuid
      principalId := command.principalId
      label := command.label
      body := command.body
      kind := command.kind
      keywords := command.keywords
      embedding
      embeddingModel := env.embeddingModel
      projectKey := command.projectKey
      threadOrigin := command.threadOrigin
      originThreadId := command.originThreadId
      originPath := command.originPath
      originLocation := command.originLocation
      originLocations := command.originLocations
      runId
      originAgent
      pin := false
      status
      revision := 1
      stats := .zero
      bias := 0
      createdAt := s.session.now
      updatedAt := s.session.now }
  let s ← s.drawn.insertUnit unit
  let s ← s.drawn.insertRevision
    { revUid := s.freshUlid
      parentUid := command.parentUid
      memoryId := unit.id
      revision := 1
      body := unit.body
      label := unit.label
      editor := command.editor
      originMachineId := command.machineId
      reason := command.revisionReason
      ts := s.session.now }
  return (unit, s)

/-- Create a root head or return the exact dedup-band outcome. -/
def create (command : CreateMemoryCommand) (embedding : Embedding) :
    Except SpineError (CreateOutcome × Store) := do
  validateLabel env command.label
  validateBody env command.body
  let found := dedupMatches env s command.principalId embedding
  ensure (¬rejectedBody s command.principalId command.body)
    (.memoryValidation
      "This exact memory was rejected. Change the fact before saving it again.")
  let band := classifyDedupScore env (found.head?.map (·.score))
  ensure (band ≠ .duplicate) (.duplicateMemory ((found.head?.map (·.memoryId)).getD 0))
  match findActiveLabel s command.principalId command.label with
  | some conflict => .error (.labelConflict conflict.id conflict.label)
  | none =>
    if band = .similar ∧ command.force = false then
      return (.similar found, s)
    else
      let (row, s) ← insertRoot env s command embedding
      let row ← contractMemory row
      return (.created row, s)

/-- Admit a queue-only head; `replaces` is never refused as its own duplicate. -/
def createCandidate (command : CreateMemoryCommand) (replaces : List Uuid)
    (embedding : Embedding) : Except SpineError (Option CandidateCreated × Store) := do
  validateLabel env command.label
  validateBody env command.body
  if rejectedBody s command.principalId command.body then
    return (none, s)
  else
    let found := dedupMatches env s command.principalId embedding [.active, .candidate]
    let top := found.find? fun item => item.memoryId ∉ replaces
    if ∃ item ∈ top, env.dedupDup ≤ item.score then
      return (none, s)
    else
      let (row, s) ← insertRoot env s command embedding .candidate
      return (some ⟨row, found⟩, s)

/-- A replacement candidate, not deduplicated against the heads it is drawn from. -/
def createCuratorCandidate (command : CreateMemoryCommand) (excluded : List Uuid)
    (embedding : Embedding) : Except SpineError (Option CandidateCreated × Store) := do
  validateLabel env command.label
  validateBody env command.body
  let found := dedupMatches env s command.principalId embedding [.active, .candidate] excluded
  if ∃ item ∈ found.head?, env.dedupDup ≤ item.score then
    return (none, s)
  else
    let (row, s) ← insertRoot env s command embedding .candidate
    return (some ⟨row, found⟩, s)

/-- One exact, queue-invisible source revision for semantic children. -/
def createSplitSource (command : CreateMemoryCommand) (embedding : Embedding) :
    Except SpineError ((MemoryUnit × Ulid) × Store) := do
  validateLabel env command.label
  let (row, s) ← insertRoot env s command embedding .tombstoned
  match s.parentUids row.id 1 with
  | revisionUid :: _ => return ((row, revisionUid), s)
  | [] => .error (.contract "split source revision was not written")

/-- `relates_to` both ways between every two of the heads. -/
def relateSiblings (ids : List Uuid) : Except SpineError Store :=
  ids.foldlM (fun s left =>
    ids.foldlM (fun s right =>
      if left = right then .ok s else s.insertEdge left right .relatesTo) s) s

section ApprovalLabel

/-- The `attempt`-th handle tried for an approved candidate. -/
def labelAttempt (candidate : MemoryUnit) (attempt : Nat) : String :=
  let qualifier : List Char :=
    match candidate.projectKey with
    | some key =>
      if key = "" then wordQualifier candidate else pathName key
    | none => wordQualifier candidate
  if attempt = 0 then candidate.label
  else
    let number := if 1 < attempt then " " ++ toString attempt else ""
    let room : Int := (env.labelMax / 2 : Nat) - (number.length : Int) - 3
    let suffix := (" · ".toList ++ sliceTo qualifier room) ++ number.toList
    .ofList (rstrip (sliceTo candidate.label.toList ((env.labelMax : Int) - suffix.length)) ++
      suffix)
where
  /-- The first keyword the label does not already contain. -/
  wordQualifier (candidate : MemoryUnit) : List Char :=
    ((candidate.keywords.find? fun word => ¬occursIn word (env.lower candidate.label)).getD
      "fact").toList

/-- Keep the fact under the first handle no active head of its principal carries. -/
def approvalLabel (candidate : MemoryUnit) : Except SpineError String :=
  require (((List.range (s.units.rows.length + 2)).map (labelAttempt env candidate)).find?
    fun label => (findActiveLabel s candidate.principalId label).isNone) .labelSearch

end ApprovalLabel

section Split

structure SplitMemoryCommand where
  principalId : String
  sourceBody : String
  children : List SplitChild
  editor : String
  machineId : String
  projectKey : Option String := none
  threadOrigin : Option String := none
  originThreadId : Option Uuid := none
  originPath : Option String := none
  originLocation : Option String := none
  deriving DecidableEq

inductive SplitOutcome
  | created (source : MemoryUnit) (children : List MemoryUnit)
  | similar (cards : List SimilarityMemoryCard)
  deriving DecidableEq

def validateSplitChildren (labels bodies : List String) :
    List SplitChild → Except SpineError PUnit
  | [] => .ok .unit
  | child :: rest => do
    ensure (¬isBlank child.label ∧ isTrimmed child.label ∧ '\n' ∉ child.label.toList ∧
      '\r' ∉ child.label.toList)
      (.memoryValidation "split child labels must be nonblank trimmed single lines")
    validateLabel env child.label
    ensure (child.label ∉ labels) (.memoryValidation "split child labels must be distinct")
    ensure (¬isBlank child.body) (.memoryValidation "split child bodies must be nonblank")
    validateBody env child.body
    ensure (strip child.body ∉ bodies) (.memoryValidation "split child bodies must be distinct")
    validateSplitKeywords env child.keywords
    validateSplitChildren (child.label :: labels) (strip child.body :: bodies) rest

def validateSplit (command : SplitMemoryCommand) : Except SpineError PUnit := do
  ensure (¬isBlank command.sourceBody) (.memoryValidation "split source_body must be nonblank")
  ensure (2 ≤ command.children.length ∧ command.children.length ≤ 64)
    (.memoryValidation "memory split requires between 2 and 64 children")
  validateLabel env "Split source"
  validateSplitChildren env [] [] command.children

/-- The first child refused outright, or the first near-similar one. -/
def splitRefusal (principalId : String) :
    List (SplitChild × Embedding) → Except SpineError (Option (List SimilarityMemoryCard))
  | [] => .ok none
  | (child, embedding) :: rest => do
    match findActiveLabel s principalId child.label with
    | some conflict => .error (.labelConflict conflict.id conflict.label)
    | none =>
      let found := dedupMatches env s principalId embedding
      match classifyDedupScore env (found.head?.map (·.score)) with
      | .duplicate => .error (.duplicateMemory ((found.head?.map (·.memoryId)).getD 0))
      | .similar => return some found
      | .distinct => splitRefusal principalId rest

/-- Insert one head for each child, in order, under one parent revision. -/
def insertChildren (command : SplitChild → CreateMemoryCommand) (s : Store) :
    List (SplitChild × Embedding) → Except SpineError (List MemoryUnit × Store)
  | [] => .ok ([], s)
  | (child, embedding) :: rest => do
    let (row, s) ← insertRoot env s (command child) embedding
    let (rows, s) ← insertChildren command s rest
    return (row :: rows, s)

/-- Create one exact split family or return its first create-band refusal. -/
def split (command : SplitMemoryCommand) (sourceEmbedding : Embedding)
    (childEmbeddings : List Embedding) : Except SpineError (SplitOutcome × Store) := do
  validateSplit env command
  ensure (childEmbeddings.length = command.children.length) (.contract "embeddings")
  let children := command.children.zip childEmbeddings
  ensure (∀ body ∈ command.sourceBody :: command.children.map SplitChild.body,
    ¬rejectedBody s command.principalId body)
    (.memoryValidation
      "This exact memory was rejected. Change the fact before saving it again.")
  match ← splitRefusal env s command.principalId children with
  | some cards => return (.similar cards, s)
  | none =>
    let (source, s) ← insertRoot env s
      { principalId := command.principalId
        label := "Split source"
        body := command.sourceBody
        kind := .fact
        keywords := ["split", "source"]
        projectKey := command.projectKey
        threadOrigin := command.threadOrigin
        originThreadId := command.originThreadId
        originPath := command.originPath
        originLocation := command.originLocation
        editor := command.editor
        machineId := command.machineId
        revisionReason := "remember/source-split" } sourceEmbedding .tombstoned
    match s.parentUids source.id 1 with
    | [] => .error (.contract "split source revision was not written")
    | sourceUid :: _ =>
      let (rows, s) ← insertChildren env (fun child =>
        { principalId := command.principalId
          label := child.label
          body := child.body
          kind := .fact
          keywords := child.keywords
          projectKey := command.projectKey
          threadOrigin := command.threadOrigin
          originThreadId := command.originThreadId
          originPath := command.originPath
          originLocation := command.originLocation
          editor := command.editor
          machineId := command.machineId
          parentUid := some sourceUid
          revisionReason := "remember/split-child" }) s children
      let s ← relateSiblings s (rows.map (·.id))
      return (.created source rows, s)

end Split

section CuratorSplit

def prepareSplitChildren (labels bodies : List String) :
    List SplitChild → Except SpineError PUnit
  | [] => .ok .unit
  | child :: rest => do
    validateLabel env child.label
    validateBody env child.body
    validateSplitKeywords env child.keywords
    ensure (child.label ∉ labels ∧ child.body ∉ bodies)
      (.memoryValidation "curator split children must have distinct labels and bodies")
    prepareSplitChildren (child.label :: labels) (child.body :: bodies) rest

/-- Validate and embed split children before the owner-decision transaction. -/
def prepareCuratorSplit (children : List SplitChild) (embeddings : List Embedding) :
    Except SpineError (List (SplitChild × Embedding)) := do
  ensure (2 ≤ children.length ∧ children.length ≤ 64)
    (.memoryValidation "a curator split requires 2 to 64 children")
  prepareSplitChildren env [] [] children
  ensure (embeddings.length = children.length) (.contract "embeddings")
  return children.zip embeddings

/-- Revision-tombstone one source and create its lineaged semantic children. -/
def enactCuratorSplit (source : MemoryUnit) (children : List (SplitChild × Embedding))
    (machineId : String) (findingUid : Ulid) : Except SpineError Store := do
  ensure (source.status = .active)
    (.memoryValidation "curator split source is no longer active")
  let tombstoneRevisionUid := s.freshUlid
  let (_, s) ← s.cas fun revUid =>
    { memoryId := source.id
      expectedRevision := source.revision
      revUid
      editor := "maintenance"
      originMachineId := machineId
      reason := s!"curation/{findingUid}/split-source"
      changes := { status := some .tombstoned } }
  let (rows, s) ← insertChildren env (fun child =>
    { principalId := source.principalId
      label := child.label
      body := child.body
      kind := source.kind
      keywords := child.keywords
      projectKey := source.projectKey
      threadOrigin := source.threadOrigin
      originThreadId := source.originThreadId
      originPath := source.originPath
      originLocation := source.originLocation
      originLocations := source.originLocations
      editor := "maintenance"
      machineId
      parentUid := some tombstoneRevisionUid
      revisionReason := s!"curation/{findingUid}/split-child" }) s children
  relateSiblings s (rows.map (·.id))

end CuratorSplit

end Memory

end Nocturne
