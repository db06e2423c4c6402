import Nocturne.Lib.Locking
import Nocturne.Memory.Labels
import Nocturne.Memory.Families

namespace Nocturne.Memory

open Nocturne.Lib Nocturne.Store

inductive CreationRequest
  | create (command : CreateMemoryCommand)
  | split (command : SplitMemoryCommand)
  deriving DecidableEq

/-- A call, with what the embedding provider will answer it and what its transaction will draw. -/
structure Creation where
  request : CreationRequest
  embeddings : Option (List Embedding)
  session : Session
  deriving DecidableEq

inductive CreationOutcome
  | refused (error : SpineError)
  /-- The embedding provider failed. -/
  | unembedded
  | similar (cards : List SimilarityMemoryCard)
  | created (memories : List MemoryUnit)
  deriving DecidableEq

/-- What the locked pass comes to before it writes. -/
inductive Verdict
  | refused (error : SpineError)
  | similar (cards : List SimilarityMemoryCard)
  | insert
  deriving DecidableEq

def CreationRequest.principalId : CreationRequest → String
  | .create command => command.principalId
  | .split command => command.principalId

def CreationRequest.bodies : CreationRequest → List String
  | .create command => [command.body]
  | .split command => command.sourceBody :: command.children.map SplitChild.body

def Creation.principalId (c : Creation) : String := c.request.principalId

/-- The embeddings, one for each body. -/
def Creation.vectors (c : Creation) : Option (List Embedding) :=
  c.embeddings.filter fun vectors => vectors.length = c.request.bodies.length

variable (env : Env)

def refusalOf (check : Except SpineError Unit) : Option CreationOutcome :=
  match check with
  | .ok _ => none
  | .error error => some (.refused error)

/-- `_find_active_label` over a child of a split, outside its transaction. -/
def labelTest (principalId label : String) (s : Store) : Option CreationOutcome :=
  (findActiveLabel s principalId label).map fun conflict =>
    .refused (.labelConflict conflict.id conflict.label)

def embeddingTest (c : Creation) : Option CreationOutcome :=
  if c.vectors.isNone then some .unembedded else none

/-- What a call meets before it asks for the lock, in order. -/
def earlyTests (c : Creation) : List (Store → Option CreationOutcome) :=
  match c.request with
  | .create command =>
    [fun _ => refusalOf (validateLabel env command.label),
      fun _ => refusalOf (validateBody env command.body), fun _ => embeddingTest c]
  | .split command =>
    (fun _ => refusalOf (validateSplit env command)) ::
      (command.children.map fun child => labelTest command.principalId child.label) ++
      [fun _ => embeddingTest c]

def rejectedError : SpineError :=
  .memoryValidation "This exact memory was rejected. Change the fact before saving it again."

/-- The reads of `create` under the lock. -/
def createReads (command : CreateMemoryCommand) (embedding : Embedding) : Reading Store Verdict :=
  .read fun s =>
    let found := dedupMatches env s command.principalId embedding
    .read fun s =>
      if rejectedBody s command.principalId command.body then .done (.refused rejectedError)
      else
        let band := classifyDedupScore env (found.head?.map (·.score))
        if band = .duplicate then
          .done (.refused (.duplicateMemory ((found.head?.map (·.memoryId)).getD 0)))
        else
          .read fun s =>
            match findActiveLabel s command.principalId command.label with
            | some conflict => .done (.refused (.labelConflict conflict.id conflict.label))
            | none =>
              if band = .similar ∧ command.force = false then .done (.similar found)
              else .done .insert

/-- The first loop of `split` under the lock, and what follows it. -/
def rejectedReads (principalId : String) (next : Reading Store Verdict) :
    List String → Reading Store Verdict
  | [] => next
  | body :: rest => .read fun s =>
    if rejectedBody s principalId body then .done (.refused rejectedError)
    else rejectedReads principalId next rest

/-- The second loop of `split` under the lock. -/
def childReads (principalId : String) : List (SplitChild × Embedding) → Reading Store Verdict
  | [] => .done .insert
  | (child, embedding) :: rest => .read fun s =>
    match findActiveLabel s principalId child.label with
    | some conflict => .done (.refused (.labelConflict conflict.id conflict.label))
    | none => .read fun s =>
      let found := dedupMatches env s principalId embedding
      match classifyDedupScore env (found.head?.map (·.score)) with
      | .duplicate => .done (.refused (.duplicateMemory ((found.head?.map (·.memoryId)).getD 0)))
      | .similar => .done (.similar found)
      | .distinct => childReads principalId rest

def creationReads (c : Creation) : Reading Store Verdict :=
  match c.request, c.vectors with
  | .create command, some (embedding :: _) => createReads env command embedding
  | .split command, some (_ :: children) =>
    rejectedReads command.principalId
      (childReads env command.principalId (command.children.zip children))
      (command.sourceBody :: command.children.map SplitChild.body)
  | _, _ => .done (.refused (.contract "embeddings"))

/-- An insert that runs into the index of active labels names the memory it ran into. -/
def labelRace (s : Store) (principalId : String) (labels : List String) {α : Type}
    (inserted : Except SpineError α) : Except SpineError α :=
  match inserted with
  | .error (.integrity "memory_unit_active_label") =>
    match labels.findSome? fun label => findActiveLabel s principalId label with
    | some conflict => .error (.labelConflict conflict.id conflict.label)
    | none => .error (.integrity "memory_unit_active_label")
  | result => result

def createInsert (command : CreateMemoryCommand) (embedding : Embedding) (s : Store) :
    Except SpineError (List MemoryUnit × Store) := do
  let (row, s) ← labelRace s command.principalId [command.label]
    (insertRoot env s command embedding)
  let row ← contractMemory row
  return ([row], s)

def splitSource (command : SplitMemoryCommand) : CreateMemoryCommand where
  principalId := command.principalId
  label := "Split source"
  body := command.sourceBody
  kind := .fact
  keywords := ["split", "source"]
  projectKey := command.projectKey
  threadOrigin := command.threadOrigin
  originThreadId := command.originThreadId
  originPath := command.originPath
  originLocation := command.originLocation
  editor := command.editor
  machineId := command.machineId
  revisionReason := "remember/source-split"

def splitChild (command : SplitMemoryCommand) (sourceUid : Ulid) (child : SplitChild) :
    CreateMemoryCommand where
  principalId := command.principalId
  label := child.label
  body := child.body
  kind := .fact
  keywords := child.keywords
  projectKey := command.projectKey
  threadOrigin := command.threadOrigin
  originThreadId := command.originThreadId
  originPath := command.originPath
  originLocation := command.originLocation
  editor := command.editor
  machineId := command.machineId
  parentUid := some sourceUid
  revisionReason := "remember/split-child"

def familyInsert (command : SplitMemoryCommand) (sourceEmbedding : Embedding)
    (children : List (SplitChild × Embedding)) (s : Store) :
    Except SpineError (List MemoryUnit × Store) := do
  let (source, s) ← insertRoot env s (splitSource command) sourceEmbedding .tombstoned
  match s.parentUids source.id 1 with
  | [] => .error (.contract "split source revision was not written")
  | sourceUid :: _ =>
    let (rows, s) ← insertChildren env (splitChild command sourceUid) s children
    let s ← relateSiblings s (rows.map (·.id))
    return (rows, s)

def splitInsert (command : SplitMemoryCommand) (sourceEmbedding : Embedding)
    (children : List (SplitChild × Embedding)) (s : Store) :
    Except SpineError (List MemoryUnit × Store) :=
  labelRace s command.principalId (command.children.map SplitChild.label)
    (familyInsert env command sourceEmbedding children s)

def creationInsert (c : Creation) (s : Store) : Except SpineError (List MemoryUnit × Store) :=
  match c.request, c.vectors with
  | .create command, some (embedding :: _) => createInsert env command embedding s
  | .split command, some (source :: children) =>
    splitInsert env command source (command.children.zip children) s
  | _, _ => .error (.contract "embeddings")

/-- The writes under the lock; a refused transaction is rolled back. -/
def creationWrite (c : Creation) (verdict : Verdict) (s : Store) : CreationOutcome × Store :=
  match verdict with
  | .refused error => (.refused error, s)
  | .similar cards => (.similar cards, s)
  | .insert =>
    match creationInsert env c (s.begin c.session) with
    | .ok (memories, s') => (.created memories, s')
    | .error error => (.refused error, s)

/-- `create` and `split` of one principal, each under the principal's advisory lock. -/
def creations : Protocol Store Creation Verdict CreationOutcome where
  early := earlyTests env
  body := creationReads env
  write := creationWrite env

/-- The memories a call left active. -/
def CreationOutcome.memories : CreationOutcome → List MemoryUnit
  | .created memories => memories
  | .refused _ | .unembedded | .similar _ => []

end Nocturne.Memory
