import Nocturne.Inject.Renderer
import Nocturne.Memory.Service

namespace Nocturne.Inject

open Nocturne.Lib Nocturne.Memory

inductive Mode
  | gate | autonomous
  deriving DecidableEq, Repr

structure PrepareCommand where
  threadId : Uuid
  agentId : String
  machineId : String
  principalId : String
  projectKey : Option String
  locationPath : Option String
  currentLocation : Option String
  prompt : String
  modelContextTokens : Nat
  mode : Mode
  currentMemoryIds : List Uuid
  confirmedMemoryIds : List Uuid
  excludedMemoryIds : List Uuid
  deriving DecidableEq

inductive PoolSource
  | pinned | vector | fts | current
  deriving DecidableEq, Repr

structure ScoringCandidate where
  unit : MemoryUnit
  lastHumanEditAt : Option Time
  poolSources : List PoolSource
  deriving DecidableEq

/-- What scoring takes from outside: the float features of one candidate, full-text rank
against the prompt (when it matches) and rounding to PostgreSQL's REAL. -/
structure Scoring where
  features : PrepareCommand → Embedding → Time → ScorerParams ℚ → ScoringCandidate →
    ScoreFeatures ℚ
  ftsRank : String → MemoryUnit → Option ℚ
  postgresReal : ℚ → ℚ

abbrev Candidate := Scored ScoringCandidate ℚ

/-- What one prepare attempt has read under its frozen snapshot. -/
structure PreparePlan where
  command : PrepareCommand
  snapshotTs : Time
  thread : Option Thread
  config : ScorerConfig ℚ
  selection : ScoringSelection ScoringCandidate ℚ

structure ScoredMemoryCard where
  memoryId : Uuid
  label : String
  body : String
  kind : MemoryKind
  pin : Bool
  score : ℚ
  features : ScoreFeatures ℚ
  rank : Nat
  deriving DecidableEq

structure PrepareResponse where
  injectionId : Uuid
  snapshotTs : Time
  scorerVersion : String
  injected : List ScoredMemoryCard
  nearMisses : List ScoredMemoryCard
  finalBlock : Option String
  memoryAllocation : MemoryAllocation
  deriving DecidableEq

variable (env : Env) (scoring : Scoring) (s : Store)

def validateCommand (command : PrepareCommand) : Except SpineError PUnit := do
  ensure command.currentMemoryIds.Nodup
    (.invalidRescoreState "current_memory_ids contains duplicates")
  ensure command.confirmedMemoryIds.Nodup
    (.invalidRescoreState "confirmed_memory_ids contains duplicates")
  ensure command.excludedMemoryIds.Nodup
    (.invalidRescoreState "excluded_memory_ids contains duplicates")
  match command.mode with
  | .gate =>
    ensure (command.currentMemoryIds = [] ∧ command.confirmedMemoryIds = [] ∧
      command.excludedMemoryIds = [])
      (.invalidRescoreState "gate mode does not accept thread disposition sets")
  | .autonomous => do
    ensure (∀ id ∈ command.confirmedMemoryIds, id ∈ command.currentMemoryIds)
      (.invalidRescoreState "confirmed_memory_ids must be a subset of current_memory_ids")
    ensure (∀ id ∈ command.excludedMemoryIds,
      id ∉ command.currentMemoryIds ∧ id ∉ command.confirmedMemoryIds)
      (.invalidRescoreState "excluded_memory_ids must be disjoint from current state")

/-- The thread row as the snapshot shows it admits this prepare. -/
def checkThread (command : PrepareCommand) : Option Thread → Except SpineError PUnit
  | none =>
    ensure (command.mode ≠ .autonomous)
      (.invalidRescoreState "autonomous mode requires an already prepared thread")
  | some existing => do
    ensure (existing.principalId = command.principalId ∧ existing.agentId = command.agentId ∧
      existing.machineId = command.machineId ∧ existing.projectKey = command.projectKey)
      .threadIdentityConflict
    ensure (¬(command.mode = .gate ∧ existing.snapshotTs.isSome)) .threadAlreadyPrepared
    ensure (¬(command.mode = .autonomous ∧ existing.snapshotTs.isNone))
      (.invalidRescoreState "autonomous mode requires a completed gate prepare")

def activeScorerConfig : Except SpineError (ScorerConfig ℚ) :=
  match s.configs.rows.filter (·.active) with
  | [row] => do
    ensure (¬Text.isBlank row.config.version ∧ row.config.Valid)
      (.scorerConfiguration "active scorer_config is invalid")
    return row.config
  | _ => .error (.scorerConfiguration "expected exactly one active scorer_config row")

section Candidates

/-- Heads this thread may be shown at all. -/
def eligible (command : PrepareCommand) : List MemoryUnit :=
  s.units.rows.filter fun u =>
    u.principalId = command.principalId ∧ u.status = .active ∧
      (∀ e ∈ s.events.rows, ¬(e.principalId = command.principalId ∧
        e.threadId = command.threadId ∧ e.outcome = some (.removed .never) ∧
        e.memoryId = u.id)) ∧
      (u.projectKey = none ∨ u.projectKey = command.projectKey) ∧
      u.id ∉ command.excludedMemoryIds

def lastHumanEditAt (memoryId : Uuid) : Option Time :=
  ((s.revisions.rows.filter fun r => r.memoryId = memoryId ∧ r.editor = "user").map
    (·.ts)).max?

def ftsCandidatePool : Nat := 50

def vectorRows (command : PrepareCommand) (query : Embedding) (pool : Nat) : List MemoryUnit :=
  let distance (u : MemoryUnit) := 1 - env.cosine u.embedding query
  (((eligible s command).filter (·.pin = false)).insertionSort fun a b =>
    distance a < distance b ∨ distance a = distance b ∧ a.id ≤ b.id).take pool

def ftsRows (command : PrepareCommand) : List MemoryUnit :=
  let rank (u : MemoryUnit) := (scoring.ftsRank command.prompt u).getD 0
  (((eligible s command).filter fun u =>
      u.pin = false ∧ (scoring.ftsRank command.prompt u).isSome).insertionSort fun a b =>
    rank b < rank a ∨ rank a = rank b ∧ a.id ≤ b.id).take ftsCandidatePool

/-- The pinned pool, and the regular pool with where each candidate was found. -/
def loadCandidates (command : PrepareCommand) (query : Embedding) (pool : Nat) :
    Except SpineError (List ScoringCandidate × List ScoringCandidate) := do
  let rows := (eligible s command).insertionSort fun a b => a.id ≤ b.id
  let vector := vectorRows env s command query pool
  let fts := ftsRows scoring s command
  ensure (∀ id ∈ command.currentMemoryIds, id ∈ rows.map (·.id))
    (.invalidRescoreState "current memory is not active and eligible for this thread")
  let sources (u : MemoryUnit) : List PoolSource :=
    (if u ∈ vector then [.vector] else []) ++ (if u ∈ fts then [.fts] else []) ++
      (if u.id ∈ command.currentMemoryIds then [.current] else [])
  return (
    (rows.filter (·.pin)).map fun u => ⟨u, lastHumanEditAt s u.id, [.pinned]⟩,
    (rows.filter fun u => u.pin = false ∧ sources u ≠ []).map fun u =>
      ⟨u, lastHumanEditAt s u.id, sources u⟩)

end Candidates

def scoreCandidate (command : PrepareCommand) (query : Embedding) (snapshotTs : Time)
    (config : ScorerConfig ℚ) (candidate : ScoringCandidate) : Candidate :=
  let features := scoring.features command query snapshotTs config.params candidate
  { candidate
    memoryId := candidate.unit.id
    pin := candidate.unit.pin
    features
    score := scoring.postgresReal
      (scoreFeatures features (config.weightsForProject command.projectKey) config.params
          config.axes + (candidate.unit.bias + config.biasOffset candidate.unit.id))
    rank := 0
    tokenCost := env.cl100kTokenCount candidate.unit.body }

/-- Everything a prepare attempt reads, all under one frozen snapshot. -/
def prepareRead (command : PrepareCommand) (query : Embedding) : Except SpineError PreparePlan := do
  validateCommand command
  let thread := s.threads.get? command.threadId
  checkThread command thread
  let config ← activeScorerConfig s
  let (pinned, regular) ← loadCandidates env scoring s command query config.params.candidatePool
  let score := scoreCandidate env scoring command query s.session.now config
  match scoreAndSelect (pinned.map score) (regular.map score) command.confirmedMemoryIds
    command.modelContextTokens config.params with
  | .error error => .error (.selection error)
  | .ok selection => return { command, snapshotTs := s.session.now, thread, config, selection }

/-- The decision row kinds of one prepare, in the order they are inserted. -/
abbrev EventDraft := Candidate × ShownAs × Option Outcome

def eventDrafts (command : PrepareCommand) (selection : ScoringSelection ScoringCandidate ℚ) :
    List EventDraft :=
  let current := command.currentMemoryIds
  let injected := selection.injected.map fun item =>
    (item, if item.pin then ShownAs.pinned else .injected,
      match command.mode with
      | .gate => none
      | .autonomous => some (if item.memoryId ∈ current then Outcome.kept else .autoEntered))
  let near := selection.nearMisses.map fun item =>
    (item, ShownAs.nearMiss,
      if command.mode = .autonomous ∧ item.memoryId ∈ current then some Outcome.autoExited
      else none)
  let cuts := selection.budgetCuts.map fun item =>
    (item, ShownAs.budgetCut, some Outcome.budgetCut)
  let recorded := (selection.injected ++ selection.nearMisses).map (·.memoryId)
  let exits :=
    match command.mode with
    | .gate => []
    | .autonomous =>
      (selection.unselected.filter fun item =>
        item.memoryId ∈ current ∧ item.memoryId ∉ recorded).map fun item =>
          (item, ShownAs.nearMiss, some Outcome.autoExited)
  injected ++ near ++ cuts ++ exits

def nextEventId : Nat := (s.events.rows.map (·.id)).foldr max 0 + 1

def eventValues (plan : PreparePlan) (allocation : MemoryAllocation) (injectionId : Uuid)
    (draft : EventDraft) (id : Nat) (eventUid : Ulid) : InjectionEvent :=
  let unit := draft.1.candidate.unit
  { id
    eventUid
    injectionId
    threadId := plan.command.threadId
    agentId := plan.command.agentId
    machineId := plan.command.machineId
    principalId := plan.command.principalId
    projectKey := plan.command.projectKey
    scorerVersion := plan.config.version
    memoryId := unit.id
    memoryKind := unit.kind
    features := draft.1.features
    frozen := ⟨unit.label, unit.body, unit.pin, env.isoformat unit.updatedAt⟩
    modelContextTokens := plan.command.modelContextTokens
    allocation
    score := draft.1.score
    rank := draft.1.rank
    shownAs := draft.2.1
    actorClass := if plan.command.mode = .autonomous then .passive else .human
    outcome := draft.2.2
    ts := plan.snapshotTs }

/-- Append one row for each draft, under the next serial ids. -/
def insertEvents (plan : PreparePlan) (allocation : MemoryAllocation) (injectionId : Uuid)
    (s : Store) : List EventDraft → Except SpineError (List InjectionEvent × Store)
  | [] => .ok ([], s)
  | draft :: rest => do
    let row := eventValues env plan allocation injectionId draft (nextEventId s) s.freshUlid
    let events ← require (s.events.insert? row) (.integrity "injection_event_pkey")
    let (rows, s) ← insertEvents plan allocation injectionId { s.drawn with events } rest
    return (row :: rows, s)

def stampThread (plan : PreparePlan) : Except SpineError Store :=
  let command := plan.command
  match s.threads.get? command.threadId with
  | none => do
    let threads ← require
      (s.threads.insert?
        { id := command.threadId
          principalId := command.principalId
          agentId := command.agentId
          machineId := command.machineId
          projectKey := command.projectKey
          snapshotTs := some plan.snapshotTs })
      .prepareConflict
    return { s with threads }
  | some _ =>
    .ok { s with
      threads := s.threads.modify command.threadId
        (fun thread => { thread with snapshotTs := some plan.snapshotTs }) fun _ => rfl }

/-- Count each injected head once, on the row version the snapshot showed. -/
def incrementInjectionStats (command : PrepareCommand) (snapshotTs : Time)
    (injected : List Candidate) : Except SpineError Store :=
  (injected.insertionSort fun a b => a.memoryId ≤ b.memoryId).foldlM (fun s item => do
    let seen := item.candidate.unit
    ensure (s.units.get? seen.id = some seen) .prepareConflict
    let (_, s) ← s.cas fun revUid =>
      { memoryId := seen.id
        expectedRevision := seen.revision
        revUid
        editor := "system:inject"
        originMachineId := command.machineId
        reason := "inject/prepare"
        changes :=
          { stats := some { seen.stats with
              injections := seen.stats.injections + 1
              lastInjectedAt := some snapshotTs } } }
    return s) s

def responseCard (item : Candidate) : ScoredMemoryCard :=
  { memoryId := item.memoryId
    label := item.candidate.unit.label
    body := item.candidate.unit.body
    kind := item.candidate.unit.kind
    pin := item.candidate.unit.pin
    score := item.score
    features := item.features
    rank := item.rank }

def PreparePlan.allocation (plan : PreparePlan) : MemoryAllocation :=
  { memoryContextShare := plan.config.params.memoryContextShare
    shareTokens := plan.selection.regularBudget
    regularTokens := plan.selection.regularTokenCost
    pinnedTokens := plan.selection.pinTokenCost
    totalTokens := plan.selection.totalTokenCost
    pinnedOverflowTokens := plan.selection.pinnedOverflowTokens }

/-- The writes of a prepare attempt; a row changed since the snapshot aborts it. -/
def prepareWrite (plan : PreparePlan) : Except SpineError (PrepareResponse × Store) := do
  let command := plan.command
  ensure (s.threads.get? command.threadId = plan.thread) .prepareConflict
  let s ← stampThread s plan
  let injectionId := s.freshUuid
  let s ← incrementInjectionStats s.drawn command plan.snapshotTs plan.selection.injected
  let (rows, s) ← insertEvents env plan plan.allocation injectionId s
    (eventDrafts command plan.selection)
  let entered := rows.filter fun e => e.outcome = some .kept ∨ e.outcome = some .autoEntered
  return (
    { injectionId
      snapshotTs := plan.snapshotTs
      scorerVersion := plan.config.version
      injected := plan.selection.injected.map responseCard
      nearMisses := plan.selection.nearMisses.map responseCard
      finalBlock := if command.mode = .autonomous then some (renderFinalBlock entered) else none
      memoryAllocation := plan.allocation }, s)

/-- One undisturbed prepare attempt. -/
def prepare (command : PrepareCommand) (query : Embedding) :
    Except SpineError (PrepareResponse × Store) := do
  let plan ← prepareRead env scoring s command query
  prepareWrite env s plan

end Nocturne.Inject
