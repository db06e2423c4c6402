import Nocturne.Inject.Renderer
import Nocturne.Memory.Service

namespace Nocturne.Inject

open Nocturne.Lib Nocturne.Memory

structure RemovedDecision where
  memoryId : Uuid
  reason : RemovalReason
  deriving DecidableEq

structure CommitCommand where
  injectionId : Uuid
  removed : List RemovedDecision
  addedBack : List Uuid
  deriving DecidableEq

inductive FeedbackSignal
  | midThreadRemoved | midThreadAdded | cited
  deriving DecidableEq, Repr

def FeedbackSignal.outcome : FeedbackSignal → Outcome
  | .midThreadRemoved => .midThreadRemoved
  | .midThreadAdded => .midThreadAdded
  | .cited => .cited

structure FeedbackCommand where
  injectionId : Uuid
  memoryId : Uuid
  signal : FeedbackSignal
  deriving DecidableEq

structure CommitResponse where
  finalBlock : String
  wrongRemoved : List MemoryUnit
  deriving DecidableEq

structure NeverRule where
  biasStep : ℚ
  quarantineKills : Nat
  deriving DecidableEq

structure PlannedOutcome where
  event : InjectionEvent
  desired : Option Outcome
  isNew : Bool
  deriving DecidableEq

variable (s : Store)

/-- The rows of one injection in gate order. -/
def loadBatch (injectionId : Uuid) : List InjectionEvent :=
  (s.events.rows.filter (·.injectionId = injectionId)).insertionSort fun a b =>
    a.rank < b.rank ∨ a.rank = b.rank ∧ (a.memoryId < b.memoryId ∨
      a.memoryId = b.memoryId ∧ a.id ≤ b.id)

section Plan

def CommitCommand.reasonFor (command : CommitCommand) (memoryId : Uuid) : Option RemovalReason :=
  (command.removed.find? (·.memoryId = memoryId)).map (·.reason)

def isFeedbackDescendant (event : InjectionEvent) (current desired : Outcome) : Prop :=
  current.IsFeedback ∧
    desired = if event.shownAs = .nearMiss then Outcome.addedBack else .kept

instance (event : InjectionEvent) (current desired : Outcome) :
    Decidable (isFeedbackDescendant event current desired) :=
  inferInstanceAs (Decidable (_ ∧ _))

/-- The outcome a command asks for one member, `none` for a near miss left alone. -/
def desiredOutcome (command : CommitCommand) (event : InjectionEvent) : Option Outcome :=
  if event.shownAs = .nearMiss then
    if command.reasonFor event.memoryId = some .never then some (.removed .never)
    else if event.memoryId ∈ command.addedBack then some .addedBack
    else none
  else
    match command.reasonFor event.memoryId with
    | some reason => some (.removed reason)
    | none => some .kept

def planEvent (command : CommitCommand) (event : InjectionEvent) :
    Except SpineError PlannedOutcome :=
  match desiredOutcome command event, event.outcome with
  | none, none => .ok ⟨event, none, false⟩
  | none, some _ => .error .outcomeConflict
  | some desired, none => .ok ⟨event, some desired, true⟩
  | some desired, some current =>
    if current = desired ∨ isFeedbackDescendant event current desired then
      .ok ⟨event, some desired, false⟩
    else .error .outcomeConflict

/-- Rows a command can decide: budget cuts are on record but not on the gate. -/
def members (events : List InjectionEvent) : List InjectionEvent :=
  events.filter (·.shownAs ≠ .budgetCut)

def planCommit (events : List InjectionEvent) (command : CommitCommand) :
    Except SpineError (List PlannedOutcome) := do
  let batch := members events
  ensure (batch.map (·.memoryId)).Nodup (.decisionState "injection contains duplicate memory")
  ensure (command.removed.map (·.memoryId)).Nodup (.invalidCommitChoices "removed repeats memory")
  ensure command.addedBack.Nodup
    (.invalidCommitChoices "added_back contains duplicate memory IDs")
  ensure (∀ item ∈ command.removed, item.memoryId ∉ command.addedBack)
    (.invalidCommitChoices "memory is in both lists")
  ensure (∀ item ∈ command.removed, ∃ event ∈ batch, event.memoryId = item.memoryId ∧
    (event.shownAs.Entered ∨ event.shownAs = .nearMiss ∧ item.reason = .never))
    (.invalidCommitChoices "removed memory is not a batch member that can take its reason")
  ensure (∀ id ∈ command.addedBack, ∃ event ∈ batch, event.memoryId = id ∧
    event.shownAs = .nearMiss)
    (.invalidCommitChoices "added_back memory is not a near-miss batch member")
  batch.mapM (planEvent command)

end Plan

section NeverRules

def neverRule (version : String) : Except SpineError NeverRule := do
  let row ← require (s.configs.get? version)
    (.decisionState "scorer_config is missing or invalid")
  let step ← require row.neverBiasStep (.decisionState "never_bias_step is invalid")
  ensure (step < 0) (.decisionState "never_bias_step is invalid")
  let kills ← require row.quarantineKills (.decisionState "quarantine_kills is invalid")
  ensure (0 < kills) (.decisionState "quarantine_kills is invalid")
  return ⟨step, kills.toNat⟩

end NeverRules

/-- What a new gate outcome does to its head. -/
def commitHeadChanges (current : MemoryUnit) (desired : Outcome) (commitTs : Time)
    (rule : Option NeverRule) : Except SpineError MemoryUnitChanges :=
  if desired = .addedBack then
    .ok { stats := some { current.stats with
            injections := current.stats.injections + 1
            lastInjectedAt := some commitTs } }
  else
    let stats := { current.stats with removals := current.stats.removals + 1 }
    if desired ≠ .removed .never then .ok { stats := some stats }
    else do
      let rule ← require rule (.decisionState "removed:never has no scorer-version rule")
      let stats := { stats with neverKills := stats.neverKills + 1 }
      return {
        stats := some stats
        bias := some (current.bias + rule.biasStep)
        status := some
          (if current.status = .active ∧ rule.quarantineKills ≤ stats.neverKills then .quarantined
          else current.status) }

/-- The planned outcomes that move a head's counters. -/
def PlannedOutcome.Moves (item : PlannedOutcome) : Prop :=
  item.isNew = true ∧ ∃ desired ∈ item.desired, desired = .addedBack ∨ desired.IsRemoval

instance (item : PlannedOutcome) : Decidable item.Moves :=
  inferInstanceAs (Decidable (_ ∧ ∃ desired ∈ item.desired, _))

/-- Only a `never` removal reads its scorer version's rule. -/
def ruleFor (event : InjectionEvent) (desired : Outcome) : Except SpineError (Option NeverRule) :=
  if desired = .removed .never then do
    let rule ← neverRule s event.scorerVersion
    return some rule
  else .ok none

/-- One counted effect of a commit: the head under its row lock, then compare-and-set. -/
def commitHead (s : Store) (item : PlannedOutcome) : Except SpineError Store := do
  let memoryId := item.event.memoryId
  let desired ← require item.desired (.decisionState "no outcome")
  let rule ← ruleFor s item.event desired
  let current ← require (s.units.get? memoryId) (.decisionState "memory does not exist")
  let changes ← commitHeadChanges current desired s.session.now rule
  let (_, s) ← s.cas fun revUid =>
    { memoryId
      expectedRevision := current.revision
      revUid
      editor := "system:inject"
      originMachineId := item.event.machineId
      reason := "inject/commit:" ++ desired.text
      changes }
  return s

/-- Write one outcome over the one expected there. -/
def replaceOutcome (s : Store) (event : InjectionEvent) (expected : Option Outcome)
    (desired : Outcome) : Except SpineError Store := do
  let current ← require (s.events.get? event.id) .outcomeConflict
  ensure (current.outcome = expected) .outcomeConflict
  return { s with
    events := s.events.modify event.id (fun e => { e with outcome := some desired })
      fun _ => rfl }

def writeNewOutcome (s : Store) (item : PlannedOutcome) : Except SpineError Store := do
  let desired ← require item.desired .outcomeConflict
  replaceOutcome s item.event none desired

def PlannedOutcome.effective (item : PlannedOutcome) : InjectionEvent :=
  if item.isNew then { item.event with outcome := item.desired } else item.event

/-- Members the final block keeps. -/
def finalEvents (planned : List PlannedOutcome) : List InjectionEvent :=
  (planned.map (·.effective)).filter fun e => ∃ o ∈ e.outcome, o.Positive

/-- Commit one gate decision and render its frozen final block. -/
def commit (command : CommitCommand) : Except SpineError (CommitResponse × Store) := do
  let events := loadBatch s command.injectionId
  if events = [] then
    ensure (command.removed = [] ∧ command.addedBack = []) .injectionNotFound
    return (⟨renderFinalBlock [], []⟩, s)
  else
    let planned ← planCommit events command
    let moving := (planned.filter fun item => item.Moves).insertionSort fun a b =>
      a.event.memoryId ≤ b.event.memoryId
    let s ← moving.foldlM commitHead s
    let s ← (planned.filter (·.isNew)).foldlM writeNewOutcome s
    let wrong := (planned.filter (·.desired = some (.removed .wrong))).insertionSort fun a b =>
      eventBefore a.event b.event
    let wrongRemoved ← wrong.mapM fun item => do
      let row ← require (s.units.get? item.event.memoryId) (.decisionState "memory does not exist")
      contractMemory row
    return (⟨renderFinalBlock (finalEvents planned), wrongRemoved⟩, s)

section Feedback

def loadFeedbackEvent (command : FeedbackCommand) : Except SpineError InjectionEvent :=
  match s.events.rows.filter fun e =>
    e.injectionId = command.injectionId ∧ e.memoryId = command.memoryId with
  | [] => .error .injectionNotFound
  | [event] => .ok event
  | _ => .error (.decisionState "feedback membership is not unique")

/-- The mid-thread transitions a signal may make. -/
def FeedbackSignal.Allowed (shownAs : ShownAs) (current : Option Outcome) :
    FeedbackSignal → Prop
  | .midThreadAdded =>
    current = some .midThreadRemoved ∨ (current = none ∧ shownAs = .nearMiss)
  | .midThreadRemoved =>
    current = some .kept ∨ current = some .addedBack ∨ current = some .autoEntered ∨
      current = some .midThreadAdded
  | .cited => current = some .kept ∨ current = some .addedBack ∨ current = some .autoEntered

instance (shownAs : ShownAs) (current : Option Outcome) (signal : FeedbackSignal) :
    Decidable (signal.Allowed shownAs current) := by
  cases signal <;> unfold FeedbackSignal.Allowed <;> infer_instance

def FeedbackSignal.count (stats : Stats) : FeedbackSignal → Option Stats
  | .midThreadRemoved => some { stats with removals := stats.removals + 1 }
  | .cited => some { stats with citations := stats.citations + 1 }
  | .midThreadAdded => none

/-- The head counter a signal moves. -/
def feedbackHead (event : InjectionEvent) (signal : FeedbackSignal) : Except SpineError Store :=
  if signal = .midThreadAdded then .ok s
  else do
    let current ← require (s.units.get? event.memoryId) (.decisionState "memory does not exist")
    let (_, s) ← s.cas fun revUid =>
      { memoryId := event.memoryId
        expectedRevision := current.revision
        revUid
        editor := "system:feedback"
        originMachineId := event.machineId
        reason := "feedback/" ++ signal.outcome.text
        changes := { stats := signal.count current.stats } }
    return s

/-- Record one exactly-once mid-thread feedback transition. -/
def feedback (command : FeedbackCommand) : Except SpineError Store := do
  let event ← loadFeedbackEvent s command
  if event.outcome = some command.signal.outcome then return s
  else
    ensure (command.signal.Allowed event.shownAs event.outcome) .outcomeConflict
    let s ← feedbackHead s event command.signal
    replaceOutcome s event event.outcome command.signal.outcome

end Feedback

end Nocturne.Inject
