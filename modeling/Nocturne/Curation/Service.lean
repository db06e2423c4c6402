import Nocturne.Curation.Diagnostics
import Nocturne.Queue.Service

namespace Nocturne.Curation

open Nocturne.Lib Nocturne.Memory Nocturne.Queue

def pairLimit : Nat := 25

structure CuratorVerdictDraft where
  action : CuratorActionName
  proposal : Proposal
  deriving DecidableEq

def CuratorActionName.Replaces (action : CuratorActionName) : Prop :=
  action = .act .merge ∨ action = .act .supersede

instance (action : CuratorActionName) : Decidable (CuratorActionName.Replaces action) :=
  inferInstanceAs (Decidable (_ ∨ _))

/-- The payload each action needs, and no other. -/
def CuratorVerdictDraft.Valid (draft : CuratorVerdictDraft) : Prop :=
  draft.action ≠ .act .new ∧
  (∀ label ∈ draft.proposal.label, label.length ≤ 64) ∧
  (∀ keywords ∈ draft.proposal.keywords, 2 ≤ keywords.length ∧ keywords.length ≤ 5) ∧
  (∀ children ∈ draft.proposal.children, ∀ child ∈ children,
    1 ≤ child.label.length ∧ child.label.length ≤ 64 ∧ 1 ≤ child.body.length ∧
      2 ≤ child.keywords.length ∧ child.keywords.length ≤ 5) ∧
  (CuratorActionName.Replaces draft.action → draft.proposal.label.isSome ∧
    draft.proposal.body.isSome ∧ draft.proposal.keywords.isSome) ∧
  (draft.action = .act .keywordRepair → draft.proposal.keywords.isSome) ∧
  (draft.action = .act .split → ∃ children ∈ draft.proposal.children, 2 ≤ children.length) ∧
  (¬CuratorActionName.Replaces draft.action →
    draft.proposal.label = none ∧ draft.proposal.body = none) ∧
  (draft.action ≠ .act .split → draft.proposal.children = none)

instance (draft : CuratorVerdictDraft) : Decidable draft.Valid :=
  inferInstanceAs (Decidable (_ ∧ _))

/-- The actions a finding of each kind admits. -/
def allowed : FindingKind → List CuratorActionName
  | .duplicate => [.keep, .act .merge, .act .contradict, .act .supersede]
  | .contradiction => [.keep, .act .contradict, .act .supersede]
  | .stale => [.keep, .act .supersede, .act .retire]
  | .slop => [.keep, .act .retire, .act .split]
  | .keyword => [.keep, .act .keywordRepair]

/-- A verdict the pass has not routed yet. -/
structure JudgedFinding where
  findingUid : Ulid
  finding : HealthFinding
  action : CuratorActionName
  proposal : Proposal
  suppressed : Bool
  deriving DecidableEq

/-- How far the routing of the verdict in hand has come. -/
inductive Filing
  | unread
  | sourceRead (source : MemoryUnit)
  | created (candidateId : Uuid) (neighbors : List Uuid)
  | candidateRead (candidate : MemoryUnit) (neighbors : List Uuid)
  deriving DecidableEq

/-- A curator pass between two of its transactions. -/
structure CuratorPass where
  runUid : Ulid
  principalId : String
  machineId : String
  remembered : List HealthFinding
  unjudged : List HealthFinding
  reviewedPairs : Nat
  judged : List JudgedFinding
  filing : Filing
  findingUids : List Ulid
  deriving DecidableEq

variable (env : Env) (diagnosis : Diagnosis) (s : Store)

/-- Findings an earlier pass judged `keep`; equal kinds, heads and revisions are one
fingerprint. -/
def remembered (principalId : String) : List HealthFinding :=
  (s.findings.rows.filter fun f =>
    f.principalId = principalId ∧ f.persisted ∧ f.action = .keep).map (·.finding)

/-- Diagnose; the pass then holds its findings while models judge them. -/
def startPass (principalId machineId : String) : CuratorPass × Store :=
  ({ runUid := s.freshUlid
     principalId
     machineId
     remembered := remembered s principalId
     unjudged := build env diagnosis s principalId
     reviewedPairs := 0
     judged := []
     filing := .unread
     findingUids := [] }, s.drawn)

def wasSeenUnchanged (finding : HealthFinding) (action : CuratorActionName) : Bool :=
  s.findings.rows.any fun f => f.persisted ∧ f.finding = finding ∧ f.action = action ∧
    ∃ item ∈ s.items.rows, item.birthplace.findingUid = some f.findingUid ∧
      (item.state = .pending ∨ item.state = .rejected)

def requireAllowed (finding : HealthFinding) (draft : CuratorVerdictDraft) :
    Except SpineError PUnit :=
  ensure (draft.action ∈ allowed finding.kind)
    (.curatorProvider "curator returned an action its finding does not admit")

/-- The verdict model's answer: refused when missing, malformed or out of bounds. -/
def verdict (finding : HealthFinding) (draft : Option CuratorVerdictDraft) :
    Except SpineError CuratorVerdictDraft := do
  let draft ← require draft (.curatorProvider "curator model failed")
  ensure draft.Valid (.curatorProvider "curator verdict response was malformed")
  requireAllowed finding draft
  return draft

/-- Review the next finding; a failed verdict ends the review, not the pass. -/
def judge (pass : CuratorPass) (finding : HealthFinding) (unjudged : List HealthFinding)
    (draft : Option CuratorVerdictDraft) : Except SpineError (CuratorPass × Store) :=
  if finding ∈ pass.remembered ∨
      (finding.memoryIds.length = 2 ∧ pairLimit ≤ pass.reviewedPairs) then
    .ok ({ pass with unjudged }, s)
  else
    let reviewedPairs := pass.reviewedPairs + if finding.memoryIds.length = 2 then 1 else 0
    match verdict finding draft with
    | .error _ => .ok ({ pass with unjudged := [], reviewedPairs }, s)
    | .ok draft => do
      let findingUid := s.freshUlid
      let findings ← require
        (s.findings.insert?
          { findingUid
            runUid := pass.runUid
            principalId := pass.principalId
            finding
            action := draft.action
            persisted := false })
        (.integrity "curator_finding_pkey")
      return ({ pass with
        unjudged
        reviewedPairs
        judged := pass.judged ++
          [⟨findingUid, finding, draft.action, draft.proposal,
            wasSeenUnchanged s finding draft.action⟩]
        findingUids := findingUid :: pass.findingUids }, { s.drawn with findings })

/-- The pass goes on to its next verdict. -/
def CuratorPass.routed (pass : CuratorPass) : CuratorPass :=
  { pass with judged := pass.judged.tail, filing := .unread }

def enqueueOf (pass : CuratorPass) (item : JudgedFinding) (action : Verdict) : CuratorEnqueue :=
  { runUid := pass.runUid
    findingUid := item.findingUid
    principalId := pass.principalId
    machineId := pass.machineId
    action
    memoryIds := item.finding.memoryIds
    proposal := item.proposal }

/-- The next transaction of `enqueue_curator` for the verdict in hand. -/
def enqueueCurator (pass : CuratorPass) (request : CuratorEnqueue) (embedding : Embedding) :
    Except SpineError (CuratorPass × Store) :=
  match pass.filing with
  | .unread => do
    let head ← require request.memoryIds.head?
      (.queueValidation "curator actions require implicated memories")
    let source ← memoryRow s head request.principalId
    return ({ pass with filing := .sourceRead source }, s)
  | .sourceRead source =>
    if request.action.Replaces then do
      let command ← request.command env source
      let (created, s) ← createCuratorCandidate env s command request.memoryIds embedding
      match created with
      | none => return (pass.routed, s)
      | some created =>
        return ({ pass with
          filing := .created created.memory.id (created.neighbors.map (·.memoryId)) }, s)
    else do
      let s ← insertCuratorItem env s request source []
      return (pass.routed, s)
  | .created candidateId neighbors => do
    let candidate ← memoryRow s candidateId request.principalId
    return ({ pass with filing := .candidateRead candidate neighbors }, s)
  | .candidateRead candidate neighbors => do
    let s ← insertCuratorItem env s request candidate neighbors
    return (pass.routed, s)

def persistRun (pass : CuratorPass) : Store :=
  { s with
    findings := pass.findingUids.foldl
      (fun findings uid => findings.modify uid (fun f => { f with persisted := true })
        fun _ => rfl) s.findings }

/-- Route the next verdict; a refusal is recorded and the pass goes on. -/
def route (pass : CuratorPass) (item : JudgedFinding) (embedding : Embedding) :
    CuratorPass × Store :=
  match item.action with
  | .keep => (pass.routed, s)
  | .act action =>
    if item.suppressed then (pass.routed, s)
    else
      match enqueueCurator env s pass (enqueueOf pass item action) embedding with
      | .ok result => result
      | .error _ => (pass.routed, s)

/-- The next transaction of a pass; `none` once it is persisted. -/
def advance (pass : CuratorPass) (draft : Option CuratorVerdictDraft) (embedding : Embedding) :
    Except SpineError (Option CuratorPass × Store) :=
  match pass.unjudged, pass.judged with
  | finding :: unjudged, _ => do
    let (pass, s) ← judge s pass finding unjudged draft
    return (some pass, s)
  | [], item :: _ =>
    let (pass, s) := route env s pass item embedding
    .ok (some pass, s)
  | [], [] => .ok (none, persistRun s pass)

end Nocturne.Curation
