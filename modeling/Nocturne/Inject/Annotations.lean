import Nocturne.Lib.Machine
import Nocturne.Lib.Refusal
import Nocturne.Lib.Table
import Nocturne.Store.Schema

namespace Nocturne.Inject

open Nocturne.Lib

/-- One guarded verification-only classification request. -/
structure InjectionEventAnnotationInput where
  targetEventUid : Ulid
  expectedPrincipalId : String
  expectedMachineId : String
  reason : String
  annotatorPrincipalId : String
  annotatorMachineId : String
  annotatorOriginAgent : String
  deriving DecidableEq

/-- The values of a row that a replay is compared by. -/
structure AnnotationValues where
  targetEventUid : Ulid
  kind : String
  targetPrincipalId : String
  targetMachineId : String
  reason : String
  annotatorPrincipalId : String
  annotatorMachineId : String
  annotatorOriginAgent : String
  deriving DecidableEq

/-- One immutable verification-only classification over an injection event. -/
structure InjectionEventAnnotation extends AnnotationValues where
  ts : Time
  deriving DecidableEq

/-- `_annotation_values` -/
def annotationValues (entry : InjectionEventAnnotationInput) (target : InjectionEvent) :
    AnnotationValues where
  targetEventUid := target.eventUid
  kind := "verification_only"
  targetPrincipalId := target.principalId
  targetMachineId := target.machineId
  reason := entry.reason
  annotatorPrincipalId := entry.annotatorPrincipalId
  annotatorMachineId := entry.annotatorMachineId
  annotatorOriginAgent := entry.annotatorOriginAgent

inductive AnnotationError
  /-- injection event annotation batch must not be empty -/
  | emptyBatch
  /-- injection event annotation targets must be unique -/
  | repeatedTarget
  /-- injection event … does not exist -/
  | targetNotFound (targetEventUid : Ulid)
  /-- injection event … fingerprint does not match -/
  | fingerprintMismatch (targetEventUid : Ulid)
  /-- injection event … annotation conflicts -/
  | conflict (targetEventUid : Ulid)
  deriving DecidableEq

inductive AnnotationOutcome
  | accepted (count : Nat)
  | refused (error : AnnotationError)
  /-- The transaction ended without its commit. -/
  | lost
  deriving DecidableEq

inductive AnnotationPhase
  | waiting
  | locked
  | targeted (targets : List InjectionEvent)
  | compared (pending : List AnnotationValues)
  | over (outcome : AnnotationOutcome)
  deriving DecidableEq

/-- The learner's advisory lock is held to the end of the transaction. -/
def AnnotationPhase.HoldsLock : AnnotationPhase → Prop
  | .locked | .targeted _ | .compared _ => True
  | .waiting | .over _ => False

instance : DecidablePred AnnotationPhase.HoldsLock
  | .locked | .targeted _ | .compared _ => isTrue trivial
  | .waiting | .over _ => isFalse id

def AnnotationPhase.Ended : AnnotationPhase → Prop
  | .over _ => True
  | .waiting | .locked | .targeted _ | .compared _ => False

instance : DecidablePred AnnotationPhase.Ended
  | .over _ => isTrue trivial
  | .waiting | .locked | .targeted _ | .compared _ => isFalse id

structure AnnotationCall where
  annotations : List InjectionEventAnnotationInput
  /-- `now()`: the start of the transaction. -/
  ts : Time
  phase : AnnotationPhase
  deriving DecidableEq

structure Annotations where
  events : Table Ulid InjectionEvent (·.eventUid)
  rows : Table Ulid InjectionEventAnnotation (·.targetEventUid)
  calls : List AnnotationCall
  clock : Time

variable (s : Annotations)

/-- What the batch meets before any transaction begins. -/
def startAnnotations (annotations : List InjectionEventAnnotationInput) : AnnotationPhase :=
  if annotations = [] then .over (.refused .emptyBatch)
  else if ¬(annotations.map (·.targetEventUid)).Nodup then .over (.refused .repeatedTarget)
  else .waiting

/-- The first loop: each target exists and carries the expected identities. -/
def checkTargets (targets : List InjectionEvent) :
    List InjectionEventAnnotationInput → Except AnnotationError Unit
  | [] => .ok ()
  | entry :: annotations => do
    let target ← require (targets.find? (·.eventUid = entry.targetEventUid))
      (.targetNotFound entry.targetEventUid)
    ensure (target.principalId = entry.expectedPrincipalId ∧
      target.machineId = entry.expectedMachineId)
      (.fingerprintMismatch entry.targetEventUid)
    checkTargets targets annotations

/-- The second loop: the rows still to be added. -/
def pendingRows (targets : List InjectionEvent) (existing : List InjectionEventAnnotation) :
    List InjectionEventAnnotationInput → Except AnnotationError (List AnnotationValues)
  | [] => .ok []
  | entry :: annotations => do
    let target ← require (targets.find? (·.eventUid = entry.targetEventUid))
      (.targetNotFound entry.targetEventUid)
    match existing.find? (·.targetEventUid = entry.targetEventUid) with
    | some row => do
      ensure (row.toAnnotationValues = annotationValues entry target)
        (.conflict entry.targetEventUid)
      pendingRows targets existing annotations
    | none => do
      let pending ← pendingRows targets existing annotations
      return annotationValues entry target :: pending

inductive AnnotationStepError
  | noSuchCall
  /-- The advisory lock is held. -/
  | blocked
  | integrity
  deriving DecidableEq

def annotationCallAt (k : Nat) : Except AnnotationStepError AnnotationCall :=
  require s.calls[k]? .noSuchCall

def Annotations.become (k : Nat) (call : AnnotationCall) : Annotations :=
  { s with calls := s.calls.set k call }

inductive AnnotationAction
  /-- Time passes. -/
  | tick (elapsed : Time)
  /-- A prepare logs an event. -/
  | log (event : InjectionEvent)
  | begin (annotations : List InjectionEventAnnotationInput)
  | lock (k : Nat)
  | target (k : Nat)
  | compare (k : Nat)
  | commit (k : Nat)
  /-- A transaction is rolled back. -/
  | abort (k : Nat)
  deriving DecidableEq

def annotationStep (s : Annotations) : AnnotationAction → Except AnnotationStepError Annotations
  | .tick elapsed => .ok { s with clock := s.clock + elapsed }
  | .log event => do
    let events ← require (s.events.insert? event) .integrity
    return { s with events }
  | .begin annotations =>
    .ok { s with calls := s.calls ++ [⟨annotations, s.clock, startAnnotations annotations⟩] }
  | .lock k => do
    let call ← annotationCallAt s k
    ensure (call.phase = .waiting) .noSuchCall
    ensure (∀ other ∈ s.calls, ¬other.phase.HoldsLock) .blocked
    return s.become k { call with phase := .locked }
  | .target k => do
    let call ← annotationCallAt s k
    ensure (call.phase = .locked) .noSuchCall
    let uids := call.annotations.map (·.targetEventUid)
    let targets := s.events.rows.filter (·.eventUid ∈ uids)
    match checkTargets targets call.annotations with
    | .error error => .ok (s.become k { call with phase := .over (.refused error) })
    | .ok () => .ok (s.become k { call with phase := .targeted targets })
  | .compare k => do
    let call ← annotationCallAt s k
    match call.phase with
    | .targeted targets =>
      let uids := call.annotations.map (·.targetEventUid)
      let existing := s.rows.rows.filter (·.targetEventUid ∈ uids)
      match pendingRows targets existing call.annotations with
      | .error error => .ok (s.become k { call with phase := .over (.refused error) })
      | .ok pending => .ok (s.become k { call with phase := .compared pending })
    | _ => .error .noSuchCall
  | .commit k => do
    let call ← annotationCallAt s k
    match call.phase with
    | .compared pending => do
      let rows ← require
        (s.rows.insertAll? (pending.map fun values => ⟨values, call.ts⟩)) .integrity
      return { s.become k { call with
          phase := .over (.accepted call.annotations.length) } with rows }
    | _ => .error .noSuchCall
  | .abort k => do
    let call ← annotationCallAt s k
    ensure (¬call.phase.Ended) .noSuchCall
    return s.become k { call with phase := .over .lost }

def annotations : Machine Annotations AnnotationAction AnnotationStepError where
  start s := s.rows = .empty ∧ s.calls = []
  step := annotationStep

end Nocturne.Inject
