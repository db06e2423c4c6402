import Nocturne.Inject.Rescore
import Nocturne.Lib.Flight
import Nocturne.Palace.Log

namespace Nocturne

open Nocturne.Lib Nocturne.Store Nocturne.Inject

/-- How far a prepare call has come; an attempt keeps the snapshot its transaction reads. -/
inductive PreparePhase
  | ready
  | reading (snapshot : Store) (plan : PreparePlan)
  | answered (response : PrepareResponse)
  | failed (error : SpineError)

namespace PreparePhase

def ready? : PreparePhase → Option Unit
  | ready => some ()
  | _ => none

def reading? : PreparePhase → Option (Store × PreparePlan)
  | reading snapshot plan => some (snapshot, plan)
  | _ => none

@[simp] theorem ready?_eq_some {phase : PreparePhase} :
    phase.ready? = some () ↔ phase = .ready := by
  cases phase <;> simp [ready?]

@[simp] theorem reading?_eq_some {phase : PreparePhase} {r : Store × PreparePlan} :
    phase.reading? = some r ↔ phase = .reading r.1 r.2 := by
  cases phase <;> simp [reading?, Prod.ext_iff]

end PreparePhase

/-- One call of `prepare`, with the attempts it has used up. -/
structure PrepareCall where
  command : PrepareCommand
  query : Embedding
  attempts : Nat
  phase : PreparePhase

/-- Refusals that a fresh snapshot may resolve. -/
def SpineError.Retries : SpineError → Prop
  | .prepareConflict | .memoryCasConflict _ => True
  | _ => False

instance : DecidablePred SpineError.Retries := fun error => by
  cases error <;> unfold SpineError.Retries <;> infer_instance

def maxTransactionAttempts : Nat := 3

/-- An attempt was refused: the call tries again, or raises. -/
def PrepareCall.refuse (call : PrepareCall) (error : SpineError) : PrepareCall :=
  if error.Retries then
    { call with
      attempts := call.attempts + 1
      phase := if call.attempts + 1 = maxTransactionAttempts then .failed .prepareConflict
        else .ready }
  else { call with phase := .failed error }

/-- What a call is before its first attempt; a command that does not validate is no attempt. -/
def PrepareCall.start (command : PrepareCommand) (query : Embedding) : PrepareCall :=
  { command
    query
    attempts := 0
    phase :=
      match validateCommand.{0} command with
      | .ok _ => .ready
      | .error error => .failed error }

/-- A palace and the prepare calls made on it. -/
structure Desk where
  palace : Palace
  calls : List PrepareCall

inductive DeskAction
  /-- A transaction of any other service. -/
  | other (call : Call)
  | begin (command : PrepareCommand) (query : Embedding)
  | read (k : Nat) (session : Session)
  | write (k : Nat) (session : Session)

namespace Desk

def store (d : Desk) : Store := d.palace.store

def become (d : Desk) (k : Nat) (call : PrepareCall) : Desk :=
  { d with calls := d.calls.set k call }

/-- The store after an accepted attempt, and its call. -/
def commit (d : Desk) (store : Store) (k : Nat) (call : PrepareCall) : Desk :=
  ⟨⟨store, d.palace.ops⟩, d.calls.set k call⟩

variable (w : World) (d : Desk)

def step : DeskAction → Except SpineError Desk
  | .other call => do
    ensure (¬call.action.Prepares) .noSuchOperation
    let q ← d.palace.step w call
    -- no other service has the thread table in a statement
    return { d with palace := ⟨{ q.store with threads := d.store.threads }, q.ops⟩ }
  | .begin command query => .ok { d with calls := d.calls ++ [.start command query] }
  | .read k session => do
    let call ← require d.calls[k]? .noSuchOperation
    let _ ← require call.phase.ready? .noSuchOperation
    let snapshot := d.store.begin session
    match prepareRead w.env w.scoring snapshot call.command call.query with
    | .ok plan => return d.become k { call with phase := .reading snapshot plan }
    | .error error => return d.become k (call.refuse error)
  | .write k session => do
    let call ← require d.calls[k]? .noSuchOperation
    let (_, plan) ← require call.phase.reading? .noSuchOperation
    match prepareWrite w.env (d.store.begin session) plan with
    | .ok (response, store) => return d.commit store k { call with phase := .answered response }
    | .error error => return d.become k (call.refuse error)

/-- What each step can do. -/
inductive Stepped (w : World) (d : Desk) : DeskAction → Desk → Prop
  | other {call : Call} {q : Palace} : ¬call.action.Prepares →
      d.palace.step w call = .ok q → Stepped w d (.other call)
        { d with palace := ⟨{ q.store with threads := d.store.threads }, q.ops⟩ }
  | begin {command : PrepareCommand} {query : Embedding} : Stepped w d (.begin command query)
      { d with calls := d.calls ++ [.start command query] }
  | read {k : Nat} {session : Session} {call : PrepareCall} {plan : PreparePlan} :
    d.calls[k]? = some call → call.phase = .ready →
      prepareRead w.env w.scoring (d.store.begin session) call.command call.query = .ok plan →
      Stepped w d (.read k session)
        (d.become k { call with phase := .reading (d.store.begin session) plan })
  | unread {k : Nat} {session : Session} {call : PrepareCall} {error : SpineError} :
    d.calls[k]? = some call → call.phase = .ready →
      Stepped w d (.read k session) (d.become k (call.refuse error))
  | wrote {k : Nat} {session : Session} {call : PrepareCall} {snapshot : Store}
    {plan : PreparePlan} {r : PrepareResponse × Store} :
    d.calls[k]? = some call → call.phase = .reading snapshot plan →
      prepareWrite w.env (d.store.begin session) plan = .ok r →
      Stepped w d (.write k session) (d.commit r.2 k { call with phase := .answered r.1 })
  | unwritten {k : Nat} {session : Session} {call : PrepareCall} {snapshot : Store}
    {plan : PreparePlan} {error : SpineError} :
    d.calls[k]? = some call → call.phase = .reading snapshot plan →
      Stepped w d (.write k session) (d.become k (call.refuse error))

end Desk

/-- Any number of prepare calls on any threads, each taking its attempts one transaction at a
time, among the transactions of every other service. -/
def desk (w : World) : Machine Desk DeskAction SpineError where
  start d := (palace w).start d.palace ∧ d.calls = []
  step := Desk.step w

variable {w : World} {d d' : Desk} {a : DeskAction}

theorem Desk.stepped_of_step (h : (desk w).step d a = .ok d') : Desk.Stepped w d a d' := by
  cases a with
  | other call =>
    simp only [desk, Desk.step, bind_eq_ok, ensure_eq_ok, pure_eq_ok] at h
    obtain ⟨_, hprepares, q, hstep, rfl⟩ := h
    exact .other hprepares hstep
  | begin command query =>
    obtain rfl := Except.ok.inj h
    exact .begin
  | read k session =>
    simp only [desk, Desk.step, bind_eq_ok, require_eq_ok] at h
    obtain ⟨call, hcall, _, hready, h⟩ := h
    rw [PreparePhase.ready?_eq_some] at hready
    split at h
    · next hread =>
      obtain rfl := Except.ok.inj h
      exact .read hcall hready hread
    · obtain rfl := Except.ok.inj h
      exact .unread hcall hready
  | write k session =>
    simp only [desk, Desk.step, bind_eq_ok, require_eq_ok] at h
    obtain ⟨call, hcall, ⟨snapshot, plan⟩, hreading, h⟩ := h
    rw [PreparePhase.reading?_eq_some] at hreading
    split at h
    · next hwrite =>
      obtain rfl := Except.ok.inj h
      exact .wrote hcall hreading hwrite
    · obtain rfl := Except.ok.inj h
      exact .unwritten hcall hreading

end Nocturne
