import Nocturne.Inject.AnnotationLaws

namespace Nocturne.Inject

open Nocturne.Lib

variable {s s' : Annotations} {n : Nat} {batch : List InjectionEventAnnotationInput}

/-- How far a batch may get that finds all its rows on record. -/
inductive Replaying (batch : List InjectionEventAnnotationInput) : AnnotationPhase → Prop
  | waiting : Replaying batch .waiting
  | locked : Replaying batch .locked
  | targeted {targets : List InjectionEvent} (hcheck : checkTargets targets batch = .ok ()) :
    Replaying batch (.targeted targets)
  | compared : Replaying batch (.compared [])
  | accepted : Replaying batch (.over (.accepted batch.length))
  | lost : Replaying batch (.over .lost)

/-- The call under `n` sends a batch that is on record. -/
structure Resent (s : Annotations) (n : Nat) (batch : List InjectionEventAnnotationInput) :
    Prop where
  recorded : Held s.rows.rows batch
  targeted : Targeted s.events.rows batch
  replaying : ∃ ts phase, s.calls[n]? = some ⟨batch, ts, phase⟩ ∧ Replaying batch phase

theorem Resent.check (h : Resent s n batch) :
    checkTargets (s.events.rows.filter (·.eventUid ∈ batch.map (·.targetEventUid))) batch =
      .ok () :=
  checkTargets_of_targeted h.targeted fun _ => List.mem_map_of_mem

theorem Resent.pending (h : Resent s n batch) {targets : List InjectionEvent}
    (hcheck : checkTargets targets batch = .ok ()) :
    pendingRows targets (s.rows.rows.filter (·.targetEventUid ∈ batch.map (·.targetEventUid)))
      batch = .ok [] :=
  pendingRows_of_held hcheck h.recorded fun _ => List.mem_map_of_mem

theorem Resent.become {k : Nat} {call next : AnnotationCall} (h : Resent s n batch)
    (hk : s.calls[k]? = some call) (hbatch : next.annotations = call.annotations)
    (hnext : k = n → Replaying call.annotations call.phase →
      Replaying call.annotations next.phase) :
    ∃ ts phase, (s.calls.set k next)[n]? = some ⟨batch, ts, phase⟩ ∧ Replaying batch phase := by
  obtain ⟨ts, phase, hn, hreplaying⟩ := h.replaying
  by_cases hkn : k = n
  · subst hkn
    rw [hk] at hn
    cases hn
    obtain ⟨own, nextTs, nextPhase⟩ := next
    dsimp only at hbatch hnext
    subst hbatch
    exact ⟨nextTs, nextPhase, set_self hk, hnext rfl hreplaying⟩
  · exact ⟨ts, phase, set_other hkn hn, hreplaying⟩

theorem Resent.stepped {a : AnnotationAction} (h : Resent s n batch)
    (hstep : AnnotationStepped s a s') : Resent s' n batch := by
  have hown {other : List InjectionEventAnnotationInput} {ts : Time} {phase : AnnotationPhase}
      (hn : s.calls[n]? = some ⟨other, ts, phase⟩) : other = batch := by
    obtain ⟨_, _, hn', _⟩ := h.replaying
    rw [hn] at hn'
    cases hn'
    rfl
  cases hstep with
  | tick => exact ⟨h.recorded, h.targeted, h.replaying⟩
  | log hevents => exact ⟨h.recorded, h.targeted.mono hevents.subset, h.replaying⟩
  | begin =>
    obtain ⟨ts, phase, hn, hreplaying⟩ := h.replaying
    exact ⟨h.recorded, h.targeted, ts, phase, begun_other hn, hreplaying⟩
  | lock hk => exact ⟨h.recorded, h.targeted, h.become hk rfl fun _ _ => .locked⟩
  | refuseTarget hk hcheck =>
    refine ⟨h.recorded, h.targeted, h.become hk rfl ?_⟩
    rintro rfl _
    cases hown hk
    rw [h.check] at hcheck
    cases hcheck
  | target hk hcheck =>
    exact ⟨h.recorded, h.targeted, h.become hk rfl fun _ _ => .targeted hcheck⟩
  | refuse hk hcompare =>
    refine ⟨h.recorded, h.targeted, h.become hk rfl ?_⟩
    rintro rfl hreplaying
    cases hown hk
    cases hreplaying with
    | targeted hcheck =>
      rw [h.pending hcheck] at hcompare
      cases hcompare
  | compare hk hcompare =>
    refine ⟨h.recorded, h.targeted, h.become hk rfl ?_⟩
    rintro rfl hreplaying
    cases hown hk
    cases hreplaying with
    | targeted hcheck =>
      rw [h.pending hcheck] at hcompare
      cases hcompare
      exact .compared
  | commit hk hrows =>
    exact ⟨h.recorded.mono (hrows ▸ List.subset_append_left _ _), h.targeted,
      h.become hk rfl fun _ _ => .accepted⟩
  | abort hk => exact ⟨h.recorded, h.targeted, h.become hk rfl fun _ _ => .lost⟩

theorem resent_run (h : Resent s n batch) (as : List AnnotationAction) :
    Resent (annotations.run s as) n batch :=
  Machine.run_keeps (I := fun s => Resent s n batch)
    (fun h hstep => h.stepped (annotationStepped_of_step hstep)) as h

/-- What is left to do for the call under `n`. -/
def AnnotationCall.remaining (n : Nat) (call : AnnotationCall) : List AnnotationAction :=
  match call.phase with
  | .waiting => [.lock n, .target n, .compare n, .commit n]
  | .locked => [.target n, .compare n, .commit n]
  | .targeted _ => [.compare n, .commit n]
  | .compared _ => [.commit n]
  | .over _ => []

/-- The call under `n` ended accepted. -/
def Accepted (s : Annotations) (n : Nat) (batch : List InjectionEventAnnotationInput) : Prop :=
  ∃ ts, s.calls[n]? = some ⟨batch, ts, .over (.accepted batch.length)⟩

variable {ts : Time}

theorem commit_nothing (hn : s.calls[n]? = some ⟨batch, ts, .compared []⟩) :
    let s' := annotations.run s [.commit n]
    s'.rows = s.rows ∧ Accepted s' n batch := by
  have hrows : s.rows.insertAll? [] = some s.rows := by simp [Table.insertAll?_eq_some]
  have hstep : annotations.step s (.commit n) =
      .ok (s.become n ⟨batch, ts, .over (.accepted batch.length)⟩) := by
    simp [annotations, annotationStep, annotationCallAt, hn, hrows, pure, Except.pure,
      Annotations.become]
  simp only [Machine.run_cons, Machine.run_nil, Machine.next_of_ok hstep]
  exact ⟨rfl, ts, set_self hn⟩

theorem Resent.from_targeted {targets : List InjectionEvent} (h : Resent s n batch)
    (hn : s.calls[n]? = some ⟨batch, ts, .targeted targets⟩)
    (hcheck : checkTargets targets batch = .ok ()) :
    let s' := annotations.run s [.compare n, .commit n]
    s'.rows = s.rows ∧ Accepted s' n batch := by
  have hstep : annotations.step s (.compare n) = .ok (s.become n ⟨batch, ts, .compared []⟩) := by
    simp only [annotations, annotationStep, annotationCallAt, hn, require_some, ok_bind,
      h.pending hcheck]
  rw [Machine.run_cons, Machine.next_of_ok hstep]
  exact commit_nothing (set_self hn)

theorem Resent.from_locked (h : Resent s n batch)
    (hn : s.calls[n]? = some ⟨batch, ts, .locked⟩) :
    let s' := annotations.run s [.target n, .compare n, .commit n]
    s'.rows = s.rows ∧ Accepted s' n batch := by
  have hstep : annotations.step s (.target n) = .ok (s.become n ⟨batch, ts,
      .targeted (s.events.rows.filter (·.eventUid ∈ batch.map (·.targetEventUid)))⟩) := by
    simp only [annotations, annotationStep, annotationCallAt, hn, require_some, ok_bind,
      ensure_pos, h.check]
  rw [Machine.run_cons, Machine.next_of_ok hstep]
  exact (h.stepped (annotationStepped_of_step hstep)).from_targeted (set_self hn) h.check

/-- However far it has come, a call whose batch is on record ends accepted, once it holds the
lock. -/
theorem Resent.remaining (h : Resent s n batch) {call : AnnotationCall}
    (hn : s.calls[n]? = some call) (hkept : call.phase ≠ .over .lost)
    (hfree : call.phase = .waiting → ∀ other ∈ s.calls, ¬other.phase.HoldsLock) :
    let s' := annotations.run s (call.remaining n)
    s'.rows = s.rows ∧ Accepted s' n batch := by
  obtain ⟨ts, phase, hn', hreplaying⟩ := h.replaying
  rw [hn] at hn'
  cases hn'
  cases hreplaying with
  | waiting =>
    have hstep : annotations.step s (.lock n) = .ok (s.become n ⟨batch, ts, .locked⟩) := by
      simp only [annotations, annotationStep, annotationCallAt, hn, require_some, ok_bind,
        ensure_pos, ensure_pos (hfree rfl)]
      rfl
    simp only [AnnotationCall.remaining]
    rw [Machine.run_cons, Machine.next_of_ok hstep]
    exact (h.stepped (annotationStepped_of_step hstep)).from_locked (set_self hn)
  | locked => exact h.from_locked hn
  | targeted hcheck => exact h.from_targeted hn hcheck
  | compared => exact commit_nothing hn
  | accepted => exact ⟨rfl, ts, hn⟩
  | lost => exact absurd rfl hkept

/-- A call either passed the checks before its transaction or was refused by them. -/
def Started (s : Annotations) : Prop :=
  ∀ (k : Nat) call, s.calls[k]? = some call →
    startAnnotations call.annotations = .waiting ∨ ∃ error, call.phase = .over (.refused error)

theorem Started.stepped {a : AnnotationAction} (h : Started s) (hstep : AnnotationStepped s a s') :
    Started s' := by
  have hmoved {k : Nat} {call next : AnnotationCall} (hk : s.calls[k]? = some call)
      (hphase : ¬call.phase.Ended) (hbatch : next.annotations = call.annotations) :
      Started (s.become k next) := by
    intro i other hi
    rcases set_cases hi with ⟨_, rfl⟩ | ⟨_, hi⟩
    · rcases h k call hk with hstart | ⟨error, herror⟩
      · exact .inl (hbatch ▸ hstart)
      · exact absurd (herror ▸ trivial) hphase
    · exact h i other hi
  cases hstep with
  | tick => exact h
  | log => exact h
  | @begin batch =>
    intro i other hi
    rcases begun_cases hi with ⟨_, rfl⟩ | hi
    · exact (startAnnotations_cases batch).imp_left (·.1)
    · exact h i other hi
  | lock hk => exact hmoved hk id rfl
  | refuseTarget hk => exact hmoved hk id rfl
  | target hk => exact hmoved hk id rfl
  | refuse hk => exact hmoved hk id rfl
  | compare hk => exact hmoved hk id rfl
  | commit hk => exact hmoved hk id rfl
  | abort hk hphase => exact hmoved hk hphase rfl

theorem started_of_reachable (h : annotations.Reachable s) : Started s := by
  refine Machine.reachable_keeps (I := Started) ?_ ?_ h
  · rintro s ⟨_, hcalls⟩ k call hk
    simp [hcalls] at hk
  · exact fun hs hstep => hs.stepped (annotationStepped_of_step hstep)

theorem resent_begin (h : annotations.Reachable s) {k count : Nat}
    (hk : s.calls[k]? = some ⟨batch, ts, .over (.accepted count)⟩) :
    Resent (annotations.next s (.begin batch)) s.calls.length batch := by
  obtain ⟨hheld, htargeted⟩ := (annotationsSound_of_reachable h).accepted k batch ts count hk
  refine ⟨hheld, htargeted, s.clock, startAnnotations batch, begun_self, ?_⟩
  rcases started_of_reachable h k _ hk with hstart | ⟨error, herror⟩
  · exact hstart ▸ .waiting
  · cases herror

end Nocturne.Inject
