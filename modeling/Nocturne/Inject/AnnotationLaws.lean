import Nocturne.Inject.Annotations
import Nocturne.Lib.Flight
import Nocturne.Lib.Record

namespace Nocturne.Inject

open Nocturne.Lib

variable {s s' : Annotations}

section Loops

variable {targets : List InjectionEvent} {existing : List InjectionEventAnnotation}
  {pending : List AnnotationValues} {entry : InjectionEventAnnotationInput}
  {batch : List InjectionEventAnnotationInput}

/-- The values a request asks for, when its target is the event it expects. -/
def requested (entry : InjectionEventAnnotationInput) : AnnotationValues where
  targetEventUid := entry.targetEventUid
  kind := "verification_only"
  targetPrincipalId := entry.expectedPrincipalId
  targetMachineId := entry.expectedMachineId
  reason := entry.reason
  annotatorPrincipalId := entry.annotatorPrincipalId
  annotatorMachineId := entry.annotatorMachineId
  annotatorOriginAgent := entry.annotatorOriginAgent

/-- The event a request expects. -/
structure Expects (entry : InjectionEventAnnotationInput) (target : InjectionEvent) : Prop where
  uid : target.eventUid = entry.targetEventUid
  principal : target.principalId = entry.expectedPrincipalId
  machine : target.machineId = entry.expectedMachineId

theorem Expects.values {target : InjectionEvent} (h : Expects entry target) :
    annotationValues entry target = requested entry := by
  simp [annotationValues, requested, h.uid, h.principal, h.machine]

/-- The row of a request carries the values it asks for. -/
abbrev Held (rows : List InjectionEventAnnotation) (batch : List InjectionEventAnnotationInput) :
    Prop :=
  OnRecord (·.targetEventUid) (·.targetEventUid)
    (fun row entry => row.toAnnotationValues = requested entry) rows batch

/-- The rows a list shows under a uid are those its selection by uids shows. -/
theorem find?_selected {ρ : Type} {uidOf : ρ → Ulid} {rows : List ρ} {uids : List Ulid} {uid : Ulid}
    (huid : uid ∈ uids) :
    (rows.filter (uidOf · ∈ uids)).find? (uidOf · = uid) = rows.find? (uidOf · = uid) := by
  rw [List.find?_filter]
  congr 1
  funext row
  by_cases h : uidOf row = uid
  · simp [h, huid]
  · simp [h]

theorem checkTargets_eq_ok :
    checkTargets targets batch = .ok () ↔ ∀ entry ∈ batch, ∃ target,
      targets.find? (·.eventUid = entry.targetEventUid) = some target ∧
        Expects entry target := by
  induction batch with
  | nil => simp [checkTargets]
  | cons entry batch ih =>
    simp only [checkTargets, bind_eq_ok, require_eq_ok, ensure_eq_ok, List.forall_mem_cons, ih]
    constructor
    · rintro ⟨target, hfind, _, ⟨hprincipal, hmachine⟩, hrest⟩
      exact ⟨⟨target, hfind, by simpa using List.find?_some hfind, hprincipal, hmachine⟩, hrest⟩
    · rintro ⟨⟨target, hfind, hexpects⟩, hrest⟩
      exact ⟨target, hfind, .unit, ⟨hexpects.principal, hexpects.machine⟩, hrest⟩

/-- Each request finds its row on record or adds it. -/
theorem held_of_pendingRows (ts : Time) (htargets : checkTargets targets batch = .ok ())
    (h : pendingRows targets existing batch = .ok pending) :
    Held (existing ++ pending.map fun values => ⟨values, ts⟩) batch := by
  rw [checkTargets_eq_ok] at htargets
  induction batch generalizing pending with
  | nil => simp [OnRecord]
  | cons entry batch ih =>
    obtain ⟨⟨target, htarget, hexpects⟩, hrest⟩ := List.forall_mem_cons.mp htargets
    simp only [pendingRows, htarget, require_some, ok_bind] at h
    split at h
    · next row hrow =>
      simp only [bind_eq_ok, ensure_eq_ok] at h
      obtain ⟨_, hvalues, h⟩ := h
      intro other hother
      rcases List.mem_cons.mp hother with rfl | hother
      · have hmem := List.mem_of_find?_eq_some hrow
        exact ⟨row, List.mem_append_left _ hmem, by simpa using List.find?_some hrow,
          hvalues.trans hexpects.values⟩
      · exact ih hrest h other hother
    · simp only [bind_eq_ok, pure_eq_ok] at h
      obtain ⟨rest, hpending, rfl⟩ := h
      intro other hother
      rcases List.mem_cons.mp hother with rfl | hother
      · refine ⟨⟨annotationValues other target, ts⟩, by simp, ?_, hexpects.values⟩
        simp [annotationValues, hexpects.uid]
      · obtain ⟨row, hrow, hkey⟩ := ih hrest hpending other hother
        refine ⟨row, ?_, hkey⟩
        simp only [List.map_cons, List.mem_append, List.mem_cons] at hrow ⊢
        tauto

/-- A batch on record adds nothing. -/
theorem pendingRows_of_held {t : Table Ulid InjectionEventAnnotation (·.targetEventUid)}
    {uids : List Ulid} (htargets : checkTargets targets batch = .ok ()) (h : Held t.rows batch)
    (huids : ∀ entry ∈ batch, entry.targetEventUid ∈ uids) :
    pendingRows targets (t.rows.filter (·.targetEventUid ∈ uids)) batch = .ok [] := by
  rw [checkTargets_eq_ok] at htargets
  induction batch with
  | nil => rfl
  | cons entry batch ih =>
    obtain ⟨⟨target, htarget, hexpects⟩, hrest⟩ := List.forall_mem_cons.mp htargets
    obtain ⟨huid, huids⟩ := List.forall_mem_cons.mp huids
    obtain ⟨row, hrow, hvalues⟩ := h.get? List.mem_cons_self
    have hfind : (t.rows.filter (·.targetEventUid ∈ uids)).find?
        (·.targetEventUid = entry.targetEventUid) = some row := by
      rw [find?_selected huid]
      exact hrow
    simp only [pendingRows, htarget, require_some, ok_bind, hfind, hvalues, hexpects.values,
      ensure_pos]
    exact ih hrest (fun b hb => h b (List.mem_cons_of_mem _ hb)) huids

/-- A batch that passes the comparison asks for the values on record. -/
theorem values_of_pendingRows {t : Table Ulid InjectionEventAnnotation (·.targetEventUid)}
    {uids : List Ulid} (htargets : checkTargets targets batch = .ok ())
    (h : pendingRows targets (t.rows.filter (·.targetEventUid ∈ uids)) batch = .ok pending)
    (huids : ∀ entry ∈ batch, entry.targetEventUid ∈ uids)
    (hentry : entry ∈ batch) {row : InjectionEventAnnotation} (hrow : row ∈ t.rows)
    (huid : row.targetEventUid = entry.targetEventUid) :
    row.toAnnotationValues = requested entry := by
  rw [checkTargets_eq_ok] at htargets
  induction batch generalizing pending with
  | nil => cases hentry
  | cons first batch ih =>
    obtain ⟨⟨target, htarget, hexpects⟩, hrest⟩ := List.forall_mem_cons.mp htargets
    obtain ⟨hfirst, huids⟩ := List.forall_mem_cons.mp huids
    simp only [pendingRows, htarget, require_some, ok_bind, find?_selected hfirst] at h
    rcases List.mem_cons.mp hentry with rfl | hentry
    · have hfind : t.rows.find? (·.targetEventUid = entry.targetEventUid) = some row :=
        Table.get?_eq_some_iff.mpr ⟨hrow, huid⟩
      simp only [hfind, bind_eq_ok, ensure_eq_ok] at h
      obtain ⟨_, hvalues, _⟩ := h
      exact hvalues.trans hexpects.values
    · split at h
      · simp only [bind_eq_ok] at h
        obtain ⟨_, _, h⟩ := h
        exact ih hrest h huids hentry
      · simp only [bind_eq_ok] at h
        obtain ⟨rest, h, _⟩ := h
        exact ih hrest h huids hentry

/-- The batch finds every event it expects. -/
def Targeted (events : List InjectionEvent) (batch : List InjectionEventAnnotationInput) : Prop :=
  ∀ entry ∈ batch, ∃ target ∈ events, Expects entry target

theorem checkTargets_of_targeted {t : Table Ulid InjectionEvent (·.eventUid)} {uids : List Ulid}
    (h : Targeted t.rows batch)
    (huids : ∀ entry ∈ batch, entry.targetEventUid ∈ uids) :
    checkTargets (t.rows.filter (·.eventUid ∈ uids)) batch = .ok () := by
  rw [checkTargets_eq_ok]
  intro entry hentry
  obtain ⟨target, htarget, hexpects⟩ := h entry hentry
  have hfind : t.get? entry.targetEventUid = some target :=
    Table.get?_eq_some_iff.mpr ⟨htarget, hexpects.uid⟩
  refine ⟨target, ?_, hexpects⟩
  rw [find?_selected (huids entry hentry)]
  exact hfind

end Loops

/-- What each accepted step does. -/
inductive AnnotationStepped (s : Annotations) : AnnotationAction → Annotations → Prop
  | tick {elapsed : Time} :
    AnnotationStepped s (.tick elapsed) { s with clock := s.clock + elapsed }
  | log {event : InjectionEvent} {events : Table Ulid InjectionEvent (·.eventUid)}
    (hevents : events.Extends s.events) : AnnotationStepped s (.log event) { s with events }
  | begin {batch : List InjectionEventAnnotationInput} :
    AnnotationStepped s (.begin batch)
      { s with calls := s.calls ++ [⟨batch, s.clock, startAnnotations batch⟩] }
  | lock {k : Nat} {batch : List InjectionEventAnnotationInput} {ts : Time}
    (hk : s.calls[k]? = some ⟨batch, ts, .waiting⟩) :
    AnnotationStepped s (.lock k) (s.become k ⟨batch, ts, .locked⟩)
  | refuseTarget {k : Nat} {batch : List InjectionEventAnnotationInput} {ts : Time}
    {error : AnnotationError} (hk : s.calls[k]? = some ⟨batch, ts, .locked⟩)
    (hcheck : checkTargets (s.events.rows.filter (·.eventUid ∈ batch.map (·.targetEventUid)))
      batch = .error error) :
    AnnotationStepped s (.target k) (s.become k ⟨batch, ts, .over (.refused error)⟩)
  | target {k : Nat} {batch : List InjectionEventAnnotationInput} {ts : Time}
    (hk : s.calls[k]? = some ⟨batch, ts, .locked⟩)
    (hcheck : checkTargets (s.events.rows.filter (·.eventUid ∈ batch.map (·.targetEventUid)))
      batch = .ok ()) :
    AnnotationStepped s (.target k) (s.become k ⟨batch, ts,
      .targeted (s.events.rows.filter (·.eventUid ∈ batch.map (·.targetEventUid)))⟩)
  | refuse {k : Nat} {batch : List InjectionEventAnnotationInput} {ts : Time}
    {targets : List InjectionEvent} {error : AnnotationError}
    (hk : s.calls[k]? = some ⟨batch, ts, .targeted targets⟩)
    (hcompare : pendingRows targets
      (s.rows.rows.filter (·.targetEventUid ∈ batch.map (·.targetEventUid))) batch =
        .error error) :
    AnnotationStepped s (.compare k) (s.become k ⟨batch, ts, .over (.refused error)⟩)
  | compare {k : Nat} {batch : List InjectionEventAnnotationInput} {ts : Time}
    {targets : List InjectionEvent} {pending : List AnnotationValues}
    (hk : s.calls[k]? = some ⟨batch, ts, .targeted targets⟩)
    (hcompare : pendingRows targets
      (s.rows.rows.filter (·.targetEventUid ∈ batch.map (·.targetEventUid))) batch =
        .ok pending) :
    AnnotationStepped s (.compare k) (s.become k ⟨batch, ts, .compared pending⟩)
  | commit {k : Nat} {batch : List InjectionEventAnnotationInput} {ts : Time}
    {pending : List AnnotationValues}
    {rows : Table Ulid InjectionEventAnnotation (·.targetEventUid)}
    (hk : s.calls[k]? = some ⟨batch, ts, .compared pending⟩)
    (hrows : rows.rows = s.rows.rows ++ pending.map fun values => ⟨values, ts⟩) :
    AnnotationStepped s (.commit k)
      { s.become k ⟨batch, ts, .over (.accepted batch.length)⟩ with rows }
  | abort {k : Nat} {call : AnnotationCall} (hk : s.calls[k]? = some call)
    (hphase : ¬call.phase.Ended) :
    AnnotationStepped s (.abort k) (s.become k ⟨call.annotations, call.ts, .over .lost⟩)

theorem annotationStepped_of_step {a : AnnotationAction} (h : annotations.step s a = .ok s') :
    AnnotationStepped s a s' := by
  simp only [annotations] at h
  cases a with
  | tick elapsed =>
    simp only [annotationStep, Except.ok.injEq] at h
    exact h ▸ .tick
  | log event =>
    simp only [annotationStep, bind_eq_ok, require_eq_ok, pure_eq_ok, Table.insert?_eq_some] at h
    obtain ⟨_, ⟨_, rfl⟩, rfl⟩ := h
    exact .log (Table.extends_of_append rfl)
  | begin batch =>
    simp only [annotationStep, Except.ok.injEq] at h
    exact h ▸ .begin
  | lock k =>
    simp only [annotationStep, annotationCallAt, bind_eq_ok, require_eq_ok, ensure_eq_ok,
      pure_eq_ok] at h
    obtain ⟨⟨batch, ts, phase⟩, hk, _, hphase, _, _, rfl⟩ := h
    dsimp only at hphase
    exact .lock (hphase ▸ hk)
  | target k =>
    simp only [annotationStep, annotationCallAt, bind_eq_ok, require_eq_ok, ensure_eq_ok] at h
    obtain ⟨⟨batch, ts, phase⟩, hk, _, hphase, h⟩ := h
    dsimp only at hphase
    subst hphase
    split at h
    · next hcheck =>
      cases h
      exact .refuseTarget hk hcheck
    · next hcheck =>
      cases h
      exact .target hk hcheck
  | compare k =>
    simp only [annotationStep, annotationCallAt, bind_eq_ok, require_eq_ok] at h
    obtain ⟨⟨batch, ts, phase⟩, hk, h⟩ := h
    split at h
    · next hphase =>
      dsimp only at hphase
      subst hphase
      split at h
      · next hcompare =>
        cases h
        exact .refuse hk hcompare
      · next hcompare =>
        cases h
        exact .compare hk hcompare
    · cases h
  | commit k =>
    simp only [annotationStep, annotationCallAt, bind_eq_ok, require_eq_ok] at h
    obtain ⟨⟨batch, ts, phase⟩, hk, h⟩ := h
    split at h
    · next hphase =>
      simp only [bind_eq_ok, pure_eq_ok, require_eq_ok, Table.insertAll?_eq_some] at h
      obtain ⟨rows, hrows, rfl⟩ := h
      dsimp only at hphase
      exact .commit (hphase ▸ hk) hrows
    · cases h
  | abort k =>
    simp only [annotationStep, annotationCallAt, bind_eq_ok, require_eq_ok, ensure_eq_ok,
      pure_eq_ok] at h
    obtain ⟨call, hk, _, hphase, rfl⟩ := h
    exact .abort hk hphase

/-- A call once over stays as it ended. -/
theorem AnnotationStepped.outcome_stands {a : AnnotationAction} {k : Nat}
    {batch : List InjectionEventAnnotationInput} {ts : Time} {outcome : AnnotationOutcome}
    (h : AnnotationStepped s a s') (hk : s.calls[k]? = some ⟨batch, ts, .over outcome⟩) :
    s'.calls[k]? = some ⟨batch, ts, .over outcome⟩ := by
  have hkept {j : Nat} {other next : AnnotationCall} (hj : s.calls[j]? = some other)
      (hother : ¬other.phase.Ended) :
      (s.calls.set j next)[k]? = some ⟨batch, ts, .over outcome⟩ := by
    apply set_other _ hk
    rintro rfl
    rw [hk] at hj
    cases hj
    exact hother trivial
  cases h with
  | tick => exact hk
  | log => exact hk
  | begin => exact begun_other hk
  | lock hj => exact hkept hj id
  | refuseTarget hj => exact hkept hj id
  | target hj => exact hkept hj id
  | refuse hj => exact hkept hj id
  | compare hj => exact hkept hj id
  | commit hj => exact hkept hj id
  | abort hj hphase => exact hkept hj hphase

theorem annotation_outcome_run {k : Nat} {batch : List InjectionEventAnnotationInput} {ts : Time}
    {outcome : AnnotationOutcome} (hk : s.calls[k]? = some ⟨batch, ts, .over outcome⟩)
    (as : List AnnotationAction) :
    (annotations.run s as).calls[k]? = some ⟨batch, ts, .over outcome⟩ :=
  Machine.run_keeps (I := fun s => s.calls[k]? = some ⟨batch, ts, .over outcome⟩)
    (fun hk h => (annotationStepped_of_step h).outcome_stands hk) as hk

/-- Rows change where a call commits, and nowhere else. -/
theorem annotation_rows_of_step {a : AnnotationAction} (h : AnnotationStepped s a s') :
    s'.rows = s.rows ∨ s'.rows.Extends s.rows ∧ ∃ k batch ts, a = .commit k ∧
      s'.calls[k]? = some ⟨batch, ts, .over (.accepted batch.length)⟩ := by
  cases h with
  | commit hk hrows => exact .inr ⟨Table.extends_of_append hrows, _, _, _, rfl, set_self hk⟩
  | tick => exact .inl rfl
  | log => exact .inl rfl
  | begin => exact .inl rfl
  | lock => exact .inl rfl
  | refuseTarget => exact .inl rfl
  | target => exact .inl rfl
  | refuse => exact .inl rfl
  | compare => exact .inl rfl
  | abort => exact .inl rfl

theorem annotations_extend (s : Annotations) (as : List AnnotationAction) :
    (annotations.run s as).rows.Extends s.rows := by
  refine Machine.run_rel (R := fun s s' => s'.rows.Extends s.rows) (fun s => .refl s.rows)
    (fun h h' => .trans h h') ?_ s as
  intro s a s' h
  rcases annotation_rows_of_step (annotationStepped_of_step h) with hsame | ⟨hext, _⟩
  · rw [hsame]
    exact .refl s.rows
  · exact hext

/-- What the calls have found so far. -/
structure AnnotationsSound (s : Annotations) : Prop where
  targeted : ∀ (k : Nat) batch ts targets, s.calls[k]? = some ⟨batch, ts, .targeted targets⟩ →
    checkTargets targets batch = .ok () ∧ Targeted s.events.rows batch
  compared : ∀ (k : Nat) batch ts pending, s.calls[k]? = some ⟨batch, ts, .compared pending⟩ →
    Held (s.rows.rows ++ pending.map fun values => ⟨values, ts⟩) batch ∧
      Targeted s.events.rows batch
  accepted : ∀ (k : Nat) batch ts count, s.calls[k]? = some ⟨batch, ts, .over (.accepted count)⟩ →
    Held s.rows.rows batch ∧ Targeted s.events.rows batch

theorem Targeted.mono {events events' : List InjectionEvent}
    {batch : List InjectionEventAnnotationInput} (h : Targeted events batch)
    (hevents : events ⊆ events') : Targeted events' batch := by
  intro entry hentry
  obtain ⟨target, htarget, hexpects⟩ := h entry hentry
  exact ⟨target, hevents htarget, hexpects⟩

theorem targeted_of_check {events targets : List InjectionEvent}
    {batch : List InjectionEventAnnotationInput} (h : checkTargets targets batch = .ok ())
    (htargets : targets ⊆ events) : Targeted events batch := by
  intro entry hentry
  obtain ⟨target, hfind, hexpects⟩ := checkTargets_eq_ok.1 h entry hentry
  exact ⟨target, htargets (List.mem_of_find?_eq_some hfind), hexpects⟩

theorem startAnnotations_cases (batch : List InjectionEventAnnotationInput) :
    startAnnotations batch = .waiting ∧ batch ≠ [] ∧
        (batch.map (·.targetEventUid)).Nodup ∨
      ∃ error, startAnnotations batch = .over (.refused error) := by
  unfold startAnnotations
  split
  · exact .inr ⟨_, rfl⟩
  · next hne =>
    split
    · exact .inr ⟨_, rfl⟩
    · next hnodup => exact .inl ⟨rfl, hne, not_not.mp hnodup⟩

/-- A step of one call that leaves the rows on record. -/
theorem AnnotationsSound.become {k : Nat} {next : AnnotationCall} (h : AnnotationsSound s)
    (htargeted : ∀ targets, next.phase = .targeted targets →
      checkTargets targets next.annotations = .ok () ∧ Targeted s.events.rows next.annotations)
    (hcompared : ∀ pending, next.phase = .compared pending →
      Held (s.rows.rows ++ pending.map fun values => ⟨values, next.ts⟩) next.annotations ∧
        Targeted s.events.rows next.annotations)
    (haccepted : ∀ count, next.phase ≠ .over (.accepted count)) :
    AnnotationsSound (s.become k next) where
  targeted i batch ts targets hi := by
    rcases set_cases hi with ⟨_, rfl⟩ | ⟨_, hi⟩
    · exact htargeted targets rfl
    · exact h.targeted i batch ts targets hi
  compared i batch ts pending hi := by
    rcases set_cases hi with ⟨_, rfl⟩ | ⟨_, hi⟩
    · exact hcompared pending rfl
    · exact h.compared i batch ts pending hi
  accepted i batch ts count hi := by
    rcases set_cases hi with ⟨_, rfl⟩ | ⟨_, hi⟩
    · exact absurd rfl (haccepted count)
    · exact h.accepted i batch ts count hi

theorem AnnotationsSound.stepped {a : AnnotationAction} (h : AnnotationsSound s)
    (hstep : AnnotationStepped s a s') : AnnotationsSound s' := by
  cases hstep with
  | tick => exact ⟨h.targeted, h.compared, h.accepted⟩
  | log hevents =>
    constructor
    · intro i batch ts targets hi
      obtain ⟨hcheck, htargeted⟩ := h.targeted i batch ts targets hi
      exact ⟨hcheck, htargeted.mono hevents.subset⟩
    · intro i batch ts pending hi
      obtain ⟨hheld, htargeted⟩ := h.compared i batch ts pending hi
      exact ⟨hheld, htargeted.mono hevents.subset⟩
    · intro i batch ts count hi
      obtain ⟨hheld, htargeted⟩ := h.accepted i batch ts count hi
      exact ⟨hheld, htargeted.mono hevents.subset⟩
  | @begin batch =>
    have hold {i : Nat} {call : AnnotationCall}
        (hi : (s.calls ++ [⟨batch, s.clock, startAnnotations batch⟩])[i]? = some call)
        (hphase : call.phase ≠ startAnnotations call.annotations) : s.calls[i]? = some call := by
      rcases begun_cases hi with ⟨_, rfl⟩ | hi
      · exact absurd rfl hphase
      · exact hi
    constructor
    · intro i other ts targets hi
      refine h.targeted i other ts targets (hold hi ?_)
      rcases startAnnotations_cases other with ⟨heq, _⟩ | ⟨_, heq⟩ <;> simp [heq]
    · intro i other ts pending hi
      refine h.compared i other ts pending (hold hi ?_)
      rcases startAnnotations_cases other with ⟨heq, _⟩ | ⟨_, heq⟩ <;> simp [heq]
    · intro i other ts count hi
      refine h.accepted i other ts count (hold hi ?_)
      rcases startAnnotations_cases other with ⟨heq, _⟩ | ⟨_, heq⟩ <;> simp [heq]
  | lock => exact h.become (by simp) (by simp) (by simp)
  | refuseTarget => exact h.become (by simp) (by simp) (by simp)
  | target hk hcheck =>
    refine h.become ?_ (by simp) (by simp)
    intro targets heq
    cases heq
    exact ⟨hcheck, targeted_of_check hcheck (List.filter_subset_self _)⟩
  | refuse => exact h.become (by simp) (by simp) (by simp)
  | @compare k batch ts targets pending hk hcompare =>
    obtain ⟨hcheck, htargeted⟩ := h.targeted k batch ts targets hk
    refine h.become (by simp) ?_ (by simp)
    intro pending' heq
    cases heq
    refine ⟨(held_of_pendingRows ts hcheck hcompare).mono ?_, htargeted⟩
    exact List.append_subset.mpr ⟨List.Subset.trans (List.filter_subset_self _)
      (List.subset_append_left _ _), List.subset_append_right _ _⟩
  | @commit k batch ts pending rows hk hrows =>
    constructor
    · intro i other ts' targets hi
      rcases set_cases hi with ⟨_, heq⟩ | ⟨_, hi⟩
      · cases heq
      · exact h.targeted i other ts' targets hi
    · intro i other ts' pending' hi
      rcases set_cases hi with ⟨_, heq⟩ | ⟨_, hi⟩
      · cases heq
      · obtain ⟨hheld, htargeted⟩ := h.compared i other ts' pending' hi
        refine ⟨hheld.mono ?_, htargeted⟩
        rw [hrows]
        intro row hrow
        simp only [List.mem_append] at hrow ⊢
        tauto
    · intro i other ts' count hi
      change Held rows.rows other ∧ _
      rw [hrows]
      rcases set_cases hi with ⟨_, heq⟩ | ⟨_, hi⟩
      · cases heq
        exact h.compared k batch ts pending hk
      · obtain ⟨hheld, htargeted⟩ := h.accepted i other ts' count hi
        exact ⟨hheld.mono (List.subset_append_left _ _), htargeted⟩
  | abort => exact h.become (by simp) (by simp) (by simp)

theorem annotationsSound_of_reachable (h : annotations.Reachable s) : AnnotationsSound s := by
  refine Machine.reachable_keeps (I := AnnotationsSound) ?_ ?_ h
  · rintro s ⟨_, hcalls⟩
    constructor <;> simp [hcalls]
  · exact fun hs hstep => hs.stepped (annotationStepped_of_step hstep)

end Nocturne.Inject
