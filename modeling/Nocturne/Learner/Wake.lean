import Nocturne.Learner.Worker

namespace Nocturne.Learner

open Nocturne.Lib

variable {R : Type} {w w' : LearnerWorker R}

/-- What each accepted step does. -/
inductive Stepped (w : LearnerWorker R) : WorkerAction R → LearnerWorker R → Prop
  | submit {jobId : Ulid}
    (hfresh : w.jobs.get? (RetrainJob.jobId (⟨jobId, none, none⟩ : RetrainJob R)) = none) :
    Stepped w (.submit jobId) { w with jobs := w.jobs.insert ⟨jobId, none, none⟩ hfresh }
  | notify {trigger : Option OptimizationTrigger} :
    Stepped w (.notify trigger)
      { w with
        pendingTrigger := trigger.or w.pendingTrigger
        wake := true
        announced := w.jobs.rows.map (·.jobId) }
  | start (hoff : w.phase = .off) :
    Stepped w .start { w with stop := false, wake := true, phase := .waiting }
  | stop (hon : w.phase ≠ .off) : Stepped w .stop { w with stop := true, wake := true }
  | leave (hwaiting : w.phase = .waiting) (hstop : w.stop = true) :
    Stepped w .awake { w with wake := false, phase := .off }
  | awake (hwaiting : w.phase = .waiting) (hstop : w.stop = false) :
    Stepped w .awake { w with wake := false, phase := .listing }
  | list (hlisting : w.phase = .listing) :
    Stepped w .list { w with phase := .retraining (pendingJobIds w) }
  | retrained {result : R} {jobId : Ulid} {jobIds : List Ulid}
    (hphase : w.phase = .retraining (jobId :: jobIds)) :
    Stepped w (.retrained result)
      { w with
        jobs := w.jobs.modify jobId (·.complete result) (RetrainJob.jobId_complete result)
        phase := .retraining jobIds }
  | raised {jobId : Ulid} {jobIds : List Ulid}
    (hphase : w.phase = .retraining (jobId :: jobIds)) :
    Stepped w .raised { w with phase := .failing jobId }
  | skipped {trigger : OptimizationTrigger} (hphase : w.phase = .compacting trigger) :
    Stepped w .raised { w with phase := .waiting }
  | marked {jobId : Ulid} (hphase : w.phase = .failing jobId) :
    Stepped w .marked
      { w with
        jobs := w.jobs.modify jobId (·.fail) RetrainJob.jobId_fail
        phase := .waiting }
  | idle (hphase : w.phase = .retraining []) (htrigger : w.pendingTrigger = none) :
    Stepped w .drained { w with pendingTrigger := none, phase := .waiting }
  | compact {trigger : OptimizationTrigger} (hphase : w.phase = .retraining [])
    (htrigger : w.pendingTrigger = some trigger) :
    Stepped w .drained { w with pendingTrigger := none, phase := .compacting trigger }
  | compacted {trigger : OptimizationTrigger} (hphase : w.phase = .compacting trigger) :
    Stepped w .compacted { w with phase := .waiting }

theorem stepped_of_step {a : WorkerAction R} (h : (worker R).step w a = .ok w') :
    Stepped w a w' := by
  simp only [worker] at h
  cases a with
  | submit jobId =>
    simp only [step, bind_eq_ok, require_eq_ok, Table.insert?_eq_some, pure_eq_ok] at h
    obtain ⟨jobs, ⟨hfresh, rfl⟩, rfl⟩ := h
    exact .submit hfresh
  | notify trigger =>
    simp only [step, Except.ok.injEq] at h
    exact h ▸ .notify
  | start =>
    simp only [step, bind_eq_ok, ensure_eq_ok, pure_eq_ok] at h
    obtain ⟨_, hoff, rfl⟩ := h
    exact .start hoff
  | stop =>
    simp only [step, bind_eq_ok, ensure_eq_ok, pure_eq_ok] at h
    obtain ⟨_, hon, rfl⟩ := h
    exact .stop hon
  | awake =>
    simp only [step, bind_eq_ok, ensure_eq_ok, pure_eq_ok] at h
    obtain ⟨_, ⟨hwaiting, _⟩, rfl⟩ := h
    by_cases hstop : w.stop = true
    · rw [if_pos hstop]
      exact .leave hwaiting hstop
    · rw [if_neg hstop]
      exact .awake hwaiting (by simpa using hstop)
  | list =>
    simp only [step, bind_eq_ok, ensure_eq_ok, pure_eq_ok] at h
    obtain ⟨_, hlisting, rfl⟩ := h
    exact .list hlisting
  | retrained result =>
    simp only [step] at h
    split at h
    · next hphase => exact Except.ok.inj h ▸ .retrained hphase
    · cases h
  | raised =>
    simp only [step] at h
    split at h
    · next hphase => exact Except.ok.inj h ▸ .raised hphase
    · next hphase => exact Except.ok.inj h ▸ .skipped hphase
    · cases h
  | marked =>
    simp only [step] at h
    split at h
    · next hphase => exact Except.ok.inj h ▸ .marked hphase
    · cases h
  | drained =>
    simp only [step, bind_eq_ok, ensure_eq_ok, pure_eq_ok] at h
    obtain ⟨_, hphase, rfl⟩ := h
    cases htrigger : w.pendingTrigger with
    | none => exact .idle hphase htrigger
    | some trigger => exact .compact hphase htrigger
  | compacted =>
    simp only [step] at h
    split at h
    · next hphase => exact Except.ok.inj h ▸ .compacted hphase
    · cases h

section Settled

/-- Every job of the one state that has an outcome has it, unchanged, in the other. -/
def SettledStay (w w' : LearnerWorker R) : Prop :=
  ∀ job ∈ w.jobs.rows, job.Settled → job ∈ w'.jobs.rows

theorem SettledStay.trans {w'' : LearnerWorker R} (h : SettledStay w w') (h' : SettledStay w' w'') :
    SettledStay w w'' :=
  fun job hjob hsettled => h' job (h job hjob hsettled) hsettled

/-- The jobs a pass has yet to fit, or is about to mark. -/
def Phase.jobIds : Phase → List Ulid
  | .retraining jobIds => jobIds
  | .failing jobId => [jobId]
  | _ => []

/-- The worker holds each job once, and only jobs without an outcome. -/
structure Holds (w : LearnerWorker R) : Prop where
  nodup : w.phase.jobIds.Nodup
  isOpen : ∀ job ∈ w.jobs.rows, job.jobId ∈ w.phase.jobIds → ¬job.Settled

theorem pendingJobIds_perm (w : LearnerWorker R) :
    (pendingJobIds w).Perm ((w.jobs.rows.filter fun job => ¬job.Settled).map (·.jobId)) :=
  List.perm_insertionSort ..

theorem nodup_pendingJobIds (w : LearnerWorker R) : (pendingJobIds w).Nodup :=
  (pendingJobIds_perm w).nodup_iff.mpr (w.jobs.nodup.sublist (List.filter_sublist.map _))

theorem mem_pendingJobIds {job : RetrainJob R} (hjob : job ∈ w.jobs.rows) :
    job.jobId ∈ pendingJobIds w ↔ ¬job.Settled := by
  rw [(pendingJobIds_perm w).mem_iff, List.mem_map]
  constructor
  · rintro ⟨job', hjob', hid⟩
    obtain ⟨hrow, hopen⟩ := List.mem_filter.mp hjob'
    have hsame : some job' = some job := by
      rw [← Table.get?_of_mem hrow, ← Table.get?_of_mem hjob, hid]
    rw [← Option.some.inj hsame]
    simpa using hopen
  · intro hopen
    exact ⟨job, List.mem_filter.mpr ⟨hjob, by simpa using hopen⟩, rfl⟩

theorem holds_of_phase {phase : Phase} (hphase : phase.jobIds = []) (w : LearnerWorker R) :
    Holds { w with phase } := by
  constructor <;> simp [hphase]

theorem Holds.stepped {a : WorkerAction R} (h : Holds w) (hstep : Stepped w a w') : Holds w' := by
  cases hstep with
  | submit hfresh =>
    refine ⟨h.nodup, ?_⟩
    intro job hjob hheld
    rcases List.mem_append.mp hjob with hold | hnew
    · exact h.isOpen job hold hheld
    · rw [List.mem_singleton.mp hnew]
      simp [RetrainJob.Settled]
  | notify => exact ⟨h.nodup, h.isOpen⟩
  | start hoff => exact holds_of_phase rfl { w with stop := false, wake := true }
  | stop hon => exact ⟨h.nodup, h.isOpen⟩
  | leave hwaiting hstop => exact holds_of_phase rfl { w with wake := false }
  | awake hwaiting hstop => exact holds_of_phase rfl { w with wake := false }
  | list hlisting =>
    refine ⟨nodup_pendingJobIds w, ?_⟩
    intro job hjob hheld
    exact (mem_pendingJobIds hjob).mp hheld
  | @retrained result jobId jobIds hphase =>
    have hnodup := h.nodup
    have hopen := h.isOpen
    rw [hphase] at hnodup hopen
    refine ⟨(List.nodup_cons.mp hnodup).2, ?_⟩
    intro job hjob (hheld : job.jobId ∈ jobIds)
    simp only [Table.rows_modify, List.mem_map] at hjob
    obtain ⟨before, hbefore, rfl⟩ := hjob
    by_cases hsame : before.jobId = jobId
    · rw [if_pos hsame, RetrainJob.jobId_complete, hsame] at hheld
      exact absurd hheld (List.nodup_cons.mp hnodup).1
    · rw [if_neg hsame] at hheld ⊢
      exact hopen before hbefore (List.mem_cons_of_mem _ hheld)
  | @raised jobId jobIds hphase =>
    have hopen := h.isOpen
    rw [hphase] at hopen
    refine ⟨List.nodup_singleton jobId, ?_⟩
    intro job hjob hheld
    exact hopen job hjob (List.mem_cons.mpr (.inl (List.mem_singleton.mp hheld)))
  | skipped hphase => exact holds_of_phase rfl w
  | marked hphase => exact holds_of_phase rfl { w with jobs := _ }
  | idle hphase htrigger => exact holds_of_phase rfl { w with pendingTrigger := none }
  | compact hphase htrigger => exact holds_of_phase rfl { w with pendingTrigger := none }
  | compacted hphase => exact holds_of_phase rfl w

theorem holds_of_reachable (h : (worker R).Reachable w) : Holds w := by
  apply Machine.reachable_keeps ?_ ?_ h
  · rintro w rfl
    exact ⟨List.nodup_nil, by simp [Table.empty]⟩
  · intro w a w' hholds hstep
    exact hholds.stepped (stepped_of_step hstep)

/-- Rewriting one job that has no outcome leaves alone those that have one. -/
theorem settledStay_modify {jobId : Ulid} {f : RetrainJob R → RetrainJob R}
    {hf : ∀ job, (f job).jobId = job.jobId}
    (hopen : ∀ job ∈ w.jobs.rows, job.jobId = jobId → ¬job.Settled) (phase : Phase) :
    SettledStay w { w with jobs := w.jobs.modify jobId f hf, phase } := by
  intro job hjob hsettled
  rw [Table.rows_modify, List.mem_map]
  exact ⟨job, hjob, if_neg fun hsame => hopen job hjob hsame hsettled⟩

theorem Holds.settledStay {a : WorkerAction R} (h : Holds w) (hstep : Stepped w a w') :
    SettledStay w w' := by
  have hidle {w' : LearnerWorker R} (hjobs : w'.jobs = w.jobs) : SettledStay w w' :=
    fun job hjob _ => hjobs ▸ hjob
  cases hstep with
  | submit hfresh =>
    intro job hjob _
    exact List.mem_append_left _ hjob
  | @retrained result jobId jobIds hphase =>
    apply settledStay_modify
    intro job hjob hsame
    exact h.isOpen job hjob (by simp [hphase, Phase.jobIds, hsame])
  | @marked jobId hphase =>
    apply settledStay_modify
    intro job hjob hsame
    exact h.isOpen job hjob (by simp [hphase, Phase.jobIds, hsame])
  | notify => exact hidle rfl
  | start hoff => exact hidle rfl
  | stop hon => exact hidle rfl
  | leave hwaiting hstop => exact hidle rfl
  | awake hwaiting hstop => exact hidle rfl
  | list hlisting => exact hidle rfl
  | raised hphase => exact hidle rfl
  | skipped hphase => exact hidle rfl
  | idle hphase htrigger => exact hidle rfl
  | compact hphase htrigger => exact hidle rfl
  | compacted hphase => exact hidle rfl

/-- No outcome of a job ever changes. -/
theorem settledStay_of_run (h : (worker R).Reachable w) (as : List (WorkerAction R)) :
    SettledStay w ((worker R).run w as) := by
  induction as generalizing w with
  | nil => exact fun _ hjob _ => hjob
  | cons a as ih =>
    rw [Machine.run_cons]
    rcases Machine.next_cases (M := worker R) w a with hstep | ⟨_, hsame⟩
    · exact ((holds_of_reachable h).settledStay (stepped_of_step hstep)).trans (ih (h.step hstep))
    · rw [hsame]
      exact ih h

end Settled

section Attended

/-- The worker waits on its wake event, which nothing has set. -/
def Quiet (w : LearnerWorker R) : Prop := w.phase = .waiting ∧ w.wake = false ∧ w.stop = false

/-- A trigger is pending, or a job that was notified has no outcome. -/
def Outstanding (w : LearnerWorker R) : Prop :=
  w.pendingTrigger ≠ none ∨ ∃ job ∈ w.jobs.rows, job.jobId ∈ w.announced ∧ ¬job.Settled

instance : DecidablePred (Quiet : LearnerWorker R → Prop) :=
  fun _ => inferInstanceAs (Decidable (_ ∧ _ ∧ _))

instance : DecidablePred (Outstanding : LearnerWorker R → Prop) :=
  fun w => inferInstanceAs (Decidable (_ ∨ ∃ job ∈ w.jobs.rows, _))

/-- A fit that raised leaves nothing undone, or the worker is due to wake again. -/
def Resumes (w : LearnerWorker R) : WorkerAction R → Prop
  | .marked => w.wake = true ∨ w.pendingTrigger = none ∧
      ∀ job ∈ w.jobs.rows, job.jobId ∈ w.announced → ¬job.Settled → w.phase = .failing job.jobId
  | _ => True

instance (w : LearnerWorker R) : (a : WorkerAction R) → Decidable (Resumes w a)
  | .marked => inferInstanceAs (Decidable (_ ∨ _ ∧ _))
  | .submit _ | .notify _ | .start | .stop | .awake | .list | .retrained _ | .raised | .drained
  | .compacted => isTrue trivial

/-- The task takes the pending trigger before it waits again. -/
def Phase.Drains : Phase → Prop
  | .waiting | .compacting _ => False
  | _ => True

/-- The task sees to the job before it waits again. -/
def Phase.Covers (jobId : Ulid) : Phase → Prop
  | .waiting | .compacting _ => False
  | .retraining jobIds => jobId ∈ jobIds
  | _ => True

/-- Whatever is outstanding is seen to, by the task as it stands or by its next wake. -/
structure Attended (w : LearnerWorker R) : Prop where
  known : ∀ jobId ∈ w.announced, ∃ job ∈ w.jobs.rows, job.jobId = jobId
  trigger : w.pendingTrigger ≠ none → w.wake = true ∨ w.phase.Drains
  jobs : ∀ job ∈ w.jobs.rows, job.jobId ∈ w.announced → ¬job.Settled →
    w.wake = true ∨ w.phase.Covers job.jobId

/-- A task that takes no trigger before it waits wakes for the one that is pending. -/
theorem Attended.triggered (h : Attended w) (hdrains : ¬w.phase.Drains)
    (htrigger : w.pendingTrigger ≠ none) : w.wake = true :=
  (h.trigger htrigger).resolve_right hdrains

/-- A task that sees to no job before it waits wakes for those that are open. -/
theorem Attended.woken (h : Attended w) (hcovers : ∀ jobId, ¬w.phase.Covers jobId)
    {job : RetrainJob R} (hjob : job ∈ w.jobs.rows) (hannounced : job.jobId ∈ w.announced)
    (hopen : ¬job.Settled) : w.wake = true :=
  (h.jobs job hjob hannounced hopen).resolve_right (hcovers job.jobId)

theorem RetrainJob.settled_complete (result : R) (job : RetrainJob R) :
    (job.complete result).Settled := by
  unfold complete
  split
  · assumption
  · exact .inl rfl

theorem RetrainJob.settled_fail (job : RetrainJob R) : job.fail.Settled := by
  unfold fail
  split
  · next hresult => exact .inl hresult
  · exact .inr rfl

/-- The jobs known before an edit are known after it. -/
theorem known_modify {jobIds : List Ulid} {jobId : Ulid} {f : RetrainJob R → RetrainJob R}
    (hf : ∀ job, (f job).jobId = job.jobId)
    (h : ∀ id ∈ jobIds, ∃ job ∈ w.jobs.rows, job.jobId = id) :
    ∀ id ∈ jobIds, ∃ job ∈ (w.jobs.modify jobId f hf).rows, job.jobId = id := by
  intro id hid
  obtain ⟨job, hjob, rfl⟩ := h id hid
  refine ⟨_, Table.mem_modify.mpr ⟨job, hjob, rfl⟩, ?_⟩
  split
  · exact hf job
  · rfl

/-- A job still open after an edit that settles one is another job, as it was. -/
theorem open_of_modify {jobId : Ulid} {f : RetrainJob R → RetrainJob R}
    (hf : ∀ job, (f job).jobId = job.jobId) (hsettles : ∀ job, (f job).Settled)
    {job : RetrainJob R} (hjob : job ∈ (w.jobs.modify jobId f hf).rows) (hopen : ¬job.Settled) :
    job ∈ w.jobs.rows ∧ job.jobId ≠ jobId := by
  obtain ⟨before, hbefore, rfl⟩ := Table.mem_modify.mp hjob
  by_cases hsame : before.jobId = jobId
  · rw [if_pos hsame] at hopen
    exact absurd (hsettles before) hopen
  · rw [if_neg hsame]
    exact ⟨hbefore, hsame⟩

theorem Attended.stepped {a : WorkerAction R} (h : Attended w) (hresumes : Resumes w a)
    (hstep : Stepped w a w') : Attended w' := by
  cases hstep with
  | @submit jobId hfresh =>
    refine ⟨?_, h.trigger, ?_⟩
    · intro id hid
      obtain ⟨job, hjob, hsame⟩ := h.known id hid
      exact ⟨job, List.mem_append_left _ hjob, hsame⟩
    · intro job hjob hannounced hopen
      rcases List.mem_append.mp hjob with hold | hnew
      · exact h.jobs job hold hannounced hopen
      · -- an identifier announced before is taken
        obtain ⟨other, hother, hsame⟩ := h.known job.jobId hannounced
        rw [List.mem_singleton.mp hnew] at hsame
        exact absurd hsame (Table.get?_eq_none_iff.mp hfresh other hother)
  | notify =>
    refine ⟨?_, fun _ => .inl rfl, fun _ _ _ _ => .inl rfl⟩
    intro jobId hid
    exact List.mem_map.mp hid
  | start hoff => exact ⟨h.known, fun _ => .inl rfl, fun _ _ _ _ => .inl rfl⟩
  | stop hon => exact ⟨h.known, fun _ => .inl rfl, fun _ _ _ _ => .inl rfl⟩
  | leave hwaiting hstop => exact ⟨h.known, fun _ => .inr trivial, fun _ _ _ _ => .inr trivial⟩
  | awake hwaiting hstop => exact ⟨h.known, fun _ => .inr trivial, fun _ _ _ _ => .inr trivial⟩
  | list hlisting =>
    refine ⟨h.known, fun _ => .inr trivial, ?_⟩
    intro job hjob _ hopen
    exact .inr ((mem_pendingJobIds hjob).mpr hopen)
  | @retrained result jobId jobIds hphase =>
    refine ⟨known_modify (RetrainJob.jobId_complete result) h.known, fun _ => .inr trivial, ?_⟩
    intro job hjob hannounced hopen
    obtain ⟨hbefore, hother⟩ :=
      open_of_modify (RetrainJob.jobId_complete result) (RetrainJob.settled_complete result) hjob
        hopen
    rcases h.jobs job hbefore hannounced hopen with hwake | hcovers
    · exact .inl hwake
    · rw [hphase] at hcovers
      exact .inr ((List.mem_cons.mp hcovers).resolve_left hother)
  | raised hphase => exact ⟨h.known, fun _ => .inr trivial, fun _ _ _ _ => .inr trivial⟩
  | skipped hphase =>
    refine ⟨h.known, ?_, ?_⟩
    · intro htrigger
      exact .inl (h.triggered (by simp [hphase, Phase.Drains]) htrigger)
    · intro job hjob hannounced hopen
      exact .inl (h.woken (by simp [hphase, Phase.Covers]) hjob hannounced hopen)
  | @marked jobId hphase =>
    rcases hresumes with hwake | ⟨hnone, hlast⟩
    · exact ⟨known_modify RetrainJob.jobId_fail h.known, fun _ => .inl hwake,
        fun _ _ _ _ => .inl hwake⟩
    · refine ⟨known_modify RetrainJob.jobId_fail h.known, fun htrigger => absurd hnone htrigger, ?_⟩
      intro job hjob hannounced hopen
      obtain ⟨hbefore, hother⟩ :=
        open_of_modify RetrainJob.jobId_fail RetrainJob.settled_fail hjob hopen
      have hfailing := hlast job hbefore hannounced hopen
      rw [hphase, Phase.failing.injEq] at hfailing
      exact absurd hfailing.symm hother
  | idle hphase htrigger =>
    refine ⟨h.known, fun hsome => absurd rfl hsome, ?_⟩
    intro job hjob hannounced hopen
    exact .inl (h.woken (by simp [hphase, Phase.Covers]) hjob hannounced hopen)
  | compact hphase htrigger =>
    refine ⟨h.known, fun hsome => absurd rfl hsome, ?_⟩
    intro job hjob hannounced hopen
    exact .inl (h.woken (by simp [hphase, Phase.Covers]) hjob hannounced hopen)
  | compacted hphase =>
    refine ⟨h.known, ?_, ?_⟩
    · intro htrigger
      exact .inl (h.triggered (by simp [hphase, Phase.Drains]) htrigger)
    · intro job hjob hannounced hopen
      exact .inl (h.woken (by simp [hphase, Phase.Covers]) hjob hannounced hopen)

theorem attended_of_reachable (h : (worker R).ReachableBy Resumes w) : Attended w := by
  apply Machine.reachableBy_keeps ?_ ?_ h
  · rintro w rfl
    constructor <;> simp [Table.empty]
  · intro w a w' hattended hresumes hstep
    exact hattended.stepped hresumes (stepped_of_step hstep)

theorem Attended.quiet (h : Attended w) (hquiet : Quiet w) : ¬Outstanding w := by
  obtain ⟨hphase, hwake, _⟩ := hquiet
  rintro (htrigger | ⟨job, hjob, hannounced, hopen⟩)
  · simpa [hwake, hphase, Phase.Drains] using h.trigger htrigger
  · simpa [hwake, hphase, Phase.Covers] using h.jobs job hjob hannounced hopen

end Attended

/-- Where every fit that raises leaves nothing undone or finds the worker due to wake again, the
worker never waits on anything outstanding; the mark of a fit that does not, leaves it so
waiting. The outcome of a job never changes, whatever raises. -/
theorem learner_worker_loses_nothing :
    (∀ w : LearnerWorker R, (worker R).ReachableBy Resumes w → Quiet w → ¬Outstanding w) ∧
    (∀ w w' : LearnerWorker R, w.stop = false → (worker R).step w .marked = .ok w' →
      ¬Resumes w .marked → Quiet w' ∧ Outstanding w') ∧
    (∀ w : LearnerWorker R, (worker R).Reachable w → ∀ as,
      SettledStay w ((worker R).run w as)) := by
  refine ⟨fun w h => (attended_of_reachable h).quiet, ?_, fun w => settledStay_of_run⟩
  intro w w' hstop hstep hlost
  cases stepped_of_step hstep with
  | @marked jobId hphase =>
    simp only [Resumes, not_or, Bool.not_eq_true, not_and_or, not_forall] at hlost
    obtain ⟨hwake, hlost⟩ := hlost
    refine ⟨⟨rfl, hwake, hstop⟩, ?_⟩
    rcases hlost with htrigger | ⟨job, hjob, hannounced, hopen, hother⟩
    · exact .inl htrigger
    · rw [hphase, Phase.failing.injEq] at hother
      refine .inr ⟨job, ?_, hannounced, hopen⟩
      rw [Table.rows_modify, List.mem_map]
      exact ⟨job, hjob, if_neg (Ne.symm hother)⟩

/-- Two jobs are submitted and notified, and the worker reads them. -/
def twoJobs : List (WorkerAction String) :=
  [.start, .submit 1, .submit 2, .notify none, .awake, .list]

/-- The first is fitted, the fit of the last one raises, and nothing is left. -/
theorem learner_worker_loses_nothing_fitted :
    ¬Outstanding ((worker String).run ⟨.empty, false, false, none, .off, []⟩
      (twoJobs ++ [.retrained "better", .raised, .marked])) :=
  learner_worker_loses_nothing.1 _ ⟨_, _, rfl, by decide, rfl⟩ (by decide)

/-- The first fit raises, and the second job waits for a notification that need not come. -/
theorem learner_worker_loses_job :
    Quiet ((worker String).run ⟨.empty, false, false, none, .off, []⟩
      (twoJobs ++ [.raised, .marked])) ∧
    Outstanding ((worker String).run ⟨.empty, false, false, none, .off, []⟩
      (twoJobs ++ [.raised, .marked])) := by
  decide

end Nocturne.Learner
