import Nocturne.Jobs.Service

namespace Nocturne.Jobs

open Nocturne.Lib

variable {croniter : Croniter} {s s' : JobStore}

section Inversions

theorem ownedJob_eq_some {jobId : Ulid} {principalId machineId : String} {job : WorkflowJob} :
    ownedJob s jobId principalId machineId = some job ↔
      s.jobs.get? jobId = some job ∧ job.ownedBy principalId machineId := by
  simp [ownedJob, Option.filter_eq_some_iff]

/-- A save adds the job, or edits it while no claim holds it. -/
theorem save_eq_ok {jobId : Ulid} {body : SaveJob} {readAt : Datetime} {r : WorkflowJob × JobStore}
    (h : save croniter s jobId body readAt = .ok r) :
    body.definition.validate croniter readAt = .ok () ∧
    ((∃ hfresh : s.jobs.get? (body.row croniter jobId readAt).jobId = none,
      r.2 = { s with jobs := s.jobs.insert (body.row croniter jobId readAt) hfresh }) ∨
    (∃ job, ownedJob s jobId body.principalId body.machineId = some job ∧
      job.revision = body.expectedRevision ∧ s.locks jobId = none ∧
      r.2 = { s with
        jobs := s.jobs.modify jobId (body.edit croniter readAt)
          (body.jobId_edit croniter readAt) })) := by
  simp only [save, bind_eq_ok] at h
  obtain ⟨_, hvalid, h⟩ := h
  refine ⟨hvalid, ?_⟩
  split at h
  · simp only [bind_eq_ok, require_eq_ok, Table.insert?_eq_some, pure_eq_ok] at h
    obtain ⟨jobs, ⟨hfresh, rfl⟩, rfl⟩ := h
    exact .inl ⟨hfresh, rfl⟩
  · simp only [bind_eq_ok, require_eq_ok, ensure_eq_ok, pure_eq_ok, Option.filter_eq_some_iff,
      decide_eq_true_eq] at h
    obtain ⟨job, ⟨howned, hrevision⟩, _, hfree, rfl⟩ := h
    exact .inr ⟨job, howned, hrevision, hfree, rfl⟩

/-- What a claim has established once it holds its lock. -/
structure ClaimInFlight.Checked (croniter : Croniter) (claim : ClaimInFlight) (s : JobStore)
    (jobId : Ulid) : Prop where
  job : s.jobs.get? jobId = some claim.job
  owned : claim.job.ownedBy claim.body.principalId claim.body.machineId
  idle : ¬isRunning s jobId
  revision : claim.job.revision = claim.body.expectedRevision
  valid : claim.job.definition.validate croniter claim.now = .ok ()
  due : checkDue claim.job claim.body claim.now = .ok ()

theorem startClaim_eq_ok {jobId : Ulid} {body : ClaimJob} :
    startClaim croniter s jobId body = .ok s' ↔
      ∃ job, s.locks jobId = none ∧
        ClaimInFlight.Checked croniter ⟨body, job, s.clock⟩ s jobId ∧
        s' = { s with locks := Function.update s.locks jobId (some ⟨body, job, s.clock⟩) } := by
  simp only [startClaim, bind_eq_ok, require_eq_ok, ensure_eq_ok, ownedJob_eq_some, pure_eq_ok]
  constructor
  · rintro ⟨job, ⟨hjob, howned⟩, _, hfree, _, ⟨hidle, hrevision⟩, _, hvalid, _, hdue, rfl⟩
    exact ⟨job, hfree, ⟨hjob, howned, hidle, hrevision, hvalid, hdue⟩, rfl⟩
  · rintro ⟨job, hfree, ⟨hjob, howned, hidle, hrevision, hvalid, hdue⟩, rfl⟩
    exact ⟨job, ⟨hjob, howned⟩, .unit, hfree, .unit, ⟨hidle, hrevision⟩, .unit, hvalid, .unit,
      hdue, rfl⟩

theorem writeClaim_eq_ok {jobId : Ulid} {r : WorkflowRun × JobStore} :
    writeClaim croniter s jobId = .ok r ↔
      ∃ claim, s.locks jobId = some claim ∧ (∀ run ∈ s.runs.rows, ¬run.conflicts claim) ∧
        ∃ hfresh : s.runs.get? claim.run.runId = none,
          r = (claim.run,
            { s with
              runs := s.runs.insert claim.run hfresh
              jobs := s.jobs.modify jobId (claim.advance croniter) (claim.jobId_advance croniter)
              locks := Function.update s.locks jobId none }) := by
  simp only [writeClaim, bind_eq_ok, require_eq_ok, ensure_eq_ok, Table.insert?_eq_some,
    pure_eq_ok]
  constructor
  · rintro ⟨claim, hlock, _, hclear, runs, ⟨hfresh, rfl⟩, rfl⟩
    exact ⟨claim, hlock, hclear, hfresh, rfl⟩
  · rintro ⟨claim, hlock, hclear, hfresh, rfl⟩
    exact ⟨claim, hlock, .unit, hclear, _, ⟨hfresh, rfl⟩, rfl⟩

theorem finish_eq_ok {runId : Ulid} {body : FinishJob} {r : WorkflowRun × JobStore} :
    finish s runId body = .ok r ↔
      ∃ run, s.runs.get? runId = some run ∧ run.state = .running ∧
        (ownedJob s run.jobId body.principalId body.machineId).isSome ∧
        r = (run.finish body s.clock,
          { s with
            runs := s.runs.modify runId (·.finish body s.clock)
              (WorkflowRun.runId_finish body s.clock) }) := by
  simp only [finish, bind_eq_ok, require_eq_ok, pure_eq_ok, Option.filter_eq_some_iff,
    decide_eq_true_eq]
  constructor
  · rintro ⟨run, ⟨hrun, hrunning, howned⟩, rfl⟩
    exact ⟨run, hrun, hrunning, howned, rfl⟩
  · rintro ⟨run, hrun, hrunning, howned, rfl⟩
    exact ⟨run, ⟨hrun, hrunning, howned⟩, rfl⟩

end Inversions

/-- What each accepted step does. -/
inductive Stepped (croniter : Croniter) (s : JobStore) : Action → JobStore → Prop
  | tick {now : Datetime} (hnow : s.clock ≤ now) :
    Stepped croniter s (.tick now) { s with clock := now }
  | insert {jobId : Ulid} {body : SaveJob} {readAt : Datetime}
    (hvalid : body.definition.validate croniter readAt = .ok ())
    (hfresh : s.jobs.get? (body.row croniter jobId readAt).jobId = none) :
    Stepped croniter s (.save jobId body readAt)
      { s with jobs := s.jobs.insert (body.row croniter jobId readAt) hfresh }
  | edit {jobId : Ulid} {body : SaveJob} {readAt : Datetime}
    (hvalid : body.definition.validate croniter readAt = .ok ()) (hfree : s.locks jobId = none) :
    Stepped croniter s (.save jobId body readAt)
      { s with
        jobs := s.jobs.modify jobId (body.edit croniter readAt)
          (body.jobId_edit croniter readAt) }
  | start {jobId : Ulid} {body : ClaimJob} {job : WorkflowJob} (hfree : s.locks jobId = none)
    (hchecked : ClaimInFlight.Checked croniter ⟨body, job, s.clock⟩ s jobId) :
    Stepped croniter s (.startClaim jobId body)
      { s with locks := Function.update s.locks jobId (some ⟨body, job, s.clock⟩) }
  | write {jobId : Ulid} {claim : ClaimInFlight} (hlock : s.locks jobId = some claim)
    (hclear : ∀ run ∈ s.runs.rows, ¬run.conflicts claim)
    (hfresh : s.runs.get? claim.run.runId = none) :
    Stepped croniter s (.writeClaim jobId)
      { s with
        runs := s.runs.insert claim.run hfresh
        jobs := s.jobs.modify jobId (claim.advance croniter) (claim.jobId_advance croniter)
        locks := Function.update s.locks jobId none }
  | rollback {jobId : Ulid} :
    Stepped croniter s (.rollback jobId) { s with locks := Function.update s.locks jobId none }
  | finish {runId : Ulid} {body : FinishJob} {run : WorkflowRun}
    (hrun : s.runs.get? runId = some run) (hrunning : run.state = .running) :
    Stepped croniter s (.finish runId body)
      { s with
        runs := s.runs.modify runId (·.finish body s.clock)
          (WorkflowRun.runId_finish body s.clock) }

theorem stepped_of_step {a : Action} (h : (jobService croniter).step s a = .ok s') :
    Stepped croniter s a s' := by
  simp only [jobService] at h
  cases a with
  | tick now =>
    simp only [step, bind_eq_ok, ensure_eq_ok, pure_eq_ok] at h
    obtain ⟨_, hnow, rfl⟩ := h
    exact .tick hnow
  | save jobId body readAt =>
    simp only [step, bind_eq_ok, ensure_eq_ok, pure_eq_ok] at h
    obtain ⟨_, _, r, hsave, rfl⟩ := h
    rcases save_eq_ok hsave with ⟨hvalid, ⟨hfresh, hr⟩ | ⟨_, _, _, hfree, hr⟩⟩
    · rw [hr]
      exact .insert hvalid hfresh
    · rw [hr]
      exact .edit hvalid hfree
  | startClaim jobId body =>
    obtain ⟨job, hfree, hchecked, rfl⟩ := startClaim_eq_ok.1 h
    exact .start hfree hchecked
  | writeClaim jobId =>
    simp only [step, bind_eq_ok, pure_eq_ok] at h
    obtain ⟨r, hwrite, rfl⟩ := h
    obtain ⟨claim, hlock, hclear, hfresh, rfl⟩ := writeClaim_eq_ok.1 hwrite
    exact .write hlock hclear hfresh
  | rollback jobId =>
    simp only [step, Except.ok.injEq] at h
    exact h ▸ .rollback
  | finish runId body =>
    simp only [step, bind_eq_ok, pure_eq_ok] at h
    obtain ⟨r, hfinish, rfl⟩ := h
    obtain ⟨run, hrun, hrunning, _, rfl⟩ := finish_eq_ok.1 hfinish
    exact .finish hrun hrunning

end Nocturne.Jobs
