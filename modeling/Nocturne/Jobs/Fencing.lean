import Nocturne.Jobs.Laws

namespace Nocturne.Jobs

open Nocturne.Lib

variable {croniter : Croniter} {s s' : JobStore}

/-- What the row locks and the unique keys keep true of every state. -/
structure Fenced (s : JobStore) : Prop where
  one : ∀ run ∈ s.runs.rows, ∀ run' ∈ s.runs.rows, run.jobId = run'.jobId →
    run.state = .running → run'.state = .running → run = run'
  keys : ∀ run ∈ s.runs.rows, ∀ run' ∈ s.runs.rows, run.jobId = run'.jobId →
    run.triggerKey = run'.triggerKey → run = run'
  locked : ∀ {jobId claim}, s.locks jobId = some claim → s.jobs.get? jobId = some claim.job
  idle : ∀ {jobId claim}, s.locks jobId = some claim → ¬isRunning s jobId
  current : ∀ {jobId claim}, s.locks jobId = some claim →
    claim.job.revision = claim.body.expectedRevision

theorem Fenced.start (hjobs : s.jobs = .empty) (hruns : s.runs = .empty)
    (hlocks : s.locks = fun _ => none) : Fenced s := by
  constructor <;> simp [hjobs, hruns, hlocks, Table.empty]

theorem Fenced.jobId_eq (h : Fenced s) {jobId : Ulid} {claim : ClaimInFlight}
    (hlock : s.locks jobId = some claim) : claim.job.jobId = jobId :=
  Table.key_of_get? (h.locked hlock)

theorem WorkflowRun.finish_ne_running (run : WorkflowRun) (body : FinishJob) (now : Datetime) :
    (run.finish body now).state ≠ .running := by
  simp [WorkflowRun.finish]

theorem mem_finish {runId : Ulid} {body : FinishJob} {run : WorkflowRun} :
    run ∈ (s.runs.modify runId (·.finish body s.clock)
      (WorkflowRun.runId_finish body s.clock)).rows ↔
    ∃ before ∈ s.runs.rows,
      (if before.runId = runId then before.finish body s.clock else before) = run :=
  Table.mem_modify

/-- A run still going after a finish is another one, as it was. -/
theorem running_of_finish {runId : Ulid} {body : FinishJob} {run : WorkflowRun}
    (h : run ∈ (s.runs.modify runId (·.finish body s.clock)
      (WorkflowRun.runId_finish body s.clock)).rows)
    (hrunning : run.state = .running) : run ∈ s.runs.rows := by
  obtain ⟨before, hbefore, rfl⟩ := mem_finish.1 h
  by_cases hid : before.runId = runId
  · rw [if_pos hid] at hrunning
    exact absurd hrunning (before.finish_ne_running body s.clock)
  · rwa [if_neg hid]

/-- A run starts while its job has none going, under a key that is new to the job. -/
theorem Fenced.write (h : Fenced s) {jobId : Ulid} {claim : ClaimInFlight}
    (hlock : s.locks jobId = some claim) (hclear : ∀ run ∈ s.runs.rows, ¬run.conflicts claim)
    (hfresh : s.runs.get? claim.run.runId = none) :
    Fenced { s with
      runs := s.runs.insert claim.run hfresh
      jobs := s.jobs.modify jobId (claim.advance croniter) (claim.jobId_advance croniter)
      locks := Function.update s.locks jobId none } := by
  have hjob : claim.run.jobId = jobId := h.jobId_eq hlock
  have hmem {run : WorkflowRun} : run ∈ (s.runs.insert claim.run hfresh).rows ↔
      run ∈ s.runs.rows ∨ run = claim.run := by
    simp
  have hother {jobId' : Ulid} {claim' : ClaimInFlight}
      (hlock' : Function.update s.locks jobId none jobId' = some claim') :
      jobId' ≠ jobId ∧ s.locks jobId' = some claim' := by
    by_cases hsame : jobId' = jobId
    · simp [hsame] at hlock'
    · exact ⟨hsame, by simpa [Function.update_of_ne hsame] using hlock'⟩
  constructor
  · intro run hrun run' hrun' hsame hgoing hgoing'
    rcases hmem.mp hrun with hold | rfl <;> rcases hmem.mp hrun' with hold' | rfl
    · exact h.one run hold run' hold' hsame hgoing hgoing'
    · exact absurd ⟨run, hold, hsame.trans hjob, hgoing⟩ (h.idle hlock)
    · exact absurd ⟨run', hold', hsame.symm.trans hjob, hgoing'⟩ (h.idle hlock)
    · rfl
  · intro run hrun run' hrun' hsame hkey
    rcases hmem.mp hrun with hold | rfl <;> rcases hmem.mp hrun' with hold' | rfl
    · exact h.keys run hold run' hold' hsame hkey
    · exact absurd (.inr ⟨hsame, hkey⟩) (hclear run hold)
    · exact absurd (.inr ⟨hsame.symm, hkey.symm⟩) (hclear run' hold')
    · rfl
  · intro jobId' claim' hlock'
    obtain ⟨hne, hlock'⟩ := hother hlock'
    simpa [Table.get?_modify_of_ne hne] using h.locked hlock'
  · rintro jobId' claim' hlock' ⟨run, hrun, hof, hgoing⟩
    obtain ⟨hne, hlock'⟩ := hother hlock'
    rcases hmem.mp hrun with hold | rfl
    · exact h.idle hlock' ⟨run, hold, hof, hgoing⟩
    · exact hne (hof.symm.trans hjob)
  · intro jobId' claim' hlock'
    exact h.current (hother hlock').2

theorem Fenced.stepped {a : Action} (h : Fenced s) (hstep : Stepped croniter s a s') :
    Fenced s' := by
  cases hstep with
  | tick hnow => exact ⟨h.one, h.keys, h.locked, h.idle, h.current⟩
  | insert hvalid hfresh =>
    refine ⟨h.one, h.keys, ?_, h.idle, h.current⟩
    intro jobId claim hlock
    exact Table.get?_insert_of_some (h := hfresh) (h.locked hlock)
  | edit hvalid hfree =>
    refine ⟨h.one, h.keys, ?_, h.idle, h.current⟩
    intro jobId claim hlock
    have hother : s.locks jobId = some claim := hlock
    rw [Table.get?_modify_of_ne]
    · exact h.locked hlock
    · rintro rfl
      simp [hfree] at hother
  | @start jobId body job hfree hchecked =>
    have hcases {jobId' : Ulid} {claim' : ClaimInFlight}
        (hlock : Function.update s.locks jobId (some ⟨body, job, s.clock⟩) jobId' = some claim') :
        jobId' = jobId ∧ claim' = ⟨body, job, s.clock⟩ ∨ s.locks jobId' = some claim' := by
      by_cases hsame : jobId' = jobId
      · subst hsame
        simp only [Function.update_self, Option.some.injEq] at hlock
        exact .inl ⟨rfl, hlock.symm⟩
      · exact .inr (by simpa [Function.update_of_ne hsame] using hlock)
    refine ⟨h.one, h.keys, ?_, ?_, ?_⟩
    · intro jobId' claim' hlock
      rcases hcases hlock with ⟨rfl, rfl⟩ | hlock
      · exact hchecked.job
      · exact h.locked hlock
    · intro jobId' claim' hlock
      rcases hcases hlock with ⟨rfl, rfl⟩ | hlock
      · exact hchecked.idle
      · exact h.idle hlock
    · intro jobId' claim' hlock
      rcases hcases hlock with ⟨rfl, rfl⟩ | hlock
      · exact hchecked.revision
      · exact h.current hlock
  | write hlock hclear hfresh => exact h.write hlock hclear hfresh
  | @rollback jobId =>
    have hkept {jobId' : Ulid} {claim' : ClaimInFlight}
        (hlock : Function.update s.locks jobId none jobId' = some claim') :
        s.locks jobId' = some claim' := by
      by_cases hsame : jobId' = jobId
      · simp [hsame] at hlock
      · simpa [Function.update_of_ne hsame] using hlock
    exact ⟨h.one, h.keys, fun hlock => h.locked (hkept hlock),
      fun hlock => h.idle (hkept hlock), fun hlock => h.current (hkept hlock)⟩
  | @finish runId body run hrun hrunning =>
    refine ⟨?_, ?_, h.locked, ?_, h.current⟩
    · intro run hrun run' hrun' hsame hgoing hgoing'
      exact h.one run (running_of_finish hrun hgoing) run' (running_of_finish hrun' hgoing') hsame
        hgoing hgoing'
    · intro run hrun run' hrun' hsame hkey
      obtain ⟨before, hbefore, rfl⟩ := mem_finish.1 hrun
      obtain ⟨before', hbefore', rfl⟩ := mem_finish.1 hrun'
      have hfields (r : WorkflowRun) : (if r.runId = runId then r.finish body s.clock else r).jobId
          = r.jobId ∧ (if r.runId = runId then r.finish body s.clock else r).triggerKey
          = r.triggerKey := by
        split <;> exact ⟨rfl, rfl⟩
      rw [(hfields before).1, (hfields before').1] at hsame
      rw [(hfields before).2, (hfields before').2] at hkey
      rw [h.keys before hbefore before' hbefore' hsame hkey]
    · rintro jobId claim hlock ⟨run, hrun, hof, hgoing⟩
      exact h.idle hlock ⟨run, running_of_finish hrun hgoing, hof, hgoing⟩

theorem fenced_of_reachable (h : (jobService croniter).Reachable s) : Fenced s := by
  apply Machine.reachable_keeps ?_ ?_ h
  · rintro s ⟨hjobs, hruns, hlocks⟩
    exact .start hjobs hruns hlocks
  · intro s a s' hfenced hstep
    exact hfenced.stepped (stepped_of_step hstep)

section Kept

/-- Every run of the one state is on record in the other, and unchanged where it was over. -/
def Kept (s s' : JobStore) : Prop :=
  ∀ run ∈ s.runs.rows, ∃ run' ∈ s'.runs.rows, run'.runId = run.runId ∧ run'.jobId = run.jobId ∧
    run'.threadId = run.threadId ∧ run'.triggerKey = run.triggerKey ∧
    (run.state ≠ .running → run' = run)

theorem Kept.refl (s : JobStore) : Kept s s :=
  fun run hrun => ⟨run, hrun, rfl, rfl, rfl, rfl, fun _ => rfl⟩

theorem Kept.trans {t : JobStore} (h : Kept s s') (h' : Kept s' t) : Kept s t := by
  intro run hrun
  obtain ⟨run', hrun', hid, hjob, hthread, hkey, hover⟩ := h run hrun
  obtain ⟨run'', hrun'', hid', hjob', hthread', hkey', hover'⟩ := h' run' hrun'
  refine ⟨run'', hrun'', hid'.trans hid, hjob'.trans hjob, hthread'.trans hthread,
    hkey'.trans hkey, ?_⟩
  intro hstate
  have hsame := hover hstate
  rw [hover' (hsame ▸ hstate), hsame]

theorem kept_of_step {a : Action} (h : (jobService croniter).step s a = .ok s') : Kept s s' := by
  cases stepped_of_step h with
  | tick hnow => exact .refl s
  | insert hvalid hfresh => exact .refl s
  | edit hvalid hfree => exact .refl s
  | start hfree hchecked => exact .refl s
  | write hlock hclear hfresh =>
    intro run hrun
    exact ⟨run, by simp [hrun], rfl, rfl, rfl, rfl, fun _ => rfl⟩
  | rollback => exact .refl s
  | @finish runId body run hrun hrunning =>
    intro run' hrun'
    by_cases hid : run'.runId = runId
    · refine ⟨run'.finish body s.clock, mem_finish.2 ⟨run', hrun', if_pos hid⟩, rfl, rfl,
        rfl, rfl, ?_⟩
      intro hover
      have hsame : some run' = some run := by rw [← Table.get?_of_mem hrun', hid, hrun]
      exact absurd (Option.some.inj hsame ▸ hrunning) hover
    · exact ⟨run', mem_finish.2 ⟨run', hrun', if_neg hid⟩, rfl, rfl, rfl, rfl, fun _ => rfl⟩

theorem kept_of_run (croniter : Croniter) (s : JobStore) (as : List Action) :
    Kept s ((jobService croniter).run s as) :=
  Machine.run_rel (R := Kept) .refl Kept.trans kept_of_step s as

end Kept

section Replays

/-- Once the run of a claim is on record, its writes are refused. -/
theorem writeClaim_refused {jobId : Ulid} {claim : ClaimInFlight} {run : WorkflowRun}
    (hlock : s.locks jobId = some claim) (hrun : run ∈ s.runs.rows)
    (hthread : run.threadId = claim.body.threadId) :
    (jobService croniter).step s (.writeClaim jobId) = .error alreadyStarted := by
  have hconflict : ¬∀ run ∈ s.runs.rows, ¬run.conflicts claim :=
    fun hclear => hclear run hrun (.inl hthread)
  simp only [jobService, step, writeClaim, hlock, require_some, ok_bind, ensure_neg hconflict,
    error_bind]

theorem finish_refused {run : WorkflowRun} (hrun : run ∈ s.runs.rows)
    (hover : run.state ≠ .running) (body : FinishJob) :
    (jobService croniter).step s (.finish run.runId body) =
      .error (.http 409 "Run is absent or already finished.") := by
  have hnone : (s.runs.get? run.runId).filter (fun run => run.state = .running ∧
      (ownedJob s run.jobId body.principalId body.machineId).isSome) = none := by
    rw [Table.get?_of_mem hrun]
    simp [Option.filter, hover]
  simp only [jobService, step, finish, hnone, require_none, error_bind]

theorem started_of_write {jobId : Ulid}
    (h : (jobService croniter).step s (.writeClaim jobId) = .ok s') :
    ∃ claim, s.locks jobId = some claim ∧ claim.run ∈ s'.runs.rows := by
  cases stepped_of_step h with
  | @write _ claim hlock hclear hfresh => exact ⟨claim, hlock, by simp⟩

theorem over_of_finish {runId : Ulid} {body : FinishJob}
    (h : (jobService croniter).step s (.finish runId body) = .ok s') :
    ∃ run ∈ s'.runs.rows, run.runId = runId ∧ run.state ≠ .running := by
  cases stepped_of_step h with
  | @finish _ _ run hrun hrunning =>
    have hid : run.runId = runId := Table.key_of_get? hrun
    exact ⟨run.finish body s.clock, mem_finish.2 ⟨run, Table.mem_of_get? hrun, if_pos hid⟩, hid,
      run.finish_ne_running body s.clock⟩

end Replays

/-- However saves, claims and finishes of any number of workers interleave: a job has one run
going at most, and one run for each trigger key ever; what is over stays as it was; a claim
writes only at the job's revision; what was accepted is refused when sent again; and what is
refused, or has only begun, leaves the jobs and runs as they were. -/
theorem workflow_jobs_fenced (h : (jobService croniter).Reachable s) :
    (∀ jobId, (s.runs.rows.filter fun run =>
      run.jobId = jobId ∧ run.state = .running).length ≤ 1) ∧
    (∀ jobId key, (s.runs.rows.filter fun run =>
      run.jobId = jobId ∧ run.triggerKey = key).length ≤ 1) ∧
    (∀ as, Kept s ((jobService croniter).run s as)) ∧
    (∀ jobId s', (jobService croniter).step s (.writeClaim jobId) = .ok s' →
      ∃ claim, s.locks jobId = some claim ∧
        (s.jobs.get? jobId).map (fun job => (job.revision : Int)) =
          some claim.body.expectedRevision ∧
        ∀ as jobId' claim', ((jobService croniter).run s' as).locks jobId' = some claim' →
          claim'.body = claim.body →
          (jobService croniter).step ((jobService croniter).run s' as) (.writeClaim jobId') =
            .error alreadyStarted) ∧
    (∀ runId body s', (jobService croniter).step s (.finish runId body) = .ok s' →
      ∀ as body', (jobService croniter).step ((jobService croniter).run s' as)
        (.finish runId body') = .error (.http 409 "Run is absent or already finished.")) ∧
    (∀ a e, (jobService croniter).step s a = .error e → (jobService croniter).next s a = s) ∧
    (∀ jobId body s', (jobService croniter).step s (.startClaim jobId body) = .ok s' ∨
      (jobService croniter).step s (.rollback jobId) = .ok s' →
        s'.jobs = s.jobs ∧ s'.runs = s.runs) := by
  have hfenced := fenced_of_reachable h
  refine ⟨?_, ?_, kept_of_run croniter s, ?_, ?_, fun _ _ => Machine.next_of_error, ?_⟩
  · intro jobId
    apply Table.length_filter_le_one
    rintro run hrun run' hrun' ⟨hof, hgoing⟩ ⟨hof', hgoing'⟩
    exact hfenced.one run hrun run' hrun' (hof.trans hof'.symm) hgoing hgoing'
  · intro jobId key
    apply Table.length_filter_le_one
    rintro run hrun run' hrun' ⟨hof, hkey⟩ ⟨hof', hkey'⟩
    exact hfenced.keys run hrun run' hrun' (hof.trans hof'.symm) (hkey.trans hkey'.symm)
  · intro jobId s' hstep
    obtain ⟨claim, hlock, hstarted⟩ := started_of_write hstep
    refine ⟨claim, hlock, by rw [hfenced.locked hlock, Option.map_some, hfenced.current hlock], ?_⟩
    intro as jobId' claim' hlock' hsame
    obtain ⟨run, hrun, _, _, hthread, _, _⟩ := kept_of_run croniter s' as _ hstarted
    exact writeClaim_refused hlock' hrun (hthread.trans (by rw [hsame]; rfl))
  · intro runId body s' hstep as body'
    obtain ⟨run, hrun, rfl, hover⟩ := over_of_finish hstep
    obtain ⟨run', hrun', hid, _, _, _, hsame⟩ := kept_of_run croniter s' as run hrun
    rw [← hid]
    exact finish_refused hrun' (hsame hover ▸ hover) body'
  · rintro jobId body s' (hstep | hstep)
    · cases stepped_of_step hstep with
      | start hfree hchecked => exact ⟨rfl, rfl⟩
    · cases stepped_of_step hstep with
      | rollback => exact ⟨rfl, rfl⟩

def startedCalls : List Action :=
  [.save 1 (savesRecipe 0) halfMinute, .tick firstMinute,
    .startClaim 1 (claimsMinute 100 7 firstMinute 1), .writeClaim 1]

def done : FinishJob := ⟨"owner", "m", .completed, "Exit check passed."⟩

/-- A run that is over stays over. -/
theorem workflow_jobs_fenced_done :
    (jobService everyMinute).step ((jobService everyMinute).next
      ((jobService everyMinute).run noJobs startedCalls) (.finish 100 done)) (.finish 100 done) =
      .error (.http 409 "Run is absent or already finished.") := by
  have hreach : (jobService everyMinute).Reachable
      ((jobService everyMinute).run noJobs startedCalls) :=
    ⟨noJobs, startedCalls, ⟨rfl, rfl, rfl⟩, rfl⟩
  obtain ⟨s', hs', _⟩ : ∃ s', (jobService everyMinute).step
      ((jobService everyMinute).run noJobs startedCalls) (.finish 100 done) = .ok s' ∧ True :=
    answers_iff.mp (by decide +kernel)
  rw [Machine.next_of_ok hs']
  exact (workflow_jobs_fenced hreach).2.2.2.2.1 100 done s' hs' [] done

end Nocturne.Jobs
