import Nocturne.Jobs.Fencing

namespace Nocturne.Jobs

open Nocturne.Lib

variable {croniter : Croniter} {s s' : JobStore}

section Validity

/-- The recipe's schedule has an occurrence after `now`. -/
def WorkflowDefinition.GoesOn (croniter : Croniter) (definition : WorkflowDefinition)
    (now : Datetime) : Prop :=
  ∀ cron ∈ definition.cron, (croniter.getNext cron now).isSome

instance (definition : WorkflowDefinition) (now : Datetime) :
    Decidable (definition.GoesOn croniter now) :=
  inferInstanceAs (Decidable (∀ cron ∈ definition.cron, _))

/-- A recipe once found valid is valid as long as its schedule goes on. -/
theorem WorkflowDefinition.validate_iff {definition : WorkflowDefinition} {saved now : Datetime}
    (h : definition.validate croniter saved = .ok ()) :
    definition.validate croniter now = .ok () ↔ definition.GoesOn croniter now := by
  simp only [validate, bind_eq_ok, ensure_eq_ok] at h ⊢
  obtain ⟨_, hblank, _, hbudget, _, hcron, _, _, _, hone, hpath⟩ := h
  constructor
  · rintro ⟨_, _, _, _, _, _, _, hnext, _⟩
    exact hnext
  · intro hnext
    exact ⟨.unit, hblank, .unit, hbudget, .unit, hcron, .unit, hnext, .unit, hone, hpath⟩

/-- Every recipe on record was valid when it was saved. -/
def Recipes (croniter : Croniter) (s : JobStore) : Prop :=
  ∀ job ∈ s.jobs.rows, ∃ readAt, job.definition.validate croniter readAt = .ok ()

theorem Recipes.stepped {a : Action} (h : Recipes croniter s) (hstep : Stepped croniter s a s') :
    Recipes croniter s' := by
  cases hstep with
  | tick hnow => exact h
  | @insert jobId body readAt hvalid hfresh =>
    intro job hjob
    rcases List.mem_append.mp hjob with hold | hnew
    · exact h job hold
    · rw [List.mem_singleton.mp hnew]
      exact ⟨readAt, hvalid⟩
  | @edit jobId body readAt hvalid hfree =>
    intro job hjob
    simp only [Table.rows_modify, List.mem_map] at hjob
    obtain ⟨before, hbefore, rfl⟩ := hjob
    split
    · exact ⟨readAt, hvalid⟩
    · exact h before hbefore
  | start hfree hchecked => exact h
  | @write jobId claim hlock hclear hfresh =>
    intro job hjob
    simp only [Table.rows_modify, List.mem_map] at hjob
    obtain ⟨before, hbefore, rfl⟩ := hjob
    obtain ⟨readAt, hvalid⟩ := h before hbefore
    refine ⟨readAt, ?_⟩
    split
    · unfold ClaimInFlight.advance
      split <;> exact hvalid
    · exact hvalid
  | rollback => exact h
  | finish hrun hrunning => exact h

theorem recipes_of_reachable (h : (jobService croniter).Reachable s) : Recipes croniter s := by
  apply Machine.reachable_keeps ?_ ?_ h
  · rintro s ⟨hjobs, _, _⟩ job hjob
    simp [hjobs, Table.empty] at hjob
  · intro s a s' hrecipes hstep
    exact hrecipes.stepped (stepped_of_step hstep)

end Validity

/-- An enabled cron job whose next occurrence has come, with no run going and no claim held. -/
structure Due (s : JobStore) (job : WorkflowJob) (next : Datetime) : Prop where
  saved : job ∈ s.jobs.rows
  enabled : job.enabled = true
  cron : job.definition.cron.isSome
  upcoming : job.nextRunAt = some next
  passed : next ≤ s.clock
  idle : ¬isRunning s job.jobId
  free : s.locks job.jobId = none

/-- A claim at the job's revision that names the occurrence, under identifiers of its own. -/
structure ClaimJob.Names (body : ClaimJob) (s : JobStore) (job : WorkflowJob) (next : Datetime) :
    Prop where
  owned : job.ownedBy body.principalId body.machineId
  revision : job.revision = body.expectedRevision
  scheduled : body.manual = false
  key : body.triggerKey = next.isoformat
  run : s.runs.get? body.runId = none
  thread : ∀ run ∈ s.runs.rows, run.threadId ≠ body.threadId

/-- The claim goes through, and its run starts. -/
def Accepts (croniter : Croniter) (s : JobStore) (jobId : Ulid) (body : ClaimJob) : Prop :=
  ∃ s' s'', (jobService croniter).step s (.startClaim jobId body) = .ok s' ∧
    (jobService croniter).step s' (.writeClaim jobId) = .ok s'' ∧
    ∃ run ∈ s''.runs.rows, run.runId = body.runId ∧ run.jobId = jobId ∧
      run.triggerKey = body.triggerKey ∧ run.state = .running

/-- A run of the job is already filed under the occurrence. -/
def Started (s : JobStore) (jobId : Ulid) (next : Datetime) : Prop :=
  ∃ run ∈ s.runs.rows, run.jobId = jobId ∧ run.triggerKey = next.isoformat

instance (jobId : Ulid) (next : Datetime) : Decidable (Started s jobId next) :=
  inferInstanceAs (Decidable (∃ run ∈ s.runs.rows, _))

section Acceptance

variable {job : WorkflowJob} {next : Datetime} {body : ClaimJob}

theorem Due.checkDue (h : Due s job next) (hbody : body.Names s job next) :
    checkDue job body s.clock = .ok () := by
  obtain ⟨cron, hcron⟩ := Option.isSome_iff_exists.mp h.cron
  simp only [Jobs.checkDue, hbody.scheduled, Bool.false_eq_true, ↓reduceIte, h.enabled, hcron,
    h.upcoming, Option.map_some, hbody.key]
  simp [ensure, h.passed]

theorem accepts_iff (hrecipes : Recipes croniter s) (h : Due s job next)
    (hbody : body.Names s job next) :
    Accepts croniter s job.jobId body ↔
      ¬Started s job.jobId next ∧ job.definition.GoesOn croniter s.clock := by
  obtain ⟨readAt, hsaved⟩ := hrecipes job h.saved
  have hget : s.jobs.get? job.jobId = some job := Table.get?_of_mem h.saved
  constructor
  · rintro ⟨s', s'', hstart, hwrite, _⟩
    obtain ⟨job', hfree, hchecked, rfl⟩ := startClaim_eq_ok.mp hstart
    obtain rfl : job' = job := Option.some.inj (hchecked.job.symm.trans hget)
    constructor
    · rintro ⟨run, hrun, hof, hkey⟩
      cases stepped_of_step hwrite with
      | @write _ claim hlock hclear hfresh =>
        simp only [Function.update_self, Option.some.injEq] at hlock
        subst hlock
        exact hclear run hrun (.inr ⟨hof, hkey.trans hbody.key.symm⟩)
    · exact (WorkflowDefinition.validate_iff hsaved).mp hchecked.valid
  · rintro ⟨hfree, hgoes⟩
    have hvalid := (WorkflowDefinition.validate_iff hsaved).mpr hgoes
    let claim : ClaimInFlight := ⟨body, job, s.clock⟩
    let held : JobStore := { s with locks := Function.update s.locks job.jobId (some claim) }
    have hstart : startClaim croniter s job.jobId body = .ok held := startClaim_eq_ok.mpr
      ⟨job, h.free, ⟨hget, hbody.owned, h.idle, hbody.revision, hvalid, h.checkDue hbody⟩, rfl⟩
    have hclear : ∀ run ∈ s.runs.rows, ¬run.conflicts claim := by
      rintro run hrun (hthread | ⟨hof, hkey⟩)
      · exact hbody.thread run hrun hthread
      · exact hfree ⟨run, hrun, hof, hkey.trans hbody.key⟩
    have hlock : held.locks job.jobId = some claim := Function.update_self ..
    have hwrite := (@writeClaim_eq_ok croniter held job.jobId _).mpr
      ⟨claim, hlock, hclear, hbody.run, rfl⟩
    refine ⟨held, _, hstart, by simp only [jobService, step, hwrite, ok_bind]; rfl, claim.run, ?_⟩
    exact ⟨List.mem_append_right _ (List.mem_singleton_self _), rfl, rfl, rfl, rfl⟩

end Acceptance

section Timely

/-- No schedule runs out, no save brings back an occurrence that has been started, and no claim
made by hand or on an event takes a key that names the job's next occurrence or an instant yet
to come. -/
def Timely (croniter : Croniter) (s : JobStore) : Action → Prop
  | .tick now => ∀ job ∈ s.jobs.rows, job.definition.GoesOn croniter now
  | .save jobId body readAt => body.definition.GoesOn croniter s.clock ∧
      ∀ next ∈ body.nextRunAt croniter readAt, ¬Started s jobId next
  | .writeClaim jobId => ∀ claim ∈ s.locks jobId,
      claim.body.manual ∨ claim.job.definition.cron = none →
        ∀ instant, claim.body.triggerKey = instant.isoformat →
          instant ≤ s.clock ∧ claim.job.nextRunAt ≠ some instant
  | _ => True

/-- Keys of the job's runs that name an instant name one that has passed by `now`. -/
def Past (s : JobStore) (P : WorkflowRun → Prop) (now : Datetime) : Prop :=
  ∀ run ∈ s.runs.rows, P run → ∀ instant, run.triggerKey = instant.isoformat → instant ≤ now

/-- What timely steps keep: every schedule goes on, every key names a past instant, and the next
occurrence of a job is not yet started. -/
structure OnTime (croniter : Croniter) (s : JobStore) : Prop where
  goesOn : ∀ job ∈ s.jobs.rows, job.definition.GoesOn croniter s.clock
  past : Past s (fun _ => True) s.clock
  ahead : ∀ job ∈ s.jobs.rows, ∀ next ∈ job.nextRunAt, ¬Started s job.jobId next
  held : ∀ {jobId claim}, s.locks jobId = some claim → claim.now ≤ s.clock ∧
    Past s (fun run => run.jobId = jobId) claim.now ∧
    checkDue claim.job claim.body claim.now = .ok ()

theorem OnTime.start (hjobs : s.jobs = .empty) (hruns : s.runs = .empty)
    (hlocks : s.locks = fun _ => none) : OnTime croniter s := by
  constructor <;> simp [hjobs, hruns, hlocks, Table.empty, Past]

/-- A claim on schedule names an occurrence that has come. -/
theorem checkDue_scheduled {job : WorkflowJob} {body : ClaimJob} {now : Datetime}
    (h : checkDue job body now = .ok ()) (hscheduled : body.manual = false)
    (hcron : job.definition.cron ≠ none) :
    ∃ next, job.nextRunAt = some next ∧ next ≤ now ∧ body.triggerKey = next.isoformat := by
  obtain ⟨cron, hcron⟩ := Option.ne_none_iff_exists'.mp hcron
  simp only [checkDue, hscheduled, Bool.false_eq_true, ↓reduceIte, hcron, bind_eq_ok,
    ensure_eq_ok] at h
  obtain ⟨_, _, _, ⟨next, hnext, hpassed⟩, hkey⟩ := h
  have hnext' : job.nextRunAt = some next := hnext
  rw [hnext', Option.map_some, Option.some.injEq] at hkey
  exact ⟨next, hnext', hpassed, hkey.symm⟩

theorem WorkflowDefinition.lt_nextRun {definition : WorkflowDefinition} {now next : Datetime}
    (h : definition.nextRun croniter now = some next) : now < next := by
  obtain ⟨cron, _, hnext⟩ := Option.bind_eq_some_iff.mp h
  exact croniter.lt_getNext hnext

/-- Once written, the key of a claim names no instant yet to come. -/
theorem OnTime.key_past (h : OnTime croniter s) {jobId : Ulid} {claim : ClaimInFlight}
    (hlock : s.locks jobId = some claim) (htimely : Timely croniter s (.writeClaim jobId))
    {instant : Datetime} (hkey : claim.body.triggerKey = instant.isoformat) :
    instant ≤ s.clock := by
  obtain ⟨hnow, _, hdue⟩ := h.held hlock
  by_cases hfree : claim.body.manual ∨ claim.job.definition.cron = none
  · exact (htimely claim hlock hfree instant hkey).1
  · obtain ⟨hscheduled, hcron⟩ := not_or.mp hfree
    obtain ⟨next, _, hpassed, hnext⟩ := checkDue_scheduled hdue (by simpa using hscheduled) hcron
    rw [Datetime.isoformat_injective (hkey.symm.trans hnext)]
    exact hpassed.trans hnow

/-- A claim leaves its job with a next occurrence that no run is filed under, its own included. -/
theorem OnTime.advance_ahead (h : OnTime croniter s) {jobId : Ulid} {claim : ClaimInFlight}
    (hlock : s.locks jobId = some claim) (hjob : s.jobs.get? jobId = some claim.job)
    (htimely : Timely croniter s (.writeClaim jobId)) {next : Datetime}
    (hnext : (claim.advance croniter claim.job).nextRunAt = some next) :
    ¬Started s jobId next ∧ claim.body.triggerKey ≠ next.isoformat := by
  obtain ⟨hnow, hpast, hdue⟩ := h.held hlock
  cases hmanual : claim.body.manual with
  | true =>
    have hkept : claim.job.nextRunAt = some next := by
      simpa [ClaimInFlight.advance, hmanual] using hnext
    constructor
    · have hahead := h.ahead claim.job (Table.mem_of_get? hjob) next hkept
      rwa [Table.key_of_get? hjob] at hahead
    · intro hkey
      exact (htimely claim hlock (.inl hmanual) next hkey).2 hkept
  | false =>
    have hlater : claim.now < next := by
      have hcron : claim.job.definition.nextRun croniter claim.now = some next := by
        simpa [ClaimInFlight.advance, hmanual] using hnext
      exact WorkflowDefinition.lt_nextRun hcron
    constructor
    · rintro ⟨run, hrun, hof, hkey⟩
      exact absurd (hpast run hrun hof next hkey) (not_le.mpr hlater)
    · intro hkey
      have hcron : claim.job.definition.cron ≠ none := by
        intro hcron
        simp [ClaimInFlight.advance, hmanual, WorkflowDefinition.nextRun, hcron] at hnext
      obtain ⟨occurrence, _, hpassed, hoccurrence⟩ := checkDue_scheduled hdue hmanual hcron
      rw [Datetime.isoformat_injective (hkey.symm.trans hoccurrence)] at hlater
      exact absurd hpassed (not_le.mpr hlater)

theorem OnTime.write (h : OnTime croniter s) {jobId : Ulid} {claim : ClaimInFlight}
    (hlock : s.locks jobId = some claim) (hjob : s.jobs.get? jobId = some claim.job)
    (htimely : Timely croniter s (.writeClaim jobId))
    (hfresh : s.runs.get? claim.run.runId = none) :
    OnTime croniter { s with
      runs := s.runs.insert claim.run hfresh
      jobs := s.jobs.modify jobId (claim.advance croniter) (claim.jobId_advance croniter)
      locks := Function.update s.locks jobId none } := by
  have hkeyed : claim.job.jobId = jobId := Table.key_of_get? hjob
  have hof : claim.run.jobId = jobId := hkeyed
  have hmem {run : WorkflowRun} : run ∈ (s.runs.insert claim.run hfresh).rows ↔
      run ∈ s.runs.rows ∨ run = claim.run := by
    simp
  constructor
  · intro job hjob'
    simp only [Table.rows_modify, List.mem_map] at hjob'
    obtain ⟨before, hbefore, rfl⟩ := hjob'
    have hgoes := h.goesOn before hbefore
    split
    · unfold ClaimInFlight.advance
      split <;> exact hgoes
    · exact hgoes
  · intro run hrun _ instant hkey
    rcases hmem.mp hrun with hold | rfl
    · exact h.past run hold trivial instant hkey
    · exact h.key_past hlock htimely hkey
  · intro job hjob' next hnext
    simp only [Table.rows_modify, List.mem_map] at hjob'
    obtain ⟨before, hbefore, rfl⟩ := hjob'
    by_cases hsame : before.jobId = jobId
    · have hread : before = claim.job := by
        rw [← hsame, Table.get?_of_mem hbefore, Option.some.injEq] at hjob
        exact hjob
      rw [if_pos hsame, hread] at hnext
      obtain ⟨hahead, hown⟩ := h.advance_ahead hlock hjob htimely hnext
      rw [if_pos hsame, claim.jobId_advance, hsame]
      rintro ⟨run, hrun, hrunof, hkey⟩
      rcases hmem.mp hrun with hold | rfl
      · exact hahead ⟨run, hold, hrunof, hkey⟩
      · exact hown hkey
    · rw [if_neg hsame] at hnext ⊢
      rintro ⟨run, hrun, hrunof, hkey⟩
      rcases hmem.mp hrun with hold | rfl
      · exact h.ahead before hbefore next hnext ⟨run, hold, hrunof, hkey⟩
      · exact hsame (hrunof.symm.trans hof)
  · intro jobId' claim' hlock'
    have hne : jobId' ≠ jobId := by
      rintro rfl
      simp at hlock'
    have hlock'' : s.locks jobId' = some claim' := by
      simpa [Function.update_of_ne hne] using hlock'
    obtain ⟨hnow, hpast, hdue⟩ := h.held hlock''
    refine ⟨hnow, ?_, hdue⟩
    intro run hrun hrunof instant hkey
    rcases hmem.mp hrun with hold | rfl
    · exact hpast run hold hrunof instant hkey
    · exact absurd (hrunof.symm.trans hof) hne

/-- Runs and keys stay, whatever becomes of the runs. -/
theorem OnTime.finish (h : OnTime croniter s) (runId : Ulid) (body : FinishJob) :
    OnTime croniter { s with
      runs := s.runs.modify runId (·.finish body s.clock)
        (WorkflowRun.runId_finish body s.clock) } := by
  have hback {run : WorkflowRun} (hrun : run ∈ (s.runs.modify runId (·.finish body s.clock)
      (WorkflowRun.runId_finish body s.clock)).rows) :
      ∃ before ∈ s.runs.rows, run.jobId = before.jobId ∧ run.triggerKey = before.triggerKey := by
    obtain ⟨before, hbefore, rfl⟩ := mem_finish.mp hrun
    refine ⟨before, hbefore, ?_⟩
    split <;> exact ⟨rfl, rfl⟩
  refine ⟨h.goesOn, ?_, ?_, ?_⟩
  · intro run hrun _ instant hkey
    obtain ⟨before, hbefore, _, hsame⟩ := hback hrun
    exact h.past before hbefore trivial instant (hsame ▸ hkey)
  · rintro job hjob next hnext ⟨run, hrun, hof, hkey⟩
    obtain ⟨before, hbefore, hjobId, hsame⟩ := hback hrun
    exact h.ahead job hjob next hnext ⟨before, hbefore, hjobId ▸ hof, hsame ▸ hkey⟩
  · intro jobId claim hlock
    obtain ⟨hnow, hpast, hdue⟩ := h.held hlock
    refine ⟨hnow, ?_, hdue⟩
    intro run hrun hof instant hkey
    obtain ⟨before, hbefore, hjobId, hsame⟩ := hback hrun
    exact hpast before hbefore (hjobId.symm.trans hof) instant (hsame ▸ hkey)

theorem OnTime.stepped {a : Action} (h : OnTime croniter s) (hfenced : Fenced s)
    (htimely : Timely croniter s a) (hstep : Stepped croniter s a s') : OnTime croniter s' := by
  cases hstep with
  | tick hnow =>
    refine ⟨htimely, ?_, h.ahead, ?_⟩
    · intro run hrun _ instant hkey
      exact (h.past run hrun trivial instant hkey).trans hnow
    · intro jobId claim hlock
      obtain ⟨hbefore, hpast, hdue⟩ := h.held hlock
      exact ⟨hbefore.trans hnow, hpast, hdue⟩
  | @insert jobId body readAt hvalid hfresh =>
    refine ⟨?_, h.past, ?_, h.held⟩
    · intro job hjob
      rcases List.mem_append.mp hjob with hold | hnew
      · exact h.goesOn job hold
      · rw [List.mem_singleton.mp hnew]
        exact htimely.1
    · intro job hjob next hnext
      rcases List.mem_append.mp hjob with hold | hnew
      · exact h.ahead job hold next hnext
      · rw [List.mem_singleton.mp hnew] at hnext ⊢
        exact htimely.2 next hnext
  | @edit jobId body readAt hvalid hfree =>
    refine ⟨?_, h.past, ?_, h.held⟩
    · intro job hjob
      simp only [Table.rows_modify, List.mem_map] at hjob
      obtain ⟨before, hbefore, rfl⟩ := hjob
      split
      · exact htimely.1
      · exact h.goesOn before hbefore
    · intro job hjob next hnext
      simp only [Table.rows_modify, List.mem_map] at hjob
      obtain ⟨before, hbefore, rfl⟩ := hjob
      by_cases hsame : before.jobId = jobId
      · rw [if_pos hsame] at hnext ⊢
        rw [body.jobId_edit, hsame]
        exact htimely.2 next hnext
      · rw [if_neg hsame] at hnext ⊢
        exact h.ahead before hbefore next hnext
  | @start jobId body job hfree hchecked =>
    refine ⟨h.goesOn, h.past, h.ahead, ?_⟩
    intro jobId' claim' hlock
    by_cases hsame : jobId' = jobId
    · subst hsame
      simp only [Function.update_self, Option.some.injEq] at hlock
      subst hlock
      exact ⟨le_refl _, fun run hrun _ => h.past run hrun trivial, hchecked.due⟩
    · exact h.held (by simpa [Function.update_of_ne hsame] using hlock)
  | write hlock hclear hfresh => exact h.write hlock (hfenced.locked hlock) htimely hfresh
  | @rollback jobId =>
    refine ⟨h.goesOn, h.past, h.ahead, ?_⟩
    intro jobId' claim' hlock
    by_cases hsame : jobId' = jobId
    · simp [hsame] at hlock
    · exact h.held (by simpa [Function.update_of_ne hsame] using hlock)
  | @finish runId body run hrun hrunning => exact h.finish runId body

theorem onTime_of_reachable (h : (jobService croniter).ReachableBy (Timely croniter) s) :
    OnTime croniter s := by
  have hboth : Fenced s ∧ OnTime croniter s := by
    apply Machine.reachableBy_keeps (I := fun s => Fenced s ∧ OnTime croniter s) ?_ ?_ h
    · rintro s ⟨hjobs, hruns, hlocks⟩
      exact ⟨.start hjobs hruns hlocks, .start hjobs hruns hlocks⟩
    · rintro s a s' ⟨hfenced, hontime⟩ htimely hstep
      have hstepped := stepped_of_step hstep
      exact ⟨hfenced.stepped hstepped, hontime.stepped hfenced htimely hstepped⟩
  exact hboth.2

end Timely

section Due

/-- A claim that names the due occurrence is accepted exactly where no run of the job is filed
under that occurrence and the schedule goes on; runs of timely steps only ever come there. -/
theorem due_occurrence_claimable :
    (∀ s, (jobService croniter).Reachable s → ∀ job next body, Due s job next →
      body.Names s job next → (Accepts croniter s job.jobId body ↔
        ¬Started s job.jobId next ∧ job.definition.GoesOn croniter s.clock)) ∧
    (∀ s, (jobService croniter).ReachableBy (Timely croniter) s → ∀ job next body,
      Due s job next → body.Names s job next → Accepts croniter s job.jobId body) := by
  constructor
  · intro s h job next body hdue hbody
    exact accepts_iff (recipes_of_reachable h) hdue hbody
  · intro s h job next body hdue hbody
    have hontime := onTime_of_reachable h
    exact (accepts_iff (recipes_of_reachable h.reachable) hdue hbody).mpr
      ⟨hontime.ahead job hdue.saved next hdue.upcoming, hontime.goesOn job hdue.saved⟩

def dueCalls : List Action :=
  [.save 1 (savesRecipe 0) halfMinute, .tick firstMinute]

/-- The first occurrence of the saved recipe comes and is claimed. -/
theorem due_occurrence_claimed :
    Accepts everyMinute ((jobService everyMinute).run noJobs dueCalls) 1
      (claimsMinute 100 7 firstMinute 1) := by
  have hsave : checkRecipe.GoesOn everyMinute halfMinute ∧
      ∀ next ∈ (savesRecipe 0).nextRunAt everyMinute halfMinute, ¬Started noJobs 1 next := by
    decide +kernel
  have htick : ∀ job ∈ ((jobService everyMinute).next noJobs
      (.save 1 (savesRecipe 0) halfMinute)).jobs.rows,
      job.definition.GoesOn everyMinute firstMinute := by
    decide +kernel
  have hreach : (jobService everyMinute).ReachableBy (Timely everyMinute)
      ((jobService everyMinute).run noJobs dueCalls) :=
    ⟨noJobs, dueCalls, ⟨rfl, rfl, rfl⟩, ⟨hsave, htick, trivial⟩, rfl⟩
  refine (@due_occurrence_claimable everyMinute).2 _ hreach (checkJob 1) firstMinute _ ?_ ?_
  · constructor <;> decide +kernel
  · constructor <;> decide +kernel

/-- A save that read the clock before the occurrence and writes after its run is over. -/
def stalledCalls : List Action :=
  dueCalls ++
    [.startClaim 1 (claimsMinute 100 7 firstMinute 1), .writeClaim 1,
      .finish 100 ⟨"owner", "m", .completed, "done"⟩, .save 1 (savesRecipe 1) halfMinute]

theorem due_occurrence_stalled :
    (jobService everyMinute).Reachable ((jobService everyMinute).run noJobs stalledCalls) ∧
    Due ((jobService everyMinute).run noJobs stalledCalls) (checkJob 2) firstMinute ∧
    (claimsMinute 101 8 firstMinute 2).Names ((jobService everyMinute).run noJobs stalledCalls)
      (checkJob 2) firstMinute ∧
    ¬Accepts everyMinute ((jobService everyMinute).run noJobs stalledCalls) 1
      (claimsMinute 101 8 firstMinute 2) := by
  have hreach : (jobService everyMinute).Reachable
      ((jobService everyMinute).run noJobs stalledCalls) :=
    ⟨noJobs, stalledCalls, ⟨rfl, rfl, rfl⟩, rfl⟩
  have hdue : Due ((jobService everyMinute).run noJobs stalledCalls) (checkJob 2)
      firstMinute := by
    constructor <;> decide +kernel
  have hnames : (claimsMinute 101 8 firstMinute 2).Names
      ((jobService everyMinute).run noJobs stalledCalls) (checkJob 2) firstMinute := by
    constructor <;> decide +kernel
  refine ⟨hreach, hdue, hnames, ?_⟩
  intro haccepts
  have hstarted : Started ((jobService everyMinute).run noJobs stalledCalls) 1 firstMinute := by
    decide +kernel
  exact ((accepts_iff (recipes_of_reachable hreach) hdue hnames).mp haccepts).1 hstarted

end Due

end Nocturne.Jobs
