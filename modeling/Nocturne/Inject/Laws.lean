import Nocturne.Memory.Laws
import Nocturne.Inject.Prepare
import Nocturne.Inject.Decisions

namespace Nocturne.Inject

open Nocturne.Lib Nocturne.Store Nocturne.Memory

variable {env : Env} {scoring : Scoring} {s : Store}

/-- An update that counts: statistics and bias, and at most a quarantine. -/
structure Counts (u : MemoryUnit) (changes : MemoryUnitChanges) : Prop where
  only : changes = { stats := changes.stats, bias := changes.bias, status := changes.status }
  status : ∀ status ∈ changes.status,
    status = u.status ∨ (u.status = .active ∧ status = .quarantined)

section Prepare

variable {plan : PreparePlan} {allocation : MemoryAllocation} {injectionId : Uuid}

/-- One injection counted on the row version the plan saw. -/
def injectedChanges (plan : PreparePlan) (seen : MemoryUnit) : MemoryUnitChanges :=
  { stats := some { seen.stats with
      injections := seen.stats.injections + 1
      lastInjectedAt := some plan.snapshotTs } }

/-- Everything a prepare may write. -/
def prepareFootprint (plan : PreparePlan) (injectionId : Uuid) : Footprint :=
  { head := fun u c => (∃ item ∈ plan.selection.injected, item.candidate.unit = u) ∧
      c.At u.id u.revision (injectedChanges plan u)
    record := fun e => e.injectionId = injectionId ∧ e.threadId = plan.command.threadId }

theorem injectedChanges_counts (u : MemoryUnit) : Counts u (injectedChanges plan u) :=
  ⟨rfl, by simp [injectedChanges]⟩

theorem validateCommand_checks {command : PrepareCommand} :
    Checks True (validateCommand command) := by
  refine (Meets.ensure trivial).bind fun _ _ => ?_
  refine (Meets.ensure trivial).bind fun _ _ => ?_
  refine (Meets.ensure trivial).bind fun _ _ => ?_
  split
  · exact (Meets.ensure trivial).mono fun _ _ => trivial
  · exact (Meets.ensure trivial).bind fun _ _ => (Meets.ensure trivial).mono fun _ _ => trivial

theorem checkThread_checks {command : PrepareCommand} {thread : Option Thread} :
    Checks True (checkThread command thread) := by
  unfold checkThread
  split
  · exact (Meets.ensure trivial).mono fun _ _ => trivial
  · refine (Meets.ensure trivial).bind fun _ _ => ?_
    refine (Meets.ensure trivial).bind fun _ _ => ?_
    exact (Meets.ensure trivial).mono fun _ _ => trivial

theorem activeScorerConfig_meets :
    Meets (fun _ => True) SpineError.Lineaged (activeScorerConfig s) := by
  unfold activeScorerConfig
  split
  · exact (Meets.ensure trivial).bind fun _ _ => .pure trivial
  · exact .error trivial

theorem loadCandidates_meets {command : PrepareCommand} {query : Embedding} {pool : Nat} :
    Meets (fun _ => True) SpineError.Lineaged
      (loadCandidates env scoring s command query pool) := by
  unfold loadCandidates
  exact (Meets.ensure trivial).bind fun _ _ => .pure trivial

theorem prepareRead_meets {command : PrepareCommand} {query : Embedding} :
    Meets (fun _ => True) SpineError.Lineaged (prepareRead env scoring s command query) := by
  refine Meets.bind validateCommand_checks fun _ _ => ?_
  refine Meets.bind checkThread_checks fun _ _ => ?_
  refine Meets.bind activeScorerConfig_meets fun config _ => ?_
  refine Meets.bind loadCandidates_meets fun pools _ => ?_
  dsimp only
  split
  · exact .error trivial
  · exact .ok trivial

theorem stampThread_meets :
    Meets (fun t => s.Quiet t ∧ t.events = s.events ∧ t.units = s.units ∧
        ∃ thread ∈ t.threads.get? plan.command.threadId, thread.snapshotTs = some plan.snapshotTs)
      SpineError.Lineaged (stampThread s plan) := by
  unfold stampThread
  dsimp only
  split
  · next hnone =>
    refine Meets.bind (Meets.require trivial) fun threads hinsert => Meets.pure ?_
    obtain ⟨hfresh, rfl⟩ := Table.insert?_eq_some.mp hinsert
    refine ⟨⟨rfl, rfl, rfl, rfl, rfl, rfl, rfl, fun h => ⟨_, h, fun h => h⟩, fun {id t} ht => ?_⟩,
      rfl, rfl, ?_⟩
    · exact ⟨t.snapshotTs, Table.get?_insert_of_some (h := hfresh) ht, fun h => h⟩
    · exact ⟨_, Table.get?_insert_self (h := hfresh), rfl⟩
  · next existing hsome =>
    refine .ok ⟨⟨rfl, rfl, rfl, rfl, rfl, rfl, rfl, fun h => ⟨_, h, fun h => h⟩,
      fun {id t} ht => ?_⟩, rfl, rfl, ?_⟩
    · by_cases hid : id = plan.command.threadId
      · subst hid
        exact ⟨some plan.snapshotTs, by simp [Table.get?_modify_self, ht], fun _ => rfl⟩
      · exact ⟨t.snapshotTs, by simp [Table.get?_modify_of_ne hid, ht], fun h => h⟩
    · exact ⟨_, by simp [Table.get?_modify_self, hsome]; rfl, rfl⟩

theorem incrementInjectionStats_meets (injectionId : Uuid) {injected : List Candidate}
    (h : s.Lineage)
    (hinjected : ∀ item ∈ injected, item ∈ plan.selection.injected) :
    Meets (fun t => Writes (prepareFootprint plan injectionId) s t) SpineError.Lineaged
      (incrementInjectionStats s plan.command plan.snapshotTs injected) := by
  refine Meets.foldlM (I := Writes (prepareFootprint plan injectionId) s)
    (fun t ht item hitem => ?_) .refl
  rw [List.mem_insertionSort] at hitem
  refine (Meets.ensure trivial).bind fun _ hseen => ?_
  refine (cas_meets (prepareFootprint plan injectionId) (ht.lineage h) fun u hu _ => ?_).bind
    fun r hr => Meets.pure (ht.trans hr.1)
  obtain rfl := Option.some.inj (hu.symm.trans hseen)
  exact ⟨⟨item, hinjected item hitem, rfl⟩, rfl, rfl, rfl⟩

/-- The rows a prepare appends: one for each draft, in order, under rising ids. -/
structure Recorded (env : Env) (plan : PreparePlan) (allocation : MemoryAllocation)
    (injectionId : Uuid) (s : Store) (drafts : List EventDraft)
    (r : List InjectionEvent × Store) : Prop where
  rows : r.2.events.rows = s.events.rows ++ r.1
  drafts : List.Forall₂ (fun draft e => ∃ id eventUid,
    e = eventValues env plan allocation injectionId draft id eventUid) drafts r.1
  rising : (r.1.map (·.id)).Pairwise (· < ·)
  later : ∀ e ∈ s.events.rows, ∀ e' ∈ r.1, e.id < e'.id
  frame : { r.2 with events := s.events, session := s.session } = s

theorem lt_nextEventId {e : InjectionEvent} (h : e ∈ s.events.rows) : e.id < nextEventId s :=
  Nat.lt_succ_of_le (le_foldr_max (List.mem_map_of_mem h))

theorem insertEvents_meets {drafts : List EventDraft} :
    Meets (fun r => Recorded env plan allocation injectionId s drafts r) SpineError.Lineaged
      (insertEvents env plan allocation injectionId s drafts) := by
  induction drafts generalizing s with
  | nil => exact .ok ⟨by simp, .nil, .nil, by simp, rfl⟩
  | cons draft rest ih =>
    refine Meets.bind (Meets.require trivial) fun events hinsert => ?_
    obtain ⟨_, rfl⟩ := Table.insert?_eq_some.mp hinsert
    refine ih.bind fun r hr => Meets.pure ?_
    obtain ⟨hrows, hdrafts, hrising, hlater, hframe⟩ := hr
    refine ⟨by simp [hrows], .cons ⟨_, _, rfl⟩ hdrafts, ?_, ?_, ?_⟩
    · simp only [List.map_cons, List.pairwise_cons, List.mem_map]
      refine ⟨?_, hrising⟩
      rintro _ ⟨e, he, rfl⟩
      exact hlater _ (by simp) e he
    · intro e he e' he'
      rcases List.mem_cons.mp he' with rfl | he'
      · exact lt_nextEventId he
      · exact hlater e (by simp [he]) e' he'
    · simpa using congrArg (fun t : Store => { t with events := s.events, session := s.session })
        hframe

theorem Recorded.writes {drafts : List EventDraft} {r : List InjectionEvent × Store}
    (h : insertEvents env plan allocation injectionId s drafts = .ok r)
    (hthread : ∃ thread ∈ s.threads.get? plan.command.threadId, thread.snapshotTs.isSome) :
    Writes (prepareFootprint plan injectionId) s r.2 := by
  induction drafts generalizing s r with
  | nil =>
    simp only [insertEvents, Except.ok.injEq] at h
    subst h
    exact .refl
  | cons draft rest ih =>
    simp only [insertEvents, bind_eq_ok, require_eq_ok, pure_eq_ok] at h
    obtain ⟨events, hinsert, r', hr', rfl⟩ := h
    have hfirst : Writes (prepareFootprint plan injectionId) s { s with events } :=
      .single (.record ⟨rfl, rfl⟩ hthread hinsert)
    have hdrawn : Quiet { s with events } { s.drawn with events } :=
      ⟨rfl, rfl, rfl, rfl, rfl, rfl, rfl, fun h => ⟨_, h, id⟩, fun h => ⟨_, h, id⟩⟩
    have hrest := ih hr' hthread
    exact (hfirst.trans hdrawn.writes).trans hrest

/-- The stores an accepted prepare goes through: thread stamped, heads counted, rows logged. -/
structure Prepared (env : Env) (s : Store) (plan : PreparePlan) (stamped counted : Store)
    (rows : List InjectionEvent) (r : PrepareResponse × Store) : Prop where
  thread : s.threads.get? plan.command.threadId = plan.thread
  stamp : stampThread s plan = .ok stamped
  count : incrementInjectionStats stamped.drawn plan.command plan.snapshotTs
    plan.selection.injected = .ok counted
  record : insertEvents env plan plan.allocation stamped.freshUuid counted
    (eventDrafts plan.command plan.selection) = .ok (rows, r.2)
  response : r.1 =
    { injectionId := stamped.freshUuid
      snapshotTs := plan.snapshotTs
      scorerVersion := plan.config.version
      injected := plan.selection.injected.map responseCard
      nearMisses := plan.selection.nearMisses.map responseCard
      finalBlock := if plan.command.mode = .autonomous then
        some (renderFinalBlock (rows.filter fun e =>
          e.outcome = some .kept ∨ e.outcome = some .autoEntered)) else none
      memoryAllocation := plan.allocation }

theorem prepareWrite_eq_ok {r : PrepareResponse × Store} : prepareWrite env s plan = .ok r ↔
    ∃ stamped counted rows, Prepared env s plan stamped counted rows r := by
  simp only [prepareWrite, bind_eq_ok, ensure_eq_ok, pure_eq_ok]
  constructor
  · rintro ⟨_, hthread, stamped, hstamp, counted, hcount, ⟨rows, s'⟩, hrecord, rfl⟩
    exact ⟨stamped, counted, rows, hthread, hstamp, hcount, hrecord, rfl⟩
  · rintro ⟨stamped, counted, rows, hthread, hstamp, hcount, hrecord, hresponse⟩
    exact ⟨.unit, hthread, stamped, hstamp, counted, hcount, (rows, r.2), hrecord,
      Prod.ext hresponse.symm rfl⟩

theorem prepareWrite_meets (h : s.Lineage) :
    Meets (fun r => Writes (prepareFootprint plan r.1.injectionId) s r.2)
      SpineError.Lineaged (prepareWrite env s plan) := by
  refine (Meets.ensure trivial).bind fun _ _ => ?_
  refine Meets.bind stampThread_meets fun t ht => ?_
  obtain ⟨hquiet, _, _, thread, hthread, hstamp⟩ := ht
  have hlineage : t.drawn.Lineage := h.congr hquiet.units hquiet.revisions
  refine (incrementInjectionStats_meets t.freshUuid hlineage fun _ => id).bind fun u hu => ?_
  refine insertEvents_meets.self.bind fun r hr => Meets.pure ?_
  have hprepared : ∃ thread ∈ u.threads.get? plan.command.threadId, thread.snapshotTs.isSome :=
    hu.threads_prepared ⟨thread, hthread, by simp [hstamp]⟩
  exact ((hquiet.writes.trans drawn_quiet.writes).trans hu).trans
    (Recorded.writes hr.1 hprepared)

end Prepare

section Commit

variable {command : CommitCommand}

theorem loadBatch_mem {injectionId : Uuid} {e : InjectionEvent} :
    e ∈ loadBatch s injectionId ↔ e ∈ s.events.rows ∧ e.injectionId = injectionId := by
  simp [loadBatch, List.mem_insertionSort]

/-- A plan holds each member once, under the outcome its command asks for. -/
structure Planned (events : List InjectionEvent) (command : CommitCommand)
    (planned : List PlannedOutcome) : Prop where
  nodup : ((members events).map (·.memoryId)).Nodup
  plan : List.Forall₂ (fun event item => planEvent command event = .ok item) (members events)
    planned

theorem planEvent_meets {event : InjectionEvent} :
    Meets (fun _ => True) SpineError.Lineaged (planEvent command event) := by
  unfold planEvent
  split
  · exact .ok trivial
  · exact .error trivial
  · exact .ok trivial
  · split
    · exact .ok trivial
    · exact .error trivial

theorem planCommit_meets {events : List InjectionEvent} :
    Meets (Planned events command) SpineError.Lineaged (planCommit events command) := by
  refine (Meets.ensure trivial).bind fun _ hnodup => ?_
  refine (Meets.ensure trivial).bind fun _ _ => ?_
  refine (Meets.ensure trivial).bind fun _ _ => ?_
  refine (Meets.ensure trivial).bind fun _ _ => ?_
  refine (Meets.ensure trivial).bind fun _ _ => ?_
  refine (Meets.ensure trivial).bind fun _ _ => ?_
  exact (Meets.mapM fun _ _ => planEvent_meets).mono fun _ hplan => ⟨hnodup, hplan⟩

theorem planEvent_event {event : InjectionEvent} {item : PlannedOutcome}
    (h : planEvent command event = .ok item) :
    item.event = event ∧ item.desired = desiredOutcome command event ∧
      (item.isNew = true ↔ event.outcome = none ∧ (desiredOutcome command event).isSome) := by
  unfold planEvent at h
  split at h
  · next hd hc =>
    obtain rfl := Except.ok.inj h
    exact ⟨rfl, hd.symm, by simp [hd]⟩
  · cases h
  · next hd hc =>
    obtain rfl := Except.ok.inj h
    exact ⟨rfl, hd.symm, by simp [hd, hc]⟩
  · next hd hc =>
    split at h
    · obtain rfl := Except.ok.inj h
      exact ⟨rfl, hd.symm, by simp [hc]⟩
    · cases h

/-- Every planned outcome is the plan of one member of the batch. -/
theorem Planned.mem {events : List InjectionEvent} {planned : List PlannedOutcome}
    (h : Planned events command planned) {item : PlannedOutcome} (hitem : item ∈ planned) :
    item.event ∈ members events ∧ planEvent command item.event = .ok item := by
  obtain ⟨event, hevent, hplan⟩ := forall₂_of_mem_right h.plan hitem
  obtain ⟨rfl, _⟩ := planEvent_event hplan
  exact ⟨hevent, hplan⟩

/-- The memories whose heads a command may move. -/
def CommitCommand.memoryIds (command : CommitCommand) : List Uuid :=
  command.removed.map (·.memoryId) ++ command.addedBack

theorem memoryId_mem_of_moves {event : InjectionEvent} {desired : Outcome}
    (h : desiredOutcome command event = some desired)
    (hmoves : desired = .addedBack ∨ desired.IsRemoval) : event.memoryId ∈ command.memoryIds := by
  have hreason {reason : RemovalReason} (hr : command.reasonFor event.memoryId = some reason) :
      event.memoryId ∈ command.removed.map (·.memoryId) := by
    simp only [CommitCommand.reasonFor, Option.map_eq_some_iff] at hr
    obtain ⟨removed, hfind, _⟩ := hr
    have hid := List.find?_some hfind
    simp only [decide_eq_true_eq] at hid
    exact hid ▸ List.mem_map_of_mem (List.mem_of_find?_eq_some hfind)
  simp only [CommitCommand.memoryIds, List.mem_append]
  unfold desiredOutcome at h
  split at h
  · split at h
    · next hr => exact .inl (hreason hr)
    · split at h
      · next hadded => exact .inr hadded
      · cases h
  · split at h
    · next hr => exact .inl (hreason hr)
    · obtain rfl := Option.some.inj h
      simp [Outcome.IsRemoval] at hmoves

/-- Everything a commit may write. -/
def commitFootprint (command : CommitCommand) : Footprint :=
  { head := fun u c => c.memoryId ∈ command.memoryIds ∧ Counts u c.changes
    outcome := fun e _ => e.injectionId = command.injectionId }

theorem commitHeadChanges_meets {current : MemoryUnit} {desired : Outcome} {commitTs : Time}
    {rule : Option NeverRule} :
    Meets (Counts current) SpineError.Lineaged
      (commitHeadChanges current desired commitTs rule) := by
  unfold commitHeadChanges
  split
  · exact .ok ⟨rfl, by simp⟩
  · dsimp only
    split
    · exact .ok ⟨rfl, by simp⟩
    · refine Meets.bind (Meets.require trivial) fun rule _ => Meets.pure ⟨rfl, ?_⟩
      intro status hstatus
      obtain rfl := Option.mem_some_iff.mp hstatus
      split
      · next hkills => exact .inr ⟨hkills.1, rfl⟩
      · exact .inl rfl

theorem neverRule_meets {version : String} :
    Meets (fun _ => True) SpineError.Lineaged (neverRule s version) := by
  refine (Meets.require trivial).bind fun _ _ => ?_
  refine (Meets.require trivial).bind fun _ _ => ?_
  refine (Meets.ensure trivial).bind fun _ _ => ?_
  refine (Meets.require trivial).bind fun _ _ => ?_
  exact (Meets.ensure trivial).bind fun _ _ => .pure trivial

theorem ruleFor_meets {event : InjectionEvent} {desired : Outcome} :
    Meets (fun _ => True) SpineError.Lineaged (ruleFor s event desired) := by
  unfold ruleFor
  split
  · exact Meets.bind neverRule_meets fun _ _ => .pure trivial
  · exact .ok trivial

theorem commitHead_meets {item : PlannedOutcome} (h : s.Lineage)
    (hitem : item.event.memoryId ∈ command.memoryIds) :
    Meets (Writes (commitFootprint command) s ·) SpineError.Lineaged (commitHead s item) := by
  refine (Meets.require trivial).bind fun desired _ => ?_
  refine Meets.bind ruleFor_meets fun rule _ => ?_
  refine (Meets.require trivial).bind fun current hcurrent => ?_
  refine Meets.bind commitHeadChanges_meets fun changes hchanges => ?_
  refine (cas_meets (commitFootprint command) h fun u hu _ => ?_).bind fun r hr => .pure hr.1
  obtain rfl := Option.some.inj (hu.symm.trans hcurrent)
  exact ⟨hitem, hchanges⟩

theorem commit_meets (h : s.Lineage) :
    Meets (fun r => Writes (commitFootprint command) s r.2) SpineError.Lineaged
      (commit s command) := by
  unfold commit
  dsimp only
  split
  · exact (Meets.ensure trivial).bind fun _ _ => .pure .refl
  · refine Meets.bind planCommit_meets fun planned hplanned => ?_
    refine Meets.bind (Q := Writes (commitFootprint command) s) ?_ fun t ht => ?_
    · refine Meets.foldlM (I := Writes (commitFootprint command) s) (fun t ht item hitem => ?_)
        .refl
      simp only [List.mem_insertionSort, List.mem_filter, decide_eq_true_eq] at hitem
      obtain ⟨hitem, _, desired, hdesired, hmoves⟩ := hitem
      obtain ⟨_, hwanted, _⟩ := planEvent_event (hplanned.mem hitem).2
      have hid := memoryId_mem_of_moves (hwanted ▸ hdesired) hmoves
      exact (commitHead_meets (ht.lineage h) hid).mono fun _ hw => ht.trans hw
    · refine Meets.bind (Q := Writes (commitFootprint command) s) ?_ fun u hu => ?_
      · refine Meets.foldlM (I := Writes (commitFootprint command) s) (fun u hu item hitem => ?_) ht
        have hevent := (hplanned.mem (List.mem_of_mem_filter hitem)).1
        have hbatch := (loadBatch_mem.mp (List.mem_of_mem_filter hevent)).2
        refine (Meets.require trivial).bind fun desired _ => ?_
        exact (replaceOutcome_meets (commitFootprint command) hbatch).mono fun _ hw =>
          hu.trans hw.1
      · refine Meets.bind (Meets.mapM fun item _ => ?_) fun _ _ => Meets.pure hu
        refine (Meets.require trivial).bind fun row _ => ?_
        exact contractMemory_meets.mono fun _ _ => trivial

end Commit

section Feedback

variable {command : FeedbackCommand}

/-- Everything a feedback signal may write. -/
def feedbackFootprint (command : FeedbackCommand) : Footprint :=
  { head := fun u c => c.memoryId = command.memoryId ∧ command.signal ≠ .midThreadAdded ∧
      Counts u c.changes
    outcome := fun e o => e.injectionId = command.injectionId ∧ e.memoryId = command.memoryId ∧
      o = command.signal.outcome }

theorem loadFeedbackEvent_meets :
    Meets (fun event => event ∈ s.events.rows ∧ event.injectionId = command.injectionId ∧
        event.memoryId = command.memoryId) SpineError.Lineaged
      (loadFeedbackEvent s command) := by
  unfold loadFeedbackEvent
  split
  · exact .error trivial
  · next event hrows =>
    have hmem : event ∈ s.events.rows.filter fun e =>
        e.injectionId = command.injectionId ∧ e.memoryId = command.memoryId :=
      hrows ▸ List.mem_singleton_self event
    simp only [List.mem_filter, decide_eq_true_eq] at hmem
    exact .ok hmem
  · exact .error trivial

theorem feedback_meets (h : s.Lineage) :
    Meets (Writes (feedbackFootprint command) s ·) SpineError.Lineaged (feedback s command) := by
  refine Meets.bind loadFeedbackEvent_meets fun event hevent => ?_
  obtain ⟨_, hinjection, hmemory⟩ := hevent
  split
  · exact .pure .refl
  · refine (Meets.ensure trivial).bind fun _ _ => ?_
    refine Meets.bind (Q := Writes (feedbackFootprint command) s) ?_ fun t ht => ?_
    · unfold feedbackHead
      split
      · exact .ok .refl
      · next hsignal =>
        refine (Meets.require trivial).bind fun current hcurrent => ?_
        refine (cas_meets (feedbackFootprint command) h fun u _ _ => ?_).bind
          fun r hr => .pure hr.1
        exact ⟨hmemory, hsignal, rfl, by simp⟩
    · exact (replaceOutcome_meets (feedbackFootprint command) ⟨hinjection, hmemory, rfl⟩).mono
        fun _ hw => ht.trans hw.1

end Feedback

end Nocturne.Inject
