import Nocturne.Inject.Laws
import Nocturne.Lib.Tally

namespace Nocturne.Inject

open Nocturne.Lib Nocturne.Store Nocturne.Memory

section Frames

variable {s s' : Store}

/-- A head update touches heads, their history and the draws alone. -/
theorem cas_frame {command : Ulid → CasUpdate} {r : MemoryUnit × Store}
    (h : s.cas command = .ok r) :
    { r.2 with units := s.units, revisions := s.revisions, session := s.session } = s := by
  obtain ⟨current, hstep, _⟩ := casUpdate_eq_ok.mp h
  obtain ⟨_, _, _, _, hs⟩ := hstep.written
  rw [hs]
  rfl

theorem cas_events {command : Ulid → CasUpdate} {r : MemoryUnit × Store}
    (h : s.cas command = .ok r) : r.2.events = s.events :=
  congrArg (·.events) (cas_frame h)

theorem cas_configs {command : Ulid → CasUpdate} {r : MemoryUnit × Store}
    (h : s.cas command = .ok r) : r.2.configs = s.configs :=
  congrArg (·.configs) (cas_frame h)

/-- The log and the scorer versions are as they were. -/
def SameLog (s s' : Store) : Prop := s'.events = s.events ∧ s'.configs = s.configs

theorem SameLog.trans {s t u : Store} (hst : SameLog s t) (htu : SameLog t u) : SameLog s u :=
  ⟨htu.1.trans hst.1, htu.2.trans hst.2⟩

theorem commitHead_sameLog {item : PlannedOutcome} (h : commitHead s item = .ok s') :
    SameLog s s' := by
  simp only [commitHead, bind_eq_ok, require_eq_ok, pure_eq_ok] at h
  obtain ⟨desired, _, rule, _, current, _, changes, _, r, hcas, rfl⟩ := h
  exact ⟨cas_events hcas, cas_configs hcas⟩

theorem commitHeads_sameLog {items : List PlannedOutcome} (h : items.foldlM commitHead s = .ok s') :
    SameLog s s' :=
  foldlM_rel (R := SameLog) (fun _ => ⟨rfl, rfl⟩) SameLog.trans
    (fun _ _ _ _ => commitHead_sameLog) h

theorem incrementInjectionStats_sameLog {command : PrepareCommand} {snapshotTs : Time}
    {injected : List Candidate}
    (h : incrementInjectionStats s command snapshotTs injected = .ok s') : SameLog s s' := by
  refine foldlM_rel (R := SameLog) (fun _ => ⟨rfl, rfl⟩) SameLog.trans ?_ h
  intro t item t' _ hpass
  simp only [bind_eq_ok, ensure_eq_ok, pure_eq_ok] at hpass
  obtain ⟨_, _, r, hcas, rfl⟩ := hpass
  exact ⟨cas_events hcas, cas_configs hcas⟩

theorem feedbackHead_sameLog {event : InjectionEvent} {signal : FeedbackSignal}
    (h : feedbackHead s event signal = .ok s') : SameLog s s' := by
  unfold feedbackHead at h
  split at h
  · obtain rfl := Except.ok.inj h
    exact ⟨rfl, rfl⟩
  · simp only [bind_eq_ok, require_eq_ok, pure_eq_ok] at h
    obtain ⟨current, _, r, hcas, rfl⟩ := h
    exact ⟨cas_events hcas, cas_configs hcas⟩

end Frames

section Commit

variable {s : Store} {command : CommitCommand} {planned : List PlannedOutcome}

/-- What an accepted commit of a recorded batch planned, counted and wrote. -/
structure Committed (s : Store) (command : CommitCommand) (planned : List PlannedOutcome)
    (counted : Store) (r : CommitResponse × Store) : Prop where
  plan : planCommit (loadBatch s command.injectionId) command = .ok planned
  count : ((planned.filter fun item => item.Moves).insertionSort fun a b =>
    a.event.memoryId ≤ b.event.memoryId).foldlM commitHead s = .ok counted
  record : (planned.filter (·.isNew)).foldlM writeNewOutcome counted = .ok r.2
  block : r.1.finalBlock = renderFinalBlock (finalEvents planned)
  wrong : ((planned.filter (·.desired = some (.removed .wrong))).insertionSort fun a b =>
    eventBefore a.event b.event).mapM (fun item => do
      let row ← require (r.2.units.get? item.event.memoryId)
        (SpineError.decisionState "memory does not exist")
      contractMemory row) = .ok r.1.wrongRemoved

/-- A commit of an injection without rows asks for nothing and answers the empty block. -/
structure CommitsNothing (s : Store) (command : CommitCommand) (r : CommitResponse × Store) :
    Prop where
  batch : loadBatch s command.injectionId = []
  choices : command.removed = [] ∧ command.addedBack = []
  answer : r = (⟨renderFinalBlock [], []⟩, s)

theorem commit_eq_ok {r : CommitResponse × Store} : commit s command = .ok r ↔
    CommitsNothing s command r ∨ (loadBatch s command.injectionId ≠ [] ∧
      ∃ planned counted, Committed s command planned counted r) := by
  unfold commit
  dsimp only
  split
  · next hbatch =>
    simp only [bind_eq_ok, ensure_eq_ok, pure_eq_ok]
    constructor
    · rintro ⟨_, hchoices, rfl⟩
      exact .inl ⟨hbatch, hchoices, rfl⟩
    · rintro (⟨_, hchoices, rfl⟩ | ⟨hne, _⟩)
      · exact ⟨.unit, hchoices, rfl⟩
      · exact absurd hbatch hne
  · next hbatch =>
    simp only [bind_eq_ok, pure_eq_ok]
    constructor
    · rintro ⟨planned, hplan, counted, hcount, s', hrecord, wrong, hwrong, rfl⟩
      exact .inr ⟨hbatch, planned, counted, hplan, hcount, hrecord, rfl, hwrong⟩
    · rintro (⟨hnil, _⟩ | ⟨_, planned, counted, hplan, hcount, hrecord, hblock, hwrong⟩)
      · exact absurd hnil hbatch
      · refine ⟨planned, hplan, counted, hcount, r.2, hrecord, r.1.wrongRemoved, hwrong, ?_⟩
        rw [← hblock]

theorem planCommit_planned {events : List InjectionEvent}
    (h : planCommit events command = .ok planned) : Planned events command planned :=
  planCommit_meets.of_ok h

theorem Committed.plans {counted : Store} {r : CommitResponse × Store}
    (h : Committed s command planned counted r) :
    Planned (loadBatch s command.injectionId) command planned :=
  planCommit_planned h.plan

/-- A loop of outcome writes rewrites each row by the items that name it. -/
theorem writeNewOutcomes_rows {items : List PlannedOutcome} {s' : Store}
    (h : items.foldlM writeNewOutcome s = .ok s') :
    s'.events.rows = s.events.rows.map (fun e => items.foldl (fun e item =>
      if e.id = item.event.id then { e with outcome := item.desired } else e) e) ∧
    { s' with events := s.events } = s := by
  induction items generalizing s with
  | nil =>
    simp only [List.foldlM_nil, pure_eq_ok] at h
    simp [h]
  | cons item items ih =>
    simp only [List.foldlM_cons, bind_eq_ok] at h
    obtain ⟨t, ht, h⟩ := h
    obtain ⟨hrows, hframe⟩ := ih h
    simp only [writeNewOutcome, bind_eq_ok, require_eq_ok] at ht
    obtain ⟨desired, hdesired, ht⟩ := ht
    obtain ⟨_, _, _, rfl⟩ := replaceOutcome_eq_ok.mp ht
    constructor
    · rw [hrows, Table.rows_modify, List.map_map]
      apply List.map_congr_left
      intro e _
      simp [hdesired]
    · exact congrArg (fun t : Store => { t with events := s.events }) hframe

/-- A row as an accepted commit leaves it. -/
def decidedEvent (command : CommitCommand) (e : InjectionEvent) : InjectionEvent :=
  if e.injectionId = command.injectionId ∧ e.shownAs ≠ .budgetCut ∧ e.outcome = none then
    { e with outcome := desiredOutcome command e }
  else e

theorem decidedEvent_eq (command : CommitCommand) (e : InjectionEvent) :
    decidedEvent command e = { e with outcome := (decidedEvent command e).outcome } := by
  unfold decidedEvent
  split <;> rfl

theorem mem_members {events : List InjectionEvent} {e : InjectionEvent} :
    e ∈ members events ↔ e ∈ events ∧ e.shownAs ≠ .budgetCut := by
  simp [members]

/-- The items that write one row write what the command asks for it. -/
theorem foldl_decided {e : InjectionEvent} {items : List PlannedOutcome}
    (h : ∀ item ∈ items, item.event.id = e.id → item.desired = desiredOutcome command e) :
    items.foldl (fun e item =>
      if e.id = item.event.id then { e with outcome := item.desired } else e) e =
      if ∃ item ∈ items, item.event.id = e.id then { e with outcome := desiredOutcome command e }
      else e := by
  -- once written, a row keeps what the command asks for it
  have hkept : ∀ items : List PlannedOutcome,
      (∀ item ∈ items, item.event.id = e.id → item.desired = desiredOutcome command e) →
      items.foldl (fun e item =>
        if e.id = item.event.id then { e with outcome := item.desired } else e)
        { e with outcome := desiredOutcome command e } =
      { e with outcome := desiredOutcome command e } := by
    intro items
    induction items with
    | nil => simp
    | cons item items ih =>
      intro h
      have hrest := ih fun item hitem => h item (List.mem_cons_of_mem _ hitem)
      rw [List.foldl_cons]
      split
      · next heq =>
        rw [h item (by simp) heq.symm]
        exact hrest
      · exact hrest
  induction items with
  | nil => simp
  | cons item items ih =>
    have hrest : ∀ item ∈ items, item.event.id = e.id →
        item.desired = desiredOutcome command e :=
      fun item hitem => h item (List.mem_cons_of_mem _ hitem)
    rw [List.foldl_cons]
    by_cases heq : e.id = item.event.id
    · rw [if_pos heq, if_pos ⟨item, by simp, heq.symm⟩, h item (by simp) heq.symm]
      exact hkept items hrest
    · rw [if_neg heq, ih hrest]
      have hne : item.event.id ≠ e.id := fun h => heq h.symm
      simp only [List.exists_mem_cons_iff, hne, false_or]

/-- An accepted commit decides each open member as its command asks, and no other row. -/
theorem commit_rows {r : CommitResponse × Store} (h : commit s command = .ok r) :
    r.2.events.rows = s.events.rows.map (decidedEvent command) := by
  rcases commit_eq_ok.mp h with hnone | ⟨_, planned, counted, hc⟩
  · obtain rfl := hnone.answer
    symm
    refine (List.map_congr_left fun e he => ?_).trans (List.map_id _)
    rw [decidedEvent, if_neg, id]
    rintro ⟨hbatch, -⟩
    have hmem := loadBatch_mem.mpr ⟨he, hbatch⟩
    simp [hnone.batch] at hmem
  · obtain ⟨hrows, _⟩ := writeNewOutcomes_rows hc.record
    rw [hrows, (commitHeads_sameLog hc.count).1]
    apply List.map_congr_left
    intro e he
    -- an item that names the row plans the row
    have hsame : ∀ item ∈ planned, item.event.id = e.id → item.event = e := by
      intro item hitem hid
      have hrow := (loadBatch_mem.mp (mem_members.mp (hc.plans.mem hitem).1).1).1
      exact Option.some.inj ((Table.get?_of_mem hrow).symm.trans
        (hid ▸ Table.get?_of_mem he))
    have hdesired : ∀ item ∈ planned.filter (·.isNew), item.event.id = e.id →
        item.desired = desiredOutcome command e := by
      intro item hitem hid
      have hplan := (hc.plans.mem (List.mem_of_mem_filter hitem)).2
      rw [(planEvent_event hplan).2.1, hsame item (List.mem_of_mem_filter hitem) hid]
    rw [foldl_decided hdesired]
    by_cases hopen : e.injectionId = command.injectionId ∧ e.shownAs ≠ .budgetCut ∧
        e.outcome = none
    · have hdecided : decidedEvent command e = { e with outcome := desiredOutcome command e } :=
        if_pos hopen
      obtain ⟨hbatch, hcut, hnone⟩ := hopen
      rw [hdecided]
      split
      · rfl
      · next hunplanned =>
        -- only a near miss left alone is open and not written
        have hmember := mem_members.mpr ⟨loadBatch_mem.mpr ⟨he, hbatch⟩, hcut⟩
        obtain ⟨item, hitem, hplan⟩ := forall₂_of_mem_left hc.plans.plan hmember
        obtain ⟨rfl, _, hnew⟩ := planEvent_event hplan
        cases hd : desiredOutcome command item.event with
        | none => rw [← hnone]
        | some desired =>
          have hisNew := hnew.mpr ⟨hnone, by simp [hd]⟩
          exact absurd ⟨item, List.mem_filter.mpr ⟨hitem, hisNew⟩, rfl⟩ hunplanned
    · have hdecided : decidedEvent command e = e := if_neg hopen
      rw [hdecided, if_neg]
      rintro ⟨item, hitem, hid⟩
      have hitem' := List.mem_of_mem_filter hitem
      obtain ⟨hmember, hplan⟩ := hc.plans.mem hitem'
      rw [hsame item hitem' hid] at hmember hplan
      have hnew := (planEvent_event hplan).2.2.mp (List.of_mem_filter hitem)
      obtain ⟨hloaded, hcut⟩ := mem_members.mp hmember
      exact hopen ⟨(loadBatch_mem.mp hloaded).2, hcut, hnew.1⟩

@[simp] theorem decidedEvent_id {e : InjectionEvent} : (decidedEvent command e).id = e.id := by
  rw [decidedEvent_eq]

theorem commit_get? {r : CommitResponse × Store} (h : commit s command = .ok r)
    {e : InjectionEvent} (he : e ∈ s.events.rows) :
    r.2.events.get? e.id = some (decidedEvent command e) := by
  have hmem : decidedEvent command e ∈ r.2.events.rows := by
    rw [commit_rows h]
    exact List.mem_map_of_mem he
  simpa using Table.get?_of_mem hmem

end Commit

section Feedback

variable {s : Store} {command : FeedbackCommand}

/-- The one row a feedback signal is about. -/
structure Signalled (s : Store) (command : FeedbackCommand) (event : InjectionEvent) : Prop where
  only : s.events.rows.filter (fun e =>
    e.injectionId = command.injectionId ∧ e.memoryId = command.memoryId) = [event]

theorem Signalled.mem {event : InjectionEvent} (h : Signalled s command event) :
    event ∈ s.events.rows ∧ event.injectionId = command.injectionId ∧
      event.memoryId = command.memoryId := by
  have hmem := h.only ▸ List.mem_singleton_self event
  simpa using hmem

/-- What an accepted signal moved: nothing on a replay, else one allowed step of its row. -/
structure Moved (s : Store) (command : FeedbackCommand) (event : InjectionEvent) (counted : Store)
    (s' : Store) : Prop where
  changed : event.outcome ≠ some command.signal.outcome
  allowed : command.signal.Allowed event.shownAs event.outcome
  count : feedbackHead s event command.signal = .ok counted
  record : replaceOutcome counted event event.outcome command.signal.outcome = .ok s'

theorem loadFeedbackEvent_eq_ok {event : InjectionEvent} :
    loadFeedbackEvent s command = .ok event ↔ Signalled s command event := by
  unfold loadFeedbackEvent
  constructor
  · intro h
    split at h
    · cases h
    · next hrows =>
      obtain rfl := Except.ok.inj h
      exact ⟨hrows⟩
    · cases h
  · rintro ⟨hrows⟩
    rw [hrows]

theorem feedback_eq_ok {s' : Store} : feedback s command = .ok s' ↔
    ∃ event, Signalled s command event ∧
      ((event.outcome = some command.signal.outcome ∧ s' = s) ∨
        ∃ counted, Moved s command event counted s') := by
  simp only [feedback, bind_eq_ok, loadFeedbackEvent_eq_ok]
  apply exists_congr
  intro event
  apply and_congr_right
  intro _
  split
  · next heq =>
    simp only [pure_eq_ok]
    constructor
    · exact fun h => .inl ⟨heq, h.symm⟩
    · rintro (⟨_, rfl⟩ | ⟨_, hmoved⟩)
      · rfl
      · exact absurd heq hmoved.changed
  · next hne =>
    simp only [bind_eq_ok, ensure_eq_ok]
    constructor
    · rintro ⟨_, hallowed, counted, hcount, hrecord⟩
      exact .inr ⟨counted, hne, hallowed, hcount, hrecord⟩
    · rintro (⟨heq, _⟩ | ⟨counted, _, hallowed, hcount, hrecord⟩)
      · exact absurd heq hne
      · exact ⟨.unit, hallowed, counted, hcount, hrecord⟩

/-- A moved row carries its signal's outcome; no other row changes. -/
theorem Moved.rows {event : InjectionEvent} {counted s' : Store}
    (h : Moved s command event counted s') :
    s'.events.rows = s.events.rows.map (fun e =>
      if e.id = event.id then { e with outcome := some command.signal.outcome } else e) := by
  obtain ⟨_, _, _, rfl⟩ := replaceOutcome_eq_ok.mp h.record
  rw [Table.rows_modify, (feedbackHead_sameLog h.count).1]

theorem Moved.get? {event : InjectionEvent} {counted s' : Store}
    (h : Moved s command event counted s') {e : InjectionEvent} (he : e ∈ s.events.rows) :
    s'.events.get? e.id =
      some (if e.id = event.id then { e with outcome := some command.signal.outcome } else e) := by
  have hmem := List.mem_map_of_mem (f := fun e : InjectionEvent =>
    if e.id = event.id then { e with outcome := some command.signal.outcome } else e) he
  rw [← h.rows] at hmem
  have hget := Table.get?_of_mem hmem
  have hid : (if e.id = event.id then { e with outcome := some command.signal.outcome }
      else e).id = e.id := by
    split <;> rfl
  rwa [hid] at hget

end Feedback

end Nocturne.Inject
