import Nocturne.Inject.Counters

namespace Nocturne.Inject

open Nocturne.Lib Nocturne.Store Nocturne.Memory

section Plans

variable {batch : List InjectionEvent} {command : CommitCommand} {planned : List PlannedOutcome}

/-- The choices of a command fit the cards of its batch. -/
structure Plannable (batch : List InjectionEvent) (command : CommitCommand) : Prop where
  nodup : (batch.map (·.memoryId)).Nodup
  removed : (command.removed.map (·.memoryId)).Nodup
  addedBack : command.addedBack.Nodup
  overlap : ∀ item ∈ command.removed, item.memoryId ∉ command.addedBack
  removable : ∀ item ∈ command.removed, ∃ event ∈ batch, event.memoryId = item.memoryId ∧
    (event.shownAs.Entered ∨ event.shownAs = .nearMiss ∧ item.reason = .never)
  addable : ∀ id ∈ command.addedBack, ∃ event ∈ batch, event.memoryId = id ∧
    event.shownAs = .nearMiss

theorem planCommit_eq_ok {events : List InjectionEvent} :
    planCommit events command = .ok planned ↔ Plannable (members events) command ∧
      List.Forall₂ (fun e item => planEvent command e = .ok item) (members events) planned := by
  simp only [planCommit, bind_eq_ok, ensure_eq_ok, mapM_eq_ok]
  constructor
  · rintro ⟨_, h1, _, h2, _, h3, _, h4, _, h5, _, h6, hplan⟩
    exact ⟨⟨h1, h2, h3, h4, h5, h6⟩, hplan⟩
  · rintro ⟨⟨h1, h2, h3, h4, h5, h6⟩, hplan⟩
    exact ⟨.unit, h1, .unit, h2, .unit, h3, .unit, h4, .unit, h5, .unit, h6, hplan⟩

/-- Choices are about the cards, not about what became of them. -/
theorem Plannable.map {f : InjectionEvent → InjectionEvent}
    (hid : ∀ e, (f e).memoryId = e.memoryId) (hshown : ∀ e, (f e).shownAs = e.shownAs)
    (h : Plannable batch command) : Plannable (batch.map f) command where
  nodup := by
    rw [List.map_map]
    simpa only [Function.comp_def, hid] using h.nodup
  removed := h.removed
  addedBack := h.addedBack
  overlap := h.overlap
  removable item hitem := by
    obtain ⟨e, he, hm, hs⟩ := h.removable item hitem
    exact ⟨f e, List.mem_map_of_mem he, by rw [hid, hm], by rwa [hshown]⟩
  addable id hadded := by
    obtain ⟨e, he, hm, hs⟩ := h.addable id hadded
    exact ⟨f e, List.mem_map_of_mem he, by rw [hid, hm], by rwa [hshown]⟩

end Plans

section Settled

variable {command : CommitCommand} {e : InjectionEvent} {o : Option Outcome}

/-- What a gate choice, or feedback after it, leaves on the card it was made for. -/
def Settled (command : CommitCommand) (e : InjectionEvent) : Prop :=
  match desiredOutcome command e with
  | some desired => ∃ o, e.outcome = some o ∧ (o = desired ∨ isFeedbackDescendant e o desired)
  | none => e.outcome = none ∨ ∃ o, e.outcome = some o ∧ o.IsFeedback

theorem desiredOutcome_congr {e' : InjectionEvent} (hid : e'.memoryId = e.memoryId)
    (hshown : e'.shownAs = e.shownAs) : desiredOutcome command e' = desiredOutcome command e := by
  simp only [desiredOutcome, hid, hshown]

/-- The base of feedback on a card: what its gate choice must have been. -/
theorem base_of_allowed {signal : FeedbackSignal} {desired : Outcome}
    (hdesired : desiredOutcome command e = some desired)
    (hallowed : signal.Allowed e.shownAs (some desired)) :
    desired = if e.shownAs = .nearMiss then .addedBack else .kept := by
  rcases desiredOutcome_cases hdesired with ⟨hnear, rfl | rfl⟩ | ⟨hnear, rfl | ⟨reason, rfl⟩⟩
  · cases signal <;> simp [FeedbackSignal.Allowed] at hallowed
  · simp [hnear]
  · simp [hnear]
  · cases signal <;> simp [FeedbackSignal.Allowed] at hallowed

theorem isFeedback_outcome (signal : FeedbackSignal) : signal.outcome.IsFeedback := by
  cases signal <;> simp [FeedbackSignal.outcome, Outcome.IsFeedback]

theorem Settled.feedback {signal : FeedbackSignal} (h : Settled command e)
    (hallowed : signal.Allowed e.shownAs e.outcome) :
    Settled command { e with outcome := some signal.outcome } := by
  have hsame : desiredOutcome command { e with outcome := some signal.outcome } =
      desiredOutcome command e := desiredOutcome_congr rfl rfl
  unfold Settled at h ⊢
  rw [hsame]
  cases hd : desiredOutcome command e with
  | none => exact .inr ⟨_, rfl, isFeedback_outcome signal⟩
  | some desired =>
    rw [hd] at h
    obtain ⟨o, ho, rfl | hdesc⟩ := h
    · exact ⟨_, rfl, .inr ⟨isFeedback_outcome signal, base_of_allowed hd (ho ▸ hallowed)⟩⟩
    · exact ⟨_, rfl, .inr ⟨isFeedback_outcome signal, hdesc.2⟩⟩

/-- A choice made again on its card asks for nothing new. -/
theorem Settled.planEvent (h : Settled command e)
    (hopen : desiredOutcome command e = none → e.outcome = none) :
    planEvent command e = .ok ⟨e, desiredOutcome command e, false⟩ := by
  unfold Settled at h
  unfold Inject.planEvent
  cases hd : desiredOutcome command e with
  | none => rw [hopen hd]
  | some desired =>
    rw [hd] at h
    obtain ⟨o, ho, hfits⟩ := h
    rw [ho]
    simp only
    rw [if_pos hfits]

/-- A different choice on a decided card is refused. -/
theorem Settled.planEvent_conflict {command' : CommitCommand} {desired : Outcome}
    (h : Settled command e) (hd : desiredOutcome command e = some desired)
    (hne : desiredOutcome command' e ≠ some desired) :
    Inject.planEvent command' e = .error .outcomeConflict := by
  unfold Settled at h
  rw [hd] at h
  obtain ⟨o, ho, hfits⟩ := h
  unfold Inject.planEvent
  rw [ho]
  cases hd' : desiredOutcome command' e with
  | none => rfl
  | some desired' =>
    have hother : desired' ≠ desired := fun heq => hne (hd'.trans (heq ▸ rfl))
    -- gate choices are no feedback outcomes
    have hgate {c : CommitCommand} {d : Outcome} (hc : desiredOutcome c e = some d) :
        ¬d.IsFeedback := by
      rcases desiredOutcome_cases hc with ⟨_, rfl | rfl⟩ | ⟨_, rfl | ⟨_, rfl⟩⟩ <;>
        simp [Outcome.IsFeedback]
    simp only
    rw [if_neg]
    rintro (rfl | ⟨hfeedback, hbase⟩)
    · rcases hfits with rfl | hdesc
      · exact hother rfl
      · exact hgate hd' hdesc.1
    · rcases hfits with rfl | hdesc
      · exact hgate hd hfeedback
      · exact hother (hbase.trans hdesc.2.symm)

end Settled

section Batches

variable {s s' : Store} {injectionId : Uuid}

/-- A batch whose rows were rewritten in place is the batch rewritten. -/
theorem loadBatch_map {f : InjectionEvent → InjectionEvent}
    (hrows : s'.events.rows = s.events.rows.map f)
    (hf : ∀ e, f e = { e with outcome := (f e).outcome }) :
    loadBatch s' injectionId = (loadBatch s injectionId).map f := by
  have hid (e : InjectionEvent) : (f e).id = e.id := by rw [hf]
  have hm (e : InjectionEvent) : (f e).memoryId = e.memoryId := by rw [hf]
  have hr (e : InjectionEvent) : (f e).rank = e.rank := by rw [hf]
  have hi (e : InjectionEvent) : (f e).injectionId = e.injectionId := by rw [hf]
  rw [loadBatch, loadBatch, hrows, List.filter_map]
  simp only [Function.comp_def, hi]
  refine (List.map_insertionSort _ _ f _ fun a _ b _ => ?_).symm
  simp only [hid, hm, hr]

theorem members_map {f : InjectionEvent → InjectionEvent}
    (hf : ∀ e, f e = { e with outcome := (f e).outcome }) (events : List InjectionEvent) :
    members (events.map f) = (members events).map f := by
  have hs (e : InjectionEvent) : (f e).shownAs = e.shownAs := by rw [hf]
  rw [members, members, List.filter_map]
  simp only [Function.comp_def, hs]

/-- Outcomes aside, the log is as it was. -/
def Redecided (s s' : Store) : Prop :=
  ∃ f : InjectionEvent → InjectionEvent, (∀ e, f e = { e with outcome := (f e).outcome }) ∧
    s'.events.rows = s.events.rows.map f

theorem Redecided.refl (s : Store) : Redecided s s := ⟨id, fun _ => rfl, by simp⟩

theorem Redecided.trans {s t u : Store} (hst : Redecided s t) (htu : Redecided t u) :
    Redecided s u := by
  obtain ⟨f, hf, hrows⟩ := hst
  obtain ⟨g, hg, hrows'⟩ := htu
  refine ⟨g ∘ f, fun e => ?_, by rw [hrows', hrows, List.map_map]⟩
  rw [Function.comp_apply, hg, hf]

theorem commit_redecided {command : CommitCommand} {r : CommitResponse × Store}
    (h : commit s command = .ok r) : Redecided s r.2 :=
  ⟨decidedEvent command, decidedEvent_eq command, commit_rows h⟩

theorem feedback_redecided {command : FeedbackCommand} (h : feedback s command = .ok s') :
    Redecided s s' := by
  obtain ⟨event, _, ⟨_, rfl⟩ | ⟨_, hmoved⟩⟩ := feedback_eq_ok.mp h
  · exact .refl s'
  · refine ⟨_, fun e => ?_, hmoved.rows⟩
    split <;> rfl

theorem Redecided.batch (h : Redecided s s') (injectionId : Uuid) :
    ∃ f : InjectionEvent → InjectionEvent, (∀ e, f e = { e with outcome := (f e).outcome }) ∧
      members (loadBatch s' injectionId) = (members (loadBatch s injectionId)).map f := by
  obtain ⟨f, hf, hrows⟩ := h
  exact ⟨f, hf, by rw [loadBatch_map hrows hf, members_map hf]⟩

theorem Redecided.plannable {command : CommitCommand} (h : Redecided s s')
    (hplan : Plannable (members (loadBatch s injectionId)) command) :
    Plannable (members (loadBatch s' injectionId)) command := by
  obtain ⟨f, hf, hbatch⟩ := h.batch injectionId
  rw [hbatch]
  exact hplan.map (fun e => by rw [hf]) fun e => by rw [hf]

end Batches

section Commit

variable {s s' : Store} {command : CommitCommand}

/-- Every card of the batch stands where the command, and feedback after it, left it. -/
def AllSettled (s : Store) (command : CommitCommand) : Prop :=
  ∀ e ∈ members (loadBatch s command.injectionId), Settled command e

theorem commit_settled {r : CommitResponse × Store} (h : commit s command = .ok r) :
    AllSettled r.2 command := by
  intro e' he'
  rw [loadBatch_map (commit_rows h) (decidedEvent_eq command),
    members_map (decidedEvent_eq command), List.mem_map] at he'
  obtain ⟨e, he, rfl⟩ := he'
  obtain ⟨hloaded, hcut⟩ := mem_members.mp he
  obtain ⟨_, hbatch⟩ := loadBatch_mem.mp hloaded
  rcases commit_eq_ok.mp h with hnone | ⟨_, planned, counted, hc⟩
  · rw [hnone.batch] at hloaded
    cases hloaded
  · obtain ⟨item, _, hplan⟩ := forall₂_of_mem_left hc.plans.plan he
    unfold Settled
    rw [desiredOutcome_congr (e := e) (by rw [decidedEvent_eq])
      (by rw [decidedEvent_eq])]
    cases hout : e.outcome with
    | none =>
      have hdecided : decidedEvent command e = { e with outcome := desiredOutcome command e } :=
        if_pos ⟨hbatch, hcut, hout⟩
      rw [hdecided]
      cases hd : desiredOutcome command e with
      | none => exact .inl rfl
      | some desired => exact ⟨desired, rfl, .inl rfl⟩
    | some current =>
      have hkept : decidedEvent command e = e := if_neg (by simp [hout])
      rw [hkept]
      unfold planEvent at hplan
      rw [hout] at hplan
      cases hd : desiredOutcome command e with
      | none =>
        rw [hd] at hplan
        cases hplan
      | some desired =>
        rw [hd] at hplan
        simp only at hplan
        split at hplan
        · next hfits => exact ⟨current, hout, hfits⟩
        · cases hplan

theorem AllSettled.feedback {signal : FeedbackCommand} (hs : AllSettled s command)
    (h : feedback s signal = .ok s') : AllSettled s' command := by
  obtain ⟨event, hevent, ⟨_, rfl⟩ | ⟨_, hmoved⟩⟩ := feedback_eq_ok.mp h
  · exact hs
  · have hrewritten : ∀ e : InjectionEvent,
        (if e.id = event.id then { e with outcome := some signal.signal.outcome } else e) =
          { e with outcome := (if e.id = event.id then
            { e with outcome := some signal.signal.outcome } else e).outcome } := by
      intro e
      split <;> rfl
    intro e' he'
    rw [loadBatch_map hmoved.rows hrewritten, members_map hrewritten, List.mem_map] at he'
    obtain ⟨e, he, rfl⟩ := he'
    have hold := hs e he
    split
    · next hid =>
      have hrow := (loadBatch_mem.mp (mem_members.mp he).1).1
      obtain rfl := Option.some.inj ((Table.get?_of_mem hrow).symm.trans
        (hid ▸ Table.get?_of_mem hevent.mem.1))
      exact hold.feedback hmoved.allowed
    · exact hold

/-- The block a batch renders: the members still kept, added back or cited. -/
def batchBlock (s : Store) (injectionId : Uuid) : String :=
  renderFinalBlock ((members (loadBatch s injectionId)).filter fun e =>
    ∃ o ∈ e.outcome, o.Positive)

/-- The heads a command removed as wrong are there to be shown. -/
def WrongShown (s : Store) (command : CommitCommand) : Prop :=
  ∀ e ∈ members (loadBatch s command.injectionId),
    desiredOutcome command e = some (.removed .wrong) →
      ∃ u, s.units.get? e.memoryId = some u ∧ u.status ≠ .staged

theorem commit_wrongShown {r : CommitResponse × Store} (h : commit s command = .ok r) :
    WrongShown r.2 command := by
  intro e' he' hwrong
  rw [loadBatch_map (commit_rows h) (decidedEvent_eq command),
    members_map (decidedEvent_eq command), List.mem_map] at he'
  obtain ⟨e, he, rfl⟩ := he'
  rcases commit_eq_ok.mp h with hnone | ⟨_, planned, counted, hc⟩
  · rw [hnone.batch] at he
    cases he
  · obtain ⟨item, hitem, hplan⟩ := forall₂_of_mem_left hc.plans.plan he
    obtain ⟨rfl, hdesired, _⟩ := planEvent_event hplan
    have hsame : desiredOutcome command (decidedEvent command item.event) =
        desiredOutcome command item.event := by
      apply desiredOutcome_congr <;> rw [decidedEvent_eq]
    have hmem : item ∈ (planned.filter (·.desired = some (.removed .wrong))).insertionSort
        fun a b => eventBefore a.event b.event := by
      rw [List.mem_insertionSort, List.mem_filter]
      exact ⟨hitem, by simp [hdesired, ← hsame, hwrong]⟩
    obtain ⟨u, _, hu⟩ := forall₂_of_mem_left (mapM_eq_ok.mp hc.wrong) hmem
    simp only [bind_eq_ok, require_eq_ok] at hu
    obtain ⟨row, hrow, hcontract⟩ := hu
    have hid : (decidedEvent command item.event).memoryId = item.event.memoryId := by
      rw [decidedEvent_eq]
    exact ⟨row, hid ▸ hrow, (contractMemory_meets.of_ok hcontract).2⟩

theorem Plannable.empty (h : Plannable [] command) :
    command.removed = [] ∧ command.addedBack = [] := by
  constructor
  · apply List.eq_nil_iff_forall_not_mem.mpr
    intro item hitem
    obtain ⟨_, he, _⟩ := h.removable item hitem
    cases he
  · apply List.eq_nil_iff_forall_not_mem.mpr
    intro id hadded
    obtain ⟨_, he, _⟩ := h.addable id hadded
    cases he

theorem commit_plannable {r : CommitResponse × Store} (h : commit s command = .ok r) :
    Plannable (members (loadBatch s command.injectionId)) command := by
  rcases commit_eq_ok.mp h with hnone | ⟨_, planned, counted, hc⟩
  · obtain ⟨hremoved, hadded⟩ := hnone.choices
    rw [hnone.batch]
    constructor <;> simp [members, hremoved, hadded]
  · exact (planCommit_eq_ok.mp hc.plan).1

/-- A command sent again to a settled batch writes nothing and renders the members still
kept, added back or cited. -/
theorem commit_again (hplan : Plannable (members (loadBatch s command.injectionId)) command)
    (hsettled : AllSettled s command) (hwrong : WrongShown s command)
    (hopen : ∀ e ∈ members (loadBatch s command.injectionId),
      desiredOutcome command e = none → e.outcome = none) :
    ∃ response, commit s command = .ok (response, s) ∧
      response.finalBlock = batchBlock s command.injectionId := by
  have hplanned : planCommit (loadBatch s command.injectionId) command = .ok
      ((members (loadBatch s command.injectionId)).map fun e =>
        ⟨e, desiredOutcome command e, false⟩) := by
    rw [planCommit_eq_ok]
    refine ⟨hplan, ?_⟩
    rw [List.forall₂_map_right_iff, List.forall₂_same]
    exact fun e he => (hsettled e he).planEvent (hopen e he)
  by_cases hbatch : loadBatch s command.injectionId = []
  · refine ⟨⟨renderFinalBlock [], []⟩, commit_eq_ok.mpr (.inl ⟨hbatch, ?_, rfl⟩), ?_⟩
    · rw [hbatch] at hplan
      exact hplan.empty
    · simp [batchBlock, hbatch, members]
  · obtain ⟨wrong, hshown⟩ := mapM_total (f := fun item : PlannedOutcome => do
        let row ← require (s.units.get? item.event.memoryId)
          (SpineError.decisionState "memory does not exist")
        contractMemory row)
      (l := ((((members (loadBatch s command.injectionId)).map fun e =>
        (⟨e, desiredOutcome command e, false⟩ : PlannedOutcome)).filter
          (·.desired = some (.removed .wrong))).insertionSort fun a b =>
            eventBefore a.event b.event)) (by
        intro item hitem
        rw [List.mem_insertionSort, List.mem_filter, List.mem_map] at hitem
        obtain ⟨⟨e, he, rfl⟩, hremoved⟩ := hitem
        obtain ⟨u, hu, hstatus⟩ := hwrong e he (by simpa using hremoved)
        exact ⟨u, by simp [hu, contractMemory, ensure_pos hstatus]⟩)
    refine ⟨⟨batchBlock s command.injectionId, wrong⟩, commit_eq_ok.mpr (.inr ⟨hbatch, _, s,
      hplanned, ?_, ?_, ?_, hshown⟩), rfl⟩
    · simp [PlannedOutcome.Moves, List.filter_map, Function.comp_def]
    · simp [List.filter_map, Function.comp_def]
    · simp [batchBlock, finalEvents, PlannedOutcome.effective, Function.comp_def]

/-- A command that decides one member of a settled batch otherwise is refused. -/
theorem commit_conflict {command' : CommitCommand} (hsettled : AllSettled s command)
    (hid : command'.injectionId = command.injectionId) {e : InjectionEvent}
    (he : e ∈ members (loadBatch s command.injectionId)) {desired : Outcome}
    (hd : desiredOutcome command e = some desired)
    (hne : desiredOutcome command' e ≠ some desired) : ∃ err, commit s command' = .error err := by
  have hrefused := (hsettled e he).planEvent_conflict hd hne
  cases hcommit : commit s command' with
  | error err => exact ⟨err, rfl⟩
  | ok r =>
    rw [← hid] at he
    rcases commit_eq_ok.mp hcommit with hnone | ⟨_, planned, counted, hc⟩
    · rw [hnone.batch] at he
      cases he
    · obtain ⟨item, _, hplan⟩ := forall₂_of_mem_left hc.plans.plan he
      rw [hrefused] at hplan
      cases hplan

theorem WrongShown.feedback {signal : FeedbackCommand} (hlineage : s.Lineage)
    (hs : WrongShown s command) (h : feedback s signal = .ok s') : WrongShown s' command := by
  intro e' he' hwrong
  obtain ⟨f, hf, hbatch⟩ := (feedback_redecided h).batch command.injectionId
  rw [hbatch, List.mem_map] at he'
  obtain ⟨e, he, rfl⟩ := he'
  have hid : (f e).memoryId = e.memoryId := by rw [hf]
  rw [desiredOutcome_congr hid (by rw [hf])] at hwrong
  obtain ⟨u, hu, hstatus⟩ := hs e he hwrong
  obtain ⟨u', hu', _⟩ := ((feedback_meets hlineage).of_ok h).descends hu
  refine ⟨u', hid ▸ hu', ?_⟩
  rcases (feedback_accounted h).status _ u u' hu hu' with hsame | ⟨_, hquarantined, _⟩
  · rwa [hsame]
  · simp [hquarantined]

end Commit

end Nocturne.Inject
