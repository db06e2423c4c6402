import Nocturne.Inject.Effects
import Nocturne.Inject.Selection

namespace Nocturne.Inject

open Nocturne.Lib Nocturne.Store Nocturne.Memory

section Plan

variable {env : Env} {scoring : Scoring} {s : Store} {command : PrepareCommand}
  {query : Embedding} {plan : PreparePlan}

/-- What an accepted prepare read: the active version, the pools and their selection. -/
structure ReadPlan (env : Env) (scoring : Scoring) (s : Store) (command : PrepareCommand)
    (query : Embedding) (plan : PreparePlan) (pinned regular : List ScoringCandidate) : Prop where
  valid : validateCommand.{0} command = .ok .unit
  thread : checkThread.{0} command (s.threads.get? command.threadId) = .ok .unit
  config : activeScorerConfig s = .ok plan.config
  pools : loadCandidates env scoring s command query plan.config.params.candidatePool =
    .ok (pinned, regular)
  selected : scoreAndSelect
    (pinned.map (scoreCandidate env scoring command query s.session.now plan.config))
    (regular.map (scoreCandidate env scoring command query s.session.now plan.config))
    command.confirmedMemoryIds command.modelContextTokens plan.config.params = .ok plan.selection
  seen : plan.command = command ∧ plan.snapshotTs = s.session.now ∧
    plan.thread = s.threads.get? command.threadId

theorem prepareRead_eq_ok : prepareRead env scoring s command query = .ok plan ↔
    ∃ pinned regular, ReadPlan env scoring s command query plan pinned regular := by
  simp only [prepareRead, bind_eq_ok]
  constructor
  · rintro ⟨_, hvalid, _, hthread, config, hconfig, ⟨pinned, regular⟩, hpools, h⟩
    dsimp only at h
    split at h
    · cases h
    · next selection hselected =>
      obtain rfl := Except.ok.inj h
      exact ⟨pinned, regular, hvalid, hthread, hconfig, hpools, hselected, rfl, rfl, rfl⟩
  · rintro ⟨pinned, regular, hvalid, hthread, hconfig, hpools, hselected, rfl, hts, hseen⟩
    refine ⟨.unit, hvalid, .unit, hthread, plan.config, hconfig, (pinned, regular), hpools, ?_⟩
    dsimp only
    rw [hselected]
    dsimp only
    rw [pure_eq_ok, ← hts, ← hseen]

/-- What every read plan knows of its selection. -/
structure PreparePlan.Sound (plan : PreparePlan) : Prop where
  nodup : ((plan.selection.injected ++ plan.selection.unselected).map (·.memoryId)).Nodup
  unit : ∀ c ∈ plan.selection.injected ++ plan.selection.unselected,
    c.candidate.unit.id = c.memoryId
  near : plan.selection.nearMisses = plan.selection.unselected.take plan.config.params.nearMissK
  cuts : plan.selection.budgetCuts =
    plan.selection.unselected.filter (plan.config.params.tau ≤ ·.score)

theorem PreparePlan.Sound.near_sublist (h : plan.Sound) :
    plan.selection.nearMisses.Sublist plan.selection.unselected :=
  h.near ▸ List.take_sublist _ _

theorem PreparePlan.Sound.cuts_sublist (h : plan.Sound) :
    plan.selection.budgetCuts.Sublist plan.selection.unselected :=
  h.cuts ▸ List.filter_sublist

theorem ReadPlan.selectable {pinned regular : List ScoringCandidate}
    (h : ReadPlan env scoring s command query plan pinned regular) :
    Selectable (pinned.map (scoreCandidate env scoring command query s.session.now plan.config))
      (regular.map (scoreCandidate env scoring command query s.session.now plan.config))
      command.confirmedMemoryIds command.modelContextTokens :=
  (scoreAndSelect_eq_ok.mp h.selected).1

theorem ReadPlan.sound {pinned regular : List ScoringCandidate}
    (h : ReadPlan env scoring s command query plan pinned regular) : plan.Sound := by
  obtain ⟨hselectable, hsel⟩ := scoreAndSelect_eq_ok.mp h.selected
  constructor
  · rw [hsel]
    exact selection_ids_nodup hselectable
  · rw [hsel]
    apply selection_forall
    · exact fun _ _ => id
    · intro c hc
      rw [List.mem_append, List.mem_map, List.mem_map] at hc
      rcases hc with ⟨candidate, _, rfl⟩ | ⟨candidate, _, rfl⟩ <;> rfl
  · rw [hsel]
    rfl
  · rw [hsel]
    exact Greedy.dropped_eq

theorem prepareRead_sound (h : prepareRead env scoring s command query = .ok plan) :
    plan.Sound := by
  obtain ⟨_, _, hread⟩ := prepareRead_eq_ok.mp h
  exact hread.sound

/-- A card of the selection is a head of its pools, scored and ranked. -/
theorem ReadPlan.card {pinned regular : List ScoringCandidate}
    (h : ReadPlan env scoring s command query plan pinned regular) {c : Candidate}
    (hc : c ∈ plan.selection.injected ++ plan.selection.unselected) :
    ∃ candidate ∈ pinned ++ regular, ∃ rank,
      c = { scoreCandidate env scoring command query s.session.now plan.config candidate with
        rank } := by
  obtain ⟨_, hsel⟩ := scoreAndSelect_eq_ok.mp h.selected
  rw [hsel] at hc
  revert c
  apply selection_forall
  · rintro _ rank ⟨candidate, hcandidate, _, rfl⟩
    exact ⟨candidate, hcandidate, rank, rfl⟩
  · intro c hc
    rw [← List.map_append, List.mem_map] at hc
    obtain ⟨candidate, hcandidate, rfl⟩ := hc
    exact ⟨candidate, hcandidate, 0, rfl⟩

/-- The pools hold heads the thread may be shown, the current ones among them. -/
structure Pools (s : Store) (command : PrepareCommand) (pool : List ScoringCandidate) : Prop where
  eligible : ∀ candidate ∈ pool, candidate.unit ∈ eligible s command
  current : ∀ id ∈ command.currentMemoryIds, ∃ candidate ∈ pool, candidate.unit.id = id

theorem ReadPlan.loaded {pinned regular : List ScoringCandidate}
    (h : ReadPlan env scoring s command query plan pinned regular) :
    Pools s command (pinned ++ regular) := by
  have hpools := h.pools
  simp only [loadCandidates, bind_eq_ok, ensure_eq_ok, pure_eq_ok, Prod.mk.injEq] at hpools
  obtain ⟨_, hcurrent, rfl, rfl⟩ := hpools
  constructor
  · intro candidate hc
    simp only [List.mem_append, List.mem_map, List.mem_filter, List.mem_insertionSort] at hc
    rcases hc with ⟨u, ⟨hu, _⟩, rfl⟩ | ⟨u, ⟨hu, _⟩, rfl⟩
    · exact hu
    · exact hu
  · intro id hid
    obtain ⟨u, hu, rfl⟩ := List.mem_map.mp (hcurrent id hid)
    simp only [List.mem_append, List.mem_map, List.mem_filter]
    by_cases hpin : u.pin = true
    · exact ⟨_, .inl ⟨u, ⟨hu, hpin⟩, rfl⟩, rfl⟩
    · refine ⟨_, .inr ⟨u, ⟨hu, ?_⟩, rfl⟩, rfl⟩
      rw [decide_eq_true_eq]
      exact ⟨by simpa using hpin, by simp [hid]⟩

end Plan

section Rows

variable {env : Env} {s : Store} {plan : PreparePlan} {allocation : MemoryAllocation}
  {injectionId memoryId : Uuid}

/-- The rows of one injection about one memory. -/
def memberRows (s : Store) (injectionId memoryId : Uuid) : List InjectionEvent :=
  s.events.rows.filter fun e => e.injectionId = injectionId ∧ e.memoryId = memoryId

/-- A fresh injection has a row for each draft. -/
theorem length_memberRows {drafts : List EventDraft} {r : List InjectionEvent × Store}
    (h : Recorded env plan allocation injectionId s drafts r)
    (hfresh : ∀ e ∈ s.events.rows, e.injectionId ≠ injectionId) :
    (memberRows r.2 injectionId memoryId).length =
      (drafts.map (·.1.candidate.unit.id)).count memoryId := by
  have hold : s.events.rows.filter
      (fun e => e.injectionId = injectionId ∧ e.memoryId = memoryId) = [] := by
    rw [List.filter_eq_nil_iff]
    intro e he
    simp [hfresh e he]
  rw [memberRows, h.rows, List.filter_append, hold, List.nil_append]
  have hdrafts := h.drafts
  clear h hold hfresh
  obtain ⟨rows, s'⟩ := r
  dsimp only at hdrafts ⊢
  induction hdrafts with
  | nil => rfl
  | @cons draft e drafts rows hdraft _ ih =>
    obtain ⟨_, _, rfl⟩ := hdraft
    rw [List.map_cons, List.count_cons, ← ih, List.filter_cons]
    simp only [eventValues, true_and, beq_iff_eq]
    by_cases hid : draft.1.candidate.unit.id = memoryId <;> simp [hid]

/-- The memories a prepare writes a row about, one entry for each row. -/
def rowIds (command : PrepareCommand) (selection : ScoringSelection ScoringCandidate ℚ) :
    List Uuid :=
  (eventDrafts command selection).map (·.1.memoryId)

theorem PreparePlan.Sound.draft_mem (h : plan.Sound) {draft : EventDraft}
    (hdraft : draft ∈ eventDrafts plan.command plan.selection) :
    draft.1 ∈ plan.selection.injected ++ plan.selection.unselected := by
  simp only [eventDrafts, List.mem_append, List.mem_map] at hdraft
  rw [List.mem_append]
  rcases hdraft with ((⟨c, hc, rfl⟩ | ⟨c, hc, rfl⟩) | ⟨c, hc, rfl⟩) | hc
  · exact .inl hc
  · exact .inr (h.near_sublist.subset hc)
  · exact .inr (h.cuts_sublist.subset hc)
  · revert hc
    cases plan.command.mode with
    | gate => simp
    | autonomous =>
      simp only [List.mem_map]
      rintro ⟨c, hc, rfl⟩
      exact .inr (List.mem_of_mem_filter hc)

theorem PreparePlan.Sound.rowIds_eq (h : plan.Sound) :
    (eventDrafts plan.command plan.selection).map (·.1.candidate.unit.id) =
      rowIds plan.command plan.selection := by
  apply List.map_congr_left
  intro draft hdraft
  exact h.unit _ (h.draft_mem hdraft)

/-- Thread exits get a row of their own only when no other row was written. -/
theorem exit_not_recorded {id : Uuid}
    (h : id ∈ plan.selection.injected.map (·.memoryId) ∨
      id ∈ plan.selection.nearMisses.map (·.memoryId)) :
    (rowIds plan.command plan.selection).count id =
      (plan.selection.injected.map (·.memoryId)).count id +
        (plan.selection.nearMisses.map (·.memoryId)).count id +
        (plan.selection.budgetCuts.map (·.memoryId)).count id := by
  have hrecorded : id ∈ (plan.selection.injected ++ plan.selection.nearMisses).map
      (·.memoryId) := by
    rw [List.map_append, List.mem_append]
    exact h
  have hexits : (plan.selection.unselected.filter fun item =>
      item.memoryId ∈ plan.command.currentMemoryIds ∧ item.memoryId ∉
        (plan.selection.injected ++ plan.selection.nearMisses).map (·.memoryId)).countP
      (fun item => item.memoryId == id) = 0 := by
    rw [List.countP_eq_zero]
    intro item hitem heq
    obtain rfl := beq_iff_eq.mp heq
    have hout := List.of_mem_filter hitem
    simp only [decide_eq_true_eq] at hout
    exact hout.2 hrecorded
  simp only [rowIds, eventDrafts, List.map_append, List.count_append, List.map_map]
  cases plan.command.mode with
  | gate => simp [Function.comp_def]
  | autonomous =>
    simp only [List.map_append] at hexits
    simp only [List.count, List.countP_map, List.map_map, Function.comp_def] at hexits ⊢
    rw [hexits, Nat.add_zero]

/-- A returned card has one row exactly when it was not also cut from the budget. -/
theorem PreparePlan.Sound.count_rowIds (h : plan.Sound) {card : Candidate}
    (hcard : card ∈ plan.selection.injected ++ plan.selection.nearMisses) :
    (rowIds plan.command plan.selection).count card.memoryId = 1 ↔
      card.memoryId ∉ plan.selection.budgetCuts.map (·.memoryId) := by
  have hnodup := h.nodup
  rw [List.map_append, List.nodup_append] at hnodup
  obtain ⟨hinjected, hunselected, hdisjoint⟩ := hnodup
  have hnear := h.near_sublist.map (·.memoryId)
  have hcuts := h.cuts_sublist.map (·.memoryId)
  have hmem : card.memoryId ∈ plan.selection.injected.map (·.memoryId) ∨
      card.memoryId ∈ plan.selection.nearMisses.map (·.memoryId) := by
    rcases List.mem_append.mp hcard with hc | hc
    · exact .inl (List.mem_map_of_mem hc)
    · exact .inr (List.mem_map_of_mem hc)
  rw [exit_not_recorded hmem]
  rcases hmem with hin | hin
  · have hout : card.memoryId ∉ plan.selection.unselected.map (·.memoryId) :=
      fun hu => hdisjoint _ hin _ hu rfl
    have hnocut : card.memoryId ∉ plan.selection.budgetCuts.map (·.memoryId) :=
      fun hc => hout (hcuts.subset hc)
    rw [List.count_eq_one_of_mem hinjected hin, List.count_eq_zero_of_not_mem hnocut,
      List.count_eq_zero_of_not_mem fun hn => hout (hnear.subset hn)]
    simpa using hnocut
  · have hout : card.memoryId ∉ plan.selection.injected.map (·.memoryId) :=
      fun hi => hdisjoint _ hi _ (hnear.subset hin) rfl
    rw [List.count_eq_one_of_mem (hnear.nodup hunselected) hin,
      List.count_eq_zero_of_not_mem hout, ← List.count_eq_zero]
    omega

/-- Every returned card has one row exactly when no near miss was cut from the budget. -/
theorem returned_iff (h : plan.Sound) :
    (∀ card ∈ plan.selection.injected ++ plan.selection.nearMisses,
      (rowIds plan.command plan.selection).count card.memoryId = 1) ↔
      ∀ c ∈ plan.selection.nearMisses,
        c.memoryId ∉ plan.selection.budgetCuts.map (·.memoryId) := by
  constructor
  · intro hone c hc
    have hcard := List.mem_append_right plan.selection.injected hc
    exact (h.count_rowIds hcard).mp (hone c hcard)
  · intro hnear card hcard
    rw [h.count_rowIds hcard]
    rcases List.mem_append.mp hcard with hin | hin
    · intro hcut
      have hnodup := h.nodup
      rw [List.map_append, List.nodup_append] at hnodup
      have hout : card.memoryId ∈ plan.selection.unselected.map (·.memoryId) :=
        (h.cuts_sublist.map (·.memoryId)).subset hcut
      exact hnodup.2.2 _ (List.mem_map_of_mem hin) _ hout rfl
    · exact hnear card hin

/-- A card of the response and its candidate name the same memory. -/
theorem mem_returned {P : Uuid → Prop} {r : PrepareResponse × Store}
    (h : prepareWrite env s plan = .ok r) :
    (∀ card ∈ r.1.injected ++ r.1.nearMisses, P card.memoryId) ↔
      ∀ c ∈ plan.selection.injected ++ plan.selection.nearMisses, P c.memoryId := by
  obtain ⟨_, _, _, hprepared⟩ := prepareWrite_eq_ok.mp h
  rw [hprepared.response]
  dsimp only
  rw [← List.map_append, List.forall_mem_map]
  rfl

/-- An accepted prepare appends a row for each of its drafts. -/
theorem Prepared.recorded {stamped counted : Store} {rows : List InjectionEvent}
    {r : PrepareResponse × Store} (h : Prepared env s plan stamped counted rows r) :
    Recorded env plan plan.allocation stamped.freshUuid counted
      (eventDrafts plan.command plan.selection) (rows, r.2) ∧ counted.events = s.events := by
  have hstamp := stampThread_meets.of_ok h.stamp
  have hloop := incrementInjectionStats_sameLog h.count
  exact ⟨insertEvents_meets.of_ok h.record, hloop.1.trans hstamp.2.1⟩

/-- An accepted prepare writes one row of its new injection for each of its row ids. -/
theorem prepareWrite_memberRows (hplan : plan.Sound) {r : PrepareResponse × Store}
    (h : prepareWrite env s plan = .ok r) :
    (memberRows r.2 r.1.injectionId memoryId).length =
      (rowIds plan.command plan.selection).count memoryId := by
  obtain ⟨stamped, counted, rows, hprepared⟩ := prepareWrite_eq_ok.mp h
  obtain ⟨hrecorded, hevents⟩ := hprepared.recorded
  have hid : r.1.injectionId = stamped.freshUuid := congrArg (·.injectionId) hprepared.response
  have hstamp := stampThread_meets.of_ok hprepared.stamp
  rw [hid, ← hplan.rowIds_eq]
  apply length_memberRows (r := (rows, r.2)) hrecorded
  intro e he
  rw [hevents, ← hstamp.2.1] at he
  exact injectionId_ne_freshUuid he

end Rows

section Feedback

variable {s : Store} {command : FeedbackCommand}

theorem cas_not_decisionState {command : Ulid → CasUpdate} {detail : String} :
    s.cas command ≠ .error (.decisionState detail) := by
  have hmeets : Meets (fun _ => True) (· ≠ .decisionState detail) (s.cas command) := by
    unfold cas casUpdateMemoryUnit
    refine (Meets.ensure (by simp)).bind fun _ _ => ?_
    refine (Meets.require (by simp)).bind fun _ _ => ?_
    refine (Meets.ensure (by simp)).bind fun _ _ => ?_
    refine (Meets.ensure (by simp)).bind fun _ _ => ?_
    dsimp only
    split
    · exact (Meets.require (by simp)).bind fun _ _ => .pure trivial
    · exact .error (by simp)
  exact fun h => hmeets.of_error h rfl

/-- Feedback finds its row ambiguous exactly when there is more than one. -/
theorem feedback_not_unique_iff :
    feedback s command = .error (.decisionState "feedback membership is not unique") ↔
      2 ≤ (memberRows s command.injectionId command.memoryId).length := by
  have hrows : memberRows s command.injectionId command.memoryId = s.events.rows.filter fun e =>
      e.injectionId = command.injectionId ∧ e.memoryId = command.memoryId := rfl
  unfold feedback loadFeedbackEvent
  rw [hrows]
  split
  · next hnil =>
    rw [hnil]
    simp
  · next event hone =>
    rw [hone, ok_bind]
    have hmeets : Meets (fun _ => True)
        (· ≠ .decisionState "feedback membership is not unique")
        (if event.outcome = some command.signal.outcome then pure s
        else do
          ensure (command.signal.Allowed event.shownAs event.outcome) SpineError.outcomeConflict
          let s ← feedbackHead s event command.signal
          replaceOutcome s event event.outcome command.signal.outcome) := by
      split
      · exact .pure trivial
      · refine (Meets.ensure (by simp)).bind fun _ _ => ?_
        refine Meets.bind (Q := fun _ => True) ?_ fun t _ => ?_
        · unfold feedbackHead
          split
          · exact .ok trivial
          · refine (Meets.require (by simp)).bind fun current _ => ?_
            refine Meets.bind (Q := fun _ => True) ?_ fun _ _ => .pure trivial
            cases hcas : s.cas fun revUid =>
              { memoryId := event.memoryId
                expectedRevision := current.revision
                revUid
                editor := "system:feedback"
                originMachineId := event.machineId
                reason := "feedback/" ++ command.signal.outcome.text
                changes := { stats := command.signal.count current.stats } } with
            | ok r => exact .ok trivial
            | error e =>
              refine .error fun heq => ?_
              exact cas_not_decisionState (heq ▸ hcas)
        · unfold replaceOutcome
          refine (Meets.require (by simp)).bind fun _ _ => ?_
          exact (Meets.ensure (by simp)).bind fun _ _ => .pure trivial
    constructor
    · exact fun h => absurd rfl (hmeets.of_error h)
    · simp
  · next hnil hone =>
    cases hmany : s.events.rows.filter fun e =>
      e.injectionId = command.injectionId ∧ e.memoryId = command.memoryId with
    | nil => exact absurd hmany hnil
    | cons event rest =>
      cases rest with
      | nil => exact absurd hmany (hone event)
      | cons => simp

end Feedback

end Nocturne.Inject
