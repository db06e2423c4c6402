import Mathlib.Data.List.Dedup
import Mathlib.Data.List.Forall2
import Nocturne.Inject.Membership

namespace Nocturne.Inject

open Nocturne.Lib Nocturne.Store Nocturne.Memory

section Locked

variable {ι : Type} {pins regular : List (Scored ι ℚ)} {locked : List Nat} {tokens : Nat}
  {params : ScorerParams ℚ}

/-- A locked card enters whatever its score: with the pins, or ahead of the ranking. -/
theorem mem_injected_of_locked (h : Selectable pins regular locked tokens) {id : Nat}
    (hid : id ∈ locked) :
    id ∈ (selectionOf pins regular locked tokens params).injected.map (·.memoryId) := by
  simp only [selectionOf, List.map_append, List.mem_append]
  by_cases hpin : id ∈ pins.map (·.memoryId)
  · have hranked : ((rankedPins pins).map (·.memoryId)).Perm (pins.map (·.memoryId)) := by
      rw [rankedPins, map_withRanks _ fun _ _ => rfl]
      exact (List.perm_insertionSort _ _).map _
    exact .inl (.inl (hranked.mem_iff.mpr hpin))
  · have hranked : ((rankedLocked pins regular locked).map (·.memoryId)).Perm
        ((lockedPool pins regular locked).map (·.memoryId)) := by
      rw [rankedLocked, map_withRanks _ fun _ _ => rfl]
      exact (List.perm_insertionSort _ _).map _
    have hpool : ((lockedPool pins regular locked).map (·.memoryId)).Nodup := by
      have hregular : (regular.map (·.memoryId)).Nodup := by
        have hall := h.nodup
        rw [List.map_append, List.nodup_append] at hall
        exact hall.2.1
      exact (List.filter_sublist.map _).nodup hregular
    have hsubset : (lockedPool pins regular locked).map (·.memoryId) ⊆
        lockedRegularIds pins locked := by
      intro id hid
      obtain ⟨c, hc, rfl⟩ := List.mem_map.mp hid
      rw [lockedPool, List.mem_filter, decide_eq_true_eq] at hc
      exact hc.2
    -- every locked id has its card, so the pool holds them all
    have hperm : ((lockedPool pins regular locked).map (·.memoryId)).Perm
        (lockedRegularIds pins locked) := by
      apply (List.subperm_of_subset hpool hsubset).perm_of_length_le
      rw [List.length_map, h.lockedEligible]
    refine .inl (.inr (hranked.mem_iff.mpr (hperm.mem_iff.mpr ?_)))
    rw [lockedRegularIds, List.mem_filter, List.mem_dedup, decide_eq_true_eq]
    exact ⟨hid, hpin⟩

end Locked

section Drafts

variable {plan : PreparePlan}

/-- A row that stands for its card, not for a cut from the budget. -/
def stands (shownAs : ShownAs) : Bool := decide (shownAs ≠ .budgetCut)

/-- Current cards that neither entered nor nearly did. -/
def exitsOf (command : PrepareCommand) (selection : ScoringSelection ScoringCandidate ℚ) :
    List Candidate :=
  selection.unselected.filter fun item => item.memoryId ∈ command.currentMemoryIds ∧
    item.memoryId ∉ (selection.injected ++ selection.nearMisses).map (·.memoryId)

theorem standing_drafts (hmode : plan.command.mode = .autonomous) :
    (eventDrafts plan.command plan.selection).filter (stands ·.2.1) =
      (plan.selection.injected.map fun item =>
        (item, if item.pin then ShownAs.pinned else .injected,
          some (if item.memoryId ∈ plan.command.currentMemoryIds then Outcome.kept
            else .autoEntered))) ++
      (plan.selection.nearMisses.map fun item =>
        (item, ShownAs.nearMiss,
          if item.memoryId ∈ plan.command.currentMemoryIds then some Outcome.autoExited
          else none)) ++
      (exitsOf plan.command plan.selection).map fun item =>
        (item, ShownAs.nearMiss, some Outcome.autoExited) := by
  have hcuts : ((plan.selection.budgetCuts.map fun item =>
      ((item, ShownAs.budgetCut, some Outcome.budgetCut) : EventDraft)).filter
        (stands ·.2.1)) = [] := by
    rw [List.filter_eq_nil_iff]
    intro draft hdraft
    obtain ⟨item, _, rfl⟩ := List.mem_map.mp hdraft
    simp [stands]
  simp only [eventDrafts, hmode, List.filter_append, hcuts, List.append_nil, true_and]
  congr 1
  · congr 1
    · rw [List.filter_eq_self]
      intro draft hdraft
      obtain ⟨item, _, rfl⟩ := List.mem_map.mp hdraft
      cases item.pin <;> rfl
    · rw [List.filter_eq_self]
      intro draft hdraft
      obtain ⟨item, _, rfl⟩ := List.mem_map.mp hdraft
      rfl
  · rw [exitsOf, List.filter_eq_self]
    intro draft hdraft
    obtain ⟨item, _, rfl⟩ := List.mem_map.mp hdraft
    rfl

/-- The memories the standing rows of an autonomous prepare are about. -/
def standingIds (command : PrepareCommand) (selection : ScoringSelection ScoringCandidate ℚ) :
    List Uuid :=
  (selection.injected ++ selection.nearMisses ++ exitsOf command selection).map (·.memoryId)

theorem map_standing_drafts (hmode : plan.command.mode = .autonomous) :
    ((eventDrafts plan.command plan.selection).filter (stands ·.2.1)).map (·.1.memoryId) =
      standingIds plan.command plan.selection := by
  rw [standing_drafts hmode]
  simp [standingIds, Function.comp_def]

/-- No memory has two standing rows. -/
theorem PreparePlan.Sound.standingIds_nodup (h : plan.Sound) :
    (standingIds plan.command plan.selection).Nodup := by
  have hnodup := h.nodup
  have hunselected : (plan.selection.unselected.map (·.memoryId)).Nodup := by
    rw [List.map_append, List.nodup_append] at hnodup
    exact hnodup.2.1
  rw [standingIds, List.map_append, List.nodup_append]
  refine ⟨?_, ?_, ?_⟩
  · exact (((List.Sublist.refl _).append h.near_sublist).map _).nodup hnodup
  · exact (List.filter_sublist.map _).nodup hunselected
  · rintro id hrecorded _ hexit rfl
    obtain ⟨item, hitem, rfl⟩ := List.mem_map.mp hexit
    rw [exitsOf, List.mem_filter, decide_eq_true_eq] at hitem
    exact hitem.2.2 hrecorded

/-- A current memory the pool holds has a standing row wherever it was ranked. -/
theorem mem_standingIds {id : Uuid} (hcurrent : id ∈ plan.command.currentMemoryIds)
    (hid : id ∈ (plan.selection.injected ++ plan.selection.unselected).map (·.memoryId)) :
    id ∈ standingIds plan.command plan.selection := by
  rw [standingIds, List.map_append, List.mem_append]
  by_cases hrecorded : id ∈ (plan.selection.injected ++ plan.selection.nearMisses).map
      (·.memoryId)
  · exact .inl hrecorded
  · obtain ⟨item, hitem, rfl⟩ := List.mem_map.mp hid
    have hunselected : item ∈ plan.selection.unselected := by
      rcases List.mem_append.mp hitem with hin | hun
      · exact absurd (List.mem_map_of_mem (List.mem_append_left _ hin)) hrecorded
      · exact hun
    refine .inr (List.mem_map_of_mem ?_)
    rw [exitsOf, List.mem_filter, decide_eq_true_eq]
    exact ⟨hunselected, hcurrent, hrecorded⟩

/-- What a standing row about a current memory says of it. -/
theorem PreparePlan.Sound.standing_outcome (h : plan.Sound)
    (hmode : plan.command.mode = .autonomous) {draft : EventDraft}
    (hdraft : draft ∈ (eventDrafts plan.command plan.selection).filter (stands ·.2.1))
    (hcurrent : draft.1.memoryId ∈ plan.command.currentMemoryIds) :
    draft.2.2 = some .kept ∧ draft.1.memoryId ∈ plan.selection.injected.map (·.memoryId) ∨
      draft.2.2 = some .autoExited ∧
        draft.1.memoryId ∉ plan.selection.injected.map (·.memoryId) := by
  have hout {item : Candidate} (hitem : item ∈ plan.selection.unselected) :
      item.memoryId ∉ plan.selection.injected.map (·.memoryId) := by
    have hnodup := h.nodup
    rw [List.map_append, List.nodup_append] at hnodup
    exact fun hin => hnodup.2.2 _ hin _ (List.mem_map_of_mem hitem) rfl
  rw [standing_drafts hmode, List.mem_append, List.mem_append] at hdraft
  rcases hdraft with (hdraft | hdraft) | hdraft
  · obtain ⟨item, hitem, rfl⟩ := List.mem_map.mp hdraft
    exact .inl ⟨congrArg some (if_pos hcurrent), List.mem_map_of_mem hitem⟩
  · obtain ⟨item, hitem, rfl⟩ := List.mem_map.mp hdraft
    exact .inr ⟨if_pos hcurrent, hout (h.near_sublist.subset hitem)⟩
  · obtain ⟨item, hitem, rfl⟩ := List.mem_map.mp hdraft
    exact .inr ⟨rfl, hout (List.mem_of_mem_filter hitem)⟩

end Drafts

section Rows

variable {env : Env} {scoring : Scoring} {s t : Store} {command : PrepareCommand}
  {query : Embedding} {plan : PreparePlan} {rows : List InjectionEvent}

/-- A memory's rows among those of one prepare, cuts from the budget left out. -/
def standingRows (rows : List InjectionEvent) (memoryId : Uuid) : List InjectionEvent :=
  rows.filter fun e => e.memoryId = memoryId ∧ e.shownAs ≠ .budgetCut

/-- What the rows of an autonomous prepare say of the memories its command names. -/
structure Rescored (command : PrepareCommand) (rows : List InjectionEvent) : Prop where
  current : ∀ id ∈ command.currentMemoryIds, ∃ e, standingRows rows id = [e] ∧
    (e.outcome = some .kept ∨ e.outcome = some .autoExited)
  confirmed : ∀ id ∈ command.confirmedMemoryIds, ∃ e, standingRows rows id = [e] ∧
    e.outcome = some .kept
  excluded : ∀ e ∈ rows, e.memoryId ∉ command.excludedMemoryIds

/-- The rows a prepare wrote for its plan. -/
abbrev Drafted (env : Env) (plan : PreparePlan) (rows : List InjectionEvent) : Prop :=
  ∃ injectionId, List.Forall₂ (fun draft e => ∃ id eventUid,
    e = eventValues env plan plan.allocation injectionId draft id eventUid)
      (eventDrafts plan.command plan.selection) rows

/-- A current memory of the pool has one standing row, the row of its draft. -/
theorem PreparePlan.Sound.standing_row (h : plan.Sound) (hmode : plan.command.mode = .autonomous)
    (hrows : Drafted env plan rows) {id : Uuid} (hcurrent : id ∈ plan.command.currentMemoryIds)
    (hid : id ∈ (plan.selection.injected ++ plan.selection.unselected).map (·.memoryId)) :
    ∃ e, standingRows rows id = [e] ∧
      (e.outcome = some .kept ∧ id ∈ plan.selection.injected.map (·.memoryId) ∨
        e.outcome = some .autoExited ∧ id ∉ plan.selection.injected.map (·.memoryId)) := by
  obtain ⟨injectionId, hdrafted⟩ := hrows
  have hpaired : List.Forall₂ (fun draft e => draft ∈ eventDrafts plan.command plan.selection ∧
      ∃ id eventUid, e = eventValues env plan plan.allocation injectionId draft id eventUid)
      (eventDrafts plan.command plan.selection) rows :=
    (List.forall₂_and_left _ _).mpr ⟨fun _ hdraft => hdraft, hdrafted⟩
  have hfiltered := List.rel_filter
    (p := fun draft : EventDraft => decide (draft.1.memoryId = id ∧ draft.2.1 ≠ .budgetCut))
    (q := fun e : InjectionEvent => decide (e.memoryId = id ∧ e.shownAs ≠ .budgetCut))
    (by
      rintro draft e ⟨hdraft, _, _, rfl⟩
      simp only [eventValues, decide_eq_true_eq, h.unit _ (h.draft_mem hdraft)]) hpaired
  have hcount : ((eventDrafts plan.command plan.selection).filter fun draft =>
      decide (draft.1.memoryId = id ∧ draft.2.1 ≠ .budgetCut)).length = 1 := by
    have hone := List.count_eq_one_of_mem h.standingIds_nodup (mem_standingIds hcurrent hid)
    rw [← map_standing_drafts hmode, List.count, List.countP_map, List.countP_eq_length_filter,
      List.filter_filter] at hone
    rw [← hone]
    congr 1
    apply List.filter_congr
    intro draft _
    simp [stands, beq_eq_decide]
  obtain ⟨draft, hdraft⟩ := List.length_eq_one_iff.mp hcount
  rw [hdraft, List.forall₂_cons_left_iff] at hfiltered
  obtain ⟨e, rest, ⟨_, _, _, rfl⟩, hrest, hrows⟩ := hfiltered
  obtain rfl := List.forall₂_nil_left_iff.mp hrest
  have hmem : draft ∈ (eventDrafts plan.command plan.selection).filter fun draft =>
      decide (draft.1.memoryId = id ∧ draft.2.1 ≠ .budgetCut) := by
    rw [hdraft]
    exact List.mem_singleton_self draft
  rw [List.mem_filter, decide_eq_true_eq] at hmem
  obtain ⟨hmem, rfl, hstands⟩ := hmem
  have hstanding : draft ∈ (eventDrafts plan.command plan.selection).filter (stands ·.2.1) :=
    List.mem_filter.mpr ⟨hmem, by simpa [stands] using hstands⟩
  exact ⟨_, hrows, h.standing_outcome hmode hstanding hcurrent⟩

/-- What every row of a prepare is about. -/
structure Issued (s : Store) (command : PrepareCommand) (e : InjectionEvent) : Prop where
  head : ∃ u ∈ eligible s command, u.id = e.memoryId
  thread : e.threadId = command.threadId ∧ e.principalId = command.principalId
  outcome : e.outcome ≠ some (.removed .never)

theorem draft_outcome {draft : EventDraft}
    (h : draft ∈ eventDrafts plan.command plan.selection) :
    draft.2.2 ≠ some (.removed .never) := by
  simp only [eventDrafts, List.mem_append, List.mem_map] at h
  rcases h with ((⟨c, _, rfl⟩ | ⟨c, _, rfl⟩) | ⟨c, _, rfl⟩) | hexit
  · cases plan.command.mode with
    | gate => simp
    | autonomous =>
      dsimp only
      split <;> simp
  · dsimp only
    split <;> simp
  · simp
  · revert hexit
    cases plan.command.mode with
    | gate => simp
    | autonomous =>
      simp only [List.mem_map]
      rintro ⟨c, _, rfl⟩
      simp

theorem row_issued (hread : prepareRead env scoring s command query = .ok plan)
    (hrows : Drafted env plan rows) {e : InjectionEvent} (he : e ∈ rows) : Issued s command e := by
  obtain ⟨pinned, regular, hplan⟩ := prepareRead_eq_ok.mp hread
  obtain ⟨rfl, _⟩ := hplan.seen
  obtain ⟨injectionId, hdrafted⟩ := hrows
  obtain ⟨draft, hdraft, _, _, rfl⟩ := forall₂_of_mem_right hdrafted he
  obtain ⟨candidate, hcandidate, rank, hcard⟩ := hplan.card (hplan.sound.draft_mem hdraft)
  refine ⟨⟨candidate.unit, hplan.loaded.eligible candidate hcandidate, ?_⟩, ⟨rfl, rfl⟩,
    draft_outcome hdraft⟩
  rw [eventValues, hcard]
  rfl

/-- What an accepted plan's command asks of its pools. -/
theorem validateCommand_autonomous (h : validateCommand.{0} command = .ok .unit)
    (hmode : command.mode = .autonomous) :
    ∀ id ∈ command.confirmedMemoryIds, id ∈ command.currentMemoryIds := by
  simp only [validateCommand, hmode, bind_eq_ok, ensure_eq_ok] at h
  obtain ⟨_, _, _, _, _, _, _, hconfirmed, _⟩ := h
  exact hconfirmed

theorem rescored (hread : prepareRead env scoring s command query = .ok plan)
    (hmode : command.mode = .autonomous) (hrows : Drafted env plan rows) :
    Rescored command rows := by
  obtain ⟨pinned, regular, hplan⟩ := prepareRead_eq_ok.mp hread
  obtain ⟨rfl, _⟩ := hplan.seen
  have hsound := hplan.sound
  have hpool : ∀ id ∈ plan.command.currentMemoryIds,
      id ∈ (plan.selection.injected ++ plan.selection.unselected).map (·.memoryId) := by
    intro id hid
    obtain ⟨candidate, hcandidate, rfl⟩ := hplan.loaded.current id hid
    rw [(scoreAndSelect_eq_ok.mp hplan.selected).2, selection_ids_perm.mem_iff, ← List.map_append,
      List.map_map]
    exact List.mem_map_of_mem hcandidate
  constructor
  · intro id hid
    obtain ⟨e, he, hout⟩ := hsound.standing_row hmode hrows hid (hpool id hid)
    exact ⟨e, he, hout.imp And.left And.left⟩
  · intro id hid
    have hcurrent := validateCommand_autonomous hplan.valid hmode id hid
    obtain ⟨e, he, hout⟩ := hsound.standing_row hmode hrows hcurrent (hpool id hcurrent)
    have hinjected : id ∈ plan.selection.injected.map (·.memoryId) := by
      rw [(scoreAndSelect_eq_ok.mp hplan.selected).2]
      exact mem_injected_of_locked hplan.selectable hid
    exact ⟨e, he, (hout.resolve_right fun hexit => hexit.2 hinjected).1⟩
  · intro e he
    obtain ⟨u, hu, hid⟩ := (row_issued hread hrows he).head
    rw [← hid]
    simp only [eligible, List.mem_filter, decide_eq_true_eq] at hu
    exact hu.2.2.2.2.2

/-- A memory its owner has vetoed in a thread: `removed:never` is on its log. -/
def Vetoed (s : Store) (threadId memoryId : Uuid) : Prop :=
  ∃ e ∈ s.events.rows, e.threadId = threadId ∧ e.memoryId = memoryId ∧
    e.outcome = some (.removed .never)

instance (s : Store) (threadId memoryId : Uuid) : Decidable (Vetoed s threadId memoryId) :=
  inferInstanceAs (Decidable (∃ e ∈ _, _))

/-- A row on the log belongs to its thread's principal. -/
def Owned (s : Store) : Prop :=
  ∀ e ∈ s.events.rows, ∃ thread ∈ s.threads.get? e.threadId, thread.principalId = e.principalId

theorem Owned.row_unvetoed (howned : Owned s)
    (hread : prepareRead env scoring s command query = .ok plan) (hrows : Drafted env plan rows)
    {e : InjectionEvent} (he : e ∈ rows) : ¬Vetoed s command.threadId e.memoryId := by
  rintro ⟨veto, hveto, hthread, hmemory, houtcome⟩
  obtain ⟨u, hu, hid⟩ := (row_issued hread hrows he).head
  simp only [eligible, List.mem_filter, decide_eq_true_eq] at hu
  refine hu.2.2.2.1 veto hveto ⟨?_, hthread, houtcome, hmemory.trans hid.symm⟩
  obtain ⟨thread, hget, hprincipal⟩ := howned veto hveto
  obtain ⟨_, _, hplan⟩ := prepareRead_eq_ok.mp hread
  have hchecked := hplan.thread
  rw [hthread] at hget
  rw [Option.mem_def.mp hget] at hchecked
  simp only [checkThread, bind_eq_ok, ensure_eq_ok] at hchecked
  obtain ⟨_, ⟨howner, _⟩, _⟩ := hchecked
  exact hprincipal.symm.trans howner

/-- A row entered the block as an injected card of its plan. -/
theorem entered_injected (hrows : Drafted env plan rows) {e : InjectionEvent} (he : e ∈ rows)
    (hentered : e.shownAs.Entered) : ∃ item ∈ plan.selection.injected,
      e.memoryId = item.candidate.unit.id := by
  obtain ⟨injectionId, hdrafted⟩ := hrows
  obtain ⟨draft, hdraft, _, _, rfl⟩ := forall₂_of_mem_right hdrafted he
  have hshown : draft.2.1.Entered := hentered
  simp only [eventDrafts, List.mem_append, List.mem_map] at hdraft
  rcases hdraft with ((⟨c, hc, rfl⟩ | ⟨c, _, rfl⟩) | ⟨c, _, rfl⟩) | hexit
  · exact ⟨c, hc, rfl⟩
  · simp [ShownAs.Entered] at hshown
  · simp [ShownAs.Entered] at hshown
  · revert hexit
    cases plan.command.mode with
    | gate => simp
    | autonomous =>
      simp only [List.mem_map]
      rintro ⟨c, _, rfl⟩
      simp [ShownAs.Entered] at hshown

end Rows

section Writes

variable {env : Env} {s t : Store} {plan : PreparePlan} {command : PrepareCommand}
  {snapshotTs : Time} {injected : List Candidate}

/-- Heads stay, each at its revision or a later one. -/
def HeadsRise (s t : Store) : Prop :=
  ∀ id u, s.units.get? id = some u → ∃ u', t.units.get? id = some u' ∧ Descends u u'

theorem HeadsRise.refl (s : Store) : HeadsRise s s := fun _ u hu => ⟨u, hu, .refl u⟩

theorem HeadsRise.trans {s t u : Store} (hst : HeadsRise s t) (htu : HeadsRise t u) :
    HeadsRise s u := by
  intro id head hhead
  obtain ⟨mid, hmid, hdesc⟩ := hst id head hhead
  obtain ⟨last, hlast, hdesc'⟩ := htu id mid hmid
  exact ⟨last, hlast, hdesc.trans hdesc'⟩

theorem headsRise_cas {update : Ulid → CasUpdate} {r : MemoryUnit × Store}
    (h : s.cas update = .ok r) : HeadsRise s r.2 := by
  obtain ⟨current, hstep, _⟩ := casUpdate_eq_ok.mp h
  have hwrite : Write .any s.drawn r.2 := .head trivial hstep
  exact fun id u hu => hwrite.descends (s := s.drawn) hu

/-- Each injected head is counted on the row version the snapshot showed. -/
theorem incrementInjectionStats_seen
    (h : incrementInjectionStats s command snapshotTs injected = .ok t) {item : Candidate}
    (hitem : item ∈ injected) : ∃ m, HeadsRise s m ∧
      m.units.get? item.candidate.unit.id = some item.candidate.unit := by
  rw [← List.mem_insertionSort fun a b : Candidate => a.memoryId ≤ b.memoryId] at hitem
  obtain ⟨before, after, hsplit⟩ := List.append_of_mem hitem
  unfold incrementInjectionStats at h
  rw [hsplit, List.foldlM_append, bind_eq_ok] at h
  obtain ⟨m, hbefore, hafter⟩ := h
  refine ⟨m, ?_, ?_⟩
  · refine foldlM_rel (R := HeadsRise) .refl .trans ?_ hbefore
    intro t item t' _ hpass
    simp only [bind_eq_ok, ensure_eq_ok, pure_eq_ok] at hpass
    obtain ⟨_, _, r, hcas, rfl⟩ := hpass
    exact headsRise_cas hcas
  · rw [List.foldlM_cons, bind_eq_ok] at hafter
    obtain ⟨_, hpass, _⟩ := hafter
    simp only [bind_eq_ok, ensure_eq_ok] at hpass
    obtain ⟨_, hseen, _⟩ := hpass
    exact hseen

theorem incrementInjectionStats_threads
    (h : incrementInjectionStats s command snapshotTs injected = .ok t) :
    t.threads = s.threads := by
  refine foldlM_rel (R := fun s t : Store => t.threads = s.threads) (fun _ => rfl)
    (fun hst htu => htu.trans hst) ?_ h
  intro t item t' _ hpass
  simp only [bind_eq_ok, ensure_eq_ok, pure_eq_ok] at hpass
  obtain ⟨_, _, r, hcas, rfl⟩ := hpass
  exact congrArg (·.threads) (cas_frame hcas)

/-- A prepare leaves every thread but its own as it was. -/
structure Stamped (s t : Store) (plan : PreparePlan) : Prop where
  own : ∃ thread, t.threads.get? plan.command.threadId = some thread ∧
    thread.snapshotTs = some plan.snapshotTs ∧
    (s.threads.get? plan.command.threadId = none →
      thread.principalId = plan.command.principalId) ∧
    ∀ old, s.threads.get? plan.command.threadId = some old →
      thread.principalId = old.principalId
  others : ∀ id, id ≠ plan.command.threadId → t.threads.get? id = s.threads.get? id

theorem stamped_of_stampThread (h : stampThread s plan = .ok t) : Stamped s t plan := by
  unfold stampThread at h
  dsimp only at h
  split at h
  · next hnone =>
    simp only [bind_eq_ok, require_eq_ok, pure_eq_ok] at h
    obtain ⟨threads, hinsert, rfl⟩ := h
    obtain ⟨hfresh, rfl⟩ := Table.insert?_eq_some.mp hinsert
    refine ⟨⟨_, Table.get?_insert_self (h := hfresh), rfl, fun _ => rfl, ?_⟩, fun id hid => ?_⟩
    · intro old hold
      rw [hnone] at hold
      cases hold
    · exact Table.get?_insert_of_ne (h := hfresh) hid
  · next existing hsome =>
    obtain rfl := Except.ok.inj h
    refine ⟨⟨_, by rw [Table.get?_modify_self, hsome]; rfl, rfl, ?_, ?_⟩, fun id hid => ?_⟩
    · intro hnone
      rw [hsome] at hnone
      cases hnone
    · intro old hold
      obtain rfl := Option.some.inj (hsome.symm.trans hold)
      rfl
    · rw [Table.get?_modify_of_ne hid]

/-- What an accepted attempt writes: its thread's stamp and the rows of its plan. -/
structure Attempted (env : Env) (s : Store) (plan : PreparePlan) (rows : List InjectionEvent)
    (t : Store) : Prop where
  seen : s.threads.get? plan.command.threadId = plan.thread
  stamp : Stamped s t plan
  log : t.events.rows = s.events.rows ++ rows
  drafted : Drafted env plan rows
  unmoved : ∀ item ∈ plan.selection.injected, ∃ m, HeadsRise s m ∧
    m.units.get? item.candidate.unit.id = some item.candidate.unit

theorem attempted_of_prepareWrite {r : PrepareResponse × Store}
    (h : prepareWrite env s plan = .ok r) : ∃ rows, Attempted env s plan rows r.2 := by
  obtain ⟨stamped, counted, rows, hprepared⟩ := prepareWrite_eq_ok.mp h
  obtain ⟨hrecorded, hevents⟩ := hprepared.recorded
  have hquiet := stampThread_meets.of_ok hprepared.stamp
  have hstamped := stamped_of_stampThread hprepared.stamp
  have hthreads : r.2.threads = stamped.threads := by
    have hframe : r.2.threads = counted.threads := congrArg (·.threads) hrecorded.frame
    have hcount : counted.threads = stamped.drawn.threads :=
      incrementInjectionStats_threads hprepared.count
    exact hframe.trans hcount
  refine ⟨rows, hprepared.thread, ⟨?_, ?_⟩, ?_, ⟨_, hrecorded.drafts⟩, ?_⟩
  · rw [hthreads]
    exact hstamped.own
  · rw [hthreads]
    exact hstamped.others
  · rw [← hevents]
    exact hrecorded.rows
  · intro item hitem
    obtain ⟨m, hrise, hseen⟩ := incrementInjectionStats_seen hprepared.count hitem
    refine ⟨m, ?_, hseen⟩
    intro id u hu
    exact hrise id u (by rw [← hu, ← hquiet.2.2.1]; rfl)

theorem attempted_of_begin {session : Session} {r : PrepareResponse × Store}
    (h : prepareWrite env (s.begin session) plan = .ok r) :
    ∃ rows, Attempted env s plan rows r.2 := by
  obtain ⟨rows, hseen, hstamp, hlog, hdrafted, hunmoved⟩ := attempted_of_prepareWrite h
  exact ⟨rows, hseen, ⟨hstamp.own, hstamp.others⟩, hlog, hdrafted, hunmoved⟩

end Writes

end Nocturne.Inject
