import Mathlib.Data.List.Induction
import Mathlib.Data.Prod.Lex
import Nocturne.Inject.FinalBlock
import Nocturne.Inject.Replay
import Nocturne.Inject.Rescore
import Nocturne.Inject.Restore
import Nocturne.Lib.Latest

namespace Nocturne.Inject

open Nocturne.Lib Nocturne.Store Nocturne.Memory

section Dispositions

variable {e : InjectionEvent} {l : List InjectionEvent} {id : Uuid}

theorem not_selected_of_excluding {o : Outcome} (h : Excluding o) : ¬Selected o := by
  cases o <;> simp [Excluding, Selected, Outcome.IsRemoval] at *

/-- A decision that takes its memory out of the conversation. -/
def Excludes (e : InjectionEvent) : Prop := ∃ o ∈ e.outcome, Excluding o

/-- A decision that puts its memory into the conversation. -/
def Selects (e : InjectionEvent) : Prop := ∃ o ∈ e.outcome, Selected o

instance : DecidablePred Excludes := fun e => inferInstanceAs (Decidable (∃ o ∈ e.outcome, _))

instance : DecidablePred Selects := fun e => inferInstanceAs (Decidable (∃ o ∈ e.outcome, _))

theorem Excludes.not_selects (h : Excludes e) : ¬Selects e := by
  rintro ⟨o, ho, hselected⟩
  obtain ⟨o', ho', hexcluding⟩ := h
  obtain rfl := Option.mem_unique ho ho'
  exact not_selected_of_excluding hexcluding hselected

theorem read_excludes (d : Disposition) (h : Excludes e) : d.read e =
    ⟨d.confirmed.filter (· ≠ e.memoryId), e.memoryId :: d.excluded.filter (· ≠ e.memoryId)⟩ :=
  if_pos h

theorem read_selects (d : Disposition) (hhuman : e.actorClass = .human) (h : Selects e) :
    d.read e = ⟨e.memoryId :: d.confirmed.filter (· ≠ e.memoryId),
      d.excluded.filter (· ≠ e.memoryId)⟩ := by
  have hnot : ¬Excludes e := fun hexcludes => hexcludes.not_selects h
  exact (if_neg hnot).trans (if_pos (.inr ⟨hhuman, h⟩))

theorem read_neither (d : Disposition) (hexcludes : ¬Excludes e) (hselects : ¬Selects e) :
    d.read e = d := by
  have hadded : e.outcome ≠ some .midThreadAdded := by
    intro h
    exact hselects ⟨_, h, by simp [Selected]⟩
  refine (if_neg hexcludes).trans (if_neg ?_)
  rintro (h | ⟨_, h⟩)
  · exact hadded h
  · exact hselects h

/-- Of rows of a human gate about different memories, each one's decision stands. -/
theorem mem_disposition (hhuman : ∀ e ∈ l, e.actorClass = .human)
    (hnodup : (l.map (·.memoryId)).Nodup) :
    (id ∈ (l.foldl Disposition.read ⟨[], []⟩).confirmed ↔ ∃ e ∈ l, e.memoryId = id ∧ Selects e) ∧
    (id ∈ (l.foldl Disposition.read ⟨[], []⟩).excluded ↔
      ∃ e ∈ l, e.memoryId = id ∧ Excludes e) := by
  induction l using List.reverseRecOn with
  | nil => simp
  | append_singleton l e ih =>
    rw [List.map_append, List.nodup_append] at hnodup
    obtain ⟨hl, _, hfresh⟩ := hnodup
    obtain ⟨hconfirmed, hexcluded⟩ := ih (fun e he => hhuman e (List.mem_append_left _ he)) hl
    have hnew (P : InjectionEvent → Prop) (hid : id = e.memoryId) :
        ¬∃ old ∈ l, old.memoryId = id ∧ P old := by
      rintro ⟨old, hold, hmemory, _⟩
      exact hfresh _ (List.mem_map_of_mem hold) _ (by simp) (hmemory.trans hid)
    have hlast (P : InjectionEvent → Prop) : (∃ old ∈ l ++ [e], old.memoryId = id ∧ P old) ↔
        (∃ old ∈ l, old.memoryId = id ∧ P old) ∨ e.memoryId = id ∧ P e := by
      simp [or_and_right, exists_or]
    rw [List.foldl_concat, hlast, hlast]
    generalize l.foldl Disposition.read ⟨[], []⟩ = d at hconfirmed hexcluded
    by_cases hexcludes : Excludes e
    · rw [read_excludes d hexcludes]
      by_cases hid : id = e.memoryId
      · simp only [hnew Selects hid, hnew Excludes hid, false_or]
        simp [hid, hexcludes, hexcludes.not_selects]
      · have hne : e.memoryId ≠ id := Ne.symm hid
        simp [hid, hne, hconfirmed, hexcluded]
    · by_cases hselects : Selects e
      · rw [read_selects d (hhuman e (by simp)) hselects]
        by_cases hid : id = e.memoryId
        · simp only [hnew Selects hid, hnew Excludes hid, false_or]
          simp [hid, hexcludes, hselects]
        · have hne : e.memoryId ≠ id := Ne.symm hid
          simp [hid, hne, hconfirmed, hexcluded]
      · rw [read_neither d hexcludes hselects]
        simp [hexcludes, hselects, hconfirmed, hexcluded]

theorem foldl_read_eq {d : Disposition} (h : ∀ e ∈ l, ¬Excludes e ∧ ¬Selects e) :
    l.foldl Disposition.read d = d := by
  induction l with
  | nil => rfl
  | cons e l ih =>
    obtain ⟨hexcludes, hselects⟩ := h e (by simp)
    rw [List.foldl_cons, read_neither d hexcludes hselects]
    exact ih fun e he => h e (List.mem_cons_of_mem _ he)

end Dispositions

section Log

variable {entered near cuts : List InjectionEvent} {injectionId id : Uuid}

/-- The rows of a gate, under the outcomes they have by now. -/
structure GateLog (injectionId : Uuid) (entered near cuts : List InjectionEvent) : Prop where
  nodup : ((entered ++ near).map (·.memoryId)).Nodup
  entry : ∀ e ∈ entered, e.shownAs.Entered ∧ e.memoryId ∉ cuts.map (·.memoryId)
  miss : ∀ e ∈ near, e.shownAs = .nearMiss
  cut : ∀ e ∈ cuts, e.shownAs = .budgetCut ∧ e.outcome = some .budgetCut
  human : ∀ e ∈ entered ++ near, e.actorClass = .human
  one : ∀ e ∈ entered ++ near ++ cuts, e.injectionId = injectionId

theorem not_entered_nearMiss : ¬ShownAs.nearMiss.Entered := by simp [ShownAs.Entered]

theorem not_entered_budgetCut : ¬ShownAs.budgetCut.Entered := by simp [ShownAs.Entered]

theorem GateLog.cut_neither (h : GateLog injectionId entered near cuts) {e : InjectionEvent}
    (he : e ∈ cuts) : ¬Excludes e ∧ ¬Selects e := by
  obtain ⟨_, houtcome⟩ := h.cut e he
  constructor
  · rintro ⟨o, ho, hexcluding⟩
    obtain rfl := Option.some.inj (houtcome.symm.trans ho)
    simp [Excluding, Outcome.IsRemoval] at hexcluding
  · rintro ⟨o, ho, hselected⟩
    obtain rfl := Option.some.inj (houtcome.symm.trans ho)
    simp [Selected] at hselected

theorem latestEvents_eq (events : List InjectionEvent) :
    latestEvents events = latest InjectionEvent.memoryId events := rfl

/-- A row that a cut from the budget follows is out of sight. -/
theorem GateLog.filter_latestEvents (h : GateLog injectionId entered near cuts)
    {p : InjectionEvent → Prop} [DecidablePred p] (hp : ∀ e ∈ cuts, ¬p e) :
    (latestEvents (entered ++ near ++ cuts)).filter p =
      (entered ++ near).filter fun e => p e ∧ e.memoryId ∉ cuts.map (·.memoryId) := by
  rw [latestEvents_eq, filter_latest_append hp, latest_of_nodup h.nodup]

theorem GateLog.isPending_iff (h : GateLog injectionId entered near cuts) :
    isPending (latestEvents (entered ++ near ++ cuts)) = true ↔
      ∃ e ∈ entered, e.outcome = none := by
  have hopen := h.filter_latestEvents (p := fun e => e.outcome = none ∧ e.shownAs.Entered)
    fun e he hopen => not_entered_budgetCut ((h.cut e he).1 ▸ hopen.2)
  constructor
  · intro hpending
    obtain ⟨e, he, hdecide⟩ := List.any_eq_true.mp hpending
    have hmem : e ∈ (latestEvents (entered ++ near ++ cuts)).filter
        fun e => e.outcome = none ∧ e.shownAs.Entered := List.mem_filter.mpr ⟨he, hdecide⟩
    rw [hopen, List.mem_filter, decide_eq_true_eq, List.mem_append] at hmem
    obtain ⟨hmem, ⟨hnone, hentered⟩, _⟩ := hmem
    refine ⟨e, hmem.resolve_right fun hnear => ?_, hnone⟩
    exact not_entered_nearMiss (h.miss e hnear ▸ hentered)
  · rintro ⟨e, he, hnone⟩
    have hmem : e ∈ (latestEvents (entered ++ near ++ cuts)).filter
        fun e => e.outcome = none ∧ e.shownAs.Entered := by
      rw [hopen, List.mem_filter, decide_eq_true_eq]
      exact ⟨List.mem_append_left _ he, ⟨hnone, (h.entry e he).1⟩, (h.entry e he).2⟩
    obtain ⟨hmem, hdecide⟩ := List.mem_filter.mp hmem
    exact List.any_eq_true.mpr ⟨e, hmem, hdecide⟩

theorem GateLog.disposition (h : GateLog injectionId entered near cuts) :
    (id ∈ (restoreLog (entered ++ near ++ cuts)).disposition.confirmed ↔
      ∃ e ∈ entered ++ near, e.memoryId = id ∧ Selects e) ∧
    (id ∈ (restoreLog (entered ++ near ++ cuts)).disposition.excluded ↔
      ∃ e ∈ entered ++ near, e.memoryId = id ∧ Excludes e) := by
  have hread : (restoreLog (entered ++ near ++ cuts)).disposition =
      (entered ++ near).foldl Disposition.read ⟨[], []⟩ := by
    change (entered ++ near ++ cuts).foldl Disposition.read ⟨[], []⟩ = _
    rw [List.foldl_append, foldl_read_eq fun e he => h.cut_neither he]
  rw [hread]
  exact mem_disposition h.human h.nodup

/-- Whether a row's own memory was taken out is the row's own outcome to say. -/
theorem GateLog.mem_excluded (h : GateLog injectionId entered near cuts) {e : InjectionEvent}
    (he : e ∈ entered ++ near) :
    e.memoryId ∈ (restoreLog (entered ++ near ++ cuts)).disposition.excluded ↔ Excludes e := by
  rw [h.disposition.2]
  constructor
  · rintro ⟨e', he', hid, hexcludes⟩
    rwa [List.inj_on_of_nodup_map h.nodup he he' hid.symm]
  · exact fun hexcludes => ⟨e, he, rfl, hexcludes⟩

theorem restoreLog_selected (events : List InjectionEvent) :
    (restoreLog events).selected = (latestEvents events).filter fun e =>
      e.memoryId ∉ (restoreLog events).disposition.excluded ∧
        (Selects e ∨ (restoreLog events).pending = true ∧ e.outcome = none ∧
          e.shownAs.Entered) := rfl

theorem restoreLog_near (events : List InjectionEvent) :
    (restoreLog events).near = (latestEvents events).filter fun e =>
      e.shownAs = .nearMiss ∧ ¬Selects e ∧
        e.memoryId ∉ (restoreLog events).disposition.excluded := rfl

/-- The members a restored gate shows: those decided for it, and those still open. -/
theorem GateLog.selected (h : GateLog injectionId entered near cuts) :
    (restoreLog (entered ++ near ++ cuts)).selected = (entered ++ near).filter fun e =>
      (Selects e ∨ e.outcome = none ∧ e.shownAs.Entered) ∧
        e.memoryId ∉ cuts.map (·.memoryId) := by
  rw [restoreLog_selected, h.filter_latestEvents]
  · apply List.filter_congr
    intro e he
    rw [decide_eq_decide, h.mem_excluded he]
    apply and_congr_left
    intro _
    constructor
    · rintro ⟨_, hselects | ⟨_, hopen⟩⟩
      · exact .inl hselects
      · exact .inr hopen
    · rintro (hselects | ⟨hnone, hentered⟩)
      · exact ⟨fun hexcludes => hexcludes.not_selects hselects, .inl hselects⟩
      · refine ⟨by simp [Excludes, hnone], .inr ⟨h.isPending_iff.mpr ⟨e, ?_, hnone⟩, hnone,
          hentered⟩⟩
        refine (List.mem_append.mp he).resolve_right fun hnear => ?_
        exact not_entered_nearMiss (h.miss e hnear ▸ hentered)
  · rintro e he ⟨_, hselects | ⟨_, _, hentered⟩⟩
    · exact (h.cut_neither he).2 hselects
    · exact not_entered_budgetCut ((h.cut e he).1 ▸ hentered)

/-- The near misses a restored gate still holds back. -/
theorem GateLog.held (h : GateLog injectionId entered near cuts) :
    (restoreLog (entered ++ near ++ cuts)).near = near.filter fun e =>
      (¬Selects e ∧ ¬Excludes e) ∧ e.memoryId ∉ cuts.map (·.memoryId) := by
  have hnone : entered.filter (fun e => e.shownAs = .nearMiss ∧ (¬Selects e ∧ ¬Excludes e) ∧
      e.memoryId ∉ cuts.map (·.memoryId)) = [] := by
    rw [List.filter_eq_nil_iff]
    intro e he
    have hne : e.shownAs ≠ .nearMiss :=
      fun heq => not_entered_nearMiss (heq ▸ (h.entry e he).1)
    simp [hne]
  rw [restoreLog_near, h.filter_latestEvents]
  · calc
      _ = (entered ++ near).filter (fun e => e.shownAs = .nearMiss ∧
          (¬Selects e ∧ ¬Excludes e) ∧ e.memoryId ∉ cuts.map (·.memoryId)) := by
        apply List.filter_congr
        intro e he
        rw [decide_eq_decide, h.mem_excluded he, and_assoc, and_assoc]
      _ = _ := by
        rw [List.filter_append, hnone, List.nil_append]
        apply List.filter_congr
        intro e he
        simp [h.miss e he]
  · rintro e he ⟨hshown, _⟩
    rw [(h.cut e he).1] at hshown
    cases hshown

end Log

section Rows

variable {env : Env} {s : Store} {plan : PreparePlan} {injectionId threadId : Uuid}
  {principalId : String} {snapshotTs : Time} {rows : List InjectionEvent}

/-- The rows of the gate that a response answers: what it shows, what it holds back and what was
cut. -/
structure GateRows (command : PrepareCommand) (response : PrepareResponse)
    (entered near cuts : List InjectionEvent) : Prop where
  log : GateLog response.injectionId entered near cuts
  injected : entered.map eventCard = response.injected
  nearMisses : near.map eventCard = response.nearMisses
  undecided : ∀ e ∈ entered ++ near, e.outcome = none
  prepared : ∀ e ∈ entered ++ near ++ cuts, e.threadId = command.threadId ∧
    e.principalId = command.principalId ∧ e.ts = response.snapshotTs ∧
    e.scorerVersion = response.scorerVersion ∧ e.allocation = response.memoryAllocation

theorem gate_drafts (hmode : plan.command.mode = .gate) :
    eventDrafts plan.command plan.selection =
      (plan.selection.injected.map fun item =>
        (item, if item.pin then ShownAs.pinned else .injected, none)) ++
      (plan.selection.nearMisses.map fun item => (item, ShownAs.nearMiss, none)) ++
      plan.selection.budgetCuts.map fun item =>
        (item, ShownAs.budgetCut, some Outcome.budgetCut) := by
  simp [eventDrafts, hmode]

/-- The row of a draft shows the card the response shows. -/
theorem eventCard_eventValues {draft : EventDraft} {id : Nat} {eventUid : Ulid}
    (h : draft.1.candidate.unit.id = draft.1.memoryId) :
    eventCard (eventValues env plan plan.allocation injectionId draft id eventUid) =
      responseCard draft.1 := by
  simp [eventCard, eventValues, responseCard, h]

theorem map_eventCard {drafts : List EventDraft}
    (h : List.Forall₂ (fun draft e => ∃ id eventUid,
      e = eventValues env plan plan.allocation injectionId draft id eventUid) drafts rows)
    (hunit : ∀ draft ∈ drafts, draft.1.candidate.unit.id = draft.1.memoryId) :
    rows.map eventCard = drafts.map fun draft => responseCard draft.1 := by
  induction h with
  | nil => rfl
  | @cons draft e drafts rows hdraft _ ih =>
    obtain ⟨_, _, rfl⟩ := hdraft
    rw [List.map_cons, List.map_cons, eventCard_eventValues (hunit draft (by simp)),
      ih fun draft hmem => hunit draft (List.mem_cons_of_mem _ hmem)]

theorem map_memoryId_eventCard (rows : List InjectionEvent) :
    (rows.map eventCard).map (·.memoryId) = rows.map (·.memoryId) := by
  rw [List.map_map]
  rfl

theorem gateRows {stamped counted : Store} {r : PrepareResponse × Store} (hsound : plan.Sound)
    (hmode : plan.command.mode = .gate) (h : Prepared env s plan stamped counted rows r) :
    ∃ entered near cuts, rows = entered ++ near ++ cuts ∧
      GateRows plan.command r.1 entered near cuts := by
  have hdrafted := h.recorded.1.drafts
  have hunit {draft : EventDraft} (hdraft : draft ∈ eventDrafts plan.command plan.selection) :
      draft.1.candidate.unit.id = draft.1.memoryId := hsound.unit _ (hsound.draft_mem hdraft)
  have hrow {e : InjectionEvent} (he : e ∈ rows) : e.injectionId = r.1.injectionId ∧
      e.actorClass = .human ∧ e.threadId = plan.command.threadId ∧
      e.principalId = plan.command.principalId ∧ e.ts = r.1.snapshotTs ∧
      e.scorerVersion = r.1.scorerVersion ∧ e.allocation = r.1.memoryAllocation := by
    obtain ⟨draft, _, _, _, rfl⟩ := forall₂_of_mem_right hdrafted he
    rw [h.response]
    exact ⟨rfl, if_neg (by simp [hmode]), rfl, rfl, rfl, rfl, rfl⟩
  rw [gate_drafts hmode] at hdrafted hunit
  obtain ⟨shown, cuts, rfl, hshown, hcuts⟩ := forall₂_append_left hdrafted
  obtain ⟨entered, near, rfl, hentered, hnear⟩ := forall₂_append_left hshown
  have hinjected : entered.map eventCard = plan.selection.injected.map responseCard := by
    rw [map_eventCard hentered fun draft hdraft => hunit (by simp [hdraft])]
    simp
  have hmisses : near.map eventCard = plan.selection.nearMisses.map responseCard := by
    rw [map_eventCard hnear fun draft hdraft => hunit (by simp [hdraft])]
    simp
  have hcutIds : cuts.map (·.memoryId) = plan.selection.budgetCuts.map (·.memoryId) := by
    rw [← map_memoryId_eventCard,
      map_eventCard hcuts fun draft hdraft => hunit (by simp [hdraft])]
    simp [responseCard]
  have henteredIds : entered.map (·.memoryId) = plan.selection.injected.map (·.memoryId) := by
    rw [← map_memoryId_eventCard, hinjected]
    simp [responseCard]
  have hnearIds : near.map (·.memoryId) = plan.selection.nearMisses.map (·.memoryId) := by
    rw [← map_memoryId_eventCard, hmisses]
    simp [responseCard]
  have hnodup := hsound.nodup
  rw [List.map_append, List.nodup_append] at hnodup
  refine ⟨entered, near, cuts, rfl, ⟨?_, fun e he => ⟨?_, ?_⟩, fun e he => ?_, fun e he => ?_,
    fun e he => (hrow (List.mem_append_left _ he)).2.1, fun e he => (hrow he).1⟩, ?_, ?_,
    fun e he => ?_, fun e he => (hrow he).2.2⟩
  · rw [List.map_append, henteredIds, hnearIds, ← List.map_append]
    exact (((List.Sublist.refl _).append hsound.near_sublist).map _).nodup hsound.nodup
  · obtain ⟨draft, hdraft, _, _, rfl⟩ := forall₂_of_mem_right hentered he
    obtain ⟨item, _, rfl⟩ := List.mem_map.mp hdraft
    cases hpin : item.pin <;> simp [eventValues, ShownAs.Entered]
  · rw [hcutIds]
    intro hcut
    have hin : e.memoryId ∈ plan.selection.injected.map (·.memoryId) :=
      henteredIds ▸ List.mem_map_of_mem he
    exact hnodup.2.2 _ hin _ ((hsound.cuts_sublist.map _).subset hcut) rfl
  · obtain ⟨draft, hdraft, _, _, rfl⟩ := forall₂_of_mem_right hnear he
    obtain ⟨item, _, rfl⟩ := List.mem_map.mp hdraft
    rfl
  · obtain ⟨draft, hdraft, _, _, rfl⟩ := forall₂_of_mem_right hcuts he
    obtain ⟨item, _, rfl⟩ := List.mem_map.mp hdraft
    exact ⟨rfl, rfl⟩
  · rw [hinjected, h.response]
  · rw [hmisses, h.response]
  · rcases List.mem_append.mp he with he | he
    · obtain ⟨draft, hdraft, _, _, rfl⟩ := forall₂_of_mem_right hentered he
      obtain ⟨item, _, rfl⟩ := List.mem_map.mp hdraft
      rfl
    · obtain ⟨draft, hdraft, _, _, rfl⟩ := forall₂_of_mem_right hnear he
      obtain ⟨item, _, rfl⟩ := List.mem_map.mp hdraft
      rfl

/-- What a thread restores to by its rows. -/
def restoredFrom (threadId : Uuid) (snapshotTs : Time) (rows : List InjectionEvent) :
    RestoredInjection :=
  let log := restoreLog rows
  let last := rows.getLast?
  { prepared :=
      { injectionId := (last.map (·.injectionId)).getD threadId
        snapshotTs
        scorerVersion := (last.map (·.scorerVersion)).getD "empty"
        injected := log.selected.map eventCard
        nearMisses := log.near.map eventCard
        finalBlock := if log.pending then none else some (renderFinalBlock log.selected)
        memoryAllocation := (last.map (·.allocation)).getD emptyAllocation }
    confirmedMemoryIds := log.disposition.confirmed.insertionSort (· ≤ ·)
    excludedMemoryIds := log.disposition.excluded.insertionSort (· ≤ ·)
    eventSources := log.latest.map fun e => (e.memoryId, e.injectionId)
    pending := log.pending }

/-- A thread that one gate prepared, with the rows it has on the log. -/
structure OnThread (s : Store) (threadId : Uuid) (principalId : String) (snapshotTs : Time)
    (rows : List InjectionEvent) : Prop where
  thread : ∃ thread, s.threads.get? threadId = some thread ∧ thread.principalId = principalId ∧
    thread.snapshotTs = some snapshotTs
  log : s.events.rows.filter (·.threadId = threadId) = rows
  owned : ∀ e ∈ rows, e.principalId = principalId
  timely : rows.Pairwise fun a b => a.ts < b.ts ∨ a.ts = b.ts ∧ a.id ≤ b.id

theorem OnThread.mem (h : OnThread s threadId principalId snapshotTs rows) {e : InjectionEvent} :
    e ∈ rows ↔ e ∈ s.events.rows ∧ e.threadId = threadId := by
  rw [← h.log, List.mem_filter, decide_eq_true_eq]

theorem OnThread.restore (h : OnThread s threadId principalId snapshotTs rows) :
    restore s threadId principalId = some (restoredFrom threadId snapshotTs rows) := by
  obtain ⟨thread, hthread, howner, hts⟩ := h.thread
  have hrows : threadEvents s threadId principalId = rows := by
    have hfilter : (s.events.rows.filter fun e =>
        e.threadId = threadId ∧ e.principalId = principalId) = rows := by
      refine (List.filter_congr fun e he => ?_).trans h.log
      rw [decide_eq_decide, and_iff_left_iff_imp]
      intro hid
      exact h.owned e (h.mem.mpr ⟨he, hid⟩)
    rw [threadEvents, hfilter]
    exact h.timely.insertionSort_eq
  simp only [Inject.restore, hthread, howner, hts, hrows, ne_eq, not_true_eq_false, if_false,
    Option.map_some]
  rfl

end Rows

section Decided

variable {entered near cuts : List InjectionEvent} {injectionId : Uuid} {command : CommitCommand}
  {plan : PreparePlan} {threadId : Uuid} {snapshotTs : Time}

/-- A gate's rows keep their places when outcomes are written on them. -/
theorem GateLog.map (h : GateLog injectionId entered near cuts)
    {f : InjectionEvent → InjectionEvent} (hf : ∀ e, f e = { e with outcome := (f e).outcome })
    (hcuts : cuts.map f = cuts) : GateLog injectionId (entered.map f) (near.map f) cuts := by
  have hids (rows : List InjectionEvent) : (rows.map f).map (·.memoryId) =
      rows.map (·.memoryId) := by
    rw [List.map_map]
    exact List.map_congr_left fun e _ => by rw [Function.comp_apply, hf]
  constructor
  · rw [← List.map_append, hids]
    exact h.nodup
  · intro e he
    obtain ⟨old, hold, rfl⟩ := List.mem_map.mp he
    rw [hf]
    exact h.entry old hold
  · intro e he
    obtain ⟨old, hold, rfl⟩ := List.mem_map.mp he
    rw [hf]
    exact h.miss old hold
  · exact h.cut
  · intro e he
    rw [← List.map_append] at he
    obtain ⟨old, hold, rfl⟩ := List.mem_map.mp he
    rw [hf]
    exact h.human old hold
  · intro e he
    rw [← hcuts, ← List.map_append, ← List.map_append] at he
    obtain ⟨old, hold, rfl⟩ := List.mem_map.mp he
    rw [hf]
    exact h.one old hold

theorem GateLog.map_decided (h : GateLog injectionId entered near cuts) :
    cuts.map (decidedEvent command) = cuts := by
  refine (List.map_congr_left fun e he => ?_).trans (List.map_id _)
  rw [decidedEvent, if_neg, id]
  rintro ⟨_, hshown, _⟩
  exact hshown (h.cut e he).1

theorem GateLog.outcome_decided (h : GateLog injectionId entered near cuts)
    (hid : command.injectionId = injectionId) {e : InjectionEvent} (he : e ∈ entered ++ near)
    (hnone : e.outcome = none) :
    (decidedEvent command e).outcome = desiredOutcome command e := by
  have hone := h.one e (List.mem_append_left _ he)
  have hshown : e.shownAs ≠ .budgetCut := by
    intro hcut
    rcases List.mem_append.mp he with he | he
    · exact not_entered_budgetCut (hcut ▸ (h.entry e he).1)
    · have hmiss := h.miss e he
      rw [hcut] at hmiss
      cases hmiss
  rw [decidedEvent, if_pos ⟨hone.trans hid.symm, hshown, hnone⟩]

theorem removed_of_reasonFor {id : Uuid} {reason : RemovalReason}
    (h : command.reasonFor id = some reason) :
    ∃ item ∈ command.removed, item.memoryId = id ∧ item.reason = reason := by
  obtain ⟨item, hfind, rfl⟩ := Option.map_eq_some_iff.mp h
  exact ⟨item, List.mem_of_find?_eq_some hfind, by simpa using List.find?_some hfind, rfl⟩

theorem mem_removed_iff {id : Uuid} :
    id ∈ command.removed.map (·.memoryId) ↔ ∃ reason, command.reasonFor id = some reason := by
  constructor
  · intro hid
    obtain ⟨item, hitem, hmemory⟩ := List.mem_map.mp hid
    have hfound : (command.removed.find? (·.memoryId = id)).isSome := by
      rw [List.find?_isSome]
      exact ⟨item, hitem, by simpa using hmemory⟩
    obtain ⟨found, hfind⟩ := Option.isSome_iff_exists.mp hfound
    exact ⟨found.reason, by rw [CommitCommand.reasonFor, hfind]; rfl⟩
  · rintro ⟨reason, hreason⟩
    obtain ⟨item, hitem, rfl, _⟩ := removed_of_reasonFor hreason
    exact List.mem_map_of_mem hitem

/-- What a command asks of a card that entered. -/
theorem desired_entered {e : InjectionEvent} (h : e.shownAs.Entered) :
    (∃ reason, desiredOutcome command e = some (.removed reason)) ∧
      e.memoryId ∈ command.removed.map (·.memoryId) ∨
    desiredOutcome command e = some .kept ∧
      e.memoryId ∉ command.removed.map (·.memoryId) := by
  have hne : e.shownAs ≠ .nearMiss := fun heq => not_entered_nearMiss (heq ▸ h)
  rw [desiredOutcome, if_neg hne, mem_removed_iff]
  cases command.reasonFor e.memoryId with
  | none => simp
  | some reason => simp

/-- What an accepted command asks of a near miss. -/
theorem Plannable.desired_near {batch : List InjectionEvent} (h : Plannable batch command)
    {e : InjectionEvent} (he : e ∈ batch) (hshown : e.shownAs = .nearMiss) :
    desiredOutcome command e = some (.removed .never) ∧
      e.memoryId ∈ command.removed.map (·.memoryId) ∧ e.memoryId ∉ command.addedBack ∨
    desiredOutcome command e = some .addedBack ∧
      e.memoryId ∉ command.removed.map (·.memoryId) ∧ e.memoryId ∈ command.addedBack ∨
    desiredOutcome command e = none ∧
      e.memoryId ∉ command.removed.map (·.memoryId) ∧ e.memoryId ∉ command.addedBack := by
  rw [desiredOutcome, if_pos hshown]
  by_cases hremoved : e.memoryId ∈ command.removed.map (·.memoryId)
  · have hreason : command.reasonFor e.memoryId = some .never := by
      obtain ⟨reason, hreason⟩ := mem_removed_iff.mp hremoved
      obtain ⟨item, hitem, hid, rfl⟩ := removed_of_reasonFor hreason
      obtain ⟨event, hevent, hmemory, hfits⟩ := h.removable item hitem
      rw [List.inj_on_of_nodup_map h.nodup hevent he (hmemory.trans hid)] at hfits
      rcases hfits with hentered | ⟨_, hnever⟩
      · exact absurd (hshown ▸ hentered) not_entered_nearMiss
      · rw [hreason, hnever]
    have hout : e.memoryId ∉ command.addedBack := by
      obtain ⟨item, hitem, hid⟩ := List.mem_map.mp hremoved
      exact hid ▸ h.overlap item hitem
    exact .inl ⟨if_pos hreason, hremoved, hout⟩
  · have hnone : command.reasonFor e.memoryId ≠ some .never :=
      fun hsome => hremoved (mem_removed_iff.mpr ⟨_, hsome⟩)
    rw [if_neg hnone]
    by_cases hadded : e.memoryId ∈ command.addedBack
    · exact .inr (.inl ⟨if_pos hadded, hremoved, hadded⟩)
    · exact .inr (.inr ⟨if_neg hadded, hremoved, hadded⟩)

theorem Plannable.perm {batch batch' : List InjectionEvent} (h : Plannable batch command)
    (hperm : batch.Perm batch') : Plannable batch' command where
  nodup := (hperm.map _).nodup_iff.mp h.nodup
  removed := h.removed
  addedBack := h.addedBack
  overlap := h.overlap
  removable item hitem := by
    obtain ⟨event, hevent, hfits⟩ := h.removable item hitem
    exact ⟨event, hperm.subset hevent, hfits⟩
  addable id hid := by
    obtain ⟨event, hevent, hfits⟩ := h.addable id hid
    exact ⟨event, hperm.subset hevent, hfits⟩

/-- What an accepted command leaves on the card of an open gate. -/
structure Verdict (command : CommitCommand) (e : InjectionEvent) : Prop where
  selects : Selects (decidedEvent command e) ↔
    e.shownAs.Entered ∧ e.memoryId ∉ command.removed.map (·.memoryId) ∨
      e.shownAs = .nearMiss ∧ e.memoryId ∈ command.addedBack
  excludes : Excludes (decidedEvent command e) ↔
    e.memoryId ∈ command.removed.map (·.memoryId)
  positive : Selects (decidedEvent command e) ↔
    ∃ o ∈ (decidedEvent command e).outcome, o.Positive
  settled : e.shownAs.Entered → (decidedEvent command e).outcome ≠ none

theorem GateLog.verdict (h : GateLog injectionId entered near cuts)
    (hid : command.injectionId = injectionId) (hplan : Plannable (entered ++ near) command)
    {e : InjectionEvent} (he : e ∈ entered ++ near) (hnone : e.outcome = none) :
    Verdict command e := by
  have hdecided := h.outcome_decided hid he hnone
  rcases List.mem_append.mp he with hentered | hnear
  · have hshown := (h.entry e hentered).1
    have hne : e.shownAs ≠ .nearMiss := fun heq => not_entered_nearMiss (heq ▸ hshown)
    rcases (desired_entered hshown :
        (∃ reason, desiredOutcome command e = some (.removed reason)) ∧ _ ∨ _) with
      ⟨⟨reason, hreason⟩, hin⟩ | ⟨hkept, hout⟩
    · rw [hreason] at hdecided
      constructor <;> simp [Selects, Excludes, Selected, Excluding, Outcome.Positive,
        Outcome.IsRemoval, hdecided, hne, hin]
    · rw [hkept] at hdecided
      constructor <;> simp [Selects, Excludes, Selected, Excluding, Outcome.Positive,
        Outcome.IsRemoval, hdecided, hshown, hout]
  · have hshown := h.miss e hnear
    have hnot : ¬e.shownAs.Entered := fun hentered => not_entered_nearMiss (hshown ▸ hentered)
    rcases hplan.desired_near he hshown with ⟨hnever, hin, hout⟩ | ⟨hadded, hout, hin⟩ |
      ⟨hopen, hout, hout'⟩
    · rw [hnever] at hdecided
      constructor <;> simp [Selects, Excludes, Selected, Excluding, Outcome.Positive,
        Outcome.IsRemoval, hdecided, hnot, hin, hout]
    · rw [hadded] at hdecided
      constructor <;> simp [Selects, Excludes, Selected, Excluding, Outcome.Positive,
        Outcome.IsRemoval, hdecided, hshown, hin, hout]
    · rw [hopen] at hdecided
      constructor <;> simp [Selects, Excludes, hdecided, hnot, hout, hout']

end Decided

section Blocks

variable {l l' : List InjectionEvent} {s : Store} {command : CommitCommand}

theorem eventBefore_iff {a b : InjectionEvent} : eventBefore a b ↔
    toLex (a.rank, a.memoryId) ≤ toLex (b.rank, b.memoryId) := by
  rw [Prod.Lex.toLex_le_toLex]
  rfl

/-- A block does not tell in which order its members were found. -/
theorem renderFinalBlock_perm (h : l.Perm l') (hnodup : (l'.map (·.memoryId)).Nodup) :
    renderFinalBlock l = renderFinalBlock l' := by
  have : Std.Total eventBefore := ⟨fun a b => by
    rw [eventBefore_iff, eventBefore_iff]
    exact le_total _ _⟩
  have : IsTrans InjectionEvent eventBefore := ⟨fun a b c hab hbc => by
    rw [eventBefore_iff] at *
    exact hab.trans hbc⟩
  have hsorted : l.insertionSort eventBefore = l'.insertionSort eventBefore := by
    refine List.Perm.eq_of_pairwise ?_ (List.pairwise_insertionSort eventBefore l)
      (List.pairwise_insertionSort eventBefore l')
      (((List.perm_insertionSort _ l).trans h).trans (List.perm_insertionSort _ l').symm)
    intro a b ha hb hab hba
    rw [List.mem_insertionSort] at ha hb
    rw [eventBefore_iff] at hab hba
    have hkeys := toLex.injective (hab.antisymm hba)
    exact List.inj_on_of_nodup_map hnodup (h.subset ha) hb (Prod.mk.inj hkeys).2
  rw [renderFinalBlock, renderFinalBlock, hsorted]

/-- A block tells how many members it has. -/
theorem length_of_renderFinalBlock (h : renderFinalBlock l = renderFinalBlock l') :
    l.length = l'.length := by
  rw [Renderer.renderFinalBlock_typed, Renderer.renderFinalBlock_typed] at h
  have hlength := congrArg List.length (Renderer.renderCards_injective h)
  simpa using hlength

theorem effective_eq {e : InjectionEvent} {item : PlannedOutcome}
    (hid : e.injectionId = command.injectionId) (hshown : e.shownAs ≠ .budgetCut)
    (h : planEvent command e = .ok item) : item.effective = decidedEvent command e := by
  obtain ⟨rfl, hdesired, hnew⟩ := planEvent_event h
  by_cases hopen : item.event.outcome = none
  · have hdecided : decidedEvent command item.event =
        { item.event with outcome := desiredOutcome command item.event } :=
      if_pos ⟨hid, hshown, hopen⟩
    rw [hdecided, PlannedOutcome.effective]
    split
    · rw [hdesired]
    · next hold =>
      have hnone : desiredOutcome command item.event = none := by
        by_contra hsome
        exact hold (hnew.mpr ⟨hopen, Option.isSome_iff_ne_none.mpr hsome⟩)
      rw [hnone, ← hopen]
  · have hkept : decidedEvent command item.event = item.event := if_neg fun h => hopen h.2.2
    rw [hkept, PlannedOutcome.effective, if_neg fun hnewly => hopen (hnew.mp hnewly).1]

/-- The block an accepted commit answers, of the rows as it leaves them. -/
theorem commit_block {r : CommitResponse × Store} (h : commit s command = .ok r)
    (hbatch : loadBatch s command.injectionId ≠ []) :
    r.1.finalBlock = renderFinalBlock
      (((members (loadBatch s command.injectionId)).map (decidedEvent command)).filter fun e =>
        ∃ o ∈ e.outcome, o.Positive) := by
  rcases commit_eq_ok.mp h with hnone | ⟨_, planned, counted, hc⟩
  · exact absurd hnone.batch hbatch
  · have hplan := hc.plans.plan
    have hall : ∀ e ∈ members (loadBatch s command.injectionId),
        e.injectionId = command.injectionId ∧ e.shownAs ≠ .budgetCut := by
      intro e he
      obtain ⟨hloaded, hshown⟩ := mem_members.mp he
      exact ⟨(loadBatch_mem.mp hloaded).2, hshown⟩
    have heffective : planned.map (·.effective) =
        (members (loadBatch s command.injectionId)).map (decidedEvent command) := by
      clear hbatch hc
      generalize members (loadBatch s command.injectionId) = batch at hplan hall
      induction hplan with
      | nil => rfl
      | @cons e item events items hitem _ ih =>
        obtain ⟨hid, hshown⟩ := hall e (by simp)
        rw [List.map_cons, List.map_cons, effective_eq hid hshown hitem,
          ih fun e he => hall e (List.mem_cons_of_mem _ he)]
    rw [hc.block, finalEvents, heffective]

end Blocks

section Restored

variable {command : PrepareCommand} {response : PrepareResponse} {decision : CommitCommand}
  {entered near cuts : List InjectionEvent}

/-- What every restore of a gate says of it, whatever was decided since. -/
structure Recovers (response : PrepareResponse) (restored : RestoredInjection) : Prop where
  snapshotTs : restored.prepared.snapshotTs = response.snapshotTs
  sources : ∀ source ∈ restored.eventSources, source.2 = response.injectionId
  cards : ∀ card ∈ response.injected ++ response.nearMisses,
    (card.memoryId, response.injectionId) ∈ restored.eventSources
  last : restored.eventSources ≠ [] → restored.prepared.injectionId = response.injectionId ∧
    restored.prepared.scorerVersion = response.scorerVersion ∧
    restored.prepared.memoryAllocation = response.memoryAllocation

theorem GateRows.recovers (h : GateRows command response entered near cuts)
    {f : InjectionEvent → InjectionEvent} (hf : ∀ e, f e = { e with outcome := (f e).outcome }) :
    Recovers response (restoredFrom command.threadId response.snapshotTs
      ((entered ++ near ++ cuts).map f)) := by
  have hrow {e : InjectionEvent} (he : e ∈ (entered ++ near ++ cuts).map f) :
      e.injectionId = response.injectionId ∧ e.scorerVersion = response.scorerVersion ∧
        e.allocation = response.memoryAllocation := by
    obtain ⟨old, hold, rfl⟩ := List.mem_map.mp he
    rw [hf]
    exact ⟨h.log.one old hold, (h.prepared old hold).2.2.2⟩
  constructor
  · rfl
  · intro source hsource
    obtain ⟨e, he, rfl⟩ := List.mem_map.mp hsource
    exact (hrow (mem_of_mem_latest he)).1
  · intro card hcard
    rw [← h.injected, ← h.nearMisses, ← List.map_append] at hcard
    obtain ⟨e, he, rfl⟩ := List.mem_map.mp hcard
    have hid : e.memoryId ∈ ((entered ++ near ++ cuts).map f).map (·.memoryId) := by
      refine List.mem_map.mpr ⟨f e, List.mem_map_of_mem (List.mem_append_left _ he), ?_⟩
      rw [hf]
    have hlatest := map_latest InjectionEvent.memoryId ((entered ++ near ++ cuts).map f)
    rw [← List.mem_eraseDups, ← hlatest] at hid
    obtain ⟨last, hlast, hmemory⟩ := List.mem_map.mp hid
    refine List.mem_map.mpr ⟨last, hlast, ?_⟩
    rw [hmemory, (hrow (mem_of_mem_latest hlast)).1]
    rfl
  · intro hsources
    have hne : (entered ++ near ++ cuts).map f ≠ [] := by
      intro hnil
      rw [hnil] at hsources
      exact hsources rfl
    obtain ⟨hinjection, hversion, hallocation⟩ := hrow (List.getLast_mem hne)
    have hlast := List.getLast?_eq_some_getLast hne
    simp only [restoredFrom, hlast, Option.map_some, Option.getD_some]
    exact ⟨hinjection, hversion, hallocation⟩

/-- Outcomes are not on the card. -/
theorem eventCard_congr {f : InjectionEvent → InjectionEvent}
    (hf : ∀ e, f e = { e with outcome := (f e).outcome }) (l : List InjectionEvent) :
    (l.map f).map eventCard = l.map eventCard := by
  rw [List.map_map]
  apply List.map_congr_left
  intro e _
  rw [Function.comp_apply, hf]
  rfl

theorem filter_eventCard (p : Uuid → Prop) [DecidablePred p] (l : List InjectionEvent) :
    (l.filter fun e => p e.memoryId).map eventCard =
      (l.map eventCard).filter fun card => p card.memoryId := by
  rw [List.filter_map]
  rfl

/-- An undecided gate restores to its own response, near misses also cut from the budget left
out. -/
structure RestoresOpen (response : PrepareResponse) (cut : Uuid → Prop) [DecidablePred cut]
    (restored : RestoredInjection) : Prop where
  injected : restored.prepared.injected = response.injected
  nearMisses : restored.prepared.nearMisses =
    response.nearMisses.filter fun card => ¬cut card.memoryId
  pending : restored.pending = true ↔ response.injected ≠ []
  finalBlock : restored.prepared.finalBlock =
    if response.injected = [] then some (renderFinalBlock []) else none
  standing : restored.confirmedMemoryIds = [] ∧ restored.excludedMemoryIds = []

theorem RestoresOpen.congr {cut cut' : Uuid → Prop} [DecidablePred cut] [DecidablePred cut']
    {restored : RestoredInjection} (h : RestoresOpen response cut restored)
    (hcut : ∀ id, cut id ↔ cut' id) : RestoresOpen response cut' restored where
  injected := h.injected
  nearMisses := by simpa only [hcut] using h.nearMisses
  pending := h.pending
  finalBlock := h.finalBlock
  standing := h.standing

theorem GateRows.restoresOpen (h : GateRows command response entered near cuts) :
    RestoresOpen response (· ∈ cuts.map (·.memoryId))
      (restoredFrom command.threadId response.snapshotTs (entered ++ near ++ cuts)) := by
  have hundecided {e : InjectionEvent} (he : e ∈ entered ++ near) :
      ¬Selects e ∧ ¬Excludes e := by
    simp [Selects, Excludes, h.undecided e he]
  have hselected : (restoreLog (entered ++ near ++ cuts)).selected = entered := by
    have hopen : entered.filter (fun e => (Selects e ∨ e.outcome = none ∧ e.shownAs.Entered) ∧
        e.memoryId ∉ cuts.map (·.memoryId)) = entered := by
      rw [List.filter_eq_self]
      intro e he
      obtain ⟨hentered, hcut⟩ := h.log.entry e he
      have hnone := h.undecided e (List.mem_append_left _ he)
      rw [decide_eq_true_eq]
      exact ⟨.inr ⟨hnone, hentered⟩, hcut⟩
    have hheld : near.filter (fun e => (Selects e ∨ e.outcome = none ∧ e.shownAs.Entered) ∧
        e.memoryId ∉ cuts.map (·.memoryId)) = [] := by
      rw [List.filter_eq_nil_iff]
      intro e he
      rw [decide_eq_true_eq]
      rintro ⟨hselects | ⟨_, hentered⟩, _⟩
      · exact (hundecided (List.mem_append_right _ he)).1 hselects
      · exact not_entered_nearMiss (h.log.miss e he ▸ hentered)
    rw [h.log.selected, List.filter_append, hopen, hheld, List.append_nil]
  have hpending : (restoreLog (entered ++ near ++ cuts)).pending = true ↔
      response.injected ≠ [] := by
    rw [← h.injected, Ne, List.map_eq_nil_iff]
    refine h.log.isPending_iff.trans ⟨?_, fun hne => ?_⟩
    · rintro ⟨e, he, _⟩
      exact List.ne_nil_of_mem he
    · obtain ⟨e, he⟩ := List.exists_mem_of_ne_nil _ hne
      exact ⟨e, he, h.undecided e (List.mem_append_left _ he)⟩
  have hstanding {ids : List Uuid} (hids : ∀ id, id ∈ ids ↔ False) :
      ids.insertionSort (· ≤ ·) = [] := by
    rw [List.eq_nil_iff_forall_not_mem.mpr fun id hid => (hids id).mp hid]
    rfl
  constructor
  · change (restoreLog _).selected.map eventCard = _
    rw [hselected, h.injected]
  · change (restoreLog _).near.map eventCard = _
    have hheld : near.filter (fun e => (¬Selects e ∧ ¬Excludes e) ∧
        e.memoryId ∉ cuts.map (·.memoryId)) =
          near.filter fun e => e.memoryId ∉ cuts.map (·.memoryId) := by
      apply List.filter_congr
      intro e he
      obtain ⟨hselects, hexcludes⟩ := hundecided (List.mem_append_right _ he)
      simp [hselects, hexcludes]
    rw [h.log.held, hheld, ← h.nearMisses]
    exact filter_eventCard (· ∉ cuts.map (·.memoryId)) near
  · exact hpending
  · change (if (restoreLog _).pending = true then none else
      some (renderFinalBlock (restoreLog _).selected)) = _
    rw [hselected]
    by_cases hinjected : response.injected = []
    · have hentered : entered = [] := by
        rw [← List.map_eq_nil_iff (f := eventCard), h.injected, hinjected]
      rw [if_pos hinjected, if_neg fun hp => hpending.mp hp hinjected, hentered]
    · rw [if_neg hinjected, if_pos (hpending.mpr hinjected)]
  · refine ⟨hstanding fun id => h.log.disposition.1.trans ?_,
      hstanding fun id => h.log.disposition.2.trans ?_⟩
    · rw [iff_false]
      rintro ⟨e, he, _, hselects⟩
      exact (hundecided he).1 hselects
    · rw [iff_false]
      rintro ⟨e, he, _, hexcludes⟩
      exact (hundecided he).2 hexcludes

/-- A decided gate restores to what its command left of it, memories also cut from the budget
left out. -/
structure RestoresDecided (response : PrepareResponse) (decision : CommitCommand)
    (cut : Uuid → Prop) [DecidablePred cut] (restored : RestoredInjection) : Prop where
  injected : restored.prepared.injected =
    response.injected.filter (fun card => card.memoryId ∉ decision.removed.map (·.memoryId)) ++
      response.nearMisses.filter fun card =>
        card.memoryId ∈ decision.addedBack ∧ ¬cut card.memoryId
  nearMisses : restored.prepared.nearMisses = response.nearMisses.filter fun card =>
    (card.memoryId ∉ decision.addedBack ∧ card.memoryId ∉ decision.removed.map (·.memoryId)) ∧
      ¬cut card.memoryId
  pending : restored.pending = false
  confirmed : ∀ id, id ∈ restored.confirmedMemoryIds ↔
    id ∈ response.injected.map (·.memoryId) ∧ id ∉ decision.removed.map (·.memoryId) ∨
      id ∈ decision.addedBack
  excluded : ∀ id, id ∈ restored.excludedMemoryIds ↔ id ∈ decision.removed.map (·.memoryId)

theorem RestoresDecided.congr {cut cut' : Uuid → Prop} [DecidablePred cut] [DecidablePred cut']
    {restored : RestoredInjection} (h : RestoresDecided response decision cut restored)
    (hcut : ∀ id, cut id ↔ cut' id) : RestoresDecided response decision cut' restored where
  injected := by simpa only [hcut] using h.injected
  nearMisses := by simpa only [hcut] using h.nearMisses
  pending := h.pending
  confirmed := h.confirmed
  excluded := h.excluded

theorem GateRows.decidedLog (h : GateRows command response entered near cuts) :
    GateLog response.injectionId (entered.map (decidedEvent decision))
      (near.map (decidedEvent decision)) cuts :=
  h.log.map (decidedEvent_eq decision) h.log.map_decided

theorem GateRows.near_of_addedBack (h : GateRows command response entered near cuts)
    (hplan : Plannable (entered ++ near) decision) {id : Uuid} (hadded : id ∈ decision.addedBack) :
    ∃ e ∈ near, e.memoryId = id := by
  obtain ⟨e, he, hid, hshown⟩ := hplan.addable id hadded
  refine ⟨e, (List.mem_append.mp he).resolve_left fun hentered => ?_, hid⟩
  exact not_entered_nearMiss (hshown ▸ (h.log.entry e hentered).1)

section Decision

variable (h : GateRows command response entered near cuts)
  (hid : decision.injectionId = response.injectionId)
  (hplan : Plannable (entered ++ near) decision)

include h hid hplan

theorem GateRows.verdict {e : InjectionEvent} (he : e ∈ entered ++ near) : Verdict decision e :=
  h.log.verdict hid hplan he (h.undecided e he)

theorem GateRows.selects_entered {e : InjectionEvent} (he : e ∈ entered) :
    Selects (decidedEvent decision e) ↔ e.memoryId ∉ decision.removed.map (·.memoryId) := by
  have hshown := (h.log.entry e he).1
  have hne : e.shownAs ≠ .nearMiss := fun heq => not_entered_nearMiss (heq ▸ hshown)
  rw [(h.verdict hid hplan (List.mem_append_left _ he)).selects]
  simp [hshown, hne]

theorem GateRows.selects_near {e : InjectionEvent} (he : e ∈ near) :
    Selects (decidedEvent decision e) ↔ e.memoryId ∈ decision.addedBack := by
  rw [(h.verdict hid hplan (List.mem_append_right _ he)).selects]
  simp [h.log.miss e he, not_entered_nearMiss]

/-- The members a decided gate shows. -/
theorem GateRows.selected_decided :
    (restoreLog ((entered ++ near ++ cuts).map (decidedEvent decision))).selected =
      ((entered.filter fun e => e.memoryId ∉ decision.removed.map (·.memoryId)) ++
        near.filter fun e => e.memoryId ∈ decision.addedBack ∧
          e.memoryId ∉ cuts.map (·.memoryId)).map (decidedEvent decision) := by
  have hmemory (e : InjectionEvent) : (decidedEvent decision e).memoryId = e.memoryId := by
    rw [decidedEvent_eq]
  have hshown (e : InjectionEvent) : (decidedEvent decision e).shownAs = e.shownAs := by
    rw [decidedEvent_eq]
  rw [List.map_append, h.log.map_decided, List.map_append, h.decidedLog.selected,
    List.filter_append, List.filter_map, List.filter_map, List.map_append]
  congr 2
  · apply List.filter_congr
    intro e he
    have hsettled := (h.verdict hid hplan (List.mem_append_left _ he)).settled
      (h.log.entry e he).1
    have hcut := (h.log.entry e he).2
    simp only [Function.comp_apply, decide_eq_decide, hmemory, hsettled, false_and, or_false,
      h.selects_entered hid hplan he]
    exact and_iff_left hcut
  · apply List.filter_congr
    intro e he
    have hnot : ¬e.shownAs.Entered :=
      fun hentered => not_entered_nearMiss (h.log.miss e he ▸ hentered)
    simp only [Function.comp_apply, hmemory, hshown, hnot, and_false, or_false,
      h.selects_near hid hplan he]

theorem GateRows.restoresDecided : RestoresDecided response decision
    (· ∈ cuts.map (·.memoryId)) (restoredFrom command.threadId response.snapshotTs
      ((entered ++ near ++ cuts).map (decidedEvent decision))) := by
  have hmemory (e : InjectionEvent) : (decidedEvent decision e).memoryId = e.memoryId := by
    rw [decidedEvent_eq]
  have hrows : (entered ++ near ++ cuts).map (decidedEvent decision) =
      entered.map (decidedEvent decision) ++ near.map (decidedEvent decision) ++ cuts := by
    rw [List.map_append, List.map_append, h.log.map_decided]
  have hstanding (P : InjectionEvent → Prop) (id : Uuid) :
      (∃ e' ∈ entered.map (decidedEvent decision) ++ near.map (decidedEvent decision),
        e'.memoryId = id ∧ P e') ↔
      (∃ e ∈ entered, e.memoryId = id ∧ P (decidedEvent decision e)) ∨
        ∃ e ∈ near, e.memoryId = id ∧ P (decidedEvent decision e) := by
    simp [or_and_right, exists_or, hmemory]
  constructor
  · change (restoreLog _).selected.map eventCard = _
    rw [h.selected_decided hid hplan, eventCard_congr (decidedEvent_eq decision),
      List.map_append, filter_eventCard (· ∉ decision.removed.map (·.memoryId)), h.injected,
      ← h.nearMisses]
    congr 1
    exact filter_eventCard
      (fun id => id ∈ decision.addedBack ∧ id ∉ cuts.map (·.memoryId)) near
  · change (restoreLog _).near.map eventCard = _
    rw [hrows, h.decidedLog.held, List.filter_map, eventCard_congr (decidedEvent_eq decision),
      ← h.nearMisses]
    refine Eq.trans ?_ (filter_eventCard (fun id => (id ∉ decision.addedBack ∧
      id ∉ decision.removed.map (·.memoryId)) ∧ id ∉ cuts.map (·.memoryId)) near)
    apply congrArg (List.map eventCard)
    apply List.filter_congr
    intro e he
    have hexcludes := (h.verdict hid hplan (List.mem_append_right _ he)).excludes
    simp only [Function.comp_apply, hmemory, h.selects_near hid hplan he, hexcludes]
  · change (restoreLog _).pending = false
    rw [← Bool.not_eq_true, hrows]
    intro hpending
    obtain ⟨e', he', hnone⟩ := h.decidedLog.isPending_iff.mp hpending
    obtain ⟨e, he, rfl⟩ := List.mem_map.mp he'
    have hverdict := h.verdict hid hplan (List.mem_append_left _ he)
    exact hverdict.settled (h.log.entry e he).1 hnone
  · intro id
    change id ∈ List.insertionSort _ (restoreLog _).disposition.confirmed ↔ _
    rw [List.mem_insertionSort, hrows, h.decidedLog.disposition.1, hstanding, ← h.injected,
      map_memoryId_eventCard]
    apply or_congr
    · constructor
      · rintro ⟨e, he, rfl, hselects⟩
        exact ⟨List.mem_map_of_mem he, (h.selects_entered hid hplan he).mp hselects⟩
      · rintro ⟨hin, hout⟩
        obtain ⟨e, he, rfl⟩ := List.mem_map.mp hin
        exact ⟨e, he, rfl, (h.selects_entered hid hplan he).mpr hout⟩
    · constructor
      · rintro ⟨e, he, rfl, hselects⟩
        exact (h.selects_near hid hplan he).mp hselects
      · intro hadded
        obtain ⟨e, he, rfl⟩ := h.near_of_addedBack hplan hadded
        exact ⟨e, he, rfl, (h.selects_near hid hplan he).mpr hadded⟩
  · intro id
    change id ∈ List.insertionSort _ (restoreLog _).disposition.excluded ↔ _
    rw [List.mem_insertionSort, hrows, h.decidedLog.disposition.2, ← List.map_append]
    constructor
    · rintro ⟨e', he', rfl, hexcludes⟩
      obtain ⟨e, he, rfl⟩ := List.mem_map.mp he'
      rw [hmemory]
      exact (h.verdict hid hplan he).excludes.mp hexcludes
    · intro hremoved
      obtain ⟨item, hitem, rfl⟩ := List.mem_map.mp hremoved
      obtain ⟨e, he, hid', _⟩ := hplan.removable item hitem
      refine ⟨decidedEvent decision e, List.mem_map_of_mem he, (hmemory e).trans hid', ?_⟩
      exact (h.verdict hid hplan he).excludes.mpr (hid' ▸ hremoved)

/-- The restored block is the committed one exactly when nothing added back was also cut. -/
theorem GateRows.block_iff :
    renderFinalBlock (((entered ++ near).map (decidedEvent decision)).filter fun e =>
        ∃ o ∈ e.outcome, o.Positive) =
      renderFinalBlock
        (restoreLog ((entered ++ near ++ cuts).map (decidedEvent decision))).selected ↔
      ∀ id ∈ decision.addedBack, id ∉ cuts.map (·.memoryId) := by
  have hkept : ((entered ++ near).map (decidedEvent decision)).filter
      (fun e => ∃ o ∈ e.outcome, o.Positive) =
        ((entered.filter fun e => e.memoryId ∉ decision.removed.map (·.memoryId)) ++
          near.filter fun e => e.memoryId ∈ decision.addedBack).map (decidedEvent decision) := by
    rw [List.filter_map, List.filter_append]
    congr 2
    · apply List.filter_congr
      intro e he
      have hpositive := (h.verdict hid hplan (List.mem_append_left _ he)).positive
      simp only [Function.comp_apply, ← hpositive, h.selects_entered hid hplan he]
    · apply List.filter_congr
      intro e he
      have hpositive := (h.verdict hid hplan (List.mem_append_right _ he)).positive
      simp only [Function.comp_apply, ← hpositive, h.selects_near hid hplan he]
  rw [hkept, h.selected_decided hid hplan]
  constructor
  · intro hblock id hadded hcut
    have hlength := length_of_renderFinalBlock hblock
    simp only [List.length_map, List.length_append, Nat.add_left_cancel_iff] at hlength
    have hsublist : (near.filter fun e => e.memoryId ∈ decision.addedBack ∧
        e.memoryId ∉ cuts.map (·.memoryId)).Sublist
          (near.filter fun e => e.memoryId ∈ decision.addedBack) := by
      refine List.monotone_filter_right near fun e he => ?_
      rw [decide_eq_true_eq] at he ⊢
      exact he.1
    obtain ⟨e, he, rfl⟩ := h.near_of_addedBack hplan hadded
    have hmem : e ∈ near.filter fun e => e.memoryId ∈ decision.addedBack :=
      List.mem_filter.mpr ⟨he, by simpa using hadded⟩
    rw [← hsublist.eq_of_length hlength.symm, List.mem_filter, decide_eq_true_eq] at hmem
    exact hmem.2.2 hcut
  · intro hout
    congr 3
    apply List.filter_congr
    intro e _
    rw [decide_eq_decide]
    exact (and_iff_left_of_imp fun hadded => hout e.memoryId hadded).symm

end Decision

end Restored

end Nocturne.Inject
