import Nocturne.Inject.Membership
import Nocturne.Palace.Counters

namespace Nocturne

open Nocturne.Lib Nocturne.Store Nocturne.Inject

variable {w : World} {p p' : Palace} {call : Call}

/-- Only the decision services write the log. -/
theorem Palace.Stepped.unlogged {s : Store} {action : Action} (h : Stepped w p s action p')
    (hdecides : ¬action.Decides) : Writes .unlogged s p'.store := by
  have hfree {φ : Footprint} {t u : Store} (hw : Writes φ t u) (hr : ∀ e, ¬φ.record e)
      (ho : ∀ e o, ¬φ.outcome e o) : Writes .unlogged t u := hw.mono (.unlogged hr ho)
  cases h with
  | create hw => exact hfree hw (fun _ => id) fun _ _ => id
  | split hw => exact hfree hw (fun _ => id) fun _ _ => id
  | stage hw => exact hfree hw (fun _ => id) fun _ _ => id
  | resolve hr =>
    rcases hr with ⟨rfl, _⟩ | ⟨t, hresolves, hrouted⟩
    · exact .refl
    · exact hfree (hrouted.resolve_writes hresolves) (fun _ => id) fun _ _ => id
  | startPatch => exact .refl
  | patch _ hw => exact hfree hw (fun _ => id) fun _ _ => id
  | startExtract => exact .refl
  | seeded => exact .refl
  | startSeed => exact .refl
  | seedSource _ hw => exact hfree hw (fun _ => id) fun _ _ => id
  | ingest _ hstep => exact hfree hstep.writes (fun _ => id) fun _ _ => id
  | startPass => exact drawn_quiet.writes
  | advance _ hstep => exact hfree hstep.writes (fun _ => id) fun _ _ => id
  | startDecision => exact .refl
  | decide _ _ hr =>
    rcases hr with rfl | hdecided
    · exact .refl
    · exact hfree hdecided.writes (fun _ => id) fun _ _ => id
  | decideBatch hr => exact hr.writes
  | prepare => exact absurd trivial hdecides
  | prepareWrite => exact absurd trivial hdecides
  | commit => exact absurd trivial hdecides
  | feedback => exact absurd trivial hdecides
  | abandon => exact absurd trivial hdecides

/-- Rows keep everything but their outcome, and new rows come under a new injection. -/
structure LogGrows (s s' : Store) : Prop where
  rows : ∃ f : InjectionEvent → Option Outcome, ∃ new : List InjectionEvent,
    s'.events.rows = s.events.rows.map (fun e => { e with outcome := f e }) ++ new ∧
      ∀ e ∈ new, ∀ old ∈ s.events.rows, e.injectionId ≠ old.injectionId

theorem LogGrows.of_eq {s s' : Store} (h : s'.events = s.events) : LogGrows s s' :=
  ⟨(·.outcome), [], by simp [h], by simp⟩

/-- The transactions a prepare takes its attempts in. -/
def Action.Prepares : Action → Prop
  | .prepare .. | .prepareWrite _ => True
  | _ => False

instance : DecidablePred Action.Prepares
  | .prepare .. | .prepareWrite _ => isTrue trivial
  | .create .. | .split .. | .stage .. | .resolve .. | .startPatch .. | .patch _
  | .startExtract _ | .startSeed _ | .seedSource .. | .ingest .. | .startPass .. | .advance ..
  | .startDecision .. | .decide _ | .decideBatch .. | .commit _ | .feedback _ | .abandon _ =>
    isFalse id

/-- Nothing but a prepare adds rows to the log. -/
theorem outcomes_of_step (hlineage : p.store.Lineage) (hprepares : ¬call.action.Prepares)
    (hstep : (palace w).step p call = .ok p') : ∃ f : InjectionEvent → Option Outcome,
      p'.store.events.rows = p.store.events.rows.map fun e => { e with outcome := f e } := by
  have hstepped := stepped_of_step hlineage hstep
  have hsame {t : Store} (h : t.events = p.store.events) : ∃ f : InjectionEvent → Option Outcome,
      t.events.rows = p.store.events.rows.map fun e => { e with outcome := f e } :=
    ⟨(·.outcome), by rw [h, List.map_id']⟩
  have hmap {s t : Store} {f : InjectionEvent → InjectionEvent}
      (h : t.events.rows = s.events.rows.map f)
      (hf : ∀ e, f e = { e with outcome := (f e).outcome }) (hs : s.events = p.store.events) :
      ∃ g : InjectionEvent → Option Outcome,
      t.events.rows = p.store.events.rows.map fun e => { e with outcome := g e } :=
    ⟨fun e => (f e).outcome, (hs ▸ h).trans (List.map_congr_left fun e _ => hf e)⟩
  by_cases hdecides : call.action.Decides
  · obtain ⟨session, action⟩ := call
    cases hstepped with
    | prepare => exact absurd trivial hprepares
    | prepareWrite => exact absurd trivial hprepares
    | commit hcommit => exact hmap (commit_rows hcommit) (decidedEvent_eq _) rfl
    | feedback hfeedback =>
      obtain ⟨event, _, ⟨_, rfl⟩ | ⟨_, hmoved⟩⟩ := feedback_eq_ok.mp hfeedback
      · exact hsame rfl
      · refine hmap hmoved.rows (fun e => ?_) rfl
        split <;> rfl
    | abandon => exact hsame rfl
    | _ => exact hdecides.elim
  · exact hsame ((hstepped.unlogged hdecides).events_eq (fun _ => id) fun _ _ => id)

theorem logGrows_of_step (hlineage : p.store.Lineage)
    (hstep : (palace w).step p call = .ok p') : LogGrows p.store p'.store := by
  by_cases hprepares : call.action.Prepares
  · have hstepped := stepped_of_step hlineage hstep
    have hbegun : LogGrows (p.store.begin call.session) p'.store := by
      obtain ⟨session, action⟩ := call
      cases hstepped with
      | prepare => exact .of_eq rfl
      | prepareWrite _ hwrite =>
        obtain ⟨stamped, counted, rows, hprepared⟩ := prepareWrite_eq_ok.mp hwrite
        obtain ⟨hrecorded, hevents⟩ := hprepared.recorded
        have hstamp := stampThread_meets.of_ok hprepared.stamp
        refine ⟨(·.outcome), rows, ?_, ?_⟩
        · refine (hrecorded.rows).trans ?_
          rw [hevents, List.map_id']
        · intro e he old hold heq
          obtain ⟨draft, _, _, _, rfl⟩ := forall₂_of_mem_right hrecorded.drafts he
          exact injectionId_ne_freshUuid (hstamp.2.1 ▸ hold) heq.symm
      | _ => exact hprepares.elim
    exact ⟨hbegun.rows⟩
  · obtain ⟨f, hrows⟩ := outcomes_of_step hlineage hprepares hstep
    exact ⟨f, [], by rw [hrows, List.append_nil], by simp⟩

/-- An injection with a row never gets another. -/
theorem LogGrows.memberRows {s s' : Store} (h : LogGrows s s') {old : InjectionEvent}
    (hold : old ∈ s.events.rows) (memoryId : Uuid) :
    (memberRows s' old.injectionId memoryId).length =
      (memberRows s old.injectionId memoryId).length := by
  obtain ⟨f, new, hrows, hnew⟩ := h.rows
  have hnone : new.filter
      (fun e => e.injectionId = old.injectionId ∧ e.memoryId = memoryId) = [] := by
    rw [List.filter_eq_nil_iff]
    intro e he
    simp [hnew e he old hold]
  rw [Inject.memberRows, hrows, List.filter_append, hnone, List.append_nil, List.filter_map,
    List.length_map]
  rfl

theorem memberRows_of_run (hlineage : p.store.Lineage) {old : InjectionEvent}
    (hold : old ∈ p.store.events.rows) (memoryId : Uuid) (calls : List Call) :
    (memberRows ((palace w).run p calls).store old.injectionId memoryId).length =
      (memberRows p.store old.injectionId memoryId).length := by
  have hrun := Machine.run_keeps (M := palace w) (I := fun q : Palace => q.store.Lineage ∧
    (∃ e ∈ q.store.events.rows, e.injectionId = old.injectionId) ∧
    (memberRows q.store old.injectionId memoryId).length =
      (memberRows p.store old.injectionId memoryId).length) ?_ calls
      ⟨hlineage, ⟨old, hold, rfl⟩, rfl⟩
  · exact hrun.2.2
  · rintro q call q' ⟨hq, ⟨e, he, hid⟩, hlength⟩ hstep
    have hgrows := logGrows_of_step hq hstep
    obtain ⟨f, new, hrows, _⟩ := hgrows.rows
    refine ⟨(writes_of_step hq hstep).lineage hq, ⟨{ e with outcome := f e }, ?_, hid⟩, ?_⟩
    · rw [hrows]
      exact List.mem_append_left _ (List.mem_map_of_mem he)
    · rw [← hlength, ← hid]
      exact hgrows.memberRows he memoryId

section Membership

/-- No near miss is asked for, or every unlocked body the threshold admits fits in the room the
locked ones leave, in the pools the store shows this prepare. -/
def BodiesFit (w : World) (s : Store) (command : PrepareCommand) (query : Embedding) : Prop :=
  ∃ config pinned regular, activeScorerConfig s = .ok config ∧
    loadCandidates w.env w.scoring s command query config.params.candidatePool =
      .ok (pinned, regular) ∧
    (config.params.nearMissK = 0 ∨
      AllFit (pinned.map (scoreCandidate w.env w.scoring command query s.session.now config))
        (regular.map (scoreCandidate w.env w.scoring command query s.session.now config))
        command.confirmedMemoryIds command.modelContextTokens config.params)

theorem bodiesFit_iff {s : Store} {command : PrepareCommand} {query : Embedding}
    {plan : PreparePlan} (h : prepareRead w.env w.scoring s command query = .ok plan) :
    BodiesFit w s command query ↔ ∀ c ∈ plan.selection.nearMisses,
      c.memoryId ∉ plan.selection.budgetCuts.map (·.memoryId) := by
  obtain ⟨pinned, regular, hread⟩ := prepareRead_eq_ok.mp h
  have hselection := (scoreAndSelect_eq_ok.mp hread.selected).2
  rw [hselection, nearMisses_disjoint_iff]
  constructor
  · rintro ⟨config, pinned', regular', hconfig, hpools, hfit⟩
    obtain rfl := Except.ok.inj (hread.config.symm.trans hconfig)
    obtain ⟨rfl, rfl⟩ := Prod.mk.inj (Except.ok.inj (hread.pools.symm.trans hpools))
    exact hfit
  · exact fun hfit => ⟨plan.config, pinned, regular, hread.config, hread.pools, hfit⟩

/-- Whatever happens after a prepare, each card it returned keeps exactly one row of that
injection, so that no feedback on it is ever ambiguous, if and only if the bodies fitted when
the prepare read its pools. -/
theorem returned_cards_unique (h : (palace w).Reachable p) {k : Nat} {plan : PreparePlan}
    (hop : p.ops[k]? = some (.preparing plan)) {s : Store} {command : PrepareCommand}
    {query : Embedding} (hread : prepareRead w.env w.scoring s command query = .ok plan)
    {session : Session} {r : PrepareResponse × Store}
    (hwrite : prepareWrite w.env (p.store.begin session) plan = .ok r) :
    (∀ card ∈ r.1.injected ++ r.1.nearMisses, ∀ calls,
      let later := ((palace w).run (p.become k r.2 .done) calls).store
      (memberRows later r.1.injectionId card.memoryId).length = 1 ∧
        ∀ signal, feedback later ⟨r.1.injectionId, card.memoryId, signal⟩ ≠
          .error (.decisionState "feedback membership is not unique")) ↔
      BodiesFit w s command query := by
  have hsound := prepareRead_sound hread
  have hstep : (palace w).step p ⟨session, .prepareWrite k⟩ = .ok (p.become k r.2 .done) :=
    step_prepareWrite hop hwrite
  have hlineage : r.2.Lineage := by
    have hp := lineage_of_reachable h
    exact (writes_of_step hp hstep).lineage hp
  have hcount (id : Uuid) : (memberRows r.2 r.1.injectionId id).length =
      (rowIds plan.command plan.selection).count id := prepareWrite_memberRows hsound hwrite
  -- a card that has a row keeps as many rows for ever
  have hlater {id : Uuid} (hid : 0 < (memberRows r.2 r.1.injectionId id).length)
      (calls : List Call) :
      (memberRows ((palace w).run (p.become k r.2 .done) calls).store
        r.1.injectionId id).length = (memberRows r.2 r.1.injectionId id).length := by
    obtain ⟨e, he⟩ := List.exists_mem_of_length_pos hid
    simp only [memberRows, List.mem_filter, decide_eq_true_eq] at he
    rw [← he.2.1]
    exact memberRows_of_run (w := w) (p := p.become k r.2 .done) hlineage he.1 id calls
  rw [bodiesFit_iff hread, ← returned_iff hsound,
    ← mem_returned (P := fun id => (rowIds plan.command plan.selection).count id = 1) hwrite]
  constructor
  · intro hunique card hcard
    rw [← hcount]
    exact (hunique card hcard []).1
  · intro hone card hcard calls
    have hrow := (hcount card.memoryId).trans (hone card hcard)
    have hrun := (hlater (hrow ▸ Nat.one_pos) calls).trans hrow
    refine ⟨hrun, fun signal herror => ?_⟩
    have hmany := feedback_not_unique_iff.mp herror
    rw [hrun] at hmany
    omega

/-- A saved memory that fits its gate is returned once. -/
theorem returned_cards_unique_saved : ∃ plan r,
    prepareWrite default (savedPalace.store.begin ⟨3, [30]⟩) plan = .ok r ∧
    ∃ card ∈ r.1.injected, ∀ calls,
      (memberRows ((palace default).run
        ((savedPalace.launch (savedPalace.store.begin ⟨2, []⟩) (.preparing plan)).become
          savedPalace.ops.length r.2 .done) calls).store
        r.1.injectionId card.memoryId).length = 1 := by
  have hrun : Answers (prepareRead default default (savedPalace.store.begin ⟨2, []⟩)
      (openedGate 20) [1]) fun plan =>
        (∀ c ∈ plan.selection.nearMisses,
          c.memoryId ∉ plan.selection.budgetCuts.map (·.memoryId)) ∧
        Answers (prepareWrite default (savedPalace.store.begin ⟨3, [30]⟩) plan) fun r =>
          ∃ card ∈ r.1.injected, card.memoryId = 7 := by decide +kernel
  obtain ⟨plan, hread, hfit, hanswer⟩ := answers_iff.mp hrun
  obtain ⟨r, hwrite, card, hcard, _⟩ := answers_iff.mp hanswer
  have hwritten : prepareWrite (default : World).env
      ((savedPalace.launch (savedPalace.store.begin ⟨2, []⟩) (.preparing plan)).store.begin
        ⟨3, [30]⟩) plan = .ok r := hwrite
  have hunique := (returned_cards_unique (savedPalace_reachable.step (step_prepare hread))
    (Palace.ops_launch _ _ _) hread hwritten).mpr ((bodiesFit_iff (w := default) hread).mpr hfit)
  exact ⟨plan, r, hwrite, card, hcard, fun calls =>
    (hunique card (List.mem_append_left _ hcard) calls).1⟩

/-- A card too dear for its gate is returned as a near miss and cut from the budget too. -/
theorem returned_card_doubled : ∃ r,
    prepare default default (savedPalace.store.begin ⟨2, [30]⟩)
      { openedGate 20 with modelContextTokens := 10 } [1] = .ok r ∧
    ∃ card ∈ r.1.nearMisses,
      (memberRows r.2 r.1.injectionId card.memoryId).length = 2 ∧
      feedback r.2 ⟨r.1.injectionId, card.memoryId, .midThreadAdded⟩ =
        .error (.decisionState "feedback membership is not unique") := by
  have hrun : Answers (prepare default default (savedPalace.store.begin ⟨2, [30]⟩)
      { openedGate 20 with modelContextTokens := 10 } [1]) fun r =>
        ∃ card ∈ r.1.nearMisses, (memberRows r.2 r.1.injectionId card.memoryId).length = 2 := by
    decide +kernel
  obtain ⟨r, hr, card, hcard, htwo⟩ := answers_iff.mp hrun
  exact ⟨r, hr, card, hcard, htwo, feedback_not_unique_iff.mpr htwo.ge⟩

end Membership

end Nocturne
