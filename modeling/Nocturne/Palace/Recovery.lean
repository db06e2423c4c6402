import Nocturne.Inject.RestoreLaws
import Nocturne.Palace.Protocol
import Nocturne.Palace.Replay

namespace Nocturne

open Nocturne.Lib Nocturne.Store Nocturne.Inject

section Thread

variable {w : World} {p p' : Palace} {call : Call} {d d' : Desk} {a : DeskAction}
  {injectionId threadId : Uuid} {principalId : String} {snapshotTs : Time}
  {rows : List InjectionEvent} {s : Store}

/-- Calls that decide nothing of one injection. -/
def Action.SparesGate (injectionId : Uuid) : Action → Prop
  | .commit command => command.injectionId ≠ injectionId
  | .feedback command => command.injectionId ≠ injectionId
  | _ => True

instance (injectionId : Uuid) : DecidablePred (Action.SparesGate injectionId)
  | .commit command => inferInstanceAs (Decidable (command.injectionId ≠ injectionId))
  | .feedback command => inferInstanceAs (Decidable (command.injectionId ≠ injectionId))
  | .create .. | .split .. | .stage .. | .resolve .. | .startPatch .. | .patch ..
  | .startExtract .. | .startSeed .. | .seedSource .. | .ingest .. | .startPass ..
  | .advance .. | .startDecision .. | .decide .. | .decideBatch .. | .prepare ..
  | .prepareWrite .. | .abandon .. => isTrue trivial

/-- Steps that decide nothing of an injection and prepare its thread no further. -/
def Leaves (injectionId threadId : Uuid) (d : Desk) : DeskAction → Prop
  | .other call => call.action.SparesGate injectionId
  | .write k _ => ∀ call ∈ d.calls[k]?, call.command.threadId ≠ threadId
  | .begin .. | .read .. => True

instance (injectionId threadId : Uuid) (d : Desk) : DecidablePred (Leaves injectionId threadId d)
  | .other call => inferInstanceAs (Decidable (call.action.SparesGate injectionId))
  | .write k _ => inferInstanceAs (Decidable (∀ call ∈ d.calls[k]?, _))
  | .begin .. | .read .. => isTrue trivial

/-- A call that spares an injection leaves its rows as they are. -/
theorem spared_of_step (hlineage : p.store.Lineage) (hprepares : ¬call.action.Prepares)
    (hspares : call.action.SparesGate injectionId) (hstep : (palace w).step p call = .ok p') :
    ∃ f : InjectionEvent → InjectionEvent, (∀ e, f e = { e with outcome := (f e).outcome }) ∧
      p'.store.events.rows = p.store.events.rows.map f ∧
      ∀ e ∈ p.store.events.rows, e.injectionId = injectionId → f e = e := by
  have hstepped := stepped_of_step hlineage hstep
  have hsame {t : Store} (h : t.events = p.store.events) :
      ∃ f : InjectionEvent → InjectionEvent, (∀ e, f e = { e with outcome := (f e).outcome }) ∧
        t.events.rows = p.store.events.rows.map f ∧
        ∀ e ∈ p.store.events.rows, e.injectionId = injectionId → f e = e :=
    ⟨id, fun _ => rfl, by rw [h, List.map_id], fun _ _ _ => rfl⟩
  by_cases hdecides : call.action.Decides
  · obtain ⟨session, action⟩ := call
    cases hstepped with
    | prepare => exact absurd trivial hprepares
    | prepareWrite => exact absurd trivial hprepares
    | @commit command r hcommit =>
      have hrows := commit_rows hcommit
      refine ⟨decidedEvent command, decidedEvent_eq command, hrows, ?_⟩
      rintro e _ rfl
      exact if_neg fun hopen => hspares hopen.1.symm
    | @feedback command _ hfeedback =>
      obtain ⟨event, hevent, ⟨_, rfl⟩ | ⟨_, hmoved⟩⟩ := feedback_eq_ok.mp hfeedback
      · exact hsame rfl
      · have hrows := hmoved.rows
        refine ⟨_, fun e => ?_, hrows, fun e he hid => if_neg fun heq => ?_⟩
        · split <;> rfl
        · have hrow : e = event := Option.some.inj ((Table.get?_of_mem he).symm.trans
            (heq ▸ Table.get?_of_mem hevent.mem.1))
          exact hspares (hevent.mem.2.1.symm.trans (hrow ▸ hid))
    | abandon => exact hsame rfl
    | _ => exact hdecides.elim
  · exact hsame ((hstepped.unlogged hdecides).events_eq (fun _ => id) fun _ _ => id)

/-- A thread whose gate is the only prepare on record for it. -/
structure Gated (s : Store) (injectionId threadId : Uuid) (principalId : String)
    (snapshotTs : Time) (rows : List InjectionEvent) : Prop where
  thread : OnThread s threadId principalId snapshotTs rows
  one : ∀ e ∈ rows, e.injectionId = injectionId
  only : rows ≠ [] → ∀ e ∈ s.events.rows, e.injectionId = injectionId → e.threadId = threadId

/-- What an accepted prepare adds to the log is its own. -/
theorem recorded_of_prepareWrite {env : Env} {s : Store} {plan : PreparePlan}
    {r : PrepareResponse × Store} (h : prepareWrite env s plan = .ok r) :
    ∃ new, r.2.events.rows = s.events.rows ++ new ∧
      (∀ e ∈ new, e.threadId = plan.command.threadId ∧ e.injectionId = r.1.injectionId) ∧
      ∀ e ∈ s.events.rows, e.injectionId ≠ r.1.injectionId := by
  obtain ⟨stamped, counted, rows, hprepared⟩ := prepareWrite_eq_ok.mp h
  obtain ⟨hrecorded, hevents⟩ := hprepared.recorded
  have hstamp := stampThread_meets.of_ok hprepared.stamp
  refine ⟨rows, hevents ▸ hrecorded.rows, fun e he => ?_, fun e he => ?_⟩
  · obtain ⟨draft, _, _, _, rfl⟩ := forall₂_of_mem_right hrecorded.drafts he
    rw [hprepared.response]
    exact ⟨rfl, rfl⟩
  · rw [hprepared.response]
    exact injectionId_ne_freshUuid (hstamp.2.1 ▸ he)

theorem Gated.step (h : Gated d.store injectionId threadId principalId snapshotTs rows)
    (hd : d.Sound w) (hleaves : Leaves injectionId threadId d a) (hstep : Desk.Stepped w d a d') :
    Gated d'.store injectionId threadId principalId snapshotTs rows := by
  cases hstep with
  | @other call q hprepares hstep =>
    obtain ⟨f, hf, hrows, hkept⟩ :=
      spared_of_step (w := w) (p := d.palace) hd.lineage hprepares hleaves hstep
    have hthread (e : InjectionEvent) : (f e).threadId = e.threadId := by rw [hf]
    have hsame : rows.map f = rows := by
      refine (List.map_congr_left fun e he => ?_).trans (List.map_id _)
      exact hkept e (h.thread.mem.mp he).1 (h.one e he)
    refine ⟨⟨h.thread.thread, ?_, h.thread.owned, h.thread.timely⟩, h.one, fun hne e he hid => ?_⟩
    · change q.store.events.rows.filter _ = rows
      rw [hrows, List.filter_map, ← hsame]
      simp only [Function.comp_def, hthread]
      exact congrArg (List.map f) h.thread.log
    · change e ∈ q.store.events.rows at he
      rw [hrows] at he
      obtain ⟨old, hold, rfl⟩ := List.mem_map.mp he
      rw [hf] at hid
      exact (hthread old).trans (h.only hne old hold hid)
  | begin | read | unread | unwritten => exact h
  | @wrote k session call snapshot plan r hk hphase hwrite =>
    have hcommand : plan.command = call.command := by
      obtain ⟨_, _, hplan⟩ := prepareRead_eq_ok.mp (hd.reading k call snapshot plan hk hphase).read
      exact hplan.seen.1
    have hne : call.command.threadId ≠ threadId := hleaves call hk
    obtain ⟨new, hlog, hnew, hfresh⟩ := recorded_of_prepareWrite hwrite
    obtain ⟨_, hattempt⟩ := attempted_of_begin hwrite
    have hlog : r.2.events.rows = d.store.events.rows ++ new := hlog
    constructor
    · obtain ⟨thread, hget, hthread⟩ := h.thread.thread
      refine ⟨⟨thread, ?_, hthread⟩, ?_, h.thread.owned, h.thread.timely⟩
      · change r.2.threads.get? threadId = some thread
        rw [hattempt.stamp.others threadId (hcommand ▸ hne.symm)]
        exact hget
      · change r.2.events.rows.filter _ = rows
        have hnone : new.filter (·.threadId = threadId) = [] := by
          rw [List.filter_eq_nil_iff]
          intro e he
          simpa [(hnew e he).1, hcommand] using hne
        rw [hlog, List.filter_append, hnone, List.append_nil]
        exact h.thread.log
    · exact h.one
    · intro hrows e he hid
      change e ∈ r.2.events.rows at he
      rw [hlog, List.mem_append] at he
      rcases he with he | he
      · exact h.only hrows e he hid
      · obtain ⟨own, hown⟩ := List.exists_mem_of_ne_nil _ hrows
        have heq : own.injectionId = r.1.injectionId :=
          (h.one own hown).trans (hid.symm.trans (hnew e he).2)
        exact absurd heq (hfresh own (h.thread.mem.mp hown).1)

theorem gated_of_run {as : List DeskAction}
    (hleaves : (desk w).Along (Leaves injectionId threadId) d as) (hd : d.Sound w)
    (h : Gated d.store injectionId threadId principalId snapshotTs rows) :
    ((desk w).run d as).Sound w ∧
      Gated ((desk w).run d as).store injectionId threadId principalId snapshotTs rows := by
  refine Machine.along_run (I := fun d : Desk => d.Sound w ∧
    Gated d.store injectionId threadId principalId snapshotTs rows) ?_ hleaves ⟨hd, h⟩
  rintro d a d' ⟨hd, h⟩ ha hstep
  have hstepped := Desk.stepped_of_step hstep
  exact ⟨hd.step hstepped, h.step hd ha hstepped⟩

/-- A memory of an injection that was also cut from its budget. -/
def AlsoCut (s : Store) (injectionId memoryId : Uuid) : Prop :=
  ∃ e ∈ s.events.rows, e.injectionId = injectionId ∧ e.memoryId = memoryId ∧
    e.shownAs = .budgetCut

instance (s : Store) (injectionId : Uuid) : DecidablePred (AlsoCut s injectionId) :=
  fun _ => inferInstanceAs (Decidable (∃ e ∈ _, _))

/-- No row is on record for a thread before its gate. -/
theorem Desk.Sound.unlogged (hd : d.Sound w)
    (hopen : ∀ thread ∈ d.store.threads.get? threadId, thread.snapshotTs = none)
    {e : InjectionEvent} (he : e ∈ d.store.events.rows) : e.threadId ≠ threadId := by
  rintro rfl
  obtain ⟨thread, hthread, _⟩ := hd.owned e he
  obtain ⟨i, call, hi, hcall⟩ := hd.stamped e.threadId thread hthread
  obtain ⟨thread', hthread', hprepared⟩ := hd.prepared i call .gate e.threadId hi hcall
  rw [hopen thread' hthread'] at hprepared
  cases hprepared

/-- The answer of a gate is all there is on record for its thread. -/
theorem gated_of_write (hd : d.Sound w) {k : Nat} {session : Session}
    (hstep : Desk.Stepped w d (.write k session) d') {new : PrepareCall}
    {response : PrepareResponse} (hnew : d'.calls[k]? = some new)
    (hanswered : new.phase = .answered response) (hgate : new.command.mode = .gate) :
    ∃ entered near cuts, GateRows new.command response entered near cuts ∧
      Gated d'.store response.injectionId new.command.threadId new.command.principalId
        response.snapshotTs (entered ++ near ++ cuts) ∧
      ∀ id, AlsoCut d'.store response.injectionId id ↔ id ∈ cuts.map (·.memoryId) := by
  cases hstep with
  | unwritten hk hphase =>
    obtain rfl := Option.some.inj ((set_self hk).symm.trans hnew)
    unfold PrepareCall.refuse at hanswered
    split at hanswered
    · dsimp only at hanswered
      split at hanswered <;> cases hanswered
    · cases hanswered
  | @wrote _ _ call snapshot plan r hk hphase hwrite =>
    obtain rfl := Option.some.inj ((set_self hk).symm.trans hnew)
    obtain rfl := PreparePhase.answered.inj hanswered
    have hread := (hd.reading k call snapshot plan hk hphase).read
    have hcommand : plan.command = call.command := by
      obtain ⟨_, _, hplan⟩ := prepareRead_eq_ok.mp hread
      exact hplan.seen.1
    obtain ⟨_, hattempt⟩ := attempted_of_begin hwrite
    have hready : ThreadReady d.store call.command := threadReady_of_read hread hattempt
    obtain ⟨stamped, counted, rows, hprepared⟩ := prepareWrite_eq_ok.mp hwrite
    obtain ⟨hrecorded, hevents⟩ := hprepared.recorded
    have hts : r.1.snapshotTs = plan.snapshotTs := congrArg (·.snapshotTs) hprepared.response
    obtain ⟨_, _, _, hfresh⟩ := recorded_of_prepareWrite hwrite
    obtain ⟨entered, near, cuts, rfl, hgateRows⟩ :=
      gateRows (prepareRead_sound hread) (hcommand ▸ hgate) hprepared
    rw [hcommand] at hgateRows
    have hlog : r.2.events.rows = d.store.events.rows ++ (entered ++ near ++ cuts) :=
      hevents ▸ hrecorded.rows
    refine ⟨entered, near, cuts, hgateRows, ⟨⟨?_, ?_, ?_, ?_⟩, hgateRows.log.one, ?_⟩,
      fun id => ?_⟩
    · obtain ⟨thread, hget, hstamp, hborn, hkept⟩ := hattempt.stamp.own
      rw [hcommand] at hget hborn hkept
      refine ⟨thread, hget, ?_, hts ▸ hstamp⟩
      cases hold : d.store.threads.get? call.command.threadId with
      | none => exact hborn hold
      | some old => exact (hkept old hold).trans (hready.owner old hold)
    · change r.2.events.rows.filter _ = _
      have hold : d.store.events.rows.filter (·.threadId = call.command.threadId) = [] := by
        rw [List.filter_eq_nil_iff]
        intro e he
        simpa using hd.unlogged (hready.gate hgate) he
      rw [hlog, List.filter_append, hold, List.nil_append, List.filter_eq_self]
      intro e he
      simpa using (hgateRows.prepared e he).1
    · exact fun e he => (hgateRows.prepared e he).2.1
    · refine (List.pairwise_map.mp hrecorded.rising).imp_of_mem fun {a b} ha hb hlt => .inr ?_
      have hsame := (hgateRows.prepared a ha).2.2.1.trans (hgateRows.prepared b hb).2.2.1.symm
      exact ⟨hsame, hlt.le⟩
    · intro _ e he hid
      change e ∈ r.2.events.rows at he
      rw [hlog, List.mem_append] at he
      rcases he with he | he
      · exact absurd hid (hfresh e he)
      · exact (hgateRows.prepared e he).1
    · constructor
      · rintro ⟨e, he, hid, rfl, hshown⟩
        change e ∈ r.2.events.rows at he
        rw [hlog, List.mem_append, List.mem_append, List.mem_append] at he
        rcases he with he | (he | he) | he
        · exact absurd hid (hfresh e he)
        · exact absurd (hshown ▸ (hgateRows.log.entry e he).1) not_entered_budgetCut
        · rw [hgateRows.log.miss e he] at hshown
          cases hshown
        · exact List.mem_map_of_mem he
      · intro hcut
        obtain ⟨e, he, rfl⟩ := List.mem_map.mp hcut
        have hmem : e ∈ entered ++ near ++ cuts := List.mem_append_right _ he
        refine ⟨e, ?_, hgateRows.log.one e hmem, rfl, (hgateRows.log.cut e he).1⟩
        change e ∈ r.2.events.rows
        rw [hlog]
        exact List.mem_append_right _ hmem

/-- After an answered gate, and whatever else happens as long as nothing is decided of it and
its thread is not prepared again, the thread restores to that answer: its snapshot, the cards it
shows, the near misses it holds back and that were not cut from the budget too, pending with no
block while it shows any card, and nothing excluded or confirmed. -/
theorem restore_recovers_gate (h : (desk w).Reachable d) {k : Nat} {session : Session}
    (hstep : (desk w).step d (.write k session) = .ok d') {new : PrepareCall}
    {response : PrepareResponse} (hnew : d'.calls[k]? = some new)
    (hanswered : new.phase = .answered response) (hgate : new.command.mode = .gate)
    {as : List DeskAction}
    (hleaves : (desk w).Along (Leaves response.injectionId new.command.threadId) d' as) :
    ∃ restored, restore ((desk w).run d' as).store new.command.threadId new.command.principalId =
        some restored ∧
      Recovers response restored ∧
      RestoresOpen response (AlsoCut d'.store response.injectionId) restored := by
  have hd := sound_of_reachable h
  have hstepped := Desk.stepped_of_step hstep
  obtain ⟨entered, near, cuts, hrows, hgated, hcut⟩ :=
    gated_of_write hd hstepped hnew hanswered hgate
  have hlater := (gated_of_run hleaves (hd.step hstepped) hgated).2
  refine ⟨_, hlater.thread.restore, ?_, hrows.restoresOpen.congr fun id => (hcut id).symm⟩
  have hrecovers := hrows.recovers (f := id) fun _ => rfl
  rwa [List.map_id] at hrecovers

/-- What a call was answered. -/
def PreparePhase.answer? : PreparePhase → Option PrepareResponse
  | .answered response => some response
  | _ => none

theorem PreparePhase.answer?_eq_some {phase : PreparePhase} {response : PrepareResponse} :
    phase.answer? = some response ↔ phase = .answered response := by
  cases phase <;> simp [answer?]

/-- A gate about to be answered, with one memory to show and one to hold back. -/
def readGate : Desk :=
  (desk default).run ⟨plainPalace, []⟩
    [.other ⟨⟨1, [7, 70]⟩, .create (savedMemory "tea" "drinks tea") [1]⟩,
      .other ⟨⟨2, [8, 80]⟩, .create (savedMemory "cake" "bakes lemon pies") [2]⟩,
      .begin (openedGate 20) [1], .read 0 ⟨3, []⟩]

theorem readGate_reachable : (desk default).Reachable readGate :=
  ⟨⟨plainPalace, []⟩, _, ⟨⟨_, rfl⟩, rfl⟩, rfl⟩

attribute [irreducible] readGate

/-- What happens on the desk before the gate is decided. -/
def meanwhile : List DeskAction :=
  [.other ⟨⟨5, [9, 90]⟩, .create (savedMemory "jam" "likes plum jam") [3]⟩,
    .begin (openedGate 21) [1], .read 1 ⟨6, []⟩, .write 1 ⟨7, [50, 51, 52, 53]⟩]

/-- A gate is restored while another memory is saved and another conversation opened. -/
theorem restore_recovers_gate_meanwhile : ∃ d' restored,
    (desk default).step readGate (.write 0 ⟨4, [30, 31, 32]⟩) = .ok d' ∧
    restore ((desk default).run d' meanwhile).store 20 (openedGate 20).principalId =
      some restored ∧
    restored.pending = true ∧ restored.prepared.injected.map (·.memoryId) = [7] ∧
    restored.prepared.nearMisses.map (·.memoryId) = [8] := by
  have hrun : Answers ((desk default).step readGate (.write 0 ⟨4, [30, 31, 32]⟩)) fun d' =>
      ∃ new ∈ d'.calls[0]?, new.command = openedGate 20 ∧ ∃ response ∈ new.phase.answer?,
        (desk default).Along (Leaves response.injectionId 20) d' meanwhile ∧
        response.injected.map (·.memoryId) = [7] ∧
        (response.nearMisses.filter fun card =>
          ¬AlsoCut d'.store response.injectionId card.memoryId).map (·.memoryId) = [8] := by
    decide +kernel
  obtain ⟨d', hstep, new, hnew, hcommand, response, hanswer, hleaves, hinjected, hnear⟩ :=
    answers_iff.mp hrun
  rw [Option.mem_def, PreparePhase.answer?_eq_some] at hanswer
  have hgate : new.command.mode = .gate := by rw [hcommand]; rfl
  have hthread : new.command.threadId = 20 := by rw [hcommand]; rfl
  obtain ⟨restored, hrestored, _, hopen⟩ := restore_recovers_gate readGate_reachable hstep hnew
    hanswer hgate (hthread ▸ hleaves)
  rw [hcommand] at hrestored
  have hpending : restored.pending = true := by
    rw [hopen.pending]
    rintro hnil
    rw [hnil] at hinjected
    cases hinjected
  exact ⟨d', restored, hstep, hrestored, hpending, by rw [hopen.injected, hinjected],
    by rw [hopen.nearMisses, hnear]⟩

section Commit

variable {command : PrepareCommand} {response : PrepareResponse} {decision : CommitCommand}
  {entered near cuts : List InjectionEvent} {session : Session} {r : CommitResponse × Store}

/-- A commit decides the rows of its gate and moves no other row of the thread. -/
theorem Gated.commit (h : Gated s injectionId threadId principalId snapshotTs rows)
    (hcommit : commit s decision = .ok r) :
    Gated { r.2 with threads := s.threads } injectionId threadId principalId snapshotTs
      (rows.map (decidedEvent decision)) := by
  have hkeeps (e : InjectionEvent) : (decidedEvent decision e).threadId = e.threadId ∧
      (decidedEvent decision e).injectionId = e.injectionId ∧
      (decidedEvent decision e).principalId = e.principalId ∧
      (decidedEvent decision e).ts = e.ts := by
    rw [decidedEvent_eq]
    exact ⟨rfl, rfl, rfl, rfl⟩
  have hlog := commit_rows hcommit
  refine ⟨⟨h.thread.thread, ?_, ?_, ?_⟩, ?_, fun hne e he hid => ?_⟩
  · change r.2.events.rows.filter _ = _
    rw [hlog, List.filter_map, ← h.thread.log]
    simp only [Function.comp_def, hkeeps]
  · intro e he
    obtain ⟨old, hold, rfl⟩ := List.mem_map.mp he
    exact (hkeeps old).2.2.1.trans (h.thread.owned old hold)
  · rw [List.pairwise_map]
    refine h.thread.timely.imp fun {a b} hab => ?_
    simpa only [hkeeps, decidedEvent_id] using hab
  · intro e he
    obtain ⟨old, hold, rfl⟩ := List.mem_map.mp he
    exact (hkeeps old).2.1.trans (h.one old hold)
  · change e ∈ r.2.events.rows at he
    rw [hlog] at he
    obtain ⟨old, hold, rfl⟩ := List.mem_map.mp he
    rw [(hkeeps old).1]
    exact h.only (fun hnil => hne (by rw [hnil]; rfl)) old hold ((hkeeps old).2.1.symm.trans hid)

/-- The batch a commit loads is the gate's rows, cuts left out. -/
theorem Gated.members_perm
    (h : Gated s response.injectionId threadId principalId snapshotTs (entered ++ near ++ cuts))
    (hrows : GateRows command response entered near cuts) (hne : entered ++ near ≠ []) :
    (members (loadBatch s response.injectionId)).Perm (entered ++ near) := by
  have hbatch : s.events.rows.filter (·.injectionId = response.injectionId) =
      entered ++ near ++ cuts := by
    refine (List.filter_congr fun e he => ?_).trans h.thread.log
    rw [decide_eq_decide]
    constructor
    · exact h.only (List.append_ne_nil_of_left_ne_nil hne cuts) e he
    · exact fun hthread => h.one e (h.thread.mem.mpr ⟨he, hthread⟩)
  have hkept : (entered ++ near).filter (·.shownAs ≠ .budgetCut) = entered ++ near := by
    rw [List.filter_eq_self]
    intro e he
    rw [decide_eq_true_eq]
    intro hshown
    rcases List.mem_append.mp he with he | he
    · exact not_entered_budgetCut (hshown ▸ (hrows.log.entry e he).1)
    · rw [hrows.log.miss e he] at hshown
      cases hshown
  have hcuts : cuts.filter (·.shownAs ≠ .budgetCut) = [] := by
    rw [List.filter_eq_nil_iff]
    intro e he
    simp [(hrows.log.cut e he).1]
  have hperm : (loadBatch s response.injectionId).Perm (entered ++ near ++ cuts) :=
    (List.perm_insertionSort _ _).trans (.of_eq hbatch)
  have hmembers := hperm.filter fun e => decide (e.shownAs ≠ .budgetCut)
  rwa [List.filter_append, hkept, hcuts, List.append_nil] at hmembers

theorem step_commit (hcommit : commit (d.store.begin session) decision = .ok r) :
    (desk w).step d (.other ⟨session, .commit decision⟩) =
      .ok { d with palace := ⟨{ r.2 with threads := d.store.threads }, d.palace.ops⟩ } := by
  have hpalace : d.palace.step w ⟨session, .commit decision⟩ = .ok ⟨r.2, d.palace.ops⟩ := by
    have hbegun : Inject.commit (d.palace.store.begin session) decision = .ok r := hcommit
    simp only [Palace.step, hbegun]
    rfl
  have hprepares : ¬(Action.commit decision).Prepares := id
  simp only [desk, Desk.step, ensure_pos hprepares, ok_bind, hpalace]
  rfl

/-- After an accepted commit of a gate that showed or held back any card, and whatever else
happens as long as nothing more is decided of it and its thread is not prepared again, the thread
restores to what the command left of the gate, memories also cut from the budget left out, and to
the block the commit answered exactly when it added no such memory back. -/
theorem restore_recovers_commit (h : (desk w).Reachable d) {k : Nat} {session session' : Session}
    (hstep : (desk w).step d (.write k session) = .ok d') {new : PrepareCall}
    {response : PrepareResponse} (hnew : d'.calls[k]? = some new)
    (hanswered : new.phase = .answered response) (hgate : new.command.mode = .gate)
    (hshown : response.injected ++ response.nearMisses ≠ []) {as bs : List DeskAction}
    (hleaves : (desk w).Along (Leaves response.injectionId new.command.threadId) d' as)
    {decision : CommitCommand} (hid : decision.injectionId = response.injectionId)
    {r : CommitResponse × Store}
    (hcommit : commit (((desk w).run d' as).store.begin session') decision = .ok r)
    (hleaves' : (desk w).Along (Leaves response.injectionId new.command.threadId)
      ((desk w).run d' (as ++ [.other ⟨session', .commit decision⟩])) bs) :
    ∃ restored, restore ((desk w).run d'
        (as ++ [.other ⟨session', .commit decision⟩] ++ bs)).store
          new.command.threadId new.command.principalId = some restored ∧
      Recovers response restored ∧
      RestoresDecided response decision (AlsoCut d'.store response.injectionId) restored ∧
      (restored.prepared.finalBlock = some r.1.finalBlock ↔
        ∀ id ∈ decision.addedBack, ¬AlsoCut d'.store response.injectionId id) := by
  have hd := sound_of_reachable h
  have hstepped := Desk.stepped_of_step hstep
  obtain ⟨entered, near, cuts, hrows, hgated, hcut⟩ :=
    gated_of_write hd hstepped hnew hanswered hgate
  obtain ⟨hd₁, hopen⟩ := gated_of_run hleaves (hd.step hstepped) hgated
  have hne : entered ++ near ≠ [] := by
    rw [← hrows.injected, ← hrows.nearMisses, ← List.map_append] at hshown
    exact fun hnil => hshown (by rw [hnil]; rfl)
  generalize hd₁' : (desk w).run d' as = d₁ at hd₁ hopen hcommit
  have hbegun : Gated (d₁.store.begin session') response.injectionId new.command.threadId
      new.command.principalId response.snapshotTs (entered ++ near ++ cuts) :=
    ⟨⟨hopen.thread.thread, hopen.thread.log, hopen.thread.owned, hopen.thread.timely⟩,
      hopen.one, hopen.only⟩
  have hperm := hbegun.members_perm hrows hne
  rw [← hid] at hperm
  have hplan := (commit_plannable hcommit).perm hperm
  have hbatch : loadBatch (d₁.store.begin session') decision.injectionId ≠ [] := by
    intro hnil
    rw [hnil] at hperm
    exact hne hperm.symm.eq_nil
  have hdecided := hbegun.commit hcommit
  have hstep₁ := step_commit (w := w) hcommit
  have hrun : (desk w).run d' (as ++ [.other ⟨session', .commit decision⟩]) =
      { d₁ with palace := ⟨{ r.2 with threads := d₁.store.threads }, d₁.palace.ops⟩ } := by
    rw [Machine.run_append, hd₁', Machine.run_cons, Machine.next_of_ok hstep₁, Machine.run_nil]
  rw [hrun] at hleaves'
  have hlater := (gated_of_run hleaves' (hd₁.step (Desk.stepped_of_step hstep₁)) hdecided).2
  rw [Machine.run_append, hrun]
  have hrestores := hrows.restoresDecided hid hplan
  refine ⟨_, hlater.thread.restore, hrows.recovers (decidedEvent_eq decision),
    hrestores.congr fun id => (hcut id).symm, ?_⟩
  have hids : ((((entered ++ near).map (decidedEvent decision)).filter fun e =>
      ∃ o ∈ e.outcome, o.Positive).map (·.memoryId)).Nodup := by
    refine (List.filter_sublist.map _).nodup ?_
    rw [List.map_map]
    have hsame : (entered ++ near).map ((·.memoryId) ∘ decidedEvent decision) =
        (entered ++ near).map (·.memoryId) :=
      List.map_congr_left fun e _ => by rw [Function.comp_apply, decidedEvent_eq]
    rw [hsame]
    exact hrows.log.nodup
  have hblock := (commit_block hcommit hbatch).trans
    (renderFinalBlock_perm ((hperm.map (decidedEvent decision)).filter _) hids)
  have hfinal : (restoredFrom new.command.threadId response.snapshotTs
      ((entered ++ near ++ cuts).map (decidedEvent decision))).prepared.finalBlock =
        some (renderFinalBlock (restoreLog
          ((entered ++ near ++ cuts).map (decidedEvent decision))).selected) :=
    if_neg fun hpending => Bool.noConfusion (hrestores.pending.symm.trans hpending)
  rw [hfinal, hblock, Option.some.injEq, eq_comm, hrows.block_iff hid hplan]
  exact forall₂_congr fun id _ => not_congr (hcut id).symm

/-- A gate whose held memory was added back is restored to the block its commit answered. -/
theorem restore_recovers_commit_added : ∃ d' restored, ∃ r : CommitResponse × Store,
    (desk default).step readGate (.write 0 ⟨4, [30, 31, 32]⟩) = .ok d' ∧
    commit (((desk default).run d' meanwhile).store.begin ⟨8, [60, 61, 62]⟩) ⟨30, [], [8]⟩ =
      .ok r ∧
    restore ((desk default).run d' (meanwhile ++
      [.other ⟨⟨8, [60, 61, 62]⟩, .commit ⟨30, [], [8]⟩⟩] ++ [])).store 20
        (openedGate 20).principalId = some restored ∧
    restored.prepared.injected.map (·.memoryId) = [7, 8] ∧
    restored.prepared.finalBlock = some r.1.finalBlock := by
  have hrun : Answers ((desk default).step readGate (.write 0 ⟨4, [30, 31, 32]⟩)) fun d' =>
      (∃ new ∈ d'.calls[0]?, new.command = openedGate 20 ∧ ∃ response ∈ new.phase.answer?,
        response.injectionId = 30 ∧
        (desk default).Along (Leaves response.injectionId 20) d' meanwhile ∧
        response.injected.map (·.memoryId) = [7] ∧ response.nearMisses.map (·.memoryId) = [8] ∧
        (response.nearMisses.filter fun card => card.memoryId ∈ [8] ∧
          ¬AlsoCut d'.store response.injectionId card.memoryId).map (·.memoryId) = [8] ∧
        ¬AlsoCut d'.store response.injectionId 8) ∧
      Answers (commit (((desk default).run d' meanwhile).store.begin ⟨8, [60, 61, 62]⟩)
        ⟨30, [], [8]⟩) fun _ => True := by
    decide +kernel
  obtain ⟨d', hstep, ⟨new, hnew, hcommand, response, hanswer, hid, hleaves, hinjected, hnear,
    hadded, huncut⟩, hcommitted⟩ := answers_iff.mp hrun
  obtain ⟨r, hcommit, _⟩ := answers_iff.mp hcommitted
  rw [Option.mem_def, PreparePhase.answer?_eq_some] at hanswer
  have hgate : new.command.mode = .gate := by rw [hcommand]; rfl
  have hthread : new.command.threadId = 20 := by rw [hcommand]; rfl
  have hshown : response.injected ++ response.nearMisses ≠ [] := by
    intro hnil
    rw [(List.append_eq_nil_iff.mp hnil).1] at hinjected
    cases hinjected
  have hnothing (d : Desk) :
      (desk default).Along (Leaves response.injectionId new.command.threadId) d [] := trivial
  obtain ⟨restored, hrestored, _, hdecided, hblock⟩ := restore_recovers_commit readGate_reachable
    hstep hnew hanswer hgate hshown (hthread ▸ hleaves) hid.symm hcommit (hnothing _)
  rw [hcommand] at hrestored
  refine ⟨d', restored, r, hstep, hcommit, hrestored, ?_, hblock.mpr ?_⟩
  · rw [hdecided.injected, List.map_append, hadded]
    simp [hinjected]
  · intro id hid
    rw [List.mem_singleton.mp hid]
    exact huncut

end Commit

end Thread

end Nocturne
