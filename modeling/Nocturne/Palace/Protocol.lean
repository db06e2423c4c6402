import Mathlib.Algebra.Order.BigOperators.Group.List
import Nocturne.Palace.Prepares

namespace Nocturne

open Nocturne.Lib Nocturne.Store Nocturne.Inject

section Vetoes

variable {w : World} {p p' : Palace} {call : Call} {threadId memoryId : Uuid}

theorem told_neverKills_nonneg (s : Store) (e : InjectionEvent) : 0 ≤ told s .neverKills e := by
  unfold told worth
  split
  · simp
  · split
    · exact le_rfl
    · dsimp only
      split <;> simp
  · exact le_rfl

/-- A veto is counted on its head, which moves on by a revision. -/
theorem head_moves_of_veto (hlineage : p.store.Lineage) (hprepares : ¬call.action.Prepares)
    (hstep : (palace w).step p call = .ok p') {u : MemoryUnit}
    (hu : p.store.units.get? memoryId = some u) (hveto : Vetoed p'.store threadId memoryId)
    (hnot : ¬Vetoed p.store threadId memoryId) :
    ∃ u', p'.store.units.get? memoryId = some u' ∧ u.revision < u'.revision := by
  obtain ⟨f, hrows⟩ := outcomes_of_step hlineage hprepares hstep
  by_cases hdecides : call.action.Decides
  · obtain ⟨e', he', hthread, hmemory, houtcome⟩ := hveto
    have hmem := he'
    rw [hrows] at hmem
    obtain ⟨e, he, rfl⟩ := List.mem_map.mp hmem
    have hold : e.outcome ≠ some (.removed .never) :=
      fun hnever => hnot ⟨e, he, hthread, hmemory, hnever⟩
    have htold : told p.store .neverKills { e with outcome := f e } = 1 := by
      have hget := Table.get?_of_mem he
      dsimp only at houtcome hget
      simp only [told, houtcome, hget, if_neg hold, worth, if_pos]
    have hone : 1 ≤ observed .neverKills memoryId p.store p'.store := by
      unfold observed
      have hmemTold : (1 : ℚ) ∈ p'.store.events.rows.map fun e =>
          if e.memoryId = memoryId then told p.store .neverKills e else 0 :=
        List.mem_map.mpr ⟨_, he', by rw [if_pos hmemory, htold]⟩
      refine List.single_le_sum ?_ _ hmemTold
      intro x hx
      obtain ⟨e, _, rfl⟩ := List.mem_map.mp hx
      split
      · exact told_neverKills_nonneg _ _
      · exact le_rfl
    obtain ⟨u', hu', hdesc⟩ := (writes_of_step hlineage hstep).descends hu
    refine ⟨u', hu', lt_of_le_of_ne hdesc.le fun heq => ?_⟩
    have hcounted := (accounted_of_step hlineage hdecides hstep).counted .neverKills memoryId
    rw [headCount, headCount, hu, hu', hdesc.same heq.symm] at hcounted
    linarith
  · have hevents : p'.store.events = p.store.events :=
      ((stepped_of_step hlineage hstep).unlogged hdecides).events_eq (fun _ => id) fun _ _ => id
    exact absurd (by simpa only [Vetoed, hevents] using hveto) hnot

/-- No outcome follows a veto. -/
theorem not_edge_never {shownAs : ShownAs} {o : Outcome} :
    ¬Edge shownAs (some (.removed .never)) o := by
  intro h
  cases h with
  | midThreadRemoved ho => simp at ho
  | cited ho => simp at ho

theorem veto_stays (hlineage : p.store.Lineage) (hstep : (palace w).step p call = .ok p')
    (hveto : Vetoed p.store threadId memoryId) : Vetoed p'.store threadId memoryId := by
  by_cases hdecides : call.action.Decides
  · obtain ⟨e, he, hthread, hmemory, houtcome⟩ := hveto
    obtain ⟨outcome, hget, hmoved⟩ := (accounted_of_step hlineage hdecides hstep).moved e he
    refine ⟨_, Table.mem_of_get? hget, hthread, hmemory, ?_⟩
    rcases hmoved with rfl | ⟨o, rfl, hedge⟩
    · exact houtcome
    · rw [houtcome] at hedge
      exact absurd hedge not_edge_never
  · have hevents : p'.store.events = p.store.events :=
      ((stepped_of_step hlineage hstep).unlogged hdecides).events_eq (fun _ => id) fun _ _ => id
    rwa [Vetoed, hevents]

end Vetoes

section Moves

variable {w : World} {d d' : Desk} {a : DeskAction}

/-- What any step does to heads and vetoes. -/
structure Moves (s t : Store) : Prop where
  heads : HeadsRise s t
  moved : ∀ threadId memoryId u, s.units.get? memoryId = some u → Vetoed t threadId memoryId →
    ¬Vetoed s threadId memoryId →
      ∃ u', t.units.get? memoryId = some u' ∧ u.revision < u'.revision
  vetoes : ∀ threadId memoryId, Vetoed s threadId memoryId → Vetoed t threadId memoryId

theorem Moves.refl (s : Store) : Moves s s :=
  ⟨.refl s, fun _ _ _ _ hveto hnot => absurd hveto hnot, fun _ _ => id⟩

theorem moves_other (hlineage : d.store.Lineage) {call : Call} {q : Palace}
    (hprepares : ¬call.action.Prepares) (hstep : d.palace.step w call = .ok q) :
    Moves d.store { q.store with threads := d.store.threads } where
  heads _ _ hu := (writes_of_step (w := w) (p := d.palace) hlineage hstep).descends hu
  moved _ _ _ hu := head_moves_of_veto (w := w) (p := d.palace) hlineage hprepares hstep hu
  vetoes _ _ := veto_stays (w := w) (p := d.palace) hlineage hstep

theorem moves_write (hlineage : d.store.Lineage) {session : Session} {snapshot : Store}
    {call : PrepareCall} {plan : PreparePlan} {r : PrepareResponse × Store}
    (hread : prepareRead w.env w.scoring snapshot call.command call.query = .ok plan)
    (hwrite : prepareWrite w.env (d.store.begin session) plan = .ok r) : Moves d.store r.2 := by
  have hbegun : (d.store.begin session).Lineage := hlineage.congr rfl rfl
  obtain ⟨rows, hattempt⟩ := attempted_of_begin hwrite
  constructor
  · intro memoryId u hu
    exact ((prepareWrite_meets hbegun).of_ok hwrite).descends (s := d.store.begin session) hu
  · intro threadId memoryId u _ hveto hnot
    obtain ⟨e, he, hthread, hmemory, houtcome⟩ := hveto
    rw [hattempt.log, List.mem_append] at he
    rcases he with he | he
    · exact absurd ⟨e, he, hthread, hmemory, houtcome⟩ hnot
    · exact absurd houtcome (row_issued hread hattempt.drafted he).outcome
  · rintro threadId memoryId ⟨e, he, hveto⟩
    refine ⟨e, ?_, hveto⟩
    rw [hattempt.log]
    exact List.mem_append_left _ he

/-- What an attempt in flight can rely on: its snapshot, and the store since. -/
structure ReadSince (w : World) (s : Store) (call : PrepareCall) (snapshot : Store)
    (plan : PreparePlan) : Prop where
  read : prepareRead w.env w.scoring snapshot call.command call.query = .ok plan
  owned : Owned snapshot
  heads : HeadsRise snapshot s
  moved : ∀ threadId memoryId u, snapshot.units.get? memoryId = some u →
    Vetoed s threadId memoryId → ¬Vetoed snapshot threadId memoryId →
      ∃ u', s.units.get? memoryId = some u' ∧ u.revision < u'.revision

theorem ReadSince.move {s t snapshot : Store} {call : PrepareCall} {plan : PreparePlan}
    (h : ReadSince w s call snapshot plan) (hmoves : Moves s t) :
    ReadSince w t call snapshot plan where
  read := h.read
  owned := h.owned
  heads := h.heads.trans hmoves.heads
  moved threadId memoryId u hu hveto hnot := by
    by_cases hbefore : Vetoed s threadId memoryId
    · obtain ⟨u', hu', hlt⟩ := h.moved threadId memoryId u hu hbefore hnot
      obtain ⟨u'', hu'', hdesc⟩ := hmoves.heads memoryId u' hu'
      exact ⟨u'', hu'', hlt.trans_le hdesc.le⟩
    · obtain ⟨u', hu', hdesc⟩ := h.heads memoryId u hu
      obtain ⟨u'', hu'', hlt⟩ := hmoves.moved threadId memoryId u' hu' hveto hbefore
      exact ⟨u'', hu'', hdesc.le.trans_lt hlt⟩

/-- A call that got its answer. -/
def PrepareCall.Succeeded (call : PrepareCall) (mode : Mode) (threadId : Uuid) : Prop :=
  call.command.mode = mode ∧ call.command.threadId = threadId ∧
    ∃ response, call.phase = .answered response

instance (phase : PreparePhase) : Decidable (∃ response, phase = .answered response) :=
  match phase with
  | .answered response => isTrue ⟨response, rfl⟩
  | .ready | .reading .. | .failed _ => isFalse fun ⟨_, h⟩ => PreparePhase.noConfusion h

instance (call : PrepareCall) (mode : Mode) (threadId : Uuid) :
    Decidable (call.Succeeded mode threadId) := inferInstanceAs (Decidable (_ ∧ _))

/-- What holds of a desk at all times. -/
structure Desk.Sound (w : World) (d : Desk) : Prop where
  lineage : d.store.Lineage
  owned : Owned d.store
  stamped : ∀ threadId thread, d.store.threads.get? threadId = some thread →
    ∃ (i : Nat) (call : PrepareCall), d.calls[i]? = some call ∧ call.Succeeded .gate threadId
  prepared : ∀ (i : Nat) (call : PrepareCall) mode threadId, d.calls[i]? = some call →
    call.Succeeded mode threadId →
      ∃ thread ∈ d.store.threads.get? threadId, thread.snapshotTs.isSome
  reading : ∀ (i : Nat) (call : PrepareCall) snapshot plan, d.calls[i]? = some call →
    call.phase = .reading snapshot plan → ReadSince w d.store call snapshot plan
  once : ∀ (i j : Nat) (ci cj : PrepareCall) threadId, d.calls[i]? = some ci →
    d.calls[j]? = some cj → ci.Succeeded .gate threadId → cj.Succeeded .gate threadId → i = j

/-- A call moves, and no call gets an answer by it. -/
structure Desk.Idle (d d' : Desk) : Prop where
  palace : d'.palace = d.palace
  kept : ∀ (i : Nat) (call : PrepareCall) mode threadId, d.calls[i]? = some call →
    call.Succeeded mode threadId → d'.calls[i]? = some call
  succeeded : ∀ (i : Nat) (call : PrepareCall) mode threadId, d'.calls[i]? = some call →
    call.Succeeded mode threadId → d.calls[i]? = some call

theorem PrepareCall.not_succeeded_refuse {call : PrepareCall} {error : SpineError} {mode : Mode}
    {threadId : Uuid} : ¬(call.refuse error).Succeeded mode threadId := by
  rintro ⟨_, _, response, hphase⟩
  unfold PrepareCall.refuse at hphase
  split at hphase
  · dsimp only at hphase
    split at hphase <;> cases hphase
  · cases hphase

theorem PrepareCall.refuse_phase_ne {call : PrepareCall} {error : SpineError} {snapshot : Store}
    {plan : PreparePlan} : (call.refuse error).phase ≠ .reading snapshot plan := by
  unfold PrepareCall.refuse
  split
  · dsimp only
    split <;> exact PreparePhase.noConfusion
  · exact PreparePhase.noConfusion

theorem PrepareCall.start_phase_ne {command : PrepareCommand} {query : Embedding}
    {snapshot : Store} {plan : PreparePlan} :
    (PrepareCall.start command query).phase ≠ .reading snapshot plan := by
  unfold PrepareCall.start
  dsimp only
  split <;> exact PreparePhase.noConfusion

theorem PrepareCall.not_succeeded_start {command : PrepareCommand} {query : Embedding}
    {mode : Mode} {threadId : Uuid} :
    ¬(PrepareCall.start command query).Succeeded mode threadId := by
  rintro ⟨_, _, response, hphase⟩
  unfold PrepareCall.start at hphase
  dsimp only at hphase
  split at hphase <;> cases hphase

theorem Desk.idle_begin {command : PrepareCommand} {query : Embedding} :
    d.Idle { d with calls := d.calls ++ [.start command query] } where
  palace := rfl
  kept _ _ _ _ hi _ := begun_other hi
  succeeded i call mode threadId hi hcall := by
    rcases begun_cases hi with ⟨_, rfl⟩ | hi
    · exact absurd hcall PrepareCall.not_succeeded_start
    · exact hi

theorem Desk.idle_become {k : Nat} {old new : PrepareCall} (hold : d.calls[k]? = some old)
    (hopen : ∀ mode threadId, ¬old.Succeeded mode threadId)
    (hnew : ∀ mode threadId, ¬new.Succeeded mode threadId) : d.Idle (d.become k new) where
  palace := rfl
  kept i call mode threadId hi hcall := by
    refine set_other ?_ hi
    rintro rfl
    obtain rfl := Option.some.inj (hold.symm.trans hi)
    exact hopen mode threadId hcall
  succeeded i call mode threadId hi hcall := by
    rcases set_cases hi with ⟨_, rfl⟩ | ⟨_, hi⟩
    · exact absurd hcall (hnew mode threadId)
    · exact hi

theorem Desk.Idle.sound (h : d.Idle d') (hd : d.Sound w)
    (hreading : ∀ (i : Nat) (call : PrepareCall) snapshot plan, d'.calls[i]? = some call →
      call.phase = .reading snapshot plan → ReadSince w d.store call snapshot plan) :
    d'.Sound w := by
  have hstore : d'.store = d.store := congrArg (·.store) h.palace
  constructor
  · rw [hstore]
    exact hd.lineage
  · rw [hstore]
    exact hd.owned
  · rw [hstore]
    intro threadId thread hthread
    obtain ⟨i, call, hi, hcall⟩ := hd.stamped threadId thread hthread
    exact ⟨i, call, h.kept i call _ _ hi hcall, hcall⟩
  · rw [hstore]
    intro i call mode threadId hi hcall
    exact hd.prepared i call mode threadId (h.succeeded i call mode threadId hi hcall) hcall
  · rw [hstore]
    exact hreading
  · intro i j ci cj threadId hi hj hci hcj
    exact hd.once i j ci cj threadId (h.succeeded i ci _ _ hi hci) (h.succeeded j cj _ _ hj hcj)
      hci hcj

theorem Desk.Sound.other (hd : d.Sound w) {call : Call} {q : Palace}
    (hprepares : ¬call.action.Prepares) (hstep : d.palace.step w call = .ok q) :
    Desk.Sound w { d with palace := ⟨{ q.store with threads := d.store.threads }, q.ops⟩ } := by
  have hmoves := moves_other hd.lineage hprepares hstep
  constructor
  · have hwrites := writes_of_step (w := w) (p := d.palace) hd.lineage hstep
    exact (hwrites.lineage hd.lineage).congr rfl rfl
  · obtain ⟨f, hrows⟩ := outcomes_of_step (w := w) (p := d.palace) hd.lineage hprepares hstep
    intro e he
    have hmem : e ∈ d.palace.store.events.rows.map fun e => { e with outcome := f e } :=
      hrows ▸ he
    obtain ⟨old, hold, rfl⟩ := List.mem_map.mp hmem
    exact hd.owned old hold
  · exact hd.stamped
  · exact hd.prepared
  · intro i call snapshot plan hi hphase
    exact (hd.reading i call snapshot plan hi hphase).move hmoves
  · exact hd.once

/-- What the snapshot of an accepted attempt said of its thread, which nobody has touched since. -/
structure ThreadReady (s : Store) (command : PrepareCommand) : Prop where
  owner : ∀ thread ∈ s.threads.get? command.threadId, thread.principalId = command.principalId
  gate : command.mode = .gate →
    ∀ thread ∈ s.threads.get? command.threadId, thread.snapshotTs = none
  autonomous : command.mode = .autonomous → ∃ thread, s.threads.get? command.threadId = some thread

theorem threadReady_of_read {s snapshot t : Store} {command : PrepareCommand} {query : Embedding}
    {plan : PreparePlan} {rows : List InjectionEvent}
    (hread : prepareRead w.env w.scoring snapshot command query = .ok plan)
    (hattempt : Attempted w.env s plan rows t) : ThreadReady s command := by
  obtain ⟨_, _, hplan⟩ := prepareRead_eq_ok.mp hread
  have hchecked := hplan.thread
  have hseen := hattempt.seen
  rw [hplan.seen.1, hplan.seen.2.2] at hseen
  rw [← hseen] at hchecked
  cases hthread : s.threads.get? command.threadId with
  | none =>
    rw [hthread] at hchecked
    simp only [checkThread, ensure_eq_ok] at hchecked
    refine ⟨?_, ?_, fun hmode => absurd hmode hchecked⟩ <;> simp [hthread]
  | some existing =>
    rw [hthread] at hchecked
    simp only [checkThread, bind_eq_ok, ensure_eq_ok] at hchecked
    obtain ⟨_, ⟨howner, _⟩, _, hgate, _⟩ := hchecked
    refine ⟨?_, ?_, fun _ => ⟨existing, hthread⟩⟩
    · rintro thread hget
      obtain rfl := Option.some.inj (hthread.symm.trans hget)
      exact howner
    · rintro hmode thread hget
      obtain rfl := Option.some.inj (hthread.symm.trans hget)
      by_contra hsome
      exact hgate ⟨hmode, Option.isSome_iff_ne_none.mpr hsome⟩

theorem Desk.Sound.wrote (hd : d.Sound w) {k : Nat} {session : Session} {call : PrepareCall}
    {snapshot : Store} {plan : PreparePlan} {r : PrepareResponse × Store}
    (hk : d.calls[k]? = some call) (hphase : call.phase = .reading snapshot plan)
    (hwrite : prepareWrite w.env (d.store.begin session) plan = .ok r) :
    (d.commit r.2 k { call with phase := .answered r.1 }).Sound w := by
  have hreading := hd.reading k call snapshot plan hk hphase
  have hmoves := moves_write hd.lineage hreading.read hwrite
  obtain ⟨rows, hattempt⟩ := attempted_of_begin hwrite
  have hready : ThreadReady d.store call.command := threadReady_of_read hreading.read hattempt
  have hcommand : plan.command = call.command := by
    obtain ⟨_, _, hplan⟩ := prepareRead_eq_ok.mp hreading.read
    exact hplan.seen.1
  have hstamp := hattempt.stamp
  obtain ⟨own, hown, hownTs, hownNew, hownOld⟩ := hstamp.own
  rw [hcommand] at hown hownNew hownOld
  have hothers (threadId : Uuid) (hne : threadId ≠ call.command.threadId) :
      r.2.threads.get? threadId = d.store.threads.get? threadId :=
    hstamp.others threadId (hcommand ▸ hne)
  -- an answered call is not the one that was reading
  have hother {i : Nat} {old : PrepareCall} {mode : Mode} {threadId : Uuid}
      (hi : d.calls[i]? = some old) (hold : old.Succeeded mode threadId) : k ≠ i := by
    rintro rfl
    obtain rfl := Option.some.inj (hk.symm.trans hi)
    obtain ⟨_, _, response, hanswered⟩ := hold
    rw [hphase] at hanswered
    cases hanswered
  have hfresh {i : Nat} {old : PrepareCall} {threadId : Uuid} (hi : d.calls[i]? = some old)
      (hold : old.Succeeded .gate threadId)
      (hnew : PrepareCall.Succeeded { call with phase := .answered r.1 } .gate threadId) :
      False := by
    obtain ⟨hmode, rfl, _⟩ := hnew
    obtain ⟨thread, hthread, hsome⟩ := hd.prepared i old .gate _ hi hold
    rw [hready.gate hmode thread hthread] at hsome
    cases hsome
  have hbegun : (d.store.begin session).Lineage := hd.lineage.congr rfl rfl
  constructor
  · exact ((prepareWrite_meets hbegun).of_ok hwrite).lineage hbegun
  · intro e he
    have hmem : e ∈ r.2.events.rows := he
    rw [hattempt.log, List.mem_append] at hmem
    rcases hmem with hold | hnew
    · obtain ⟨thread, hthread, hprincipal⟩ := hd.owned e hold
      by_cases heq : e.threadId = call.command.threadId
      · rw [heq] at hthread ⊢
        exact ⟨own, hown, (hownOld thread hthread).trans hprincipal⟩
      · exact ⟨thread, (hothers _ heq).trans hthread, hprincipal⟩
    · obtain ⟨hthread, hprincipal⟩ := (row_issued hreading.read hattempt.drafted hnew).thread
      rw [hthread, hprincipal]
      refine ⟨own, hown, ?_⟩
      cases hbefore : d.store.threads.get? call.command.threadId with
      | none => exact hownNew hbefore
      | some old => exact (hownOld old hbefore).trans (hready.owner old hbefore)
  · intro threadId thread hthread
    by_cases heq : threadId = call.command.threadId
    · subst heq
      cases hmode : call.command.mode with
      | gate => exact ⟨k, _, set_self hk, hmode, rfl, r.1, rfl⟩
      | autonomous =>
        obtain ⟨old, hold⟩ := hready.autonomous hmode
        obtain ⟨i, first, hi, hfirst⟩ := hd.stamped _ old hold
        exact ⟨i, first, set_other (hother hi hfirst) hi, hfirst⟩
    · obtain ⟨i, first, hi, hfirst⟩ :=
        hd.stamped threadId thread ((hothers _ heq).symm.trans hthread)
      exact ⟨i, first, set_other (hother hi hfirst) hi, hfirst⟩
  · intro i new mode threadId hi hnew
    have hsome : ∃ thread ∈ r.2.threads.get? call.command.threadId, thread.snapshotTs.isSome :=
      ⟨own, hown, by rw [hownTs]; rfl⟩
    by_cases heq : threadId = call.command.threadId
    · subst heq
      exact hsome
    · rcases set_cases hi with ⟨_, rfl⟩ | ⟨_, hi⟩
      · exact absurd hnew.2.1.symm heq
      · obtain ⟨thread, hthread, hts⟩ := hd.prepared i new mode threadId hi hnew
        exact ⟨thread, (hothers _ heq).trans hthread, hts⟩
  · intro i new snapshot' plan' hi hnew
    rcases set_cases hi with ⟨_, rfl⟩ | ⟨_, hi⟩
    · cases hnew
    · exact (hd.reading i new snapshot' plan' hi hnew).move hmoves
  · intro i j ci cj threadId hi hj hci hcj
    rcases set_cases hi with ⟨rfl, rfl⟩ | ⟨_, hi'⟩
    · rcases set_cases hj with ⟨rfl, _⟩ | ⟨_, hj'⟩
      · rfl
      · exact (hfresh hj' hcj hci).elim
    · rcases set_cases hj with ⟨rfl, rfl⟩ | ⟨_, hj'⟩
      · exact (hfresh hi' hci hcj).elim
      · exact hd.once i j ci cj threadId hi' hj' hci hcj

theorem Desk.Sound.step (hd : d.Sound w) (h : Desk.Stepped w d a d') : d'.Sound w := by
  -- a call waiting for its next attempt, or for its write, has no answer
  have hunanswered {old : PrepareCall}
      (hphase : old.phase = .ready ∨ ∃ snapshot plan, old.phase = .reading snapshot plan)
      (mode : Mode) (threadId : Uuid) : ¬old.Succeeded mode threadId := by
    rintro ⟨_, _, response, hanswered⟩
    rcases hphase with hready | ⟨snapshot, plan, hreading⟩
    · rw [hready] at hanswered
      cases hanswered
    · rw [hreading] at hanswered
      cases hanswered
  have hrefused {k : Nat} {old : PrepareCall} {error : SpineError}
      (hk : d.calls[k]? = some old) (hopen : ∀ mode threadId, ¬old.Succeeded mode threadId) :
      (d.become k (old.refuse error)).Sound w := by
    have hidle : d.Idle (d.become k (old.refuse error)) :=
      Desk.idle_become hk hopen fun _ _ => PrepareCall.not_succeeded_refuse
    refine hidle.sound hd fun i call snapshot plan hi hphase => ?_
    rcases set_cases hi with ⟨_, rfl⟩ | ⟨_, hi'⟩
    · exact absurd hphase PrepareCall.refuse_phase_ne
    · exact hd.reading i call snapshot plan hi' hphase
  cases h with
  | other hprepares hstep => exact hd.other hprepares hstep
  | begin =>
    refine Desk.idle_begin.sound hd fun i call snapshot plan hi hphase => ?_
    rcases begun_cases hi with ⟨_, rfl⟩ | hi'
    · exact absurd hphase PrepareCall.start_phase_ne
    · exact hd.reading i call snapshot plan hi' hphase
  | @read k session call plan hk hready hread =>
    have hidle : d.Idle (d.become k { call with phase := .reading (d.store.begin session) plan }) :=
      Desk.idle_become hk (hunanswered (.inl hready)) (hunanswered (.inr ⟨_, plan, rfl⟩))
    refine hidle.sound hd fun i call snapshot plan hi hphase => ?_
    rcases set_cases hi with ⟨_, rfl⟩ | ⟨_, hi'⟩
    · cases hphase
      exact ⟨hread, hd.owned, .refl d.store, fun _ _ _ _ hveto hnot => absurd hveto hnot⟩
    · exact hd.reading i call snapshot plan hi' hphase
  | unread hk hready => exact hrefused hk (hunanswered (.inl hready))
  | wrote hk hphase hwrite => exact hd.wrote hk hphase hwrite
  | unwritten hk hphase => exact hrefused hk (hunanswered (.inr ⟨_, _, hphase⟩))

theorem sound_of_reachable (h : (desk w).Reachable d) : d.Sound w := by
  refine Machine.reachable_keeps ?_ (fun hd hstep => hd.step (Desk.stepped_of_step hstep)) h
  rintro ⟨p, calls⟩ ⟨hpalace, rfl⟩
  have hempty : p.store.Empty := by
    obtain ⟨configs, rfl⟩ := hpalace
    exact ⟨rfl, rfl, rfl, rfl, rfl, rfl, rfl, rfl, rfl⟩
  refine ⟨lineage_of_reachable ⟨p, [], hpalace, rfl⟩, fun e he => ?_,
    fun threadId thread hget => ?_, fun i call mode threadId hi => ?_,
    fun i call snapshot plan hi => ?_, fun i j ci cj threadId hi => ?_⟩
  · have hmem : e ∈ p.store.events.rows := he
    rw [hempty.events] at hmem
    cases hmem
  · have hthread : p.store.threads.get? threadId = some thread := hget
    rw [hempty.threads] at hthread
    cases hthread
  all_goals cases hi

theorem moves_of_step (hd : d.Sound w) (h : Desk.Stepped w d a d') : Moves d.store d'.store := by
  cases h with
  | other hprepares hstep => exact moves_other hd.lineage hprepares hstep
  | wrote hk hphase hwrite =>
    exact moves_write hd.lineage (hd.reading _ _ _ _ hk hphase).read hwrite
  | begin | read | unread | unwritten => exact .refl d.store

/-- A veto outlives every run. -/
theorem vetoes_of_run (hd : d.Sound w) (as : List DeskAction) {threadId memoryId : Uuid}
    (hveto : Vetoed d.store threadId memoryId) :
    Vetoed ((desk w).run d as).store threadId memoryId := by
  refine (Machine.run_keeps
    (I := fun d : Desk => d.Sound w ∧ Vetoed d.store threadId memoryId) ?_ as ⟨hd, hveto⟩).2
  rintro s a s' ⟨hs, hv⟩ hstep
  have hstepped := Desk.stepped_of_step hstep
  exact ⟨hs.step hstepped, (moves_of_step hs hstepped).vetoes _ _ hv⟩

/-- A step that answers a call is the write of an attempt of its. -/
theorem wrote_of_step (h : Desk.Stepped w d a d') {k : Nat} {new : PrepareCall}
    {response : PrepareResponse} (hnew : d'.calls[k]? = some new)
    (hanswered : new.phase = .answered response) (hold : d.calls[k]? ≠ some new) :
    ∃ call snapshot plan session r, d.calls[k]? = some call ∧
      call.phase = .reading snapshot plan ∧ new.command = call.command ∧
      prepareWrite w.env (d.store.begin session) plan = .ok r ∧ d'.store = r.2 := by
  have hsucceeded : new.Succeeded new.command.mode new.command.threadId :=
    ⟨rfl, rfl, response, hanswered⟩
  cases h with
  | other => exact absurd hnew hold
  | begin =>
    rcases begun_cases hnew with ⟨_, rfl⟩ | hbefore
    · exact absurd hsucceeded PrepareCall.not_succeeded_start
    · exact absurd hbefore hold
  | read hk hready hread =>
    rcases set_cases hnew with ⟨_, rfl⟩ | ⟨_, hbefore⟩
    · cases hanswered
    · exact absurd hbefore hold
  | unread | unwritten =>
    rcases set_cases hnew with ⟨_, rfl⟩ | ⟨_, hbefore⟩
    · exact absurd hsucceeded PrepareCall.not_succeeded_refuse
    · exact absurd hbefore hold
  | @wrote j session call snapshot plan r hk hphase hwrite =>
    rcases set_cases hnew with ⟨rfl, rfl⟩ | ⟨_, hbefore⟩
    · exact ⟨call, snapshot, plan, session, r, hk, hphase, rfl, hwrite, rfl⟩
    · exact absurd hbefore hold

/-- An attempt's snapshot is the store as it was when the attempt began. -/
theorem read_of_step (h : Desk.Stepped w d a d') {k : Nat} {new : PrepareCall} {snapshot : Store}
    {plan : PreparePlan} (hnew : d'.calls[k]? = some new)
    (hreading : new.phase = .reading snapshot plan) (hold : d.calls[k]? ≠ some new) :
    ∃ session, a = .read k session ∧ snapshot = d.store.begin session := by
  cases h with
  | other => exact absurd hnew hold
  | begin =>
    rcases begun_cases hnew with ⟨_, rfl⟩ | hbefore
    · exact absurd hreading PrepareCall.start_phase_ne
    · exact absurd hbefore hold
  | @read j session call plan' hk hready hread =>
    rcases set_cases hnew with ⟨rfl, rfl⟩ | ⟨_, hbefore⟩
    · cases hreading
      exact ⟨session, rfl, rfl⟩
    · exact absurd hbefore hold
  | unread | unwritten =>
    rcases set_cases hnew with ⟨_, rfl⟩ | ⟨_, hbefore⟩
    · exact absurd hreading PrepareCall.refuse_phase_ne
    · exact absurd hbefore hold
  | wrote =>
    rcases set_cases hnew with ⟨_, rfl⟩ | ⟨_, hbefore⟩
    · cases hreading
    · exact absurd hbefore hold

/-- What an attempt accepted now may say of memories its owner has vetoed. -/
structure RespectsVetoes (snapshot s : Store) (threadId : Uuid) (rows : List InjectionEvent) :
    Prop where
  seen : ∀ e ∈ rows, ¬Vetoed snapshot threadId e.memoryId
  entered : ∀ e ∈ rows, e.shownAs.Entered → ¬Vetoed s threadId e.memoryId

theorem ReadSince.respects {s t snapshot : Store} {call : PrepareCall} {plan : PreparePlan}
    {rows : List InjectionEvent} (h : ReadSince w s call snapshot plan)
    (hattempt : Attempted w.env s plan rows t) :
    RespectsVetoes snapshot s call.command.threadId rows where
  seen _ he := h.owned.row_unvetoed h.read hattempt.drafted he
  entered e he hentered hveto := by
    have hnot := h.owned.row_unvetoed h.read hattempt.drafted he
    obtain ⟨item, hitem, hid⟩ := entered_injected hattempt.drafted he hentered
    obtain ⟨_, _, hplan⟩ := prepareRead_eq_ok.mp h.read
    obtain ⟨candidate, hcandidate, rank, hcard⟩ := hplan.card (List.mem_append_left _ hitem)
    have hunit : item.candidate.unit = candidate.unit := by
      rw [hcard]
      rfl
    have hseen : snapshot.units.get? e.memoryId = some item.candidate.unit := by
      have heligible := hplan.loaded.eligible candidate hcandidate
      rw [eligible, List.mem_filter] at heligible
      rw [hid, hunit]
      exact Table.get?_of_mem heligible.1
    -- the veto moved the head on, and the count found it where the snapshot had it
    obtain ⟨u, hu, hlt⟩ := h.moved _ _ _ hseen hveto hnot
    obtain ⟨m, hrise, hm⟩ := hattempt.unmoved item hitem
    obtain ⟨u', hu', hdesc⟩ := hrise _ u hu
    rw [← hid] at hm
    obtain rfl := Option.some.inj (hu'.symm.trans hm)
    exact absurd hdesc.le (not_le.mpr hlt)

/-- A step of a prepare call, accepted or not. -/
def DeskAction.Calls : DeskAction → Prop
  | .other _ => False
  | _ => True

theorem quiet_of_step (h : Desk.Stepped w d a d') (ha : a.Calls)
    (hnone : ∀ (k : Nat) (call : PrepareCall) response, d'.calls[k]? = some call →
      call.phase = .answered response → d.calls[k]? = some call) : d'.palace = d.palace := by
  cases h with
  | other => exact ha.elim
  | begin | read | unread | unwritten => rfl
  | @wrote k session call snapshot plan r hk hphase hwrite =>
    have hsame := hnone k _ r.1 (set_self hk) rfl
    have hcall := Option.some.inj (hk.symm.trans hsame)
    rw [hcall] at hphase
    cases hphase

/-- In any interleaving, at most one gate prepare of a thread is answered, and an autonomous
prepare only once that one was. What an autonomous prepare records when it is answered says of
each current memory whether it was kept or exited, keeps the confirmed ones and leaves out the
excluded ones, with those vetoed in its snapshot; a memory vetoed since may be recorded as held
back, not as shown. Vetoes stay, and a prepare that is not answered changes nothing. -/
theorem prepare_protocol (h : (desk w).Reachable d) :
    (∀ (i j : Nat) (ci cj : PrepareCall) threadId, d.calls[i]? = some ci →
      d.calls[j]? = some cj → ci.Succeeded .gate threadId → cj.Succeeded .gate threadId → i = j) ∧
    (∀ a d' (k : Nat) (new : PrepareCall) response, (desk w).step d a = .ok d' →
      d'.calls[k]? = some new → new.phase = .answered response → d.calls[k]? ≠ some new →
      new.command.mode = .autonomous →
        (∃ (i : Nat) (gate : PrepareCall), d.calls[i]? = some gate ∧
          gate.Succeeded .gate new.command.threadId) ∧
        ∃ call snapshot plan rows, d.calls[k]? = some call ∧
          call.phase = .reading snapshot plan ∧
          d'.store.events.rows = d.store.events.rows ++ rows ∧ Rescored new.command rows ∧
          RespectsVetoes snapshot d.store new.command.threadId rows) ∧
    (∀ a d' (k : Nat) (call : PrepareCall) snapshot plan, (desk w).step d a = .ok d' →
      d'.calls[k]? = some call → call.phase = .reading snapshot plan → d.calls[k]? ≠ some call →
      ∃ session, a = .read k session ∧ snapshot = d.store.begin session) ∧
    (∀ as threadId memoryId, Vetoed d.store threadId memoryId →
      Vetoed ((desk w).run d as).store threadId memoryId) ∧
    ∀ a d', (desk w).step d a = .ok d' → a.Calls →
      (∀ (k : Nat) (call : PrepareCall) response, d'.calls[k]? = some call →
        call.phase = .answered response → d.calls[k]? = some call) → d'.palace = d.palace := by
  have hd := sound_of_reachable h
  refine ⟨hd.once, ?_, fun a d' k call snapshot plan hstep =>
      read_of_step (Desk.stepped_of_step hstep),
    fun as _ _ => vetoes_of_run hd as, fun a d' hstep => quiet_of_step (Desk.stepped_of_step hstep)⟩
  intro a d' k new response hstep hnew hanswered hold hmode
  obtain ⟨call, snapshot, plan, session, r, hcall, hphase, hcommand, hwrite, hstore⟩ :=
    wrote_of_step (Desk.stepped_of_step hstep) hnew hanswered hold
  rw [hcommand] at hmode ⊢
  have hreading := hd.reading k call snapshot plan hcall hphase
  obtain ⟨rows, hattempt⟩ := attempted_of_begin hwrite
  obtain ⟨thread, hthread⟩ := (threadReady_of_read hreading.read hattempt).autonomous hmode
  exact ⟨hd.stamped _ thread hthread, call, snapshot, plan, rows, hcall, hphase,
    hstore ▸ hattempt.log, rescored hreading.read hmode hattempt.drafted,
    hreading.respects hattempt⟩

/-- The conversation of `openedGate` scored again, with the memory it was shown. -/
def rescoredGate (shown : Uuid) : PrepareCommand :=
  { openedGate 20 with
    mode := .autonomous
    currentMemoryIds := [shown]
    confirmedMemoryIds := [shown] }

/-- A gate shows tea and holds cake back; while it is scored again, its owner vetoes cake. -/
def vetoedDesk : Desk :=
  (desk default).run ⟨plainPalace, []⟩
    [.other ⟨⟨1, [7, 70]⟩, .create (savedMemory "tea" "drinks tea") [1]⟩,
      .other ⟨⟨2, [8, 80]⟩, .create (savedMemory "cake" "bakes lemon pies") [2]⟩,
      .begin (openedGate 20) [1], .read 0 ⟨3, []⟩, .write 0 ⟨4, [30, 31, 32]⟩,
      .begin (rescoredGate 7) [1], .read 1 ⟨5, []⟩,
      .other ⟨⟨6, []⟩, .commit ⟨30, [⟨8, .never⟩], []⟩⟩]

theorem vetoedDesk_reachable : (desk default).Reachable vetoedDesk :=
  ⟨⟨plainPalace, []⟩, _, ⟨⟨_, rfl⟩, rfl⟩, rfl⟩

attribute [irreducible] vetoedDesk

/-- The attempt in flight is answered, and keeps the memory its gate was shown. -/
theorem prepare_protocol_kept : ∃ d' rows,
    (desk default).step vetoedDesk (.write 1 ⟨7, [40, 41, 42]⟩) = .ok d' ∧
    d'.store.events.rows = vetoedDesk.store.events.rows ++ rows ∧
    ∃ e, standingRows rows 7 = [e] ∧ e.outcome = some .kept := by
  have hrun : Answers ((desk default).step vetoedDesk (.write 1 ⟨7, [40, 41, 42]⟩)) fun d' =>
      ∃ new ∈ d'.calls[1]?, new.Succeeded .autonomous 20 ∧
        new.command.confirmedMemoryIds = [7] := by decide +kernel
  have hopen : ∃ old ∈ vetoedDesk.calls[1]?, ¬old.Succeeded .autonomous 20 := by decide +kernel
  obtain ⟨d', hstep, new, hnew, ⟨hmode, hthread, response, hanswered⟩, hconfirmed⟩ :=
    answers_iff.mp hrun
  obtain ⟨old, hold, hnot⟩ := hopen
  have hmoved : vetoedDesk.calls[1]? ≠ some new := by
    intro hsame
    obtain rfl := Option.some.inj (hold.symm.trans hsame)
    exact hnot ⟨hmode, hthread, response, hanswered⟩
  obtain ⟨_, _, _, _, rows, _, _, hlog, hrescored, _⟩ :=
    (prepare_protocol vetoedDesk_reachable).2.1 _ d' 1 new response hstep hnew hanswered hmoved
      hmode
  exact ⟨d', rows, hstep, hlog, hrescored.confirmed 7 (by rw [hconfirmed]; simp)⟩

/-- The same attempt records the memory that was vetoed while it was in flight. -/
theorem vetoed_memory_recorded : (desk default).Reachable vetoedDesk ∧
    Vetoed vetoedDesk.store 20 8 ∧
    Answers ((desk default).step vetoedDesk (.write 1 ⟨7, [40, 41, 42]⟩)) fun d' =>
      (∃ new ∈ d'.calls[1]?, new.Succeeded .autonomous 20) ∧
      ∃ e ∈ d'.store.events.rows, e ∉ vetoedDesk.store.events.rows ∧ e.threadId = 20 ∧
        e.memoryId = 8 :=
  ⟨vetoedDesk_reachable, by decide +kernel, by decide +kernel⟩

end Moves

end Nocturne
