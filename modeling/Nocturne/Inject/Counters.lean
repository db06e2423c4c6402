import Nocturne.Inject.Effects

namespace Nocturne

open Nocturne.Lib Nocturne.Store

/-- What decisions move on a head: four counts and the learned bias. -/
inductive Counter
  | injections | removals | citations | neverKills | bias
  deriving DecidableEq, Repr

def MemoryUnit.counted (u : MemoryUnit) : Counter → ℚ
  | .injections => u.stats.injections
  | .removals => u.stats.removals
  | .citations => u.stats.citations
  | .neverKills => u.stats.neverKills
  | .bias => u.bias

namespace Inject

/-- The bias step a scorer version takes for each `never`. -/
def neverBiasStep (s : Store) (version : String) : ℚ :=
  ((s.configs.get? version).bind (·.neverBiasStep)).getD 0

/-- What one accepted transition of an event to an outcome is worth. -/
def worth (s : Store) (event : InjectionEvent) (o : Outcome) : Counter → ℚ
  | .injections => if o = .addedBack then 1 else 0
  | .removals => if o.IsRemoval ∨ o = .midThreadRemoved then 1 else 0
  | .citations => if o = .cited then 1 else 0
  | .neverKills => if o = .removed .never then 1 else 0
  | .bias => if o = .removed .never then neverBiasStep s event.scorerVersion else 0

/-- What a row tells once the log has moved on from `s`: a new row one injection if it
entered the gate, a row with another outcome one accepted transition. -/
def told (s : Store) (c : Counter) (e : InjectionEvent) : ℚ :=
  match s.events.get? e.id, e.outcome with
  | none, _ => if c = .injections ∧ e.shownAs.Entered then 1 else 0
  | some before, some o => if before.outcome = some o then 0 else worth s e o c
  | some _, none => 0

/-- The worth of everything the log of one memory tells between two stores. -/
def observed (c : Counter) (memoryId : Uuid) (s s' : Store) : ℚ :=
  (s'.events.rows.map fun e => if e.memoryId = memoryId then told s c e else 0).sum

/-- The head's own count; an absent head counts nothing. -/
def headCount (c : Counter) (memoryId : Uuid) (s : Store) : ℚ :=
  ((s.units.get? memoryId).map (·.counted c)).getD 0

/-- The moves an outcome may make, at the gate and after it. -/
inductive Edge : ShownAs → Option Outcome → Outcome → Prop
  | kept {shownAs : ShownAs} : shownAs.Entered → Edge shownAs none .kept
  | removed {shownAs : ShownAs} {reason : RemovalReason} :
    shownAs.Entered → Edge shownAs none (.removed reason)
  | never : Edge .nearMiss none (.removed .never)
  | addedBack : Edge .nearMiss none .addedBack
  | midThreadJoined : Edge .nearMiss none .midThreadAdded
  | midThreadAdded {shownAs : ShownAs} : Edge shownAs (some .midThreadRemoved) .midThreadAdded
  | midThreadRemoved {shownAs : ShownAs} {o : Outcome} :
    o = .kept ∨ o = .addedBack ∨ o = .autoEntered ∨ o = .midThreadAdded →
      Edge shownAs (some o) .midThreadRemoved
  | cited {shownAs : ShownAs} {o : Outcome} : o = .kept ∨ o = .addedBack ∨ o = .autoEntered →
    Edge shownAs (some o) .cited

/-- What the log and the heads of two stores say to each other about one transaction. -/
structure Accounted (s s' : Store) : Prop where
  counted : ∀ c id, headCount c id s' = headCount c id s + observed c id s s'
  moved : ∀ e ∈ s.events.rows, ∃ outcome, s'.events.get? e.id = some { e with outcome } ∧
    (outcome = e.outcome ∨ ∃ o, outcome = some o ∧ Edge e.shownAs e.outcome o)
  status : ∀ id u u', s.units.get? id = some u → s'.units.get? id = some u' →
    u'.status = u.status ∨ u.status = .active ∧ u'.status = .quarantined ∧
      ∃ e ∈ s.events.rows, e.memoryId = id ∧ e.outcome = none ∧
        s'.events.get? e.id = some { e with outcome := some (.removed .never) } ∧
        ∃ rule, neverRule s e.scorerVersion = .ok rule ∧
          rule.quarantineKills ≤ u'.stats.neverKills

section Basics

variable {s s' : Store} {c : Counter} {id : Uuid}

theorem headCount_congr (h : s'.units = s.units) : headCount c id s' = headCount c id s := by
  rw [headCount, h, headCount]

theorem worth_congr (h : s'.configs = s.configs) : worth s' = worth s := by
  funext event o c
  cases c <;> simp only [worth, neverBiasStep, h]

theorem told_self {e : InjectionEvent} (h : e ∈ s.events.rows) : told s c e = 0 := by
  rw [told, Table.get?_of_mem h]
  split <;> simp_all

theorem observed_of_events_eq (h : s'.events = s.events) : observed c id s s' = 0 := by
  rw [observed, h]
  apply List.sum_eq_zero
  intro x hx
  obtain ⟨e, he, rfl⟩ := List.mem_map.mp hx
  simp [told_self he]

theorem Accounted.of_eq (hunits : s'.units = s.units) (hevents : s'.events = s.events) :
    Accounted s s' where
  counted c id := by rw [headCount_congr hunits, observed_of_events_eq hevents, add_zero]
  moved e he := ⟨e.outcome, by rw [hevents, Table.get?_of_mem he], .inl rfl⟩
  status id u u' hu hu' := by
    rw [hunits, hu] at hu'
    obtain rfl := Option.some.inj hu'
    exact .inl rfl

/-- An update that adds `d` to the head it names moves that head's count alone. -/
theorem cas_headCount {command : Ulid → CasUpdate} {r : MemoryUnit × Store}
    (h : s.cas command = .ok r) {d : ℚ}
    (hd : ∀ u, s.units.get? (command s.freshUlid).memoryId = some u →
      (s.drawn.bumped (command s.freshUlid).changes u).counted c = u.counted c + d) :
    headCount c id r.2 =
      headCount c id s + if (command s.freshUlid).memoryId = id then d else 0 := by
  obtain ⟨current, hstep, _⟩ := casUpdate_eq_ok.mp h
  have hfound : s.units.get? (command s.freshUlid).memoryId = some current := hstep.found
  rw [headCount, hstep.get?_units]
  by_cases hid : id = (command s.freshUlid).memoryId
  · subst hid
    simp [headCount, hfound, hd current hfound]
  · have hne : (command s.freshUlid).memoryId ≠ id := fun h => hid h.symm
    simp [headCount, hid, hne]

end Basics

section Prepare

variable {env : Env} {s s' : Store} {plan : PreparePlan} {c : Counter} {id : Uuid}

/-- Each injected card counts one injection on its own head. -/
theorem incrementInjectionStats_headCount {injected : List Candidate}
    (h : incrementInjectionStats s plan.command plan.snapshotTs injected = .ok s') :
    headCount c id s' = headCount c id s + (injected.map fun item =>
      if item.candidate.unit.id = id ∧ c = .injections then 1 else 0).sum := by
  have hperm := (List.perm_insertionSort (fun a b : Candidate => a.memoryId ≤ b.memoryId)
    injected).map fun item => if item.candidate.unit.id = id ∧ c = .injections then (1 : ℚ) else 0
  rw [← hperm.sum_eq]
  refine foldlM_tally (I := fun _ => True) (fun s item s' _ _ hpass => ⟨trivial, ?_⟩) h trivial
  simp only [bind_eq_ok, ensure_eq_ok, pure_eq_ok] at hpass
  obtain ⟨_, hseen, r, hcas, rfl⟩ := hpass
  rw [cas_headCount hcas (d := if c = .injections then 1 else 0)]
  · simp [ite_and]
  · intro u hu
    obtain rfl := Option.some.inj (hu.symm.trans hseen)
    cases c <;> simp [MemoryUnit.counted]

/-- New rows tell one injection for each card that entered the gate. -/
theorem observed_recorded {t : Store} {allocation : MemoryAllocation} {injectionId : Uuid}
    {r : List InjectionEvent × Store} (ht : s.events = t.events)
    (h : Recorded env plan allocation injectionId s (eventDrafts plan.command plan.selection) r) :
    observed c id t r.2 = (plan.selection.injected.map fun item =>
      if item.candidate.unit.id = id ∧ c = .injections then 1 else 0).sum := by
  have hold : (s.events.rows.map fun e => if e.memoryId = id then told t c e else 0).sum = 0 :=
    observed_of_events_eq ht
  have hnew : ∀ e ∈ r.1, told t c e = if c = .injections ∧ e.shownAs.Entered then 1 else 0 := by
    intro e he
    have hfresh : t.events.get? e.id = none := by
      rw [← ht, Table.get?_eq_none_iff]
      exact fun e' he' => (h.later e' he' e he).ne
    rw [told, hfresh]
  have hdrafts : (r.1.map fun e => if e.memoryId = id then told t c e else 0).sum =
      ((eventDrafts plan.command plan.selection).map fun draft =>
        if draft.1.candidate.unit.id = id ∧ c = .injections ∧ draft.2.1.Entered
        then (1 : ℚ) else 0).sum := by
    rw [List.map_congr_left fun e he => by rw [hnew e he]]
    symm
    apply sum_map_forall₂ h.drafts
    rintro draft e ⟨_, _, rfl⟩
    rw [ite_and]
    rfl
  have hinjected : ∀ item : Candidate,
      (if item.pin then ShownAs.pinned else .injected).Entered := by
    intro item
    split <;> simp [ShownAs.Entered]
  have hzero {l : List Candidate} {o : Candidate → Option Outcome} {shownAs : ShownAs}
      (hs : ¬shownAs.Entered) : ((l.map fun item => (item, shownAs, o item)).map
        fun draft : EventDraft => if draft.1.candidate.unit.id = id ∧ c = .injections ∧
          draft.2.1.Entered then (1 : ℚ) else 0).sum = 0 := by
    apply List.sum_eq_zero
    intro x hx
    simp only [List.map_map, List.mem_map, Function.comp] at hx
    obtain ⟨_, _, rfl⟩ := hx
    simp [hs]
  rw [observed, h.rows, List.map_append, List.sum_append, hold, zero_add, hdrafts]
  simp only [eventDrafts, List.map_append, List.sum_append]
  rw [hzero (by simp [ShownAs.Entered]), hzero (by simp [ShownAs.Entered])]
  cases plan.command.mode with
  | gate => simp [Function.comp_def, hinjected]
  | autonomous =>
    dsimp only
    rw [hzero (by simp [ShownAs.Entered])]
    simp [Function.comp_def, hinjected]

theorem prepareWrite_accounted {r : PrepareResponse × Store}
    (hlineage : s.Lineage) (h : prepareWrite env s plan = .ok r) : Accounted s r.2 := by
  obtain ⟨stamped, counted, rows, hprepared⟩ := prepareWrite_eq_ok.mp h
  obtain ⟨_, hevents, hunits, _⟩ := stampThread_meets.of_ok hprepared.stamp
  have hrecorded := insertEvents_meets.of_ok hprepared.record
  have hcounted : counted.events = s.events :=
    (incrementInjectionStats_sameLog hprepared.count).1.trans hevents
  have hframe : r.2.units = counted.units := congrArg (·.units) hrecorded.frame
  have hwrites := (prepareWrite_meets hlineage).of_ok h
  refine ⟨fun c id => ?_, fun e he => ⟨e.outcome, ?_, .inl rfl⟩, fun id u u' hu hu' => .inl ?_⟩
  · have hdrawn : stamped.drawn.units = s.units := hunits
    rw [headCount_congr hframe, incrementInjectionStats_headCount hprepared.count,
      headCount_congr hdrawn, observed_recorded hcounted hrecorded]
  · apply Table.get?_of_mem (t := r.2.events)
    rw [hrecorded.rows, hcounted]
    exact List.mem_append_left _ he
  · obtain ⟨v, hv, hstatus⟩ := hwrites.head_keeps (P := (·.status = u.status))
      (by rintro t v command ⟨_, _, _, hchanges⟩ _ _ hv
          simp [hchanges, injectedChanges, hv]) hu rfl
    exact Option.some.inj (hu'.symm.trans hv) ▸ hstatus

end Prepare

section Commit

variable {s s' : Store} {command : CommitCommand} {c : Counter} {id : Uuid}

theorem neverRule_eq_ok {version : String} {rule : NeverRule} :
    neverRule s version = .ok rule ↔ ∃ row kills, s.configs.get? version = some row ∧
      row.neverBiasStep = some rule.biasStep ∧ rule.biasStep < 0 ∧
      row.quarantineKills = some kills ∧ 0 < kills ∧ rule.quarantineKills = kills.toNat := by
  simp only [neverRule, bind_eq_ok, require_eq_ok, ensure_eq_ok, pure_eq_ok]
  constructor
  · rintro ⟨row, hrow, step, hstep, _, hneg, kills, hkills, _, hpos, rfl⟩
    exact ⟨row, kills, hrow, hstep, hneg, hkills, hpos, rfl⟩
  · rintro ⟨row, kills, hrow, hstep, hneg, hkills, hpos, hrule⟩
    refine ⟨row, hrow, rule.biasStep, hstep, .unit, hneg, kills, hkills, .unit, hpos, ?_⟩
    rw [← hrule]

theorem neverBiasStep_of_rule {version : String} {rule : NeverRule}
    (h : neverRule s version = .ok rule) : neverBiasStep s version = rule.biasStep := by
  obtain ⟨row, _, hrow, hstep, _⟩ := neverRule_eq_ok.mp h
  simp [neverBiasStep, hrow, hstep]

theorem neverRule_congr (h : s'.configs = s.configs) : neverRule s' = neverRule s := by
  funext version
  simp only [neverRule, h]

/-- What a planned outcome is worth to a memory. -/
def PlannedOutcome.worth (item : PlannedOutcome) (s : Store) (c : Counter) (id : Uuid) : ℚ :=
  if item.event.memoryId = id then (item.desired.map (Inject.worth s item.event · c)).getD 0 else 0

/-- The update of one counted effect. -/
structure HeadCounted (s : Store) (item : PlannedOutcome) (desired : Outcome)
    (rule : Option NeverRule) (current : MemoryUnit) (changes : MemoryUnitChanges)
    (s' : Store) : Prop where
  wanted : item.desired = some desired
  ruled : ruleFor s item.event desired = .ok rule
  found : s.units.get? item.event.memoryId = some current
  changed : commitHeadChanges current desired s.session.now rule = .ok changes
  written : ∃ updated, s.cas (fun revUid =>
    { memoryId := item.event.memoryId
      expectedRevision := current.revision
      revUid
      editor := "system:inject"
      originMachineId := item.event.machineId
      reason := "inject/commit:" ++ desired.text
      changes }) = .ok (updated, s')

theorem commitHead_eq_ok {item : PlannedOutcome} : commitHead s item = .ok s' ↔
    ∃ desired rule current changes, HeadCounted s item desired rule current changes s' := by
  simp only [commitHead, bind_eq_ok, require_eq_ok, pure_eq_ok]
  constructor
  · rintro ⟨desired, hdesired, rule, hrule, current, hfound, changes, hchanges, ⟨u, s'⟩, hcas, rfl⟩
    exact ⟨desired, rule, current, changes, hdesired, hrule, hfound, hchanges, u, hcas⟩
  · rintro ⟨desired, rule, current, changes, hdesired, hrule, hfound, hchanges, u, hcas⟩
    exact ⟨desired, hdesired, rule, hrule, current, hfound, changes, hchanges, (u, s'), hcas, rfl⟩

theorem ruleFor_never {event : InjectionEvent} {rule : Option NeverRule} :
    ruleFor s event (.removed .never) = .ok rule ↔
      ∃ r, neverRule s event.scorerVersion = .ok r ∧ rule = some r := by
  simp only [ruleFor, ↓reduceIte, bind_eq_ok, pure_eq_ok]
  simp only [eq_comm]

/-- One counted effect moves its own head by the worth of its transition. -/
theorem commitHead_headCount {item : PlannedOutcome} (hmoves : item.Moves)
    (h : commitHead s item = .ok s') :
    headCount c id s' = headCount c id s + item.worth s c id := by
  obtain ⟨desired, rule, current, changes, hc⟩ := commitHead_eq_ok.mp h
  obtain ⟨_, desired', hdesired', hkind⟩ := hmoves
  obtain rfl : desired' = desired :=
    Option.some.inj ((Option.mem_def.mp hdesired').symm.trans hc.wanted)
  obtain ⟨updated, hcas⟩ := hc.written
  have hcount : headCount c id s' = headCount c id s + _ :=
    cas_headCount hcas (d := worth s item.event desired' c) ?_
  · simpa [PlannedOutcome.worth, hc.wanted] using hcount
  · intro u hu
    obtain rfl := Option.some.inj (hu.symm.trans hc.found)
    have hchanges := hc.changed
    rcases hkind with rfl | hremoval
    · simp only [commitHeadChanges, ↓reduceIte, Except.ok.injEq] at hchanges
      subst hchanges
      cases c <;> simp [MemoryUnit.counted, worth, Outcome.IsRemoval]
    · obtain ⟨reason, rfl⟩ : ∃ reason, desired' = .removed reason := by
        cases desired' <;> simp [Outcome.IsRemoval] at hremoval ⊢
      by_cases hnever : reason = .never
      · subst hnever
        obtain ⟨r, hrule, rfl⟩ := ruleFor_never.mp hc.ruled
        simp only [commitHeadChanges, reduceCtorEq, ↓reduceIte, ne_eq, not_true_eq_false,
          require_some, ok_bind, pure_eq_ok] at hchanges
        subst hchanges
        cases c <;>
          simp [MemoryUnit.counted, worth, Outcome.IsRemoval, neverBiasStep_of_rule hrule]
      · have hne : Outcome.removed reason ≠ .removed .never := fun h => hnever (by simpa using h)
        simp only [commitHeadChanges, reduceCtorEq, ↓reduceIte, hne, ne_eq, not_false_eq_true,
          Except.ok.injEq] at hchanges
        subst hchanges
        cases c <;> simp [MemoryUnit.counted, worth, Outcome.IsRemoval, hnever]

theorem desiredOutcome_cases {e : InjectionEvent} {desired : Outcome}
    (h : desiredOutcome command e = some desired) :
    (e.shownAs = .nearMiss ∧ (desired = .removed .never ∨ desired = .addedBack)) ∨
      (e.shownAs ≠ .nearMiss ∧ (desired = .kept ∨ ∃ reason, desired = .removed reason)) := by
  unfold desiredOutcome at h
  split at h
  · next hnear =>
    refine .inl ⟨hnear, ?_⟩
    split at h
    · exact .inl (Option.some.inj h).symm
    · split at h
      · exact .inr (Option.some.inj h).symm
      · cases h
  · next hnear =>
    refine .inr ⟨hnear, ?_⟩
    split at h
    · exact .inr ⟨_, (Option.some.inj h).symm⟩
    · exact .inl (Option.some.inj h).symm

theorem desiredOutcome_edge {e : InjectionEvent} {desired : Outcome} (hcut : e.shownAs ≠ .budgetCut)
    (h : desiredOutcome command e = some desired) : Edge e.shownAs none desired := by
  rcases desiredOutcome_cases h with ⟨hnear, rfl | rfl⟩ | ⟨hnear, hd⟩
  · exact hnear ▸ .never
  · exact hnear ▸ .addedBack
  · have hentered : e.shownAs.Entered := by
      cases hs : e.shownAs <;> simp_all [ShownAs.Entered]
    rcases hd with rfl | ⟨reason, rfl⟩
    · exact .kept hentered
    · exact .removed hentered

/-- A planned outcome that moves no head is worth nothing to it. -/
theorem worth_eq_zero_of_not_moves {item : PlannedOutcome}
    (hplan : planEvent command item.event = .ok item) (hnew : item.isNew = true)
    (hmoves : ¬item.Moves) : item.worth s c id = 0 := by
  cases hd : item.desired with
  | none => simp [PlannedOutcome.worth, hd]
  | some desired =>
    have hkept : desired = .kept := by
      rw [(planEvent_event hplan).2.1] at hd
      rcases desiredOutcome_cases hd with ⟨_, rfl | rfl⟩ | ⟨_, rfl | ⟨reason, rfl⟩⟩
      · simp [PlannedOutcome.Moves, hnew, (planEvent_event hplan).2.1, hd, Outcome.IsRemoval]
          at hmoves
      · simp [PlannedOutcome.Moves, hnew, (planEvent_event hplan).2.1, hd] at hmoves
      · rfl
      · simp [PlannedOutcome.Moves, hnew, (planEvent_event hplan).2.1, hd, Outcome.IsRemoval]
          at hmoves
    subst hkept
    cases c <;> simp [PlannedOutcome.worth, hd, worth, Outcome.IsRemoval]

/-- The heads of a commit move by the worth of its new outcomes. -/
theorem commit_headCount {planned : List PlannedOutcome} {counted : Store}
    {r : CommitResponse × Store} (h : Committed s command planned counted r) :
    headCount c id r.2 = headCount c id s +
      (planned.map fun item => if item.isNew then item.worth s c id else 0).sum := by
  have hunits : r.2.units = counted.units := congrArg (·.units) (writeNewOutcomes_rows h.record).2
  have hsorted := List.perm_insertionSort
    (fun a b : PlannedOutcome => a.event.memoryId ≤ b.event.memoryId)
    (planned.filter fun item => item.Moves)
  have hloop : headCount c id counted = headCount c id s +
      (List.map (fun item : PlannedOutcome => item.worth s c id) _).sum :=
    foldlM_tally (I := fun t => t.configs = s.configs) (m := headCount c id) ?_ h.count rfl
  · rw [headCount_congr hunits, hloop, (hsorted.map _).sum_eq]
    congr 1
    have hmoving : ((planned.filter fun item => item.Moves).map fun item => item.worth s c id) =
        (planned.filter fun item => item.Moves).map fun item =>
          if item.isNew then item.worth s c id else 0 := by
      apply List.map_congr_left
      intro item hitem
      have hmoves : item.Moves := by simpa using List.of_mem_filter hitem
      simp [hmoves.1]
    rw [hmoving]
    apply sum_map_filter
    intro item hitem hmoves
    split
    · next hnew =>
      exact worth_eq_zero_of_not_moves (h.plans.mem hitem).2 hnew (by simpa using hmoves)
    · rfl
  · intro t item t' hitem hconfigs hpass
    have hmoves : item.Moves := by
      simpa using List.of_mem_filter ((List.mem_insertionSort _).mp hitem)
    refine ⟨(commitHead_sameLog hpass).2.trans hconfigs, ?_⟩
    rw [commitHead_headCount hmoves hpass, PlannedOutcome.worth, worth_congr hconfigs,
      PlannedOutcome.worth]

/-- The log of a commit tells the worth of its new outcomes. -/
theorem commit_observed {planned : List PlannedOutcome} {counted : Store}
    {r : CommitResponse × Store} (hcommit : commit s command = .ok r)
    (h : Committed s command planned counted r) : observed c id s r.2 =
      (planned.map fun item => if item.isNew then item.worth s c id else 0).sum := by
  let share (e : InjectionEvent) : ℚ :=
    if e.injectionId = command.injectionId ∧ e.shownAs ≠ .budgetCut ∧ e.outcome = none then
      if e.memoryId = id then ((desiredOutcome command e).map (worth s e · c)).getD 0 else 0
    else 0
  have htold : ∀ e ∈ s.events.rows,
      (if (decidedEvent command e).memoryId = id then told s c (decidedEvent command e) else 0) =
        share e := by
    intro e he
    simp only [share]
    by_cases hopen : e.injectionId = command.injectionId ∧ e.shownAs ≠ .budgetCut ∧
        e.outcome = none
    · rw [decidedEvent, if_pos hopen, if_pos hopen]
      cases hd : desiredOutcome command e with
      | none => simp [told, Table.get?_of_mem he]
      | some desired => simp [told, Table.get?_of_mem he, hopen.2.2, worth]
    · rw [decidedEvent, if_neg hopen, if_neg hopen, told_self he]
      simp
  have hperm := (List.perm_insertionSort (fun a b : InjectionEvent => a.rank < b.rank ∨
    a.rank = b.rank ∧ (a.memoryId < b.memoryId ∨ a.memoryId = b.memoryId ∧ a.id ≤ b.id))
    (s.events.rows.filter (·.injectionId = command.injectionId))).map share
  calc observed c id s r.2
      = (s.events.rows.map share).sum := by
        rw [observed, commit_rows hcommit, List.map_map]
        exact congrArg List.sum (List.map_congr_left htold)
    _ = ((s.events.rows.filter (·.injectionId = command.injectionId)).map share).sum := by
        symm
        apply sum_map_filter
        intro e _ he
        simp_all [share]
    _ = ((loadBatch s command.injectionId).map share).sum := hperm.sum_eq.symm
    _ = ((members (loadBatch s command.injectionId)).map share).sum := by
        symm
        apply sum_map_filter
        intro e _ he
        simp_all [share]
    _ = _ := by
        apply sum_map_forall₂ ((List.forall₂_and_left _ _).mpr ⟨fun _ he => he, h.plans.plan⟩)
        rintro e item ⟨hmember, hplan⟩
        obtain ⟨hloaded, hcut⟩ := mem_members.mp hmember
        obtain ⟨rfl, hdesired, hnew⟩ := planEvent_event hplan
        simp only [share, (loadBatch_mem.mp hloaded).2, hcut, ne_eq, not_false_eq_true, true_and,
          PlannedOutcome.worth, hdesired]
        by_cases hopen : item.event.outcome = none
        · simp only [hopen, ↓reduceIte]
          cases hd : desiredOutcome command item.event with
          | none => simp
          | some desired => simp [hnew.mpr ⟨hopen, by simp [hd]⟩]
        · have hold : ¬item.isNew = true := fun h => hopen (hnew.mp h).1
          simp [hopen, hold]

/-- Kills are never taken back, and only a `never` that reaches its rule quarantines. -/
theorem commitHeadChanges_status {current : MemoryUnit} {desired : Outcome} {commitTs : Time}
    {rule : Option NeverRule} {changes : MemoryUnitChanges}
    (h : commitHeadChanges current desired commitTs rule = .ok changes) :
    let stats := changes.stats.getD current.stats
    let status := changes.status.getD current.status
    current.stats.neverKills ≤ stats.neverKills ∧
      (status = current.status ∨ current.status = .active ∧ status = .quarantined ∧
        desired = .removed .never ∧ ∃ r, rule = some r ∧ r.quarantineKills ≤ stats.neverKills) := by
  unfold commitHeadChanges at h
  split at h
  · obtain rfl := Except.ok.inj h
    simp
  · dsimp only at h
    split at h
    · obtain rfl := Except.ok.inj h
      simp
    · next hnever =>
      simp only [bind_eq_ok, require_eq_ok, pure_eq_ok] at h
      obtain ⟨r, hr, rfl⟩ := h
      refine ⟨Nat.le_succ _, ?_⟩
      simp only [Option.getD_some]
      split
      · next hkills => exact .inr ⟨hkills.1, rfl, by simpa using hnever, r, hr, hkills.2⟩
      · exact .inl rfl

/-- A head a commit quarantines was active, and one of its new `never` removals met the rule of
the version that showed it. -/
structure Quarantined (s : Store) (planned : List PlannedOutcome) (u v : MemoryUnit) : Prop where
  was : u.status = .active
  now : v.status = .quarantined
  cause : ∃ item ∈ planned, item.isNew = true ∧ item.desired = some (.removed .never) ∧
    item.event.memoryId = u.id ∧ ∃ rule, neverRule s item.event.scorerVersion = .ok rule ∧
      rule.quarantineKills ≤ v.stats.neverKills

theorem commitHeads_status {planned items : List PlannedOutcome} {counted : Store}
    (hitems : ∀ item ∈ items, item ∈ planned ∧ item.isNew = true)
    (h : items.foldlM commitHead s = .ok counted) {u v : MemoryUnit}
    (hu : s.units.get? id = some u) (hv : counted.units.get? id = some v) :
    v.status = u.status ∨ Quarantined s planned u v := by
  have hloop := foldlM_keeps (I := fun t : Store => t.configs = s.configs ∧
    ∀ v, t.units.get? id = some v → v.status = u.status ∨ Quarantined s planned u v) ?_ h
    ⟨rfl, fun v hv => .inl (Option.some.inj (hu.symm.trans hv) ▸ rfl)⟩
  · exact hloop.2 v hv
  · rintro t item t' hitem ⟨hconfigs, hkept⟩ hpass
    refine ⟨(commitHead_sameLog hpass).2.trans hconfigs, fun v hv => ?_⟩
    obtain ⟨desired, rule, current, changes, hc⟩ := commitHead_eq_ok.mp hpass
    obtain ⟨updated, hcas⟩ := hc.written
    obtain ⟨current', hstep, _⟩ := casUpdate_eq_ok.mp hcas
    obtain rfl := Option.some.inj (hstep.found.symm.trans hc.found)
    rw [hstep.get?_units] at hv
    split at hv
    · next hid =>
      obtain rfl := Option.some.inj hv
      obtain ⟨hkills, hstatus⟩ := commitHeadChanges_status hc.changed
      have hold := hkept current' (hid ▸ hc.found)
      rcases hstatus with hsame | ⟨hactive, hquarantined, rfl, r, rfl, hrule⟩
      · rcases hold with hold | ⟨hwas, hnow, other, hother, hnew, hd, hm, r, hr, hle⟩
        · exact .inl (hsame.trans hold)
        · exact .inr ⟨hwas, hsame.trans hnow, other, hother, hnew, hd, hm, r, hr, hle.trans hkills⟩
      · obtain ⟨r', hr', heq⟩ := ruleFor_never.mp hc.ruled
        obtain rfl := Option.some.inj heq
        have hwas : u.status = .active := by
          rcases hold with hold | hq
          · exact hold ▸ hactive
          · exact hq.was
        refine .inr ⟨hwas, hquarantined, item, (hitems item hitem).1, (hitems item hitem).2,
          hc.wanted, ?_, r, ?_, hrule⟩
        · exact hid.symm.trans (Table.key_of_get? hu).symm
        · rw [← neverRule_congr hconfigs]
          exact hr'
    · exact hkept v hv

theorem commit_accounted {r : CommitResponse × Store} (h : commit s command = .ok r) :
    Accounted s r.2 := by
  rcases commit_eq_ok.mp h with hnone | ⟨_, planned, counted, hc⟩
  · rw [hnone.answer]
    exact .of_eq rfl rfl
  · refine ⟨fun c id => ?_, fun e he => ?_, fun id u u' hu hu' => ?_⟩
    · rw [commit_headCount hc, commit_observed h hc]
    · rw [commit_get? h he, decidedEvent]
      split
      · next hopen =>
        refine ⟨_, rfl, ?_⟩
        cases hd : desiredOutcome command e with
        | none => exact .inl hopen.2.2.symm
        | some desired => exact .inr ⟨desired, rfl, hopen.2.2 ▸ desiredOutcome_edge hopen.2.1 hd⟩
      · exact ⟨e.outcome, rfl, .inl rfl⟩
    · have hunits : r.2.units = counted.units :=
        congrArg (·.units) (writeNewOutcomes_rows hc.record).2
      have hmoving : ∀ item ∈ (planned.filter fun item => item.Moves).insertionSort fun a b =>
          a.event.memoryId ≤ b.event.memoryId, item ∈ planned ∧ item.isNew = true := by
        intro item hitem
        obtain ⟨hmem, hmoves⟩ := List.mem_filter.mp ((List.mem_insertionSort _).mp hitem)
        have hmoves : item.Moves := by simpa using hmoves
        exact ⟨hmem, hmoves.1⟩
      rcases commitHeads_status hmoving hc.count hu (hunits ▸ hu') with hsame | hq
      · exact .inl hsame
      · obtain ⟨hwas, hnow, item, hitem, hnew, hdesired, hid, hrule⟩ := hq
        obtain ⟨hmember, hplan⟩ := hc.plans.mem hitem
        obtain ⟨hloaded, hcut⟩ := mem_members.mp hmember
        obtain ⟨hrow, hbatch⟩ := loadBatch_mem.mp hloaded
        obtain ⟨_, hwanted, hopen⟩ := planEvent_event hplan
        have hnone := (hopen.mp hnew).1
        refine .inr ⟨hwas, hnow, item.event, hrow, ?_, hnone, ?_, hrule⟩
        · exact hid.trans (Table.key_of_get? hu)
        · rw [commit_get? h hrow, decidedEvent, if_pos ⟨hbatch, hcut, hnone⟩, ← hwanted, hdesired]

end Commit

section Feedback

variable {s s' : Store} {command : FeedbackCommand} {c : Counter} {id : Uuid}

theorem feedbackHead_headCount {event : InjectionEvent} {signal : FeedbackSignal}
    (h : feedbackHead s event signal = .ok s') : headCount c id s' =
      headCount c id s + if event.memoryId = id then worth s event signal.outcome c else 0 := by
  unfold feedbackHead at h
  split at h
  · next hsignal =>
    obtain rfl := Except.ok.inj h
    subst hsignal
    cases c <;> simp [worth, FeedbackSignal.outcome, Outcome.IsRemoval]
  · next hsignal =>
    simp only [bind_eq_ok, require_eq_ok, pure_eq_ok] at h
    obtain ⟨current, hfound, r, hcas, rfl⟩ := h
    apply cas_headCount hcas
    intro u hu
    obtain rfl := Option.some.inj (hu.symm.trans hfound)
    cases signal <;> cases c <;>
      simp_all [MemoryUnit.counted, worth, FeedbackSignal.outcome, FeedbackSignal.count,
        Outcome.IsRemoval]

theorem feedbackHead_status {event : InjectionEvent} {signal : FeedbackSignal}
    (h : feedbackHead s event signal = .ok s') {u u' : MemoryUnit}
    (hu : s.units.get? id = some u) (hu' : s'.units.get? id = some u') :
    u'.status = u.status := by
  unfold feedbackHead at h
  split at h
  · obtain rfl := Except.ok.inj h
    exact Option.some.inj (hu'.symm.trans hu) ▸ rfl
  · simp only [bind_eq_ok, require_eq_ok, pure_eq_ok] at h
    obtain ⟨current, _, ⟨updated, s'⟩, hcas, rfl⟩ := h
    obtain ⟨current', hstep, _⟩ := casUpdate_eq_ok.mp hcas
    rw [hstep.get?_units] at hu'
    split at hu'
    · next hid =>
      obtain rfl := Option.some.inj hu'
      have hsame : u = current' := Option.some.inj (hu.symm.trans (hid ▸ hstep.found))
      rw [hsame]
      rfl
    · exact Option.some.inj (hu'.symm.trans hu) ▸ rfl

theorem allowed_edge {shownAs : ShownAs} {current : Option Outcome} {signal : FeedbackSignal}
    (h : signal.Allowed shownAs current) : Edge shownAs current signal.outcome := by
  cases signal with
  | midThreadRemoved =>
    rcases h with rfl | rfl | rfl | rfl <;> exact .midThreadRemoved (by simp)
  | midThreadAdded =>
    rcases h with rfl | ⟨rfl, rfl⟩
    · exact .midThreadAdded
    · exact .midThreadJoined
  | cited => rcases h with rfl | rfl | rfl <;> exact .cited (by simp)

theorem feedback_accounted (h : feedback s command = .ok s') : Accounted s s' := by
  obtain ⟨event, hevent, ⟨_, rfl⟩ | ⟨counted, hmoved⟩⟩ := feedback_eq_ok.mp h
  · exact .of_eq rfl rfl
  · obtain ⟨hrow, _, _⟩ := hevent.mem
    have hframe : s'.units = counted.units := by
      obtain ⟨_, _, _, rfl⟩ := replaceOutcome_eq_ok.mp hmoved.record
      rfl
    refine ⟨fun c id => ?_, fun e he => ?_, fun id u u' hu hu' => .inl ?_⟩
    · rw [headCount_congr hframe, feedbackHead_headCount hmoved.count, observed, hmoved.rows,
        List.map_map, Table.sum_map_eq hrow]
      · simp [told, Table.get?_of_mem hrow, hmoved.changed, worth]
      · intro e he hne
        simp [hne, told_self he]
    · rw [hmoved.get? he]
      split
      · next hid =>
        obtain rfl := Option.some.inj ((Table.get?_of_mem he).symm.trans
          (hid ▸ Table.get?_of_mem hrow))
        exact ⟨_, rfl, .inr ⟨_, rfl, allowed_edge hmoved.allowed⟩⟩
      · exact ⟨e.outcome, rfl, .inl rfl⟩
    · exact feedbackHead_status hmoved.count hu (hframe ▸ hu')

end Feedback

end Inject

end Nocturne
