import Nocturne.M2k.Service

namespace Nocturne.M2k

open Nocturne.Inject Nocturne.Learner Nocturne.Lib

variable {w : Deployment} {c c' : Console} {ts : Time} {view : ScorerConfigurationView}

section Loading

variable {version : String} {weights : ScorerWeights ℚ} {params : StoredParams}
  {config : ScorerConfig ℚ}

theorem fromMappings_eq_some :
    fromMappings version weights params = some config ↔
      configOf? version weights params = some config ∧ ¬Text.isBlank version ∧ config.Valid ∧
        ∀ axis ∈ params.axes.getD [], NamesItself axis.2 := by
  simp only [fromMappings, Option.bind_eq_bind, Option.bind_eq_some_iff,
    Option.ite_none_right_eq_some, Option.some.injEq]
  constructor
  · rintro ⟨_, hconfig, hchecked, rfl⟩
    exact ⟨hconfig, hchecked⟩
  · rintro ⟨hconfig, hchecked⟩
    exact ⟨config, hconfig, hchecked, rfl⟩

/-- What loads answers for every project: its offsets were checked when it was loaded. -/
theorem serves_of_runtime {row : ConfigRow} (h : row.runtime?.isSome) : row.Serves := by
  obtain ⟨config, hconfig⟩ := Option.isSome_iff_exists.mp h
  refine ⟨config, hconfig, ?_⟩
  intro project
  obtain ⟨_, _, hvalid, _⟩ := fromMappings_eq_some.mp hconfig
  have hoffsets : ∀ offsets ∈ config.offsetsFor project,
      |(config.weights.add offsets).sum - 1| ≤ 1 / 10 ^ 7 := by
    intro offsets hoffsets
    simp only [ScorerConfig.offsetsFor, Option.mem_def, Option.bind_eq_some_iff,
      Option.map_eq_some_iff] at hoffsets
    obtain ⟨_, _, entry, hentry, rfl⟩ := hoffsets
    exact hvalid.offsets entry (List.mem_of_find?_eq_some hentry)
  rw [weightsForProject?, if_pos hoffsets]
  rfl

end Loading

theorem activeConfig_eq_ok {row : ConfigRow} :
    activeConfig c = .ok row ↔ c.configs.rows.filter (·.active) = [row] := by
  unfold activeConfig
  split
  case h_1 active h => simp [h]
  case h_2 h =>
    constructor
    · intro hok
      cases hok
    · intro hone
      exact absurd hone (h row)

/-- The one active row takes the flag off every other. -/
theorem eq_of_active {active row : ConfigRow} (h : c.configs.rows.filter (·.active) = [active])
    (hrow : row ∈ c.configs.rows) (hactive : row.active = true) : row = active := by
  have hmem : row ∈ c.configs.rows.filter (·.active) := List.mem_filter.mpr ⟨hrow, hactive⟩
  rwa [h, List.mem_singleton] at hmem

theorem mem_of_filter_eq {active : ConfigRow} (h : c.configs.rows.filter (·.active) = [active]) :
    active ∈ c.configs.rows ∧ active.active = true := by
  have hmem : active ∈ c.configs.rows.filter (·.active) := by
    rw [h]
    exact List.mem_singleton_self active
  simpa using hmem

theorem deactivated_of_inactive {row : ConfigRow} (h : row.active = false) :
    row.deactivated = row := by
  cases row
  cases h
  rfl

/-- A commit that moves the active flag from `active` to `target`, and says so in one line. -/
structure Switched (c c' : Console) (active target : ConfigRow) (line : ScorerActivation) :
    Prop where
  was : c.configs.rows.filter (·.active) = [active]
  on : target.active = true
  other : target.version ≠ active.version
  configs : ∀ row, row ∈ c'.configs.rows ↔
    row = target ∨ ∃ old ∈ c.configs.rows, old.version ≠ target.version ∧ row = old.deactivated
  same : ∀ old ∈ c.configs.rows, old.version = target.version →
    target.deactivated = old.deactivated
  fresh : c.activations.get? line.eventUid = none
  activations : c'.activations.rows = c.activations.rows ++ [line]
  version : line.version = target.version
  previous : line.previousVersion = active.version

/-- Where the version that is made active comes from. -/
inductive Written (c : Console) (active : ConfigRow) : ConfigRow → Prop
  | created {ts : Time} {body : CreateScorerConfigRequest} {changes : List Change}
    (hruntime : (controlRow ts active body changes).runtime?.isSome) :
    Written c active (controlRow ts active body changes)
  | activated {target : ConfigRow} (hmem : target ∈ c.configs.rows)
    (hoff : target.active = false) (hproposes : target.Proposes) :
    Written c active target.activated

/-- What a creation or an activation leaves: the console as it was, for a line that is logged, or
a switch in a line of its own. -/
inductive Answered (c : Console) (ts : Time) (eventUid : String) : Console → Prop
  | replayed {replay : ScorerActivation} (hreplay : c.activations.get? eventUid = some replay) :
    Answered c ts eventUid c
  | switched {c' : Console} {active target : ConfigRow} {line : ScorerActivation}
    (hswitched : Switched c c' active target line) (hwritten : Written c active target)
    (hts : line.ts = ts) (huid : line.eventUid = eventUid)
    (hframe : c' = { c with configs := c'.configs, activations := c'.activations }) :
    Answered c ts eventUid c'

section Commits

theorem mem_deactivate {active row : ConfigRow}
    (h : c.configs.rows.filter (·.active) = [active]) :
    row ∈ (c.configs.modify active.version ConfigRow.deactivated
      ConfigRow.version_deactivated).rows ↔ ∃ old ∈ c.configs.rows, row = old.deactivated := by
  rw [Table.mem_modify]
  apply exists_congr
  intro old
  apply and_congr_right
  intro hold
  split
  · exact eq_comm
  · next hother =>
    have hoff : old.active = false := by
      by_contra hactive
      rw [eq_of_active h hold (by simpa using hactive)] at hother
      exact hother rfl
    rw [deactivated_of_inactive hoff]
    exact eq_comm

theorem switched_create {active target : ConfigRow} {line : ScorerActivation}
    (hwas : c.configs.rows.filter (·.active) = [active]) (hon : target.active = true)
    (hnew : c.configs.get? target.version = none)
    (hconfigs : (c.configs.modify active.version ConfigRow.deactivated
      ConfigRow.version_deactivated).insert? target = some c'.configs)
    (hactivations : c.activations.insert? line = some c'.activations)
    (hversion : line.version = target.version) (hprevious : line.previousVersion = active.version) :
    Switched c c' active target line := by
  obtain ⟨_, hconfigs⟩ := Table.insert?_eq_some.mp hconfigs
  obtain ⟨hfresh, hactivations⟩ := Table.insert?_eq_some.mp hactivations
  have hother : ∀ old ∈ c.configs.rows, old.version ≠ target.version :=
    Table.get?_eq_none_iff.mp hnew
  constructor
  · exact hwas
  · exact hon
  · exact (hother active (mem_of_filter_eq hwas).1).symm
  · intro row
    rw [hconfigs, Table.rows_insert, List.mem_append, List.mem_singleton, mem_deactivate hwas,
      or_comm]
    apply or_congr_right
    apply exists_congr
    intro old
    constructor
    · rintro ⟨hold, hrow⟩
      exact ⟨hold, hother old hold, hrow⟩
    · rintro ⟨hold, _, hrow⟩
      exact ⟨hold, hrow⟩
  · exact fun old hold hsame => absurd hsame (hother old hold)
  · exact hfresh
  · rw [hactivations, Table.rows_insert]
  · exact hversion
  · exact hprevious

theorem switched_activate {active target : ConfigRow} {line : ScorerActivation}
    (hwas : c.configs.rows.filter (·.active) = [active])
    (htarget : c.configs.get? target.version = some target) (hoff : target.active = false)
    (hconfigs : c'.configs = flipped c active target)
    (hactivations : c.activations.insert? line = some c'.activations)
    (hversion : line.version = target.version) (hprevious : line.previousVersion = active.version) :
    Switched c c' active target.activated line := by
  obtain ⟨hfresh, hactivations⟩ := Table.insert?_eq_some.mp hactivations
  have hother : target.version ≠ active.version := by
    intro hsame
    obtain ⟨hmem, hactive⟩ := mem_of_filter_eq hwas
    have hget := Table.get?_of_mem hmem
    rw [← hsame, htarget] at hget
    rw [← Option.some.inj hget, hoff] at hactive
    cases hactive
  constructor
  · exact hwas
  · rfl
  · exact hother
  · intro row
    rw [hconfigs, flipped, Table.mem_modify]
    constructor
    · rintro ⟨row', hrow', rfl⟩
      obtain ⟨old, hold, rfl⟩ := (mem_deactivate hwas).mp hrow'
      rw [ConfigRow.version_deactivated]
      split
      · next hsame =>
        have hget := Table.get?_of_mem hold
        rw [hsame, htarget] at hget
        left
        rw [Option.some.inj hget]
        rfl
      · next hsame => exact .inr ⟨old, hold, hsame, rfl⟩
    · rintro (rfl | ⟨old, hold, hne, rfl⟩)
      · refine ⟨target, (mem_deactivate hwas).mpr ⟨target, Table.mem_of_get? htarget, ?_⟩, ?_⟩
        · exact (deactivated_of_inactive hoff).symm
        · exact if_pos rfl
      · refine ⟨old.deactivated, (mem_deactivate hwas).mpr ⟨old, hold, rfl⟩, ?_⟩
        exact if_neg hne
  · intro old hold hsame
    have hget := Table.get?_of_mem hold
    rw [hsame, ConfigRow.version_activated, htarget] at hget
    rw [← Option.some.inj hget]
    rfl
  · exact hfresh
  · rw [hactivations, Table.rows_insert]
  · exact hversion
  · exact hprevious

theorem answered_of_create {body : CreateScorerConfigRequest}
    {receipt : Option SimulationReceipt}
    (h : createInSnapshot c ts body receipt = .ok (view, c')) : Answered c ts body.eventUid c' := by
  simp only [createInSnapshot] at h
  split at h
  case h_1 replay hreplay =>
    simp only [bind_eq_ok, pure_eq_ok, Prod.mk.injEq] at h
    obtain ⟨_, _, _, rfl⟩ := h
    exact .replayed hreplay
  case h_2 =>
    simp only [bind_eq_ok, ensure_eq_ok, require_eq_ok, pure_eq_ok, Prod.mk.injEq,
      activeConfig_eq_ok] at h
    obtain ⟨active, hactive, _, _, receipt, _, _, _, _, hnew, values, _, _, hruntime, configs,
      hconfigs, _, _, activations, hactivations, _, _, _, rfl⟩ := h
    have hswitched : Switched c { c with configs, activations } active
        (controlRow ts active body (changesBetween values body.values)) _ :=
      switched_create hactive rfl hnew hconfigs hactivations rfl rfl
    exact .switched hswitched (.created hruntime) rfl rfl rfl

theorem answered_of_activate {version : String} {body : ActivateScorerConfigRequest}
    (h : activateProposal c ts version body = .ok (view, c')) :
    Answered c ts body.eventUid c' := by
  simp only [activateProposal] at h
  split at h
  case h_1 replay hreplay =>
    simp only [bind_eq_ok, pure_eq_ok, Prod.mk.injEq] at h
    obtain ⟨_, _, _, _, _, _, _, rfl⟩ := h
    exact .replayed hreplay
  case h_2 =>
    simp only [bind_eq_ok, ensure_eq_ok, require_eq_ok, pure_eq_ok, Prod.mk.injEq,
      activeConfig_eq_ok] at h
    obtain ⟨active, hactive, target, htarget, _, ⟨hoff, hproposes⟩, _, _, _, _, _, _, activations,
      hactivations, _, _, _, rfl⟩ := h
    obtain rfl : target.version = version := Table.key_of_get? htarget
    have hswitched : Switched c { c with configs := flipped c active target, activations } active
        target.activated _ :=
      switched_activate hactive htarget hoff rfl hactivations rfl rfl
    exact .switched hswitched (.activated (Table.mem_of_get? htarget) hoff hproposes) rfl rfl rfl

/-- The version a switch leaves active is the one it switches to. -/
theorem Switched.eq_target {active target : ConfigRow} {line : ScorerActivation}
    (h : Switched c c' active target line) {row : ConfigRow} (hrow : row ∈ c'.configs.rows)
    (hactive : row.active = true) : row = target := by
  rcases (h.configs row).mp hrow with rfl | ⟨old, _, _, rfl⟩
  · rfl
  · cases hactive

end Commits

section Retraining

variable {settings : LearnerSettings} {canonicalDigest : CanonicalDigest}
  {snapshot : List ConfigRow} {eligibleDispositions : Nat} {corpus : BalancedCorpus}
  {proposal : ConfigRow}

theorem fitOutcome_proposed {active : ConfigRow} {incumbent : ScorerConfig ℚ} {p : Proposal}
    (h : fitOutcome settings active incumbent canonicalDigest snapshot eligibleDispositions corpus =
      .proposed p) :
    ∃ challenged, challenge settings active incumbent corpus = .ok challenged ∧
      p = challenged.proposal settings active incumbent canonicalDigest eligibleDispositions
        corpus := by
  unfold fitOutcome at h
  split at h
  · cases h
  split at h
  case h_1 => cases h
  case h_2 challenged hchallenge =>
    split at h
    · cases h
      exact ⟨challenged, hchallenge, rfl⟩
    · cases h

theorem persist_adds {p : Proposal} (h : persist snapshot ts p = .ok (some proposal)) :
    proposal = ⟨p.version, p.weights, p.params, ts, false⟩ := by
  unfold persist at h
  split at h
  · cases h
    rfl
  · simp only [bind_eq_ok, pure_eq_ok] at h
    obtain ⟨_, _, h⟩ := h
    cases h

/-- A retraining adds what the fit of the one active row proposes, inactive. -/
theorem retrainInSnapshot_proposes
    (h : retrainInSnapshot settings canonicalDigest snapshot ts eligibleDispositions corpus =
      .ok (some proposal)) :
    ∃ active incumbent p, snapshot.filter (·.active) = [active] ∧
      active.runtime? = some incumbent ∧
      fitOutcome settings active incumbent canonicalDigest snapshot eligibleDispositions corpus =
        .proposed p ∧
      proposal = ⟨p.version, p.weights, p.params, ts, false⟩ := by
  unfold retrainInSnapshot at h
  split at h
  case h_2 => cases h
  case h_1 active hactive =>
    simp only [bind_eq_ok, require_eq_ok] at h
    obtain ⟨_, _, incumbent, hincumbent, h⟩ := h
    split at h
    case h_1 p hp => exact ⟨active, incumbent, p, hactive, hincumbent, hp, persist_adds h⟩
    case h_2 => cases h
    case h_3 => cases h

/-- What it adds is what a winning challenge proposes. -/
theorem retrainInSnapshot_adds
    (h : retrainInSnapshot settings canonicalDigest snapshot ts eligibleDispositions corpus =
      .ok (some proposal)) :
    ∃ active incumbent challenged, active ∈ snapshot ∧ active.runtime? = some incumbent ∧
      challenge settings active incumbent corpus = .ok challenged ∧
      ∃ p, p = challenged.proposal settings active incumbent canonicalDigest eligibleDispositions
          corpus ∧
        proposal = ⟨p.version, p.weights, p.params, ts, false⟩ := by
  obtain ⟨active, incumbent, _, hactive, hincumbent, hp, rfl⟩ := retrainInSnapshot_proposes h
  obtain ⟨challenged, hchallenge, rfl⟩ := fitOutcome_proposed hp
  have hmem : active ∈ snapshot.filter (·.active) := hactive ▸ List.mem_singleton_self _
  exact ⟨active, incumbent, challenged, (List.mem_filter.mp hmem).1, hincumbent, hchallenge, _, rfl,
    rfl⟩

theorem retrainInSnapshot_inactive
    (h : retrainInSnapshot settings canonicalDigest snapshot ts eligibleDispositions corpus =
      .ok (some proposal)) : proposal.active = false := by
  obtain ⟨_, _, _, _, _, _, p, _, rfl⟩ := retrainInSnapshot_adds h
  rfl

end Retraining

section Steps

/-- The stamp of the line that an action is about to add to the log. -/
def stampOf (c : Console) : Action → Option (Time ×ₗ String)
  | .create k body _ =>
    if c.activations.get? body.eventUid = none then
      (c.requests[k]?.bind Request.creating?).map fun ts => toLex (ts, body.eventUid)
    else none
  | .activate k _ body =>
    if c.activations.get? body.eventUid = none then
      (c.requests[k]?.bind Request.activating?).map fun ts => toLex (ts, body.eventUid)
    else none
  | _ => none

/-- A snapshot is taken of the rows there are. -/
def SnapshotsKept (c c' : Console) : Prop :=
  ∀ retraining ∈ c'.retraining, c.retraining = some retraining ∨
    retraining.snapshot = c.configs.rows

/-- What an accepted action does to the versions and to the log. -/
inductive Stepped (w : Deployment) (c : Console) : Action → Console → Prop
  | idle {a : Action} {c' : Console} (hstamp : stampOf c a = none)
    (hconfigs : c'.configs = c.configs) (hactivations : c'.activations = c.activations)
    (hsnapshots : SnapshotsKept c c') : Stepped w c a c'
  | switched {a : Action} {c' : Console} {active target : ConfigRow} {line : ScorerActivation}
    (hswitched : Switched c c' active target line) (hwritten : Written c active target)
    (hstamp : stampOf c a = some line.stamp)
    (hsnapshots : SnapshotsKept c c') : Stepped w c a c'
  | proposed {eligibleDispositions : Nat} {corpus : BalancedCorpus} {c' : Console}
    {retraining : Retraining} {proposal : ConfigRow}
    (hretraining : c.retraining = some retraining)
    (hproposal : retrainInSnapshot w.settings w.canonicalDigest retraining.snapshot retraining.ts
      eligibleDispositions corpus = .ok (some proposal))
    (hconfigs : c'.configs.rows = c.configs.rows ++ [proposal])
    (hactivations : c'.activations = c.activations) (hsnapshots : SnapshotsKept c c') :
    Stepped w c (.retrain eligibleDispositions corpus) c'

theorem snapshotsKept_of_eq (h : c'.retraining = c.retraining) : SnapshotsKept c c' := by
  intro retraining hretraining
  exact .inl (h ▸ hretraining)

theorem Switched.finish {active target : ConfigRow} {line : ScorerActivation}
    (h : Switched c c' active target line) (k : Nat) :
    Switched c (c'.finish k) active target line :=
  ⟨h.was, h.on, h.other, h.configs, h.same, h.fresh, h.activations, h.version, h.previous⟩

/-- An action that stamps a line where none is logged yet. -/
theorem Answered.stepped {a : Action} {ts : Time} {eventUid : String}
    (h : Answered c ts eventUid c') (k : Nat) (hstamp : stampOf c a =
      if c.activations.get? eventUid = none then some (toLex (ts, eventUid)) else none) :
    Stepped w c a (c'.finish k) := by
  cases h with
  | replayed hreplay =>
    rw [hreplay, if_neg (Option.some_ne_none _)] at hstamp
    exact .idle hstamp rfl rfl (snapshotsKept_of_eq rfl)
  | switched hswitched hwritten hts huid hframe =>
    apply Stepped.switched (hswitched.finish k) hwritten
    · rw [hstamp, ← huid, hswitched.fresh, if_pos rfl, ScorerActivation.stamp, hts]
    · rw [hframe]
      exact snapshotsKept_of_eq rfl

theorem stepped_of_step {a : Action} (h : step w c a = .ok c') : Stepped w c a c' := by
  cases a with
  | tick elapsed =>
    cases h
    exact .idle rfl rfl rfl (snapshotsKept_of_eq rfl)
  | lockCreate =>
    simp only [step, bind_eq_ok, pure_eq_ok] at h
    obtain ⟨_, _, rfl⟩ := h
    exact .idle rfl rfl rfl (snapshotsKept_of_eq rfl)
  | beginActivate =>
    cases h
    exact .idle rfl rfl rfl (snapshotsKept_of_eq rfl)
  | lockActivate k =>
    simp only [step, bind_eq_ok, pure_eq_ok] at h
    obtain ⟨_, _, _, _, rfl⟩ := h
    exact .idle rfl rfl rfl (snapshotsKept_of_eq rfl)
  | abort k =>
    cases h
    exact .idle rfl rfl rfl (snapshotsKept_of_eq rfl)
  | abortRetrain =>
    cases h
    apply Stepped.idle
    · rfl
    · rfl
    · rfl
    · intro retraining hretraining
      cases hretraining
  | beginRetrain =>
    simp only [step, bind_eq_ok, pure_eq_ok] at h
    obtain ⟨_, _, rfl⟩ := h
    apply Stepped.idle
    · rfl
    · rfl
    · rfl
    · intro retraining hretraining
      cases Option.some.inj hretraining
      exact .inr rfl
  | create k body receipt =>
    simp only [step, bind_eq_ok, require_eq_ok, pure_eq_ok] at h
    obtain ⟨ts, hts, ⟨view, c₁⟩, hcreate, rfl⟩ := h
    exact (answered_of_create hcreate).stepped k (by simp only [stampOf, hts, Option.map_some])
  | activate k version body =>
    simp only [step, bind_eq_ok, require_eq_ok, pure_eq_ok] at h
    obtain ⟨ts, hts, ⟨view, c₁⟩, hactivate, rfl⟩ := h
    exact (answered_of_activate hactivate).stepped k (by simp only [stampOf, hts, Option.map_some])
  | retrain eligibleDispositions corpus =>
    simp only [step, retrain, bind_eq_ok, require_eq_ok] at h
    obtain ⟨retraining, hretraining, h⟩ := h
    split at h
    case h_1 => cases h
    case h_2 =>
      cases h
      apply Stepped.idle
      · rfl
      · rfl
      · rfl
      · intro retraining hretraining
        cases hretraining
    case h_3 proposal hproposal =>
      simp only [bind_eq_ok, require_eq_ok, pure_eq_ok] at h
      obtain ⟨configs, hconfigs, rfl⟩ := h
      obtain ⟨_, rfl⟩ := Table.insert?_eq_some.mp hconfigs
      apply Stepped.proposed hretraining hproposal
      · rw [Table.rows_insert]
      · rfl
      · intro retraining hretraining
        cases hretraining

end Steps

theorem start_firstConsole : (console w).start firstConsole := by
  refine ⟨⟨by decide, ?_, by decide +kernel⟩, ⟨?_, ?_⟩, by decide, rfl, rfl, rfl⟩
  · have hloads : ∀ row ∈ firstConsole.configs.rows, row.runtime?.isSome := by
      decide +kernel
    exact fun row hrow => serves_of_runtime (hloads row hrow)
  · exact List.isChain_nil
  · intro last hlast
    cases hlast

end Nocturne.M2k
