import Nocturne.M2k.Serving

namespace Nocturne.M2k

open Nocturne.Learner Nocturne.Lib

variable {w : Deployment} {c c' : Console} {a : Action} {version : String}

section Guards

/-- The console lists the version as proposed. -/
def Reported (c : Console) (version : String) : Prop :=
  ∃ views, configViews c = .ok views ∧
    ∃ view ∈ views, view.version = version ∧ view.status = .proposed

/-- Under a new uid the console activates, and it auditions, exactly what it lists as proposed. -/
def Agrees (c : Console) : Prop :=
  ∀ version,
    (∀ ts body, c.activations.get? body.eventUid = none →
      ((∃ answer, activateProposal c ts version body = .ok answer) ↔ Reported c version)) ∧
    ((∃ answer, audition c version = .ok answer) ↔ Reported c version)

theorem view?_eq_some {row : ConfigRow} {view : ScorerConfigurationView}
    (h : row.view? = some view) : view.version = row.version ∧ view.status = row.status := by
  simp only [ConfigRow.view?, Option.bind_eq_bind, Option.bind_eq_some_iff] at h
  obtain ⟨_, _, h⟩ := h
  cases h
  exact ⟨rfl, rfl⟩

theorem ConfigRow.Sound.view {row : ConfigRow} (h : row.Sound) : ∃ view, row.view? = some view := by
  obtain ⟨values, hvalues⟩ := Option.isSome_iff_exists.mp h.shown
  exact ⟨_, by rw [ConfigRow.view?, hvalues]; rfl⟩

theorem status_eq_proposed {row : ConfigRow} :
    row.status = .proposed ↔
      row.active = false ∧ row.Proposes ∧ row.params.control = none := by
  unfold ConfigRow.status
  cases hactive : row.active with
  | true => simp
  | false =>
    simp only [Bool.false_eq_true, ↓reduceIte]
    split
    · next h => simp [h]
    · next h => simp [h]

theorem reported_iff (h : Settled c) :
    Reported c version ↔ ∃ row, c.configs.get? version = some row ∧ row.active = false ∧
      row.Proposes ∧ row.params.control = none := by
  have hviews : ∃ views, configViews c = .ok views := by
    apply mapM_total
    intro row hrow
    obtain ⟨view, hview⟩ := (h.sound row hrow).view
    exact ⟨view, by rw [configView, hview, require_some]⟩
  constructor
  · rintro ⟨views, hviews, view, hview, rfl, hstatus⟩
    obtain ⟨row, hrow, hshown⟩ := forall₂_of_mem_right (mapM_eq_ok.mp hviews) hview
    obtain ⟨hversion, hsame⟩ := view?_eq_some (require_eq_ok.mp hshown)
    refine ⟨row, ?_, status_eq_proposed.mp (hsame ▸ hstatus)⟩
    rw [hversion]
    exact Table.get?_of_mem hrow
  · rintro ⟨row, hrow, hstatus⟩
    obtain ⟨views, hviews⟩ := hviews
    obtain ⟨view, hview, hshown⟩ :=
      forall₂_of_mem_left (mapM_eq_ok.mp hviews) (Table.mem_of_get? hrow)
    obtain ⟨hversion, hsame⟩ := view?_eq_some (require_eq_ok.mp hshown)
    refine ⟨views, hviews, view, hview, ?_, ?_⟩
    · rw [hversion]
      exact Table.key_of_get? hrow
    · rw [hsame]
      exact status_eq_proposed.mpr hstatus

theorem auditions_iff (h : Settled c) :
    (∃ answer, audition c version = .ok answer) ↔
      ∃ row, c.configs.get? version = some row ∧ row.active = false ∧ row.Proposes := by
  constructor
  · rintro ⟨answer, hanswer⟩
    simp only [audition, bind_eq_ok, ensure_eq_ok, require_eq_ok, pure_eq_ok] at hanswer
    obtain ⟨_, _, row, hrow, _, hguard, _⟩ := hanswer
    exact ⟨row, hrow, hguard⟩
  · rintro ⟨row, hrow, hguard⟩
    obtain ⟨active, hactive⟩ := h.active
    obtain ⟨view, hview⟩ := (h.sound row (Table.mem_of_get? hrow)).view
    refine ⟨(active, view), ?_⟩
    simp only [audition, activeConfig_eq_ok.mpr hactive, hrow, require_some, ok_bind,
      ensure_pos hguard, configView, hview]
    rfl

theorem activates_iff (h : Settled c) {ts : Time} {body : ActivateScorerConfigRequest}
    (hfresh : c.activations.get? body.eventUid = none) :
    (∃ answer, activateProposal c ts version body = .ok answer) ↔
      ∃ row, c.configs.get? version = some row ∧ row.active = false ∧ row.Proposes := by
  constructor
  · rintro ⟨answer, hanswer⟩
    simp only [activateProposal, hfresh, bind_eq_ok, ensure_eq_ok, require_eq_ok, pure_eq_ok]
      at hanswer
    obtain ⟨_, _, row, hrow, _, hguard, _⟩ := hanswer
    exact ⟨row, hrow, hguard⟩
  · rintro ⟨row, hrow, hguard⟩
    obtain ⟨active, hactive⟩ := h.active
    have hmem := (mem_of_filter_eq hactive).1
    have hsound := h.sound row (Table.mem_of_get? hrow)
    obtain ⟨activeValues, hactiveValues⟩ := Option.isSome_iff_exists.mp (h.sound active hmem).shown
    obtain ⟨values, hvalues⟩ := Option.isSome_iff_exists.mp hsound.shown
    obtain ⟨view, hview⟩ := hsound.activated.view
    obtain rfl : row.version = version := Table.key_of_get? hrow
    have hinsert : c.activations.insert?
        (proposalLine ts active row body (changesBetween activeValues values)) = some _ :=
      Table.insert?_of_get?_none hfresh
    have hswitched : Switched c { c with configs := flipped c active row, activations := _ } active
        row.activated _ :=
      switched_activate hactive hrow hguard.1 rfl hinsert rfl rfl
    have hone : ((flipped c active row).rows.filter (·.active)).length ≤ 1 := by
      simp [show (flipped c active row).rows.filter (·.active) = _ from hswitched.filter]
    refine ⟨(view, { c with
      configs := flipped c active row
      activations := c.activations.insert
        (proposalLine ts active row body (changesBetween activeValues values)) hfresh }), ?_⟩
    simp only [activateProposal, hfresh, activeConfig_eq_ok.mpr hactive, hrow, require_some,
      ok_bind, ensure_pos hguard, valuesOf, hactiveValues, hvalues, checkOneActive,
      ensure_pos hone, hinsert, configView, hview]
    rfl

end Guards

section Runs

/-- No version out of use is a control's that carries a proposal on. -/
def NoneRetired (c : Console) : Prop :=
  ∀ row ∈ c.configs.rows, row.active = false → ¬row.Inherits

/-- The guards and the view differ on a carried proposal alone, once it is out of use. -/
theorem agrees_iff (h : Settled c) : Agrees c ↔ NoneRetired c := by
  constructor
  · intro hagrees row hrow hoff hinherits
    obtain ⟨hproposes, hcontrol⟩ := hinherits
    have hget := Table.get?_of_mem hrow
    have haudition := (auditions_iff h).mpr ⟨row, hget, hoff, hproposes⟩
    obtain ⟨row', hget', _, _, hnone⟩ := (reported_iff h).mp ((hagrees row.version).2.mp haudition)
    cases Option.some.inj (hget.symm.trans hget')
    exact hcontrol hnone
  · intro hnone version
    have hguard : (∃ row, c.configs.get? version = some row ∧ row.active = false ∧ row.Proposes) ↔
        Reported c version := by
      rw [reported_iff h]
      apply exists_congr
      intro row
      constructor
      · rintro ⟨hget, hoff, hproposes⟩
        refine ⟨hget, hoff, hproposes, ?_⟩
        by_contra hcontrol
        exact hnone row (Table.mem_of_get? hget) hoff ⟨hproposes, hcontrol⟩
      · rintro ⟨hget, hoff, hproposes, _⟩
        exact ⟨hget, hoff, hproposes⟩
    constructor
    · intro ts body hfresh
      rw [activates_iff h hfresh, hguard]
    · rw [auditions_iff h, hguard]

/-- The version that a new line takes out of use carries no proposal on. -/
def RetiresPlain (c : Console) (a : Action) : Prop :=
  ∀ stamp ∈ stampOf c a, ∀ row ∈ c.configs.rows, row.active = true → ¬row.Inherits

instance (c : Console) (a : Action) : Decidable (RetiresPlain c a) :=
  inferInstanceAs (Decidable (∀ stamp ∈ stampOf c a, _))

/-- The action, where it is accepted, takes no carried proposal out of use. -/
def Plain (w : Deployment) (c : Console) (a : Action) : Prop :=
  Answers (step w c a) (fun _ => True) → RetiresPlain c a

instance (w : Deployment) (c : Console) (a : Action) : Decidable (Plain w c a) :=
  inferInstanceAs (Decidable (_ → _))

theorem retrainInSnapshot_plain {settings : LearnerSettings} {canonicalDigest : CanonicalDigest}
    {snapshot : List ConfigRow} {ts : Time} {eligibleDispositions : Nat} {corpus : BalancedCorpus}
    {proposal : ConfigRow}
    (h : retrainInSnapshot settings canonicalDigest snapshot ts eligibleDispositions corpus =
      .ok (some proposal)) : ¬proposal.Inherits := by
  obtain ⟨_, _, _, _, _, _, p, rfl, rfl⟩ := retrainInSnapshot_adds h
  exact fun hinherits => hinherits.2 rfl

/-- A step that keeps to what it may retire is all that keeps carried proposals in use. -/
theorem Stepped.noneRetired (hnone : NoneRetired c) (h : Stepped w c a c') :
    NoneRetired c' ↔ RetiresPlain c a := by
  cases h with
  | idle hstamp hconfigs _ _ =>
    have hkept : NoneRetired c' := fun row hrow => hnone row (hconfigs ▸ hrow)
    simp [hkept, RetiresPlain, hstamp]
  | @switched _ _ active target line hswitched _ hstamp _ =>
    obtain ⟨hactive, hon⟩ := mem_of_filter_eq hswitched.was
    constructor
    · intro hnone' stamp _ row hrow hrowOn hinherits
      obtain rfl : row = active := eq_of_active hswitched.was hrow hrowOn
      have hretired : row.deactivated ∈ c'.configs.rows :=
        (hswitched.configs _).mpr (.inr ⟨row, hrow, hswitched.other.symm, rfl⟩)
      exact hnone' _ hretired rfl hinherits
    · intro hplain row hrow hoff hinherits
      rcases (hswitched.configs row).mp hrow with rfl | ⟨old, hold, _, rfl⟩
      · rw [hswitched.on] at hoff
        cases hoff
      · cases hactiveOld : old.active with
        | true => exact hplain _ hstamp old hold hactiveOld hinherits
        | false => exact hnone old hold hactiveOld hinherits
  | proposed _ hproposal hconfigs _ _ =>
    have hkept : NoneRetired c' := by
      intro row hrow hoff
      rw [hconfigs, List.mem_append, List.mem_singleton] at hrow
      rcases hrow with hrow | rfl
      · exact hnone row hrow hoff
      · exact retrainInSnapshot_plain hproposal
    simp [hkept, RetiresPlain, stampOf]

theorem noneRetired_of_reachableBy (h : (console w).ReachableBy (Plain w) c) : NoneRetired c := by
  apply Machine.reachableBy_keeps ?_ ?_ h
  · intro c hstart row hrow _
    exact hstart.2.2.1 row hrow
  · intro c a c' hnone hplain hstep
    exact ((stepped_of_step hstep).noneRetired hnone).mpr
      (hplain (answers_iff.mpr ⟨c', hstep, trivial⟩))

/-- The guards agree with the view along every run that takes no carried proposal out of use, and
stop to with the first that is. -/
theorem proposal_status_agrees (w : Deployment) (c : Console)
    (h : (console w).ReachableBy (Plain w) c) :
    Agrees c ∧ ∀ a c', step w c a = .ok c' → (Agrees c' ↔ RetiresPlain c a) := by
  have hsettled := settled_of_reachable h.reachable
  have hnone := noneRetired_of_reachableBy h
  refine ⟨(agrees_iff hsettled).mpr hnone, ?_⟩
  intro a c' hstep
  rw [agrees_iff (settled_of_reachable (h.reachable.step hstep))]
  exact (stepped_of_step hstep).noneRetired hnone

def adoptedCalls : List Action :=
  [.beginActivate, .lockActivate 0, .activate 0 "m2f-00" ⟨"a", "m"⟩]

theorem proposal_status_agrees_adopted :
    Agrees ((console idleDeployment).run firstConsole adoptedCalls) :=
  (proposal_status_agrees idleDeployment _
    ⟨firstConsole, adoptedCalls, start_firstConsole, by decide +kernel, rfl⟩).1

/-- A control on the activated proposal, and one more on that. -/
def carriedCalls : List Action :=
  adoptedCalls ++ [.lockCreate, .create 1 (createsFrom "m2f-00" "b") (some someReceipt),
    .lockCreate, .create 2 (createsFrom "m2k-b" "c") (some someReceipt)]

theorem proposal_status_carried :
    (console idleDeployment).Reachable ((console idleDeployment).run firstConsole carriedCalls) ∧
    ¬Agrees ((console idleDeployment).run firstConsole carriedCalls) := by
  have hreach : (console idleDeployment).Reachable
      ((console idleDeployment).run firstConsole carriedCalls) :=
    ⟨firstConsole, carriedCalls, start_firstConsole, rfl⟩
  refine ⟨hreach, ?_⟩
  rw [agrees_iff (settled_of_reachable hreach)]
  intro hnone
  have hretired : ∃ row ∈ ((console idleDeployment).run firstConsole carriedCalls).configs.rows,
      row.active = false ∧ row.Inherits := by
    decide +kernel
  obtain ⟨row, hrow, hoff, hinherits⟩ := hretired
  exact hnone row hrow hoff hinherits

end Runs

end Nocturne.M2k
