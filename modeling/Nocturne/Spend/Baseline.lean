import Nocturne.Spend.Reconciliation

namespace Nocturne.Spend

open Nocturne.Lib

section Before

variable {row row' row'' : SpendReconciliation}

theorem SpendReconciliation.Before.trans (h : row.Before row') (h' : row'.Before row'') :
    row.Before row'' := by
  rcases h with h | ⟨hts, huid⟩
  · rcases h' with h' | ⟨hts', _⟩
    · exact .inl (h.trans h')
    · exact .inl (hts' ▸ h)
  · rcases h' with h' | ⟨hts', huid'⟩
    · exact .inl (hts ▸ h')
    · exact .inr ⟨hts.trans hts', huid.trans huid'⟩

theorem before_total (row row' : SpendReconciliation) : row.Before row' ∨ row'.Before row := by
  rcases lt_trichotomy row.ts row'.ts with h | h | h
  · exact .inl (.inl h)
  · rcases le_total row.eventUid row'.eventUid with huid | huid
    · exact .inl (.inr ⟨h, huid⟩)
    · exact .inr (.inr ⟨h.symm, huid⟩)
  · exact .inr (.inl h)

theorem SpendReconciliation.Before.eventUid_eq (h : row.Before row') (h' : row'.Before row) :
    row.eventUid = row'.eventUid := by
  rcases h with h | ⟨hts, huid⟩
  · rcases h' with h' | ⟨hts', _⟩
    · exact absurd h' (lt_asymm h)
    · exact absurd hts' h.ne'
  · rcases h' with h' | ⟨_, huid'⟩
    · exact absurd hts h'.ne'
    · exact le_antisymm huid huid'

instance : Std.Total SpendReconciliation.Before := ⟨before_total⟩

instance : IsTrans SpendReconciliation SpendReconciliation.Before := ⟨fun _ _ _ => .trans⟩

end Before

section Amounts

variable {q r : ℚ}

theorem usd_eq_some (h : usd q = some r) : r = quantize 12 q := by
  simp only [usd] at h
  split at h
  · exact (Option.some.inj h).symm
  · cases h

theorem onGrid_of_usd (h : usd q = some r) : OnGrid 12 r :=
  usd_eq_some h ▸ onGrid_quantize 12 q

theorem usd_of_onGrid (hgrid : OnGrid 12 q) (h : usd q = some r) : r = q := by
  rw [usd_eq_some h, quantize_of_onGrid hgrid]

/-- What a run compares: the same amounts it was given, where these have twelve places. -/
theorem measuredRow_eq {status : ReconciliationStatus} {amounts : Amounts}
    {comparison : Comparison} (husage : OnGrid 12 amounts.brokerUsageUsd)
    (hcost : OnGrid 12 amounts.ledgerCostUsd) (hbroker : OnGrid 12 amounts.brokerSinceBaselineUsd)
    (hledger : OnGrid 12 amounts.ledgerSinceBaselineUsd) (hdrift : OnGrid 12 amounts.driftUsd)
    (h : measuredRow status amounts = some comparison) : comparison = .measured status amounts := by
  simp only [measuredRow, Option.bind_eq_bind, Option.bind_eq_some_iff, Option.pure_def,
    Option.some.injEq] at h
  obtain ⟨_, h₁, _, h₂, _, h₃, _, h₄, _, h₅, rfl⟩ := h
  rw [usd_of_onGrid husage h₁, usd_of_onGrid hcost h₂, usd_of_onGrid hbroker h₃,
    usd_of_onGrid hledger h₄, usd_of_onGrid hdrift h₅]

end Amounts

section Compare

variable {b : Books} {cost tolerance : ℚ} {comparison : Comparison}

/-- The outcomes of a comparison with a ledger of that cost. -/
inductive Compared (b : Books) (cost tolerance : ℚ) : Comparison → Prop
  | unavailable {errorCode : ErrorCode} : Compared b cost tolerance (.unavailable errorCode)
  | baseline {usage : ℚ} (hfirst : chosenBaseline b = none) (husage : OnGrid 12 usage) :
    Compared b cost tolerance (.measured .baseline ⟨usage, cost, 0, 0, 0⟩)
  | since {baseline : Amounts} {usage : ℚ} (hchosen : chosenBaseline b = some baseline)
    (husage : OnGrid 12 usage) :
    Compared b cost tolerance
      (.measured
        (if tolerance < |cost - baseline.ledgerCostUsd - (usage - baseline.brokerUsageUsd)| then
          .drift
        else .balanced)
        ⟨usage, cost, usage - baseline.brokerUsageUsd, cost - baseline.ledgerCostUsd,
          cost - baseline.ledgerCostUsd - (usage - baseline.brokerUsageUsd)⟩)

/-- The amounts a run measures from have twelve places. -/
def Amounts.Exact (amounts : Amounts) : Prop :=
  OnGrid 12 amounts.brokerUsageUsd ∧ OnGrid 12 amounts.ledgerCostUsd

theorem compared_successfulRow {usage : ℚ} (hcost : OnGrid 12 cost) (husage : OnGrid 12 usage)
    (hgrid : ∀ baseline, chosenBaseline b = some baseline → baseline.Exact)
    (h : successfulRow b usage cost tolerance = some comparison) :
    Compared b cost tolerance comparison := by
  cases hchosen : chosenBaseline b with
  | none =>
    simp only [successfulRow, hchosen] at h
    rw [measuredRow_eq husage hcost (onGrid_zero 12) (onGrid_zero 12) (onGrid_zero 12) h]
    exact .baseline hchosen husage
  | some baseline =>
    obtain ⟨hbroker, hledger⟩ := hgrid baseline hchosen
    simp only [successfulRow, hchosen, Option.bind_eq_bind, Option.bind_eq_some_iff] at h
    obtain ⟨brokerSince, hbrokerSince, ledgerSince, hledgerSince, h⟩ := h
    have hgridBroker := husage.sub hbroker
    have hgridLedger := hcost.sub hledger
    cases usd_of_onGrid hgridBroker hbrokerSince
    cases usd_of_onGrid hgridLedger hledgerSince
    split at h
    · cases h
    · rw [Option.bind_eq_some_iff] at h
      obtain ⟨drift, hdrift, h⟩ := h
      have hgridDrift := hgridLedger.sub hgridBroker
      cases usd_of_onGrid hgridDrift hdrift
      rw [measuredRow_eq husage hcost hgridBroker hgridLedger hgridDrift h]
      exact .since hchosen husage

theorem compared_compare (answer : BrokerAnswer) (hcost : OnGrid 12 cost)
    (hgrid : ∀ baseline, chosenBaseline b = some baseline → baseline.Exact) :
    Compared b cost tolerance (compare b answer cost tolerance) := by
  cases answer with
  | unavailable => exact .unavailable
  | invalid => exact .unavailable
  | notFinite => exact .unavailable
  | usage value =>
    simp only [compare]
    split
    · exact .unavailable
    · cases h : (usd value).bind fun usage => successfulRow b usage cost tolerance with
      | none => exact .unavailable
      | some comparison =>
        obtain ⟨usage, husage, h⟩ := Option.bind_eq_some_iff.mp h
        exact compared_successfulRow hcost (onGrid_of_usd husage) hgrid h

end Compare

section Chosen

variable {b : Books} {row : SpendReconciliation} {amounts : Amounts}

theorem mem_of_chosenBaseline (h : chosenBaseline b = some amounts) :
    ∃ row ∈ b.rows.rows, row.amounts? = some amounts := by
  simp only [chosenBaseline, Option.bind_eq_some_iff] at h
  obtain ⟨row, hhead, hamounts⟩ := h
  have hrow := List.mem_of_mem_head? hhead
  rw [List.mem_insertionSort, List.mem_filter] at hrow
  exact ⟨row, hrow.1, hamounts⟩

theorem chosenBaseline_eq_none :
    chosenBaseline b = none ↔ ∀ row ∈ b.rows.rows, row.amounts? = none := by
  constructor
  · intro h row hrow
    cases hamounts : row.amounts? with
    | none => rfl
    | some amounts =>
      have hmem : row ∈ (b.rows.rows.filter fun row => row.amounts?.isSome).insertionSort
          SpendReconciliation.Before := by
        rw [List.mem_insertionSort, List.mem_filter]
        exact ⟨hrow, by simp [hamounts]⟩
      obtain ⟨first, hfirst⟩ := Option.isSome_iff_exists.mp
        (List.isSome_head?.mpr (List.ne_nil_of_mem hmem))
      have hhead := List.mem_of_mem_head? hfirst
      rw [List.mem_insertionSort, List.mem_filter] at hhead
      simp only [chosenBaseline, hfirst, Option.bind_some] at h
      simp [h] at hhead
  · intro h
    cases hchosen : chosenBaseline b with
    | none => rfl
    | some amounts =>
      obtain ⟨row, hrow, hamounts⟩ := mem_of_chosenBaseline hchosen
      rw [h row hrow] at hamounts
      cases hamounts

/-- A measured row before every other is the one a run chooses. -/
theorem chosenBaseline_eq (hrow : row ∈ b.rows.rows) (hamounts : row.amounts? = some amounts)
    (hfirst : ∀ other ∈ b.rows.rows, other.amounts?.isSome → row.Before other) :
    chosenBaseline b = some amounts := by
  have hmem : row ∈ (b.rows.rows.filter fun row => row.amounts?.isSome).insertionSort
      SpendReconciliation.Before := by
    rw [List.mem_insertionSort, List.mem_filter]
    exact ⟨hrow, by simp [hamounts]⟩
  have hsorted := List.pairwise_insertionSort SpendReconciliation.Before
    (b.rows.rows.filter fun row => row.amounts?.isSome)
  cases hlist : (b.rows.rows.filter fun row => row.amounts?.isSome).insertionSort
    SpendReconciliation.Before with
  | nil =>
    rw [hlist] at hmem
    cases hmem
  | cons first rest =>
    have hhead : first ∈ (b.rows.rows.filter fun row => row.amounts?.isSome).insertionSort
        SpendReconciliation.Before := by
      rw [hlist]
      exact List.mem_cons_self
    rw [List.mem_insertionSort, List.mem_filter] at hhead
    have hsame : some first = some row := by
      rw [← Table.get?_of_mem hhead.1, ← Table.get?_of_mem hrow]
      congr 1
      rw [hlist] at hmem hsorted
      rcases List.mem_cons.mp hmem with h | h
      · rw [h]
      · exact (List.rel_of_pairwise_cons hsorted h).eventUid_eq (hfirst first hhead.1 hhead.2)
    simp [chosenBaseline, hlist, Option.some.inj hsame, hamounts]

end Chosen

section Step

variable {b b' : Books} {a : Action}

/-- Some run has read a ledger of that cost and judges it under that tolerance. -/
def Observed (b : Books) (ts : Time) (tolerance cost : ℚ) : Prop :=
  ∃ unpriced, (⟨ts, tolerance, .observed cost unpriced⟩ : ReconciliationRun) ∈ b.runs

/-- A run at `ts` puts its row on record. -/
structure Recorded (b b' : Books) (answer : BrokerAnswer) (row : SpendReconciliation) : Prop where
  observed : ∃ cost, Observed b row.ts row.toleranceUsd cost ∧
    row.comparison = compare b answer cost row.toleranceUsd
  rows : b'.rows.rows = b.rows.rows ++ [row]

theorem rows_of_step (h : step b a = .ok b') :
    b'.rows = b.rows ∨ ∃ k answer row, a = .record k answer row.eventUid ∧
      (∃ run, b.runs[k]? = some run ∧ row.ts = run.ts) ∧ Recorded b b' answer row := by
  cases a with
  | tick elapsed =>
    cases h
    exact .inl rfl
  | spend event =>
    cases h
    exact .inl rfl
  | begin tolerance =>
    simp only [step, bind_eq_ok, pure_eq_ok] at h
    obtain ⟨_, _, rfl⟩ := h
    exact .inl rfl
  | lock k =>
    simp only [step, bind_eq_ok, pure_eq_ok] at h
    obtain ⟨run, _, _, _, _, _, rfl⟩ := h
    exact .inl rfl
  | observe k =>
    simp only [step, bind_eq_ok, pure_eq_ok] at h
    obtain ⟨run, _, _, _, ⟨cost, unpriced⟩, _, rfl⟩ := h
    exact .inl rfl
  | abort k =>
    simp only [step, bind_eq_ok, pure_eq_ok] at h
    obtain ⟨run, _, rfl⟩ := h
    exact .inl rfl
  | record k answer eventUid =>
    simp only [step, runAt, bind_eq_ok, require_eq_ok] at h
    obtain ⟨⟨ts, tolerance, phase⟩, hrun, h⟩ := h
    cases phase with
    | waiting => cases h
    | locked => cases h
    | «over» => cases h
    | observed cost unpriced =>
      simp only [bind_eq_ok, require_eq_ok, ensure_eq_ok, Table.insert?_eq_some, pure_eq_ok] at h
      obtain ⟨_, _, rows, ⟨hfresh, rfl⟩, rfl⟩ := h
      exact .inr ⟨k, answer, ⟨eventUid, ts, _, tolerance, unpriced⟩, rfl, ⟨_, hrun, rfl⟩,
        ⟨cost, ⟨unpriced, List.mem_of_getElem? hrun⟩, rfl⟩, rfl⟩

end Step

section Sound

variable {b b' : Books} {a : Action}

structure ReconciliationRun.Sound (run : ReconciliationRun) : Prop where
  tolerance : 0 < run.tolerance
  exact : ∀ cost unpriced, run.phase = .observed cost unpriced → OnGrid 12 cost

theorem onGrid_ledgerTotals {ledger : List SpendEvent} {cost : ℚ} {unpriced : Nat}
    (h : ledgerTotals ledger = some (cost, unpriced)) : OnGrid 12 cost := by
  simp only [ledgerTotals, Option.map_eq_some_iff] at h
  obtain ⟨cost', hcost, h⟩ := h
  cases h
  exact onGrid_of_usd hcost

theorem sound_become (h : ∀ run ∈ b.runs, run.Sound) {k : Nat} {run : ReconciliationRun}
    (hrun : run.Sound) : ∀ run' ∈ (b.become k run).runs, run'.Sound := by
  intro run' hrun'
  rcases List.mem_or_eq_of_mem_set hrun' with hold | rfl
  · exact h run' hold
  · exact hrun

theorem sound_runAt (h : ∀ run ∈ b.runs, run.Sound) {k : Nat} {run : ReconciliationRun}
    (hrun : runAt b k = .ok run) : run.Sound :=
  h run (List.mem_of_getElem? (require_eq_ok.mp hrun))

theorem runs_of_step (h : step b a = .ok b') (hruns : ∀ run ∈ b.runs, run.Sound) :
    ∀ run ∈ b'.runs, run.Sound := by
  cases a with
  | tick elapsed =>
    cases h
    exact hruns
  | spend event =>
    cases h
    exact hruns
  | begin tolerance =>
    simp only [step, bind_eq_ok, ensure_eq_ok, pure_eq_ok] at h
    obtain ⟨_, ⟨hpos, _⟩, rfl⟩ := h
    intro run hrun
    rcases List.mem_append.mp hrun with hrun | hrun
    · exact hruns run hrun
    · cases List.mem_singleton.mp hrun
      exact ⟨hpos, by simp⟩
  | lock k =>
    simp only [step, bind_eq_ok, pure_eq_ok] at h
    obtain ⟨run, hrun, _, _, _, _, rfl⟩ := h
    exact sound_become hruns ⟨(sound_runAt hruns hrun).tolerance, by simp⟩
  | observe k =>
    simp only [step, bind_eq_ok, require_eq_ok, pure_eq_ok] at h
    obtain ⟨run, hrun, _, _, ⟨cost, unpriced⟩, htotals, rfl⟩ := h
    apply sound_become hruns
    constructor
    · exact (sound_runAt hruns hrun).tolerance
    · intro cost' unpriced' h
      cases h
      exact onGrid_ledgerTotals htotals
  | abort k =>
    simp only [step, bind_eq_ok, pure_eq_ok] at h
    obtain ⟨run, hrun, rfl⟩ := h
    exact sound_become hruns ⟨(sound_runAt hruns hrun).tolerance, by simp⟩
  | record k answer eventUid =>
    simp only [step, bind_eq_ok] at h
    obtain ⟨run, hrun, h⟩ := h
    have hsound := sound_runAt hruns hrun
    cases hphase : run.phase with
    | waiting => simp [hphase] at h
    | locked => simp [hphase] at h
    | «over» => simp [hphase] at h
    | observed cost unpriced =>
      simp only [hphase, bind_eq_ok, pure_eq_ok] at h
      obtain ⟨_, _, rows, _, rfl⟩ := h
      exact sound_become hruns ⟨hsound.tolerance, by simp⟩

/-- Drift is a difference of the amounts since the baseline beyond the tolerance. -/
def SpendReconciliation.Judged (row : SpendReconciliation) : Prop :=
  ∀ status amounts, row.comparison = .measured status amounts →
    (status = .drift ↔
      row.toleranceUsd < |amounts.ledgerSinceBaselineUsd - amounts.brokerSinceBaselineUsd|)

/-- What holds of the books however runs overlap. -/
structure Sound (b : Books) : Prop where
  runs : ∀ run ∈ b.runs, run.Sound
  exact : ∀ row ∈ b.rows.rows, ∀ amounts, row.amounts? = some amounts → amounts.Exact
  single : ∀ row ∈ b.rows.rows, ∀ row' ∈ b.rows.rows, row.status? = some .baseline →
    row'.status? = some .baseline → row = row'
  begun : ∀ row ∈ b.rows.rows, row.amounts?.isSome →
    ∃ baseline ∈ b.rows.rows, baseline.status? = some .baseline
  judged : ∀ row ∈ b.rows.rows, row.Judged

theorem Sound.exact_chosen (h : Sound b) {baseline : Amounts}
    (hchosen : chosenBaseline b = some baseline) : baseline.Exact := by
  obtain ⟨row, hrow, hamounts⟩ := mem_of_chosenBaseline hchosen
  exact h.exact row hrow baseline hamounts

theorem SpendReconciliation.amounts?_isSome {row : SpendReconciliation}
    {status : ReconciliationStatus} (h : row.status? = some status) : row.amounts?.isSome := by
  simp only [SpendReconciliation.status?, SpendReconciliation.amounts?] at h ⊢
  split at h
  · rfl
  · cases h

theorem SpendReconciliation.status?_eq {row : SpendReconciliation} {status : ReconciliationStatus}
    {amounts : Amounts} (h : row.comparison = .measured status amounts) :
    row.status? = some status := by
  simp [SpendReconciliation.status?, h]

theorem SpendReconciliation.amounts?_eq {row : SpendReconciliation} {status : ReconciliationStatus}
    {amounts : Amounts} (h : row.comparison = .measured status amounts) :
    row.amounts? = some amounts := by
  simp [SpendReconciliation.amounts?, h]

/-- What a row on record was compared with. -/
theorem Sound.compared (h : Sound b) {answer : BrokerAnswer} {row : SpendReconciliation}
    (hrecorded : Recorded b b' answer row) :
    ∃ cost, OnGrid 12 cost ∧ 0 < row.toleranceUsd ∧
      Compared b cost row.toleranceUsd row.comparison := by
  obtain ⟨cost, ⟨unpriced, hrun⟩, hcompare⟩ := hrecorded.observed
  have hsound := h.runs _ hrun
  have hcost := hsound.exact cost unpriced rfl
  rw [hcompare]
  exact ⟨cost, hcost, hsound.tolerance, compared_compare answer hcost fun _ => h.exact_chosen⟩

theorem Compared.exact {cost tolerance : ℚ} {comparison : Comparison}
    (h : Compared b cost tolerance comparison) (hcost : OnGrid 12 cost)
    {status : ReconciliationStatus} {amounts : Amounts}
    (hmeasured : comparison = .measured status amounts) : amounts.Exact := by
  cases h with
  | unavailable => cases hmeasured
  | baseline hfirst husage =>
    cases hmeasured
    exact ⟨husage, hcost⟩
  | since hchosen husage =>
    cases hmeasured
    exact ⟨husage, hcost⟩

theorem Compared.judged {row : SpendReconciliation} {cost : ℚ}
    (h : Compared b cost row.toleranceUsd row.comparison) (htolerance : 0 < row.toleranceUsd) :
    row.Judged := by
  intro status amounts hmeasured
  rw [hmeasured] at h
  cases h with
  | baseline hfirst husage => simp [htolerance.le]
  | since hchosen husage =>
    dsimp only
    split
    · next hdrift => simp [hdrift]
    · next hdrift => simp [hdrift]

/-- A new baseline is only taken while no row is measured. -/
theorem Compared.first {row : SpendReconciliation} {cost tolerance : ℚ}
    (h : Compared b cost tolerance row.comparison) (hstatus : row.status? = some .baseline) :
    ∀ other ∈ b.rows.rows, other.amounts? = none := by
  generalize hcomparison : row.comparison = comparison at h
  cases h with
  | unavailable => simp [SpendReconciliation.status?, hcomparison] at hstatus
  | baseline hfirst husage => exact chosenBaseline_eq_none.mp hfirst
  | since hchosen husage =>
    rw [SpendReconciliation.status?_eq hcomparison, Option.some.injEq] at hstatus
    split at hstatus
    · cases hstatus
    · cases hstatus

theorem Sound.recorded (h : Sound b) {answer : BrokerAnswer} {row : SpendReconciliation}
    (hruns : ∀ run ∈ b'.runs, run.Sound) (hrecorded : Recorded b b' answer row) : Sound b' := by
  obtain ⟨cost, hcost, htolerance, hcompared⟩ := h.compared hrecorded
  have hmem : ∀ other, other ∈ b'.rows.rows ↔ other ∈ b.rows.rows ∨ other = row := by
    simp [hrecorded.rows]
  constructor
  case runs => exact hruns
  case exact =>
    intro other hother amounts hamounts
    rcases (hmem other).mp hother with hother | rfl
    · exact h.exact other hother amounts hamounts
    · cases hcomparison : other.comparison with
      | unavailable errorCode => simp [SpendReconciliation.amounts?, hcomparison] at hamounts
      | measured status amounts' =>
        rw [SpendReconciliation.amounts?_eq hcomparison] at hamounts
        cases hamounts
        exact hcompared.exact hcost hcomparison
  case single =>
    intro other hother other' hother' hstatus hstatus'
    have hold : ∀ other ∈ b.rows.rows, other.status? = some .baseline →
        row.status? ≠ some .baseline := by
      intro other hother hstatus hstatus'
      have hsome := SpendReconciliation.amounts?_isSome hstatus
      simp [hcompared.first hstatus' other hother] at hsome
    rcases (hmem other).mp hother with hother | rfl
    · rcases (hmem other').mp hother' with hother' | rfl
      · exact h.single other hother other' hother' hstatus hstatus'
      · exact absurd hstatus' (hold other hother hstatus)
    · rcases (hmem other').mp hother' with hother' | rfl
      · exact absurd hstatus (hold other' hother' hstatus')
      · rfl
  case begun =>
    intro other hother hsome
    rcases (hmem other).mp hother with hother | rfl
    · obtain ⟨baseline, hbaseline, hstatus⟩ := h.begun other hother hsome
      exact ⟨baseline, (hmem baseline).mpr (.inl hbaseline), hstatus⟩
    · generalize hcomparison : other.comparison = comparison at hcompared
      cases hcompared with
      | unavailable => simp [SpendReconciliation.amounts?, hcomparison] at hsome
      | baseline hfirst husage =>
        exact ⟨other, hother, SpendReconciliation.status?_eq hcomparison⟩
      | since hchosen husage =>
        obtain ⟨first, hfirst, hamounts⟩ := mem_of_chosenBaseline hchosen
        obtain ⟨baseline, hbaseline, hstatus⟩ := h.begun first hfirst (by simp [hamounts])
        exact ⟨baseline, (hmem baseline).mpr (.inl hbaseline), hstatus⟩
  case judged =>
    intro other hother
    rcases (hmem other).mp hother with hother | rfl
    · exact h.judged other hother
    · exact hcompared.judged htolerance

theorem Sound.step (h : Sound b) (hstep : step b a = .ok b') : Sound b' := by
  have hruns := runs_of_step hstep h.runs
  rcases rows_of_step hstep with hrows | ⟨k, answer, row, _, _, hrecorded⟩
  · exact ⟨hruns, hrows ▸ h.exact, hrows ▸ h.single, hrows ▸ h.begun, hrows ▸ h.judged⟩
  · exact h.recorded hruns hrecorded

theorem sound_of_reachable (h : reconciliation.Reachable b) : Sound b := by
  apply Machine.reachable_keeps ?_ ?_ h
  · rintro b ⟨hrows, hruns⟩
    constructor <;> simp [hrows, hruns, Table.empty]
  · intro b a b' hsound hstep
    exact hsound.step hstep

end Sound

section InOrder

variable {b b' : Books} {a : Action}

/-- A usage is put on record only by a run that began after the baseline's. -/
def InOrder (b : Books) : Action → Prop
  | .record k (.usage _) eventUid => ∀ run ∈ b.runs[k]?, ∀ baseline ∈ b.rows.rows,
      baseline.status? = some .baseline →
        baseline.ts < run.ts ∨ baseline.ts = run.ts ∧ baseline.eventUid ≤ eventUid
  | _ => True

instance (b : Books) : DecidablePred (InOrder b)
  | .record k (.usage _) eventUid => inferInstanceAs (Decidable (∀ run ∈ b.runs[k]?,
      ∀ baseline ∈ b.rows.rows, baseline.status? = some .baseline →
        baseline.ts < run.ts ∨ baseline.ts = run.ts ∧ baseline.eventUid ≤ eventUid))
  | .record _ .notFinite _ | .record _ .unavailable _ | .record _ .invalid _ => isTrue trivial
  | .tick _ | .spend _ | .begin _ | .lock _ | .observe _ | .abort _ => isTrue trivial

/-- The amounts since the baseline are measured from that row. -/
def SpendReconciliation.MeasuredFrom (row baseline : SpendReconciliation) : Prop :=
  ∀ status amounts amounts₀, row.comparison = .measured status amounts → status ≠ .baseline →
    baseline.amounts? = some amounts₀ →
    amounts.brokerSinceBaselineUsd = amounts.brokerUsageUsd - amounts₀.brokerUsageUsd ∧
    amounts.ledgerSinceBaselineUsd = amounts.ledgerCostUsd - amounts₀.ledgerCostUsd

/-- The baseline comes first, and every other row is measured from it. -/
structure Anchored (b : Books) : Prop where
  first : ∀ baseline ∈ b.rows.rows, baseline.status? = some .baseline →
    ∀ row ∈ b.rows.rows, row.amounts?.isSome → baseline.Before row
  measured : ∀ baseline ∈ b.rows.rows, baseline.status? = some .baseline →
    ∀ row ∈ b.rows.rows, row.MeasuredFrom baseline

theorem amounts?_of_unavailable {answer : BrokerAnswer} {row : SpendReconciliation}
    {cost tolerance : ℚ} (hanswer : ∀ value, answer ≠ .usage value)
    (hcomparison : row.comparison = compare b answer cost tolerance) : row.amounts? = none := by
  cases answer with
  | usage value => exact absurd rfl (hanswer value)
  | unavailable => simp [SpendReconciliation.amounts?, hcomparison, compare]
  | invalid => simp [SpendReconciliation.amounts?, hcomparison, compare]
  | notFinite => simp [SpendReconciliation.amounts?, hcomparison, compare]

/-- A measured row is after the baseline exactly where its run was in order. -/
theorem inOrder_iff {k : Nat} {answer : BrokerAnswer} {row : SpendReconciliation}
    (hrun : ∃ run, b.runs[k]? = some run ∧ row.ts = run.ts)
    (hrecorded : Recorded b b' answer row) (hsome : row.amounts?.isSome) :
    InOrder b (.record k answer row.eventUid) ↔
      ∀ baseline ∈ b.rows.rows, baseline.status? = some .baseline → baseline.Before row := by
  obtain ⟨run, hrun, hts⟩ := hrun
  obtain ⟨cost, _, hcomparison⟩ := hrecorded.observed
  by_cases hanswer : ∃ value, answer = .usage value
  · obtain ⟨value, rfl⟩ := hanswer
    simp only [InOrder, SpendReconciliation.Before, hrun, hts, Option.mem_def,
      Option.some.injEq, forall_eq']
  · rw [amounts?_of_unavailable (fun value h => hanswer ⟨value, h⟩) hcomparison] at hsome
    cases hsome

theorem Anchored.chosen (h : Anchored b) {baseline : SpendReconciliation} {amounts : Amounts}
    (hbaseline : baseline ∈ b.rows.rows) (hstatus : baseline.status? = some .baseline)
    (hamounts : baseline.amounts? = some amounts) : chosenBaseline b = some amounts :=
  chosenBaseline_eq hbaseline hamounts fun row hrow hsome =>
    h.first baseline hbaseline hstatus row hrow hsome

theorem Anchored.recorded (h : Anchored b) (hsound : Sound b) {k : Nat} {answer : BrokerAnswer}
    {row : SpendReconciliation} (horder : InOrder b (.record k answer row.eventUid))
    (hrun : ∃ run, b.runs[k]? = some run ∧ row.ts = run.ts)
    (hrecorded : Recorded b b' answer row) : Anchored b' := by
  obtain ⟨cost, hcost, htolerance, hcompared⟩ := hsound.compared hrecorded
  have hmem : ∀ other, other ∈ b'.rows.rows ↔ other ∈ b.rows.rows ∨ other = row := by
    simp [hrecorded.rows]
  constructor
  case first =>
    intro baseline hbaseline hstatus other hother hsome
    rcases (hmem baseline).mp hbaseline with hbaseline | rfl
    · rcases (hmem other).mp hother with hother | rfl
      · exact h.first baseline hbaseline hstatus other hother hsome
      · exact (inOrder_iff hrun hrecorded hsome).mp horder baseline hbaseline hstatus
    · rcases (hmem other).mp hother with hother | rfl
      · simp [hcompared.first hstatus other hother] at hsome
      · exact .inr ⟨rfl, le_rfl⟩
  case measured =>
    intro baseline hbaseline hstatus other hother status amounts amounts₀ hmeasured hne hamounts
    rcases (hmem baseline).mp hbaseline with hbaseline | rfl
    · rcases (hmem other).mp hother with hother | rfl
      · exact h.measured baseline hbaseline hstatus other hother _ _ _ hmeasured hne hamounts
      · rw [hmeasured] at hcompared
        cases hcompared with
        | baseline hfirst husage => exact absurd rfl hne
        | since hchosen husage =>
          rw [h.chosen hbaseline hstatus hamounts] at hchosen
          cases hchosen
          exact ⟨rfl, rfl⟩
    · rcases (hmem other).mp hother with hother | rfl
      · have hnone := hcompared.first hstatus other hother
        rw [SpendReconciliation.amounts?_eq hmeasured] at hnone
        cases hnone
      · rw [SpendReconciliation.status?_eq hmeasured] at hstatus
        exact absurd (Option.some.inj hstatus) hne

theorem Anchored.step (h : Anchored b) (hsound : Sound b) (horder : InOrder b a)
    (hstep : step b a = .ok b') : Anchored b' := by
  rcases rows_of_step hstep with hrows | ⟨k, answer, row, rfl, hrun, hrecorded⟩
  · exact ⟨hrows ▸ h.first, hrows ▸ h.measured⟩
  · exact h.recorded hsound horder hrun hrecorded

theorem anchored_of_reachableBy (h : reconciliation.ReachableBy InOrder b) : Anchored b := by
  have hboth : Sound b ∧ Anchored b := by
    apply Machine.reachableBy_keeps (I := fun b => Sound b ∧ Anchored b) ?_ ?_ h
    · intro b hstart
      refine ⟨sound_of_reachable ⟨b, [], hstart, rfl⟩, ?_⟩
      constructor <;> simp [hstart.1, Table.empty]
    · rintro b a b' ⟨hsound, hanchored⟩ horder hstep
      exact ⟨hsound.step hstep, hanchored.step hsound horder hstep⟩
  exact hboth.2

end InOrder

section SingleBaseline

/-- At most one row is a baseline, every other measured row is measured from it, and the drift
rows are those whose amounts differ beyond the tolerance. -/
structure SingleBaseline (b : Books) : Prop where
  single : (b.rows.rows.filter fun row => row.status? = some .baseline).length ≤ 1
  measured : ∀ row ∈ b.rows.rows, row.status? = some .balanced ∨ row.status? = some .drift →
    ∃ baseline ∈ b.rows.rows, baseline.status? = some .baseline ∧ row.MeasuredFrom baseline
  judged : ∀ row ∈ b.rows.rows, row.Judged

variable {b b' : Books} {a : Action}

theorem Sound.length_baselines (h : Sound b) :
    (b.rows.rows.filter fun row => row.status? = some .baseline).length ≤ 1 :=
  Table.length_filter_le_one h.single

theorem singleBaseline_of_reachableBy (h : reconciliation.ReachableBy InOrder b) :
    SingleBaseline b := by
  have hsound := sound_of_reachable h.reachable
  constructor
  case single => exact hsound.length_baselines
  case measured =>
    intro row hrow hstatus
    have hsome : row.amounts?.isSome := by
      rcases hstatus with hstatus | hstatus
      · exact SpendReconciliation.amounts?_isSome hstatus
      · exact SpendReconciliation.amounts?_isSome hstatus
    obtain ⟨baseline, hbaseline, hbegun⟩ := hsound.begun row hrow hsome
    exact ⟨baseline, hbaseline, hbegun,
      (anchored_of_reachableBy h).measured baseline hbaseline hbegun row hrow⟩
  case judged => exact hsound.judged

/-- A row measured out of order takes the baseline's place for the runs to come. -/
theorem Anchored.displaced (h : Anchored b) (hsound : Sound b) {k : Nat} {answer : BrokerAnswer}
    {row : SpendReconciliation} (hrun : ∃ run, b.runs[k]? = some run ∧ row.ts = run.ts)
    (hrecorded : Recorded b b' answer row) (hsome : row.amounts?.isSome)
    (hbreaks : ¬InOrder b (.record k answer row.eventUid)) :
    chosenBaseline b' = row.amounts? ∧ row.status? ≠ some .baseline := by
  obtain ⟨cost, hcost, htolerance, hcompared⟩ := hsound.compared hrecorded
  rw [inOrder_iff hrun hrecorded hsome] at hbreaks
  push Not at hbreaks
  obtain ⟨baseline, hbaseline, hstatus, hnot⟩ := hbreaks
  have hbefore : row.Before baseline := (before_total baseline row).resolve_left hnot
  obtain ⟨amounts, hamounts⟩ := Option.isSome_iff_exists.mp hsome
  constructor
  · rw [hamounts]
    apply chosenBaseline_eq ?_ hamounts ?_
    · simp [hrecorded.rows]
    · intro other hother hmeasured
      rw [hrecorded.rows, List.mem_append, List.mem_singleton] at hother
      rcases hother with hother | rfl
      · exact hbefore.trans (h.first baseline hbaseline hstatus other hother hmeasured)
      · exact .inr ⟨rfl, le_rfl⟩
  · intro hnew
    have hmeasured := SpendReconciliation.amounts?_isSome hstatus
    simp [hcompared.first hnew baseline hbaseline] at hmeasured

/-- There is one baseline and every row is judged by its own amounts however runs overlap; the
rows are measured from the baseline along every run in which a usage is only put on record after
it, and the first measured row out of order is what the next run is measured from. -/
theorem reconciliation_measures_from_baseline (b : Books) :
    (reconciliation.Reachable b →
      (b.rows.rows.filter fun row => row.status? = some .baseline).length ≤ 1 ∧
      ∀ row ∈ b.rows.rows, row.Judged) ∧
    (reconciliation.ReachableBy InOrder b → SingleBaseline b ∧
      ∀ a b', step b a = .ok b' → ¬InOrder b a →
        ∀ row ∈ b'.rows.rows, row ∉ b.rows.rows → row.amounts?.isSome →
          chosenBaseline b' = row.amounts? ∧ row.status? ≠ some .baseline) := by
  constructor
  · intro h
    have hsound := sound_of_reachable h
    exact ⟨hsound.length_baselines, hsound.judged⟩
  · intro h
    refine ⟨singleBaseline_of_reachableBy h, ?_⟩
    intro a b' hstep hbreaks row hrow hnew hsome
    rcases rows_of_step hstep with hrows | ⟨k, answer, row', rfl, hrun, hrecorded⟩
    · exact absurd (hrows ▸ hrow) hnew
    · rw [hrecorded.rows, List.mem_append, List.mem_singleton] at hrow
      cases hrow.resolve_left hnew
      exact (anchored_of_reachableBy h).displaced (sound_of_reachable h.reachable) hrun hrecorded
        hsome hbreaks

def noBooks : Books := ⟨[], .empty, [], 1⟩

/-- A baseline, then a line that the broker has not billed in full. -/
def driftCalls : List Action :=
  [.begin (1 / 100), .lock 0, .observe 0, .record 0 (.usage 1) 10, .spend ⟨"llm.request", some 2⟩,
    .tick 1, .begin (1 / 100), .lock 1, .observe 1, .record 1 (.usage 2) 11]

theorem reconciliation_measures_from_baseline_drift :
    SingleBaseline (reconciliation.run noBooks driftCalls) ∧
    (reconciliation.run noBooks driftCalls).rows.rows.map (·.status?) =
      [some .baseline, some .drift] := by
  constructor
  · exact ((reconciliation_measures_from_baseline _).2
      ⟨noBooks, driftCalls, ⟨rfl, rfl⟩, by decide +kernel, rfl⟩).1
  · decide +kernel

/-- The first run to begin is the second to take the lock. -/
def overlappingCalls : List Action :=
  [.begin (1 / 100), .tick 1, .begin (1 / 100), .lock 1, .observe 1, .record 1 (.usage 1) 10,
    .spend ⟨"llm.request", some 1⟩, .lock 0, .observe 0, .record 0 (.usage 2) 11,
    .tick 1, .begin (1 / 100), .lock 2, .observe 2, .record 2 (.usage 2) 12]

/-- The third run is measured from the second row. -/
theorem reconciliation_measures_from_second_row :
    reconciliation.Reachable (reconciliation.run noBooks overlappingCalls) ∧
    ¬SingleBaseline (reconciliation.run noBooks overlappingCalls) := by
  constructor
  · exact ⟨noBooks, overlappingCalls, ⟨rfl, rfl⟩, rfl⟩
  · intro h
    have hrow : (⟨12, 3, .measured .balanced ⟨2, 1, 0, 0, 0⟩, 1 / 100, 0⟩ : SpendReconciliation) ∈
        (reconciliation.run noBooks overlappingCalls).rows.rows := by
      decide +kernel
    obtain ⟨baseline, hbaseline, hstatus, hmeasured⟩ := h.measured _ hrow (.inl rfl)
    have hamounts : ∀ baseline ∈ (reconciliation.run noBooks overlappingCalls).rows.rows,
        baseline.status? = some .baseline → baseline.amounts? = some ⟨1, 0, 0, 0, 0⟩ := by
      decide +kernel
    have hsince := (hmeasured _ _ _ rfl (by decide) (hamounts baseline hbaseline hstatus)).1
    norm_num at hsince

end SingleBaseline

end Nocturne.Spend
