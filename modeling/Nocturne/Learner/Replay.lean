import Nocturne.Learner.Hygiene
import Nocturne.Learner.Offsets
import Nocturne.Learner.Slopes

namespace Nocturne.Learner

open Nocturne.Inject Nocturne.Lib

variable {K : Type} [Field K]

section Axes

variable [LinearOrder K] {features : Feature → Option K} {axes : List (String × AxisNomination K)}

theorem axis_apply_injective {axis : AxisNomination K} (h : axis.weight ≠ 1) :
    Function.Injective fun score => axis.apply features score := by
  intro x y hxy
  have hleft : 1 - axis.weight ≠ 0 := sub_ne_zero.mpr h.symm
  simp only [AxisNomination.apply] at hxy
  split at hxy
  · split at hxy
    · exact hxy
    · exact mul_left_cancel₀ hleft (add_right_cancel hxy)
  · exact hxy

/-- Axes that each leave something of the score tell any two scores apart. -/
theorem applyAxes_injective (h : ∀ axis ∈ axes, axis.2.weight ≠ 1) :
    Function.Injective fun score => applyAxes score features axes := by
  have hsorted : ∀ axis ∈ axes.insertionSort fun a b => a.1 ≤ b.1, axis.2.weight ≠ 1 :=
    fun axis haxis => h axis ((List.mem_insertionSort _).mp haxis)
  simp only [applyAxes]
  generalize axes.insertionSort (fun a b => a.1 ≤ b.1) = sorted at hsorted
  induction sorted with
  | nil => exact fun _ _ => id
  | cons axis sorted ih =>
    intro x y hxy
    apply axis_apply_injective (hsorted axis List.mem_cons_self)
    exact ih (fun other hother => hsorted other (List.mem_cons_of_mem _ hother)) hxy

end Axes

theorem mixLocality_injective {weight : K} (value : Option K) (h : weight ≠ 1) :
    Function.Injective (mixLocality weight value) := by
  intro x y hxy
  have hleft : 1 - weight ≠ 0 := sub_ne_zero.mpr h.symm
  cases value with
  | none => exact hxy
  | some value => exact mul_left_cancel₀ hleft (add_right_cancel hxy)

/-- Two weights mix a location alike only where it is absent, they are one, or it is the score. -/
theorem mixLocality_eq_iff {weight weight' x : K} {value : Option K} :
    mixLocality weight value x = mixLocality weight' value x ↔
      value = none ∨ weight = weight' ∨ value = some x := by
  cases value with
  | none => simp [mixLocality]
  | some value =>
    rw [← sub_eq_zero, mixLocality_weight_sub, mul_eq_zero, sub_eq_zero, sub_eq_zero]
    simp

variable [LinearOrder K]

section Served

variable (row : LearningExample K) (fit : FitResult K) (axes : List (String × AxisNomination K))
  (config : ScorerConfig K)

/-- `challenger_score`'s own `predicted`. -/
def predicted : Bool :=
  row.shownAs = .pinned ∨ fit.tau ≤
    axisScore row (fit.effective row.projectKey) fit.threadWeight fit.whereWeight axes +
      biasOf fit.biasOffsets row.memoryId

theorem challengerScore_eq (examples : List (LearningExample K))
    (shareBoundaries : List (ShareBoundary K)) :
    challengerScore examples shareBoundaries fit axes =
      replayScore examples shareBoundaries fit.memoryContextShare
        (predicted · fit axes) :=
  rfl

/-- The serving scorer on the features, the bias and the learned offset of an example. -/
def servedScore : K :=
  scoreFeatures row.frozen (config.weightsForProject row.projectKey) config.params config.axes +
    (row.baselineBias + config.biasOffset row.memoryId)

/-- The version a challenger is proposed as, whatever its threshold. -/
structure Proposes : Prop where
  weights : config.weights = fit.weights
  projectOffsets : config.projectOffsets = fit.projectOffsets
  biasOffsets : config.biasOffsets = fit.biasOffsets
  threadWeight : config.params.threadWeight = fit.threadWeight
  whereWeight : config.params.whereWeight = fit.whereWeight
  axes : config.axes = axes

/-- Base weights that dip, for a project without offsets: serving takes them as they are. -/
def ServesDip : Prop := config.offsetsFor row.projectKey = none ∧ config.weights.dips

/-- The location of a card is mixed in as it will be served. -/
def LocationKept : Prop :=
  row.locationFeature = none ∨ row.locationWeight = config.params.locationWeight ∨
    row.locationFeature = some (dot (config.weightsForProject row.projectKey) row.features)

end Served

omit [Field K] [LinearOrder K] in
theorem exampleFeatures_eq (row : LearningExample K) : exampleFeatures row = row.frozen.get := by
  funext feature
  cases feature <;> rfl

section Agreement

variable {row : LearningExample K} {fit : FitResult K}
  {axes : List (String × AxisNomination K)} {config : ScorerConfig K}

omit [LinearOrder K] in
theorem moved_eq (h : Proposes fit axes config) (key : Option String) :
    fit.moved key = config.weights.add ((config.offsetsFor key).getD .zero) := by
  rw [FitResult.moved, h.weights, ScorerConfig.offsetsFor, h.projectOffsets]
  cases key <;> rfl

/-- But for a dip without offsets, the challenger is scored with the weights it will serve. -/
theorem effective_eq (h : Proposes fit axes config) (hdip : ¬ServesDip row config) :
    fit.effective row.projectKey = config.weightsForProject row.projectKey := by
  rw [FitResult.effective, moved_eq h row.projectKey, ScorerConfig.weightsForProject]
  cases hoffsets : config.offsetsFor row.projectKey with
  | none =>
    have hzero : config.weights.add .zero = config.weights := by
      simp [ScorerWeights.add, ScorerWeights.zero]
    rw [Option.getD_none, hzero]
    exact if_neg fun hdips => hdip ⟨hoffsets, hdips⟩
  | some offsets => rfl

/-- The two scores differ, if at all, where the location comes in. -/
theorem axisScore_eq_iff (h : Proposes fit axes config) (hvalid : config.Valid) :
    axisScore row (fit.effective row.projectKey) fit.threadWeight fit.whereWeight axes +
        biasOf fit.biasOffsets row.memoryId = servedScore row config ↔
      preThread row (fit.effective row.projectKey) =
        mixLocality config.params.locationWeight row.locationFeature
          (dot (config.weightsForProject row.projectKey) row.features) := by
  have hthread : config.params.threadWeight ≠ 1 := hvalid.params.thread.2.ne
  have hwhere : config.params.whereWeight ≠ 1 := hvalid.params.where.2.ne
  have haxes : ∀ axis ∈ config.axes, axis.2.weight ≠ 1 :=
    fun axis haxis => (hvalid.axes axis haxis).2.ne
  have hbias : biasOf fit.biasOffsets row.memoryId = config.biasOffset row.memoryId := by
    rw [ScorerConfig.biasOffset, h.biasOffsets]
    rfl
  rw [axisScore, exampleScore_eq, add_sub_cancel_left, exampleFeatures_eq, servedScore, hbias,
    ← add_assoc, add_left_inj, add_left_inj, scoreFeatures, ← h.threadWeight, ← h.whereWeight,
    ← h.axes]
  exact (applyAxes_injective haxes).eq_iff.trans
    ((mixLocality_injective _ hwhere).eq_iff.trans (mixLocality_injective _ hthread).eq_iff)

/-- The replay decides a card as serving will, at every threshold, exactly where it is pinned or
its location is mixed in as it will be: the example mixes it in with the weight of the version
that logged it. -/
theorem replay_serves (row : LearningExample K) (h : Proposes fit axes config)
    (hvalid : config.Valid) :
    ((∀ tau, predicted row { fit with tau } axes = true ↔
        row.shownAs = .pinned ∨ tau ≤ servedScore row config) ↔
      row.shownAs = .pinned ∨ preThread row (fit.effective row.projectKey) =
        mixLocality config.params.locationWeight row.locationFeature
          (dot (config.weightsForProject row.projectKey) row.features)) ∧
    (¬ServesDip row config →
      (preThread row (fit.effective row.projectKey) =
        mixLocality config.params.locationWeight row.locationFeature
          (dot (config.weightsForProject row.projectKey) row.features) ↔
        LocationKept row config)) := by
  constructor
  · rw [← axisScore_eq_iff h hvalid]
    constructor
    · intro hagree
      by_cases hpinned : row.shownAs = .pinned
      · exact .inl hpinned
      · -- each score is reached by the other at a threshold set to it
        simp only [predicted, hpinned, false_or, decide_eq_true_eq] at hagree
        exact .inr (le_antisymm ((hagree _).mp le_rfl) ((hagree _).mpr le_rfl))
    · rintro (hpinned | hsame) tau
      · simp [predicted, hpinned]
      · simp only [predicted, decide_eq_true_eq]
        rw [← hsame]
        rfl
  · intro hdip
    rw [preThread, effective_eq h hdip]
    exact mixLocality_eq_iff

end Agreement

/-- A version that gives the location no weight. -/
def unplacedConfig : ScorerConfig ℚ :=
  { version := "unplaced"
    weights := ⟨1, 0, 0, 0, 0, 0⟩
    params := ⟨3 / 4, 0, 1 / 10, 1, 1, 1, 0, 1, 0, 0, none⟩
    biasOffsets := []
    projectOffsets := []
    axes := [] }

/-- The challenger that is proposed as it. -/
def unplacedFit : FitResult ℚ := ⟨⟨0, 0, 0, 0, 0, 3 / 4, 1 / 10, true⟩, ⟨1, 0, 0, 0, 0, 0⟩, [], []⟩

theorem unplacedFit_proposes : Proposes unplacedFit [] unplacedConfig :=
  ⟨rfl, rfl, rfl, rfl, rfl, rfl⟩

/-- A card that matches by its text, logged where half of the score was its location. -/
def placedExample (location : Option ℚ) : LearningExample ℚ :=
  { bareExample 1 1 true with
    features := ⟨1, 0, 0, 0, 0, 0⟩
    locationFeature := location
    locationWeight := 1 / 2 }

theorem replay_serves_unplaced : unplacedConfig.Valid ∧ ∀ tau : ℚ,
    predicted (placedExample none) { unplacedFit with tau } [] = true ↔
      (placedExample none).shownAs = .pinned ∨
        tau ≤ servedScore (placedExample none) unplacedConfig := by
  have hvalid : unplacedConfig.Valid := by decide +kernel
  obtain ⟨hserves, hkept⟩ := replay_serves (placedExample none) unplacedFit_proposes hvalid
  have hdip : ¬ServesDip (placedExample none) unplacedConfig := by
    rintro ⟨_, x, hx, hneg⟩
    revert x
    decide
  exact ⟨hvalid, hserves.mpr (.inr ((hkept hdip).mpr (.inl rfl)))⟩

/-- The replay turns away a card that the version it is fitted for would take. -/
theorem replay_serves_placed : unplacedConfig.Valid ∧
    Proposes unplacedFit [] unplacedConfig ∧
    predicted (placedExample (some 0)) unplacedFit [] = false ∧
    unplacedFit.tau ≤ servedScore (placedExample (some 0)) unplacedConfig := by
  refine ⟨by decide +kernel, unplacedFit_proposes, ?_, ?_⟩
  · decide +kernel
  · decide +kernel

end Nocturne.Learner
