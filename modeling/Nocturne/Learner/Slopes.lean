import Mathlib.Tactic.Ring
import Mathlib.Tactic.NormNum.OfScientific
import Nocturne.Learner.Model

namespace Nocturne.Learner

open Nocturne.Inject

variable {K : Type} [Field K]

section Lines

variable (weight x y : K) (value : Option K) (line : K × K)

theorem dot_map_mul (c : K) (w v : ScorerWeights K) : dot w (v.map (c * ·)) = c * dot w v := by
  simp only [dot, ScorerWeights.map]
  ring

/-- Mixing what is linear and what is constant apart is mixing the score. -/
theorem mixed_at : (mixed weight value line).1 * x + (mixed weight value line).2 =
    mixLocality weight value (line.1 * x + line.2) := by
  cases value with
  | none => rfl
  | some value =>
    simp only [mixed, mixLocality]
    ring

/-- A mixing that is there scales what it is given by what the weight leaves. -/
theorem mixLocality_sub : mixLocality weight value x - mixLocality weight value y =
    (if value.isSome then 1 - weight else 1) * (x - y) := by
  cases value with
  | none => simp [mixLocality]
  | some value =>
    simp only [mixLocality, Option.isSome_some, ↓reduceIte]
    ring

theorem mixLocality_weight_sub (weight' value : K) :
    mixLocality weight' (some value) x - mixLocality weight (some value) x =
      (weight' - weight) * (value - x) := by
  simp only [mixLocality]
  ring

end Lines

section Slopes

variable (row : LearningExample K) (weights : ScorerWeights K)

/-- The score before the thread is mixed in: `pre_thread`. -/
def preThread : K := mixLocality row.locationWeight row.locationFeature (dot weights row.features)

/-- The two linearised parts are one score: the localities mixed in, one after the other. -/
theorem exampleScore_eq (threadWeight whereWeight : K) :
    exampleScore row weights threadWeight whereWeight =
      row.baselineBias + mixLocality whereWeight row.whereFeature
        (mixLocality threadWeight row.threadFeature (preThread row weights)) := by
  simp only [exampleScore, linearized, dot_map_mul]
  rw [add_left_comm, mixed_at, mixed_at, mixed_at, one_mul, add_zero, preThread]

/-- What one more unit of the thread coefficient is worth. -/
def threadSlope (whereWeight : K) : K :=
  match row.threadFeature with
  | none => 0
  | some value => (if row.whereFeature.isSome then 1 - whereWeight else 1) *
      (value - preThread row weights)

theorem score_thread_sub (whereWeight t₁ t₂ : K) :
    exampleScore row weights t₂ whereWeight - exampleScore row weights t₁ whereWeight =
      (t₂ - t₁) * threadSlope row weights whereWeight := by
  rw [exampleScore_eq, exampleScore_eq, add_sub_add_left_eq_sub, mixLocality_sub, threadSlope]
  cases row.threadFeature with
  | none => simp [mixLocality]
  | some value =>
    rw [mixLocality_weight_sub]
    ring

theorem score_where_sub (threadWeight w₁ w₂ : K) :
    exampleScore row weights threadWeight w₂ - exampleScore row weights threadWeight w₁ =
      (w₂ - w₁) * whereDerivative weights threadWeight row := by
  rw [exampleScore_eq, exampleScore_eq, add_sub_add_left_eq_sub, whereDerivative]
  cases row.whereFeature with
  | none => simp [mixLocality]
  | some value =>
    rw [mixLocality_weight_sub]
    rfl

/-- `_thread_derivative` leaves room for a folder that is not there. -/
theorem threadSlope_eq_iff (whereWeight : K) :
    threadSlope row weights whereWeight = threadDerivative weights whereWeight row ↔
      whereWeight = 0 ∨ row.whereFeature.isSome ∨
        ∀ value ∈ row.threadFeature, value = preThread row weights := by
  have hderivative : threadDerivative weights whereWeight row = match row.threadFeature with
      | none => 0
      | some value => (1 - whereWeight) * (value - preThread row weights) := rfl
  rw [hderivative, threadSlope]
  cases row.threadFeature with
  | none => simp
  | some value =>
    cases row.whereFeature with
    | some folder => simp
    | none =>
      simp only [Option.isSome_none, Bool.false_eq_true, ↓reduceIte, false_or, Option.mem_some_iff,
        forall_eq', one_mul]
      rw [sub_mul, one_mul, eq_comm, sub_eq_self, mul_eq_zero, sub_eq_zero]

/-- The derivatives are the slopes of the score but for the thread's, where the score mixes
no folder in and the derivative takes its share off all the same. -/
theorem coefficient_slopes (threadWeight whereWeight t₁ t₂ w₁ w₂ : K) :
    (exampleScore row weights t₂ whereWeight - exampleScore row weights t₁ whereWeight =
        (t₂ - t₁) * threadDerivative weights whereWeight row ∧
      exampleScore row weights threadWeight w₂ - exampleScore row weights threadWeight w₁ =
        (w₂ - w₁) * whereDerivative weights threadWeight row) ↔
      t₁ = t₂ ∨ whereWeight = 0 ∨ row.whereFeature.isSome ∨
        ∀ value ∈ row.threadFeature, value = preThread row weights := by
  rw [score_thread_sub, and_iff_left (score_where_sub row weights threadWeight w₁ w₂),
    mul_eq_mul_left_iff, sub_eq_zero, threadSlope_eq_iff, or_comm, eq_comm]

end Slopes

/-- A thread matched outright, with no folder on record. -/
def threadOnly : LearningExample ℚ where
  eventUid := 1
  injectionId := 1
  memoryId := 1
  ts := 0
  features := .zero
  baselineBias := 0
  targetInjected := true
  actorWeight := 1
  shownAs := .injected
  bodyTokens := 1
  locationFeature := none
  locationWeight := 0
  threadFeature := some 1
  threadId := some 1
  whereFeature := none
  whereWeight := 0
  projectKey := none

/-- From thread weight 0 to 1 its score rises by 1; at where weight 1/2 the derivative says 1/2. -/
theorem coefficient_slopes_halved :
    ¬ ∀ (row : LearningExample ℚ) (weights : ScorerWeights ℚ)
      (threadWeight whereWeight t₁ t₂ w₁ w₂ : ℚ),
      exampleScore row weights t₂ whereWeight - exampleScore row weights t₁ whereWeight =
          (t₂ - t₁) * threadDerivative weights whereWeight row ∧
        exampleScore row weights threadWeight w₂ - exampleScore row weights threadWeight w₁ =
          (w₂ - w₁) * whereDerivative weights threadWeight row := by
  intro h
  have hslope := (h threadOnly .zero 0 (1 / 2) 0 1 0 0).1
  norm_num [exampleScore, linearized, mixed, threadDerivative, mixLocality, dot, threadOnly,
    ScorerWeights.zero] at hslope

end Nocturne.Learner
