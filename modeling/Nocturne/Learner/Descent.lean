import Mathlib.Algebra.BigOperators.Fin
import Mathlib.Algebra.Order.BigOperators.Ring.Finset
import Mathlib.Tactic.NormNum.OfScientific
import Nocturne.Inject.Projection
import Nocturne.Learner.Slopes
import Nocturne.Learner.Split
import Nocturne.Lib.Hinge

namespace Nocturne.Learner

open Nocturne.Inject Nocturne.Lib

variable {K : Type} [Field K]

section Vectors

variable (u v w : ScorerWeights K) (c : K)

/-- The six weights as a vector. -/
def coords : Fin 6 → K := ![w.sem, w.kw, w.time, w.proj, w.freq, w.hist]

omit [Field K] in
theorem values_eq_ofFn : w.values = List.ofFn (coords w) := by
  simp [ScorerWeights.values, coords, List.ofFn_succ]

theorem coords_ofValues (p : Fin 6 → K) : coords (.ofValues (List.ofFn p)) = p := by
  funext i
  fin_cases i <;> rfl

theorem coords_sub (i : Fin 6) : coords (v.sub w) i = coords v i - coords w i := by
  fin_cases i <;> rfl

theorem coords_map_mul (i : Fin 6) : coords (w.map (c * ·)) i = c * coords w i := by
  fin_cases i <;> rfl

theorem dot_eq_sum : dot v w = ∑ i, coords v i * coords w i := by
  simp [Fin.sum_univ_six, dot, coords]

theorem dot_add_left : dot (u.add v) w = dot u w + dot v w := by
  simp only [dot, ScorerWeights.add]
  ring

theorem dot_sub_left : dot (u.sub v) w = dot u w - dot v w := by
  simp only [dot, ScorerWeights.sub]
  ring

theorem dot_sub_right : dot u (v.sub w) = dot u v - dot u w := by
  simp only [dot, ScorerWeights.sub]
  ring

theorem dot_comm : dot v w = dot w v := by
  simp only [dot]
  ring

theorem dot_zero_left : dot .zero w = 0 := by
  simp [dot, ScorerWeights.zero]

theorem add_sub_self : v.add (w.sub v) = w := by
  simp [ScorerWeights.add, ScorerWeights.sub]

end Vectors

section Steps

variable [LinearOrder K] {w g : ScorerWeights K}

theorem onSimplex_iff : w.OnSimplex ↔ coords w ∈ stdSimplex K (Fin 6) := by
  constructor
  · intro h
    refine ⟨fun i => h.nonneg _ ?_, ?_⟩
    · rw [values_eq_ofFn]
      exact List.mem_ofFn.mpr ⟨i, rfl⟩
    · rw [← List.sum_ofFn, ← values_eq_ofFn]
      exact h.sum
  · intro h
    refine ⟨?_, fun x hx => ?_⟩
    · rw [ScorerWeights.sum, values_eq_ofFn, List.sum_ofFn, h.2]
    · rw [values_eq_ofFn] at hx
      obtain ⟨i, rfl⟩ := List.mem_ofFn.mp hx
      exact h.1 i

variable [IsStrictOrderedRing K]

theorem dot_self_nonneg (w : ScorerWeights K) : 0 ≤ dot w w := by
  rw [dot_eq_sum]
  exact Finset.sum_nonneg fun i _ => mul_self_nonneg _

/-- Cauchy and Schwarz, with a coordinate of one kept and of one removed memory. -/
theorem sq_dot_add_sub_le (d delta : ScorerWeights K) (x y : K) :
    (dot d delta + (x - y)) ^ 2 ≤ (dot delta delta + 2) * (dot d d + (x ^ 2 + y ^ 2)) := by
  have hcauchy := Finset.sum_mul_sq_le_sq_mul_sq Finset.univ
    ![delta.sem, delta.kw, delta.time, delta.proj, delta.freq, delta.hist, 1, -1]
    ![d.sem, d.kw, d.time, d.proj, d.freq, d.hist, x, y]
  simp only [Fin.sum_univ_eight, Matrix.cons_val] at hcauchy
  simp only [dot]
  linear_combination hcauchy

/-- The projected step from the simplex goes down against its gradient. -/
theorem project_step {step : K} (hw : w.OnSimplex) {next : ScorerWeights K}
    (hnext : next = .ofValues (projectSimplex (w.sub (g.map (step * ·))).values)) :
    step * dot g (next.sub w) ≤ -dot (next.sub w) (next.sub w) := by
  obtain ⟨p, hreturned, θ, rfl, hone⟩ := exists_isProjection (coords (w.sub (g.map (step * ·))))
  have hcoords : coords (w.sub (g.map (step * ·))) = fun i => coords w i - step * coords g i := by
    funext i
    rw [coords_sub, coords_map_mul]
  have hmoved : coords next = Simplex.above θ fun i => coords w i - step * coords g i := by
    rw [hnext, values_eq_ofFn, hreturned, coords_ofValues, hcoords]
  rw [hcoords] at hone
  have hdown := Simplex.above_step (onSimplex_iff.1 hw) hone
  simp only [← hmoved] at hdown
  simpa only [dot_eq_sum, coords_sub, ← sq] using hdown

end Steps

section Loop

variable {pairs : List (Pair K)} {memoryIds : List Uuid} {threadWeight whereWeight : K}
  {settings : FitSettings K} {fitted next : Fitted K}

/-- How much farther apart a step moves the scores of a pair. -/
def gained (threadWeight whereWeight : K) (fitted next : Fitted K) (pair : Pair K) : K :=
  dot (next.weights.sub fitted.weights) (pair.featureDelta threadWeight whereWeight) +
    ((next.biases pair.positive.memoryId - fitted.biases pair.positive.memoryId) -
      (next.biases pair.negative.memoryId - fitted.biases pair.negative.memoryId))

theorem hinge_next (pair : Pair K) : hinge threadWeight whereWeight settings next pair =
    hinge threadWeight whereWeight settings fitted pair -
      gained threadWeight whereWeight fitted next pair := by
  simp only [hinge, gained, Pair.difference, Pair.featureDelta, exampleScore, dot_sub_left,
    dot_sub_right]
  ring

theorem dot_foldl_add (d : ScorerWeights K) (f : Pair K → ScorerWeights K) (l : List (Pair K))
    (start : ScorerWeights K) :
    dot d (l.foldl (fun gradient pair => gradient.add (f pair)) start) =
      dot d start + (l.map fun pair => dot d (f pair)).sum := by
  induction l generalizing start with
  | nil => simp
  | cons pair l ih =>
    rw [List.foldl_cons, ih, dot_comm d (start.add _), dot_add_left, dot_comm start,
      dot_comm (f pair), List.map_cons, List.sum_cons, add_assoc]

/-- What one memory's entry brings to a sum over all of them. -/
theorem sum_map_ite_mul (hnodup : memoryIds.Nodup) {a : Uuid} (ha : a ∈ memoryIds) (c : K)
    (f : Uuid → K) : (memoryIds.map fun id => (if id = a then c else 0) * f id).sum = c * f a := by
  induction memoryIds with
  | nil => cases ha
  | cons id ids ih =>
    obtain ⟨hnew, hnodup⟩ := List.nodup_cons.mp hnodup
    rw [List.map_cons, List.sum_cons]
    rcases List.mem_cons.mp ha with rfl | ha
    · have hothers : (ids.map fun id => (if id = a then c else 0) * f id).sum = 0 := by
        refine List.sum_eq_zero fun x hx => ?_
        obtain ⟨id, hid, rfl⟩ := List.mem_map.mp hx
        have hne : id ≠ a := by
          rintro rfl
          exact hnew hid
        rw [if_neg hne, zero_mul]
      rw [if_pos rfl, hothers, add_zero]
    · have hne : id ≠ a := by
        rintro rfl
        exact hnew ha
      rw [if_neg hne, zero_mul, zero_add, ih hnodup ha]

theorem sum_foldl_biases (hnodup : memoryIds.Nodup) (f : Uuid → K) (factor : Pair K → K)
    (l : List (Pair K))
    (hl : ∀ pair ∈ l, pair.positive.memoryId ∈ memoryIds ∧ pair.negative.memoryId ∈ memoryIds)
    (start : Uuid → K) :
    (memoryIds.map fun id => l.foldl (fun gradient pair =>
        let gradient := if id = pair.positive.memoryId then gradient + factor pair else gradient
        if id = pair.negative.memoryId then gradient - factor pair else gradient) (start id) *
          f id).sum =
      (memoryIds.map fun id => start id * f id).sum +
        (l.map fun pair =>
          factor pair * (f pair.positive.memoryId - f pair.negative.memoryId)).sum := by
  induction l generalizing start with
  | nil => simp
  | cons pair l ih =>
    obtain ⟨hpositive, hnegative⟩ := hl pair List.mem_cons_self
    have hone (id : Uuid) : (let gradient :=
          if id = pair.positive.memoryId then start id + factor pair else start id
        if id = pair.negative.memoryId then gradient - factor pair else gradient) =
          start id + (if id = pair.positive.memoryId then factor pair else 0) +
            (if id = pair.negative.memoryId then -factor pair else 0) := by
      dsimp only
      split <;> split <;> ring
    simp only [List.foldl_cons]
    rw [ih (fun pair hpair => hl pair (List.mem_cons_of_mem _ hpair)) _]
    simp only [hone, add_mul, List.sum_map_add, sum_map_ite_mul hnodup hpositive,
      sum_map_ite_mul hnodup hnegative, List.map_cons, List.sum_cons]
    ring

/-- The regulariser after a step: what it was, its slope and its curvature. -/
theorem biases_sq_next (L2 : K) (b b' : Uuid → K) :
    L2 * (memoryIds.map fun id => b' id * b' id).sum =
      L2 * (memoryIds.map fun id => b id * b id).sum +
        (memoryIds.map fun id => 2 * L2 * b id * (b' id - b id)).sum +
        L2 * (memoryIds.map fun id => (b' id - b id) * (b' id - b id)).sum := by
  rw [← List.sum_map_mul_left, ← List.sum_map_mul_left, ← List.sum_map_mul_left, ← List.sum_map_add,
    ← List.sum_map_add]
  refine congrArg List.sum (List.map_congr_left fun id _ => ?_)
  ring

variable [LinearOrder K]

theorem objective_eq (fitted : Fitted K) :
    objective pairs memoryIds threadWeight whereWeight settings fitted =
      settings.biasL2 * (memoryIds.map fun id => fitted.biases id * fitted.biases id).sum +
        Hinge.loss (·.actorWeight) (hinge threadWeight whereWeight settings fitted) pairs := by
  rw [objective, violated, Hinge.sum_filter_eq_loss]

/-- The loop stops at one of the iterates of its step. -/
theorem descend_eq_iterate (fitted : Fitted K) (iterations fuel : Nat) : ∃ taken ≤ fuel,
    descend pairs memoryIds threadWeight whereWeight settings fitted iterations fuel =
      ((descendOnce pairs memoryIds threadWeight whereWeight settings)^[taken] fitted,
        iterations + taken) := by
  induction fuel generalizing fitted iterations with
  | zero => exact ⟨0, le_rfl, rfl⟩
  | succ fuel ih =>
    unfold descend
    dsimp only
    split
    · exact ⟨1, Nat.le_add_left 1 fuel, rfl⟩
    · obtain ⟨taken, hle, htaken⟩ := ih
        (descendOnce pairs memoryIds threadWeight whereWeight settings fitted) (iterations + 1)
      refine ⟨taken + 1, Nat.succ_le_succ hle, ?_⟩
      rw [htaken, Function.iterate_succ_apply, Nat.add_assoc, Nat.add_comm 1]

variable [IsStrictOrderedRing K]

theorem two_point_zero : (2.0 : K) = 2 := by norm_num

/-- Along a direction the weights' gradient adds up what each pair short of the margin loses. -/
theorem dot_weightGradient (d : ScorerWeights K) :
    dot d (weightGradient pairs threadWeight whereWeight settings fitted) =
      -Hinge.slope (·.actorWeight) (hinge threadWeight whereWeight settings fitted)
        (fun pair => dot d (pair.featureDelta threadWeight whereWeight)) pairs := by
  rw [weightGradient, dot_foldl_add, dot_comm, dot_zero_left, zero_add]
  simp only [dot_map_mul, gradientFactor, two_point_zero]
  rw [violated, Hinge.sum_filter_eq_neg_slope]

theorem sum_biasGradient (hnodup : memoryIds.Nodup)
    (hpairs : ∀ pair ∈ pairs,
      pair.positive.memoryId ∈ memoryIds ∧ pair.negative.memoryId ∈ memoryIds) (f : Uuid → K) :
    (memoryIds.map fun id =>
        biasGradient pairs threadWeight whereWeight settings fitted id * f id).sum =
      (memoryIds.map fun id => 2 * settings.biasL2 * fitted.biases id * f id).sum -
        Hinge.slope (·.actorWeight) (hinge threadWeight whereWeight settings fitted)
          (fun pair => f pair.positive.memoryId - f pair.negative.memoryId) pairs := by
  refine (sum_foldl_biases hnodup f (gradientFactor threadWeight whereWeight settings fitted)
    (violated pairs threadWeight whereWeight settings fitted)
    (fun pair hpair => hpairs pair (List.mem_of_mem_filter hpair))
    (fun id => 2.0 * settings.biasL2 * fitted.biases id)).trans ?_
  simp only [gradientFactor, two_point_zero]
  rw [violated, Hinge.sum_filter_eq_neg_slope, sub_eq_add_neg]

/-- The squares of two memories' entries are among those of all. -/
theorem sq_add_sq_le (f : Uuid → K) {a b : Uuid} (ha : a ∈ memoryIds) (hb : b ∈ memoryIds)
    (hne : a ≠ b) : f a ^ 2 + f b ^ 2 ≤ (memoryIds.map fun id => f id * f id).sum := by
  have hb' : b ∈ memoryIds.erase a := (List.mem_erase_of_ne hne.symm).mpr hb
  have hperm := (List.perm_cons_erase ha).trans ((List.perm_cons_erase hb').cons a)
  rw [(hperm.map fun id => f id * f id).sum_eq, List.map_cons, List.map_cons, List.sum_cons,
    List.sum_cons]
  have hrest : 0 ≤ (((memoryIds.erase a).erase b).map fun id => f id * f id).sum := by
    refine List.sum_nonneg fun x hx => ?_
    obtain ⟨id, _, rfl⟩ := List.mem_map.mp hx
    exact mul_self_nonneg _
  linear_combination hrest

/-- The square of a step's length, over weights and biases. -/
def stepSquare (memoryIds : List Uuid) (fitted next : Fitted K) : K :=
  dot (next.weights.sub fitted.weights) (next.weights.sub fitted.weights) +
    (memoryIds.map fun id => (next.biases id - fitted.biases id) *
      (next.biases id - fitted.biases id)).sum

theorem biases_sq_nonneg (f : Uuid → K) : 0 ≤ (memoryIds.map fun id => f id * f id).sum := by
  refine List.sum_nonneg fun x hx => ?_
  obtain ⟨id, _, rfl⟩ := List.mem_map.mp hx
  exact mul_self_nonneg _

theorem stepSquare_nonneg : 0 ≤ stepSquare memoryIds fitted next :=
  add_nonneg (dot_self_nonneg _) (biases_sq_nonneg _)

/-- A pair gains no more than its own norm and the step's length allow, a memory paired with
itself included. -/
theorem gained_sq_le {pair : Pair K} (hpositive : pair.positive.memoryId ∈ memoryIds)
    (hnegative : pair.negative.memoryId ∈ memoryIds) :
    gained threadWeight whereWeight fitted next pair ^ 2 ≤
      (dot (pair.featureDelta threadWeight whereWeight)
        (pair.featureDelta threadWeight whereWeight) + 2) * stepSquare memoryIds fitted next := by
  let moved := fun id => next.biases id - fitted.biases id
  have hnorm : 0 ≤ dot (pair.featureDelta threadWeight whereWeight)
      (pair.featureDelta threadWeight whereWeight) + 2 :=
    add_nonneg (dot_self_nonneg _) zero_le_two
  by_cases hsame : pair.positive.memoryId = pair.negative.memoryId
  · have hcauchy := sq_dot_add_sub_le (next.weights.sub fitted.weights)
      (pair.featureDelta threadWeight whereWeight) 0 0
    rw [gained, hsame, sub_self]
    rw [sub_self] at hcauchy
    refine hcauchy.trans (mul_le_mul_of_nonneg_left ?_ hnorm)
    have hbiases := @biases_sq_nonneg K _ memoryIds _ _ moved
    rw [stepSquare]
    linear_combination hbiases
  · refine (sq_dot_add_sub_le _ _ _ _).trans (mul_le_mul_of_nonneg_left ?_ hnorm)
    have hbiases := sq_add_sq_le moved hpositive hnegative hsame
    rw [stepSquare]
    linear_combination hbiases

/-- What the step length is one over. -/
def lipschitz (pairs : List (Pair K)) (threadWeight whereWeight : K) (settings : FitSettings K) :
    K :=
  max (2.0 * settings.biasL2 + (pairs.map fun pair => 2.0 * pair.actorWeight *
    (dot (pair.featureDelta threadWeight whereWeight)
      (pair.featureDelta threadWeight whereWeight) + 2.0)).sum) 1

omit [IsStrictOrderedRing K] in
theorem fitStep_eq : fitStep pairs threadWeight whereWeight settings =
    1 / lipschitz pairs threadWeight whereWeight settings := rfl

theorem lipschitz_pos : 0 < lipschitz pairs threadWeight whereWeight settings :=
  lt_of_lt_of_le one_pos (le_max_right _ _)

/-- The weights step down their gradient, as far as the simplex lets them. -/
theorem step_weights (hsimplex : fitted.weights.OnSimplex)
    (hnext : next = descendOnce pairs memoryIds threadWeight whereWeight settings fitted) :
    dot (weightGradient pairs threadWeight whereWeight settings fitted)
        (next.weights.sub fitted.weights) ≤
      -(lipschitz pairs threadWeight whereWeight settings *
        dot (next.weights.sub fitted.weights) (next.weights.sub fitted.weights)) := by
  have hdown : fitStep pairs threadWeight whereWeight settings *
      dot (weightGradient pairs threadWeight whereWeight settings fitted)
        (next.weights.sub fitted.weights) ≤
      -dot (next.weights.sub fitted.weights) (next.weights.sub fitted.weights) :=
    project_step hsimplex (congrArg Fitted.weights hnext)
  rw [fitStep_eq, one_div_mul_eq_div, div_le_iff₀ lipschitz_pos] at hdown
  linear_combination hdown

/-- The biases step down theirs all the way. -/
theorem step_biases
    (hnext : next = descendOnce pairs memoryIds threadWeight whereWeight settings fitted) :
    (memoryIds.map fun id => biasGradient pairs threadWeight whereWeight settings fitted id *
        (next.biases id - fitted.biases id)).sum =
      -(lipschitz pairs threadWeight whereWeight settings *
        (memoryIds.map fun id => (next.biases id - fitted.biases id) *
          (next.biases id - fitted.biases id)).sum) := by
  rw [← neg_mul, ← List.sum_map_mul_left]
  refine congrArg List.sum (List.map_congr_left fun id hid => ?_)
  have hmoved : next.biases id - fitted.biases id =
      -(1 / lipschitz pairs threadWeight whereWeight settings *
        biasGradient pairs threadWeight whereWeight settings fitted id) := by
    simp only [hnext, descendOnce, if_pos hid, fitStep_eq]
    ring
  rw [hmoved]
  field_simp [(@lipschitz_pos K _ pairs threadWeight whereWeight settings _ _).ne']

/-- One projected step of the main loop does not raise its objective. -/
theorem descendOnce_descends (hnodup : memoryIds.Nodup)
    (hpairs : ∀ pair ∈ pairs,
      pair.positive.memoryId ∈ memoryIds ∧ pair.negative.memoryId ∈ memoryIds)
    (hactor : ∀ pair ∈ pairs, 0 ≤ pair.actorWeight) (hL2 : 0 ≤ settings.biasL2)
    (hsimplex : fitted.weights.OnSimplex) :
    objective pairs memoryIds threadWeight whereWeight settings
        (descendOnce pairs memoryIds threadWeight whereWeight settings fitted) ≤
      objective pairs memoryIds threadWeight whereWeight settings fitted := by
  obtain ⟨next, hnext⟩ : ∃ next,
      next = descendOnce pairs memoryIds threadWeight whereWeight settings fitted := ⟨_, rfl⟩
  let M := lipschitz pairs threadWeight whereWeight settings
  have hM : 0 < M := lipschitz_pos
  have hhinge : hinge threadWeight whereWeight settings next = fun pair =>
      hinge threadWeight whereWeight settings fitted pair -
        gained threadWeight whereWeight fitted next pair := funext hinge_next
  rw [← hnext, objective_eq, objective_eq, hhinge]
  have hregular : settings.biasL2 * (memoryIds.map fun id => next.biases id * next.biases id).sum ≤
      settings.biasL2 * (memoryIds.map fun id => fitted.biases id * fitted.biases id).sum +
        (memoryIds.map fun id => 2 * settings.biasL2 * fitted.biases id *
          (next.biases id - fitted.biases id)).sum +
        settings.biasL2 * stepSquare memoryIds fitted next := by
    rw [biases_sq_next settings.biasL2 fitted.biases next.biases, stepSquare]
    have hweights := mul_nonneg hL2 (dot_self_nonneg (next.weights.sub fitted.weights))
    linear_combination hweights
  have hdown : (memoryIds.map fun id => 2 * settings.biasL2 * fitted.biases id *
        (next.biases id - fitted.biases id)).sum -
      Hinge.slope (·.actorWeight) (hinge threadWeight whereWeight settings fitted)
        (gained threadWeight whereWeight fitted next) pairs ≤
      -(M * stepSquare memoryIds fitted next) := by
    have hweights := step_weights hsimplex hnext
    have hbiases := step_biases hnext
    rw [dot_comm, dot_weightGradient] at hweights
    rw [sum_biasGradient hnodup hpairs] at hbiases
    have hslope : Hinge.slope (·.actorWeight) (hinge threadWeight whereWeight settings fitted)
        (gained threadWeight whereWeight fitted next) pairs = _ := Hinge.slope_add _ _ _ _ _
    rw [hslope, stepSquare]
    linear_combination hweights + hbiases
  have hcurvature : 2 * settings.biasL2 + (pairs.map fun pair => 2 * pair.actorWeight *
      (dot (pair.featureDelta threadWeight whereWeight)
        (pair.featureDelta threadWeight whereWeight) + 2)).sum ≤ M := by
    simp only [M, lipschitz, two_point_zero]
    exact le_max_left _ _
  exact Hinge.descends hactor stepSquare_nonneg hregular
    (fun pair hpair => gained_sq_le (hpairs pair hpair).1 (hpairs pair hpair).2) hdown
    hcurvature hM.le

end Loop

section Fit

variable [LinearOrder K] {examples : List (LearningExample K)} {pair : Pair K}

omit [Field K] in
theorem mem_pairs (h : pair ∈ pairs examples) : pair.positive ∈ examples ∧
    pair.negative ∈ examples ∧
    pair.actorWeight = min pair.positive.actorWeight pair.negative.actorWeight := by
  simp only [pairs, List.mem_flatMap, List.mem_map, List.mem_filter, List.mem_insertionSort] at h
  obtain ⟨_, _, positive, ⟨⟨hpositive, _⟩, _⟩, negative, ⟨⟨hnegative, _⟩, _⟩, rfl⟩ := h
  exact ⟨hpositive, hnegative, rfl⟩

theorem actorWeight_nonneg (hactor : ∀ row ∈ examples, 0 ≤ row.actorWeight)
    (h : pair ∈ pairs examples) : 0 ≤ pair.actorWeight := by
  obtain ⟨hpositive, hnegative, hweight⟩ := mem_pairs h
  rw [hweight]
  exact le_min (hactor _ hpositive) (hactor _ hnegative)

/-- The memories a fit keeps a bias for. -/
def memoryIdsOf (examples : List (LearningExample K)) : List Uuid :=
  ((pairs examples).flatMap fun pair =>
    [pair.positive.memoryId, pair.negative.memoryId]).dedup.insertionSort (· ≤ ·)

omit [Field K] in
theorem nodup_memoryIdsOf : (memoryIdsOf examples).Nodup :=
  (List.perm_insertionSort _ _).nodup_iff.mpr (List.nodup_dedup _)

omit [Field K] in
theorem memoryIds_of_pairs (h : pair ∈ pairs examples) :
    pair.positive.memoryId ∈ memoryIdsOf examples ∧
      pair.negative.memoryId ∈ memoryIdsOf examples := by
  simp only [memoryIdsOf, List.mem_insertionSort, List.mem_dedup, List.mem_flatMap]
  exact ⟨⟨pair, h, List.mem_cons_self⟩, ⟨pair, h, List.mem_cons_of_mem _ List.mem_cons_self⟩⟩

/-- The state of the main loop after some steps. -/
def fitIterate (examples : List (LearningExample K)) (incumbentWeights : ScorerWeights K)
    (threadWeight whereWeight : K) (settings : FitSettings K) (steps : Nat) : Fitted K :=
  (descendOnce (pairs examples) (memoryIdsOf examples) threadWeight whereWeight settings)^[steps]
    ⟨.ofValues (projectSimplex incumbentWeights.values), fun _ => 0⟩

def fitObjective (examples : List (LearningExample K)) (threadWeight whereWeight : K)
    (settings : FitSettings K) (fitted : Fitted K) : K :=
  objective (pairs examples) (memoryIdsOf examples) threadWeight whereWeight settings fitted

variable [IsStrictOrderedRing K]

theorem fitIterate_onSimplex (incumbentWeights : ScorerWeights K) (threadWeight whereWeight : K)
    (settings : FitSettings K) (steps : Nat) :
    (fitIterate examples incumbentWeights threadWeight whereWeight settings
      steps).weights.OnSimplex := by
  cases steps with
  | zero => exact ScorerWeights.onSimplex_project _
  | succ steps =>
    rw [fitIterate, Function.iterate_succ_apply']
    exact ScorerWeights.onSimplex_project _

/-- The main loop of the pairwise fit: it returns one of its iterates, and of these each lies
on the simplex with an objective no higher than the one before it. -/
theorem fit_pairwise_descends (incumbentWeights : ScorerWeights K)
    (threadWeight whereWeight tau memoryContextShare : K) (boundaries : List (ShareBoundary K))
    (tune : Bool) (settings : FitSettings K) (hpairs : pairs examples ≠ [])
    (hactor : ∀ row ∈ examples, 0 ≤ row.actorWeight) (hL2 : 0 ≤ settings.biasL2) :
    (∃ fit, fitPairwise examples incumbentWeights threadWeight whereWeight tau memoryContextShare
        boundaries tune settings = .ok fit ∧ ∃ steps ≤ 10000, fit.weights =
          (fitIterate examples incumbentWeights threadWeight whereWeight settings steps).weights) ∧
      ∀ steps,
        (fitIterate examples incumbentWeights threadWeight whereWeight settings
          steps).weights.OnSimplex ∧
        fitObjective examples threadWeight whereWeight settings
            (fitIterate examples incumbentWeights threadWeight whereWeight settings (steps + 1)) ≤
          fitObjective examples threadWeight whereWeight settings
            (fitIterate examples incumbentWeights threadWeight whereWeight settings steps) := by
  constructor
  · obtain ⟨steps, hle, hsteps⟩ := @descend_eq_iterate K _ (pairs examples) (memoryIdsOf examples)
      threadWeight whereWeight settings _
      ⟨.ofValues (projectSimplex incumbentWeights.values), fun _ => 0⟩ 0 10000
    unfold fitPairwise
    dsimp only
    rw [ensure_pos hpairs, ok_bind]
    refine ⟨_, rfl, steps, hle, ?_⟩
    exact congrArg (fun answer => answer.1.weights) hsteps
  · intro steps
    have hsimplex := @fitIterate_onSimplex K _ _ examples _ incumbentWeights threadWeight
      whereWeight settings steps
    refine ⟨hsimplex, ?_⟩
    rw [fitIterate, Function.iterate_succ_apply']
    refine descendOnce_descends nodup_memoryIdsOf (fun pair => memoryIds_of_pairs) ?_ hL2 hsimplex
    exact fun pair hpair => actorWeight_nonneg hactor hpair

/-- One kept and one removed memory are a pair to fit. -/
theorem fit_pairwise_descends_bare : pairs [bareExample 1 1 true, bareExample 1 2 false] ≠ [] ∧
    ∃ fit, fitPairwise [bareExample 1 1 true, bareExample 1 2 false] .zero 0 0 0 0 [] false
      ⟨1, 1⟩ = .ok fit := by
  have hpairs : pairs [bareExample 1 1 true, bareExample 1 2 false] ≠ [] := by decide
  obtain ⟨⟨fit, hfit, _⟩, _⟩ := fit_pairwise_descends .zero 0 0 0 0 [] false ⟨1, 1⟩ hpairs
    (by decide) (by decide)
  exact ⟨hpairs, fit, hfit⟩

end Fit

end Nocturne.Learner
