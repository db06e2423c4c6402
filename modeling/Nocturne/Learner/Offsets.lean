import Nocturne.Learner.Descent

namespace Nocturne.Learner

open Nocturne.Inject Nocturne.Lib

variable {K : Type} [Field K]

section Objective

variable [LinearOrder K] (settings : FitSettings K) (offsets : ScorerWeights K)

/-- How far a pair of the project stays short of the margin. -/
def offsetHinge (row : ProjectDelta K) : K :=
  settings.pairMargin - row.baseline - dot offsets row.delta

/-- The squared hinges of a project's pairs, with the shrinkage toward the globals. -/
def projectObjective (deltas : List (ProjectDelta K)) : K :=
  settings.biasL2 * dot offsets offsets +
    (deltas.map fun row => row.actorWeight * max 0 (offsetHinge settings offsets row) ^ 2).sum

/-- What the fit of one project's offsets sees of its pairs. -/
def projectDeltas (weights : ScorerWeights K) (examples : List (LearningExample K))
    (biases : Uuid → K) (threadWeight whereWeight : K) (project : String) :
    List (ProjectDelta K) :=
  (pairs (examples.filter (·.projectKey = some project))).map fun pair =>
    { delta := pair.featureDelta threadWeight whereWeight
      baseline := pair.difference weights biases threadWeight whereWeight
      actorWeight := pair.actorWeight }

end Objective

section Step

variable {weights offsets : ScorerWeights K} {settings : FitSettings K}
  {deltas : List (ProjectDelta K)}

theorem offsetHinge_next (updated : ScorerWeights K) (row : ProjectDelta K) :
    offsetHinge settings updated row =
      offsetHinge settings offsets row - dot (updated.sub offsets) row.delta := by
  rw [offsetHinge, offsetHinge, dot_sub_left]
  ring

theorem dot_foldl_sub (d : ScorerWeights K) (f : ProjectDelta K → ScorerWeights K)
    (l : List (ProjectDelta K)) (start : ScorerWeights K) :
    dot (l.foldl (fun gradient row => gradient.sub (f row)) start) d =
      dot start d - (l.map fun row => dot d (f row)).sum := by
  induction l generalizing start with
  | nil => simp
  | cons row l ih =>
    rw [List.foldl_cons, ih, dot_sub_left, dot_comm (f row), List.map_cons, List.sum_cons, sub_sub]

variable [LinearOrder K]

theorem add_nextOffsets : weights.add (nextOffsets weights settings deltas offsets) =
    .ofValues (projectSimplex ((weights.add offsets).sub ((offsetGradient settings deltas
      offsets).map (offsetStep settings deltas * ·))).values) :=
  add_sub_self _ _

variable [IsStrictOrderedRing K]

theorem nextOffsets_onSimplex :
    (weights.add (nextOffsets weights settings deltas offsets)).OnSimplex := by
  rw [add_nextOffsets]
  exact ScorerWeights.onSimplex_project _

/-- One step is enough to reach the simplex, from any base weights. -/
theorem descendOffsets_onSimplex (fuel : Nat) :
    (weights.add (descendOffsets weights settings deltas offsets (fuel + 1))).OnSimplex := by
  induction fuel generalizing offsets with
  | zero =>
    unfold descendOffsets
    dsimp only
    split
    · exact nextOffsets_onSimplex
    · exact nextOffsets_onSimplex
  | succ fuel ih =>
    unfold descendOffsets
    dsimp only
    split
    · exact nextOffsets_onSimplex
    · exact ih

/-- The offsets' gradient: the shrinkage, less what each pair short of the margin gains. -/
theorem dot_offsetGradient (d : ScorerWeights K) : dot (offsetGradient settings deltas offsets) d =
    2 * settings.biasL2 * dot offsets d -
      Hinge.slope (·.actorWeight) (offsetHinge settings offsets) (fun row => dot d row.delta)
        deltas := by
  rw [offsetGradient, dot_foldl_sub, dot_comm, dot_map_mul, dot_comm d, Hinge.slope_eq]
  simp only [dot_map_mul, two_point_zero]
  rfl

theorem sq_dot_le (v w : ScorerWeights K) : dot v w ^ 2 ≤ dot w w * dot v v := by
  have hcauchy := Finset.sum_mul_sq_le_sq_mul_sq Finset.univ (coords v) (coords w)
  simp only [dot_eq_sum, ← sq]
  linear_combination hcauchy

/-- One projected step of a project's offsets does not raise its objective. -/
theorem nextOffsets_descends (hactor : ∀ row ∈ deltas, 0 ≤ row.actorWeight)
    (hsimplex : (weights.add offsets).OnSimplex) :
    projectObjective settings (nextOffsets weights settings deltas offsets) deltas ≤
      projectObjective settings offsets deltas := by
  obtain ⟨updated, hupdated⟩ : ∃ updated,
      updated = nextOffsets weights settings deltas offsets := ⟨_, rfl⟩
  let M := max 1 (2 * settings.biasL2 +
    (deltas.map fun row => 2 * row.actorWeight * dot row.delta row.delta).sum)
  have hM : 0 < M := lt_of_lt_of_le one_pos (le_max_left _ _)
  have hstep : offsetStep settings deltas = 1 / M := by simp only [offsetStep, two_point_zero, M]
  have hmoved : (weights.add updated).sub (weights.add offsets) = updated.sub offsets := by
    simp [ScorerWeights.add, ScorerWeights.sub]
  have hdown : offsetStep settings deltas * dot (offsetGradient settings deltas offsets)
      ((weights.add updated).sub (weights.add offsets)) ≤
      -dot ((weights.add updated).sub (weights.add offsets))
        ((weights.add updated).sub (weights.add offsets)) :=
    project_step hsimplex ((congrArg weights.add hupdated).trans add_nextOffsets)
  rw [hmoved, hstep, one_div_mul_eq_div, div_le_iff₀ hM, dot_offsetGradient] at hdown
  have hregular : settings.biasL2 * dot updated updated ≤ settings.biasL2 * dot offsets offsets +
      2 * settings.biasL2 * dot offsets (updated.sub offsets) +
      settings.biasL2 * dot (updated.sub offsets) (updated.sub offsets) := by
    simp only [dot_sub_left, dot_sub_right, dot_comm updated offsets]
    exact le_of_eq (by ring)
  have hhinge : offsetHinge settings updated = fun row =>
      offsetHinge settings offsets row - dot (updated.sub offsets) row.delta :=
    funext (offsetHinge_next updated)
  rw [← hupdated, projectObjective, projectObjective, hhinge]
  refine Hinge.descends hactor (dot_self_nonneg (updated.sub offsets)) hregular
    (fun row _ => sq_dot_le _ _) ?_ (le_max_right _ _) hM.le
  linear_combination hdown

theorem descendOffsets_descends (hactor : ∀ row ∈ deltas, 0 ≤ row.actorWeight)
    (hsimplex : (weights.add offsets).OnSimplex) (fuel : Nat) :
    projectObjective settings (descendOffsets weights settings deltas offsets fuel) deltas ≤
      projectObjective settings offsets deltas := by
  induction fuel generalizing offsets with
  | zero => exact le_rfl
  | succ fuel ih =>
    have hstep := @nextOffsets_descends K _ weights offsets settings deltas _ _ hactor hsimplex
    unfold descendOffsets
    dsimp only
    split
    · exact hstep
    · exact (ih nextOffsets_onSimplex).trans hstep

end Step

section Fit

variable [LinearOrder K] {weights : ScorerWeights K} {settings : FitSettings K}
  {examples : List (LearningExample K)} {biases : Uuid → K} {threadWeight whereWeight : K}
  {entry : String × ScorerWeights K}

/-- A project's offsets are its own descent, whatever the other projects hold. -/
theorem mem_fitProjectOffsets
    (h : entry ∈ fitProjectOffsets weights settings examples biases threadWeight whereWeight) :
    entry.2 = descendOffsets weights settings
      (projectDeltas weights examples biases threadWeight whereWeight entry.1) .zero 10000 := by
  obtain ⟨project, _, hentry⟩ := List.mem_filterMap.mp h
  split at hentry
  · cases hentry
  · rename_i pair rest hpairs
    obtain rfl := Option.some.inj hentry
    rw [projectDeltas, hpairs]

/-- So a lookup finds what the project was fitted. -/
theorem find_fitProjectOffsets
    (h : entry ∈ fitProjectOffsets weights settings examples biases threadWeight whereWeight) :
    ((fitProjectOffsets weights settings examples biases threadWeight whereWeight).find?
      (·.1 = entry.1)).map (·.2) = some entry.2 := by
  cases hfound : (fitProjectOffsets weights settings examples biases threadWeight
      whereWeight).find? (·.1 = entry.1) with
  | none =>
    have hnone := List.find?_eq_none.mp hfound entry h
    simp at hnone
  | some found =>
    have hkey : found.1 = entry.1 := by simpa using List.find?_some hfound
    have hvalue := mem_fitProjectOffsets (List.mem_of_find?_eq_some hfound)
    rw [Option.map_some, hvalue, hkey, ← mem_fitProjectOffsets h]

/-- The weights the challenger scores a project's rows with. -/
def FitResult.effective (fit : FitResult K) (projectKey : Option String) : ScorerWeights K :=
  let moved := fit.moved projectKey
  if moved.dips then .ofValues (projectSimplex moved.values) else moved

theorem not_dips {w : ScorerWeights K} (h : w.OnSimplex) : ¬w.dips := by
  rintro ⟨x, hx, hneg⟩
  exact (h.nonneg x hx).not_gt hneg

variable [IsStrictOrderedRing K]

/-- The offsets the learner fits are served as fitted: with the base weights they lie on the
simplex, serving admits them and moves by them what the challenger scored with, and from base
weights on the simplex no project's objective is above that of the globals alone. -/
theorem project_offsets_servable (weights : ScorerWeights K) (settings : FitSettings K)
    (examples : List (LearningExample K)) (biases : Uuid → K) (threadWeight whereWeight : K)
    (hactor : ∀ row ∈ examples, 0 ≤ row.actorWeight) (config : ScorerConfig K)
    (fit : FitResult K) :
    let projectOffsets :=
      fitProjectOffsets weights settings examples biases threadWeight whereWeight
    let served := { config with weights, projectOffsets }
    let fitted := { fit with weights, projectOffsets }
    (∀ offsets ∈ served.projectOffsets, |(served.weights.add offsets.2).sum - 1| ≤ 1 / 10 ^ 7) ∧
      ∀ entry ∈ projectOffsets,
        (weights.add entry.2).OnSimplex ∧
        served.weightsForProject (some entry.1) = weights.add entry.2 ∧
        fitted.effective (some entry.1) = weights.add entry.2 ∧
        let deltas := projectDeltas weights examples biases threadWeight whereWeight entry.1
        (weights.OnSimplex →
          projectObjective settings entry.2 deltas ≤ projectObjective settings .zero deltas) := by
  intro projectOffsets served fitted
  have hsimplex : ∀ entry ∈ projectOffsets, (weights.add entry.2).OnSimplex := by
    intro entry hentry
    rw [mem_fitProjectOffsets hentry]
    exact descendOffsets_onSimplex 9999
  constructor
  · intro offsets hoffsets
    have hsum : (served.weights.add offsets.2).sum = 1 := (hsimplex offsets hoffsets).sum
    rw [hsum, sub_self, abs_zero]
    positivity
  · intro entry hentry
    have hfound := find_fitProjectOffsets hentry
    have hdips := not_dips (hsimplex entry hentry)
    refine ⟨hsimplex entry hentry, ?_, ?_, fun hweights => ?_⟩
    · have hoffsets : served.offsetsFor (some entry.1) = some entry.2 := hfound
      rw [ScorerConfig.weightsForProject, hoffsets]
      exact if_neg hdips
    · have hmoved : fitted.moved (some entry.1) = weights.add entry.2 := by
        simp only [FitResult.moved, Option.bind_some, fitted, projectOffsets, hfound,
          Option.getD_some]
      rw [FitResult.effective, hmoved]
      exact if_neg hdips
    · rw [mem_fitProjectOffsets hentry]
      refine descendOffsets_descends (fun row hrow => ?_) ?_ 10000
      · obtain ⟨pair, hpair, rfl⟩ := List.mem_map.mp hrow
        exact actorWeight_nonneg (fun row hrow => hactor row (List.mem_of_mem_filter hrow)) hpair
      · have hzero : weights.add .zero = weights := by
          simp [ScorerWeights.add, ScorerWeights.zero]
        rwa [hzero]

end Fit

/-- A kept and a removed memory of one project. -/
def orchardRows : List (LearningExample ℚ) :=
  [bareExample 1 1 true, bareExample 1 2 false].map ({ · with projectKey := some "orchard" })

/-- A served scorer to put offsets into. -/
def bareConfig : ScorerConfig ℚ :=
  ⟨"bare", .zero, ⟨0, 0, 0, 1, 1, 1, 0, 1, 0, 0, none⟩, [], [], []⟩

def bareFit : FitResult ℚ := ⟨⟨0, 0, 0, 0, 0, 0, 0, false⟩, .zero, [], []⟩

theorem project_offsets_servable_orchard : (∀ row ∈ orchardRows, 0 ≤ row.actorWeight) ∧ ∀ entry ∈
    fitProjectOffsets ⟨1 / 2, 1 / 2, 0, 0, 0, 0⟩ ⟨4 / 5, 1⟩ orchardRows (fun _ => 0) 0 0,
      (ScorerWeights.add ⟨1 / 2, 1 / 2, 0, 0, 0, 0⟩ entry.2).OnSimplex := by
  have hactor : ∀ row ∈ orchardRows, 0 ≤ row.actorWeight := by decide
  have hservable := project_offsets_servable ⟨1 / 2, 1 / 2, 0, 0, 0, 0⟩ ⟨4 / 5, 1⟩ orchardRows
    (fun _ => 0) 0 0 hactor bareConfig bareFit
  exact ⟨hactor, fun entry hentry => (hservable.2 entry hentry).1⟩

/-- From base weights off the simplex the projection alone pays for its regulariser. -/
theorem project_offsets_servable_heavy : ∃ entry ∈
    fitProjectOffsets ⟨2, 0, 0, 0, 0, 0⟩ ⟨1, 1⟩ orchardRows (fun _ => 0) 0 0,
      projectObjective ⟨1, 1⟩ .zero
          (projectDeltas ⟨2, 0, 0, 0, 0, 0⟩ orchardRows (fun _ => 0) 0 0 entry.1) <
        projectObjective ⟨1, 1⟩ entry.2
          (projectDeltas ⟨2, 0, 0, 0, 0, 0⟩ orchardRows (fun _ => 0) 0 0 entry.1) := by
  decide +kernel

end Nocturne.Learner
