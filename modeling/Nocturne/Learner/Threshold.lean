import Mathlib.Data.List.MinMax
import Mathlib.Data.Prod.Lex
import Nocturne.Learner.Offsets
import Nocturne.Learner.Range

namespace Nocturne.Learner

open Nocturne.Inject Nocturne.Lib

variable {K : Type} [Field K] [LinearOrder K]

section Controls

variable {key : K → K × ℕ × K} {incumbent candidate : K} {candidates : List K}

/-- The key of a control, in the order keys compare in. -/
def ranked (key : K → K × ℕ × K) (candidate : K) : K ×ₗ ℕ ×ₗ K :=
  toLex ((key candidate).1, toLex (key candidate).2)

omit [Field K] in
theorem keyBefore_iff {x y : K} : KeyBefore (key x) (key y) ↔ ranked key x < ranked key y := by
  simp only [KeyBefore, ranked, Prod.Lex.toLex_lt_toLex]

omit [Field K] in
theorem foldl_preferred : candidates.foldl (preferred key) (incumbent, none) =
    ((candidates.argmin (ranked key)).getD incumbent,
      (candidates.argmin (ranked key)).map key) := by
  induction candidates using List.reverseRecOn with
  | nil => rfl
  | append_singleton candidates candidate ih =>
    rw [List.foldl_append, ih, List.foldl_cons, List.foldl_nil, List.argmin_concat, preferred]
    cases candidates.argmin (ranked key) with
    | none => rfl
    | some best =>
      simp only [Option.map_some, Option.mem_def, Option.some.injEq, forall_eq', keyBefore_iff,
        Option.getD_some]
      split
      · rfl
      · rfl

omit [Field K] in
/-- No candidate has a lower key than the control chosen. -/
theorem ranked_chooseControl_le (h : candidate ∈ candidates) :
    ranked key (chooseControl key incumbent candidates) ≤ ranked key candidate := by
  rw [chooseControl, foldl_preferred]
  cases hbest : candidates.argmin (ranked key) with
  | none =>
    rw [List.argmin_eq_none.mp hbest] at h
    cases h
  | some best => exact List.le_of_mem_argmin h hbest

omit [Field K] in
theorem chooseControl_le (h : candidate ∈ candidates) :
    (key (chooseControl key incumbent candidates)).1 ≤ (key candidate).1 := by
  have hranked := @ranked_chooseControl_le K _ key incumbent candidate candidates h
  rcases Prod.Lex.toLex_le_toLex.mp hranked with hlt | ⟨heq, _⟩
  · exact hlt.le
  · exact heq.le

end Controls

section Fit

variable (examples : List (LearningExample K)) (incumbentWeights : ScorerWeights K)
  (threadWeight whereWeight incumbentTau incumbentShare : K) (boundaries : List (ShareBoundary K))
  (settings : FitSettings K)

/-- Where the main loop leaves the weights and biases. -/
def fitState : Fitted K :=
  (descend (pairs examples) (memoryIdsOf examples) threadWeight whereWeight settings
    ⟨.ofValues (projectSimplex incumbentWeights.values), fun _ => 0⟩ 0 10000).1

/-- The score the threshold is tuned on. -/
def tunedScore (fitted : Fitted K) (fit : FitResult K) (row : LearningExample K) : K :=
  exampleScore row fitted.weights fit.threadWeight fit.whereWeight + fitted.biases row.memoryId

/-- The score the challenger decides on: the project's weights, the biases it kept. -/
def shippedScore (fit : FitResult K) (axes : List (String × AxisNomination K))
    (row : LearningExample K) : K :=
  axisScore row (fit.effective row.projectKey) fit.threadWeight fit.whereWeight axes +
    biasOf fit.biasOffsets row.memoryId

/-- The weight of the rows a threshold decides against the owner. -/
def misjudged (score : LearningExample K → K) (tau : K) : K :=
  ((examples.filter fun row =>
    decide (row.shownAs = .pinned ∨ tau ≤ score row) ≠ row.targetInjected).map
      (·.actorWeight)).sum

variable {examples}

theorem challengerScore_misjudged (fit : FitResult K) (shareBoundaries : List (ShareBoundary K)) :
    (challengerScore examples shareBoundaries fit []).weightedDisagreements =
      misjudged examples (shippedScore fit []) fit.tau +
        ((shareBoundaries.filter (·.wrong fit.memoryContextShare)).map (·.actorWeight)).sum :=
  rfl

theorem fitTau_le {fitted : Fitted K} {fit : FitResult K} {candidate : K}
    (h : candidate ∈ hundredths incumbentTau 0 100) :
    misjudged examples (tunedScore fitted fit)
        (fitTau examples fitted fit.threadWeight fit.whereWeight incumbentTau) ≤
      misjudged examples (tunedScore fitted fit) candidate := by
  let selected := fun (candidate : K) (row : LearningExample K) =>
    decide (row.shownAs = .pinned ∨ candidate ≤ tunedScore fitted fit row)
  let key := fun candidate => (misjudged examples (tunedScore fitted fit) candidate,
    ((examples.filter (selected candidate)).map (·.bodyTokens)).sum, -candidate)
  exact @chooseControl_le K _ key incumbentTau candidate _ h

theorem incumbent_mem_hundredths (low high : ℕ) :
    incumbentTau ∈ hundredths incumbentTau low high := by
  simp only [hundredths, List.mem_insertionSort, List.mem_dedup, List.mem_cons, true_or]

theorem fitTau_mem (fitted : Fitted K) (threadWeight whereWeight : K) :
    fitTau examples fitted threadWeight whereWeight incumbentTau ∈
      hundredths incumbentTau 0 100 := by
  unfold fitTau
  rcases chooseControl_mem _ incumbentTau (hundredths incumbentTau 0 100) with hchosen | hchosen
  · rw [hchosen]
    exact incumbent_mem_hundredths incumbentTau 0 100
  · exact hchosen

/-- A challenger's score reads its weights, its biases and its offsets. -/
theorem shippedScore_congr {fit fit' : FitResult K} (hweights : fit.weights = fit'.weights)
    (hthread : fit.threadWeight = fit'.threadWeight) (hwhere : fit.whereWeight = fit'.whereWeight)
    (hbiases : fit.biasOffsets = fit'.biasOffsets)
    (hoffsets : fit.projectOffsets = fit'.projectOffsets) :
    shippedScore fit = shippedScore fit' := by
  have hmoved (project : Option String) : fit.moved project = fit'.moved project := by
    simp only [FitResult.moved, hweights, hoffsets]
  have heffective (project : Option String) : fit.effective project = fit'.effective project := by
    rw [FitResult.effective, FitResult.effective, hmoved]
  funext axes row
  simp only [shippedScore, heffective, hthread, hwhere, hbiases]

/-- Nothing is tuned that the rest of the fit reads. -/
theorem fitPairwise_tuned {before : FitResult K}
    (h : fitPairwise examples incumbentWeights threadWeight whereWeight incumbentTau incumbentShare
      boundaries false settings = .ok before) :
    ∃ fit, fitPairwise examples incumbentWeights threadWeight whereWeight incumbentTau
        incumbentShare boundaries true settings = .ok fit ∧
      fit.tau = fitTau examples
        (fitState examples incumbentWeights threadWeight whereWeight settings)
        before.threadWeight before.whereWeight incumbentTau ∧
      shippedScore fit = shippedScore before := by
  simp only [fitPairwise, fitState, memoryIdsOf, bind_eq_ok, pure_eq_ok] at h ⊢
  generalize descend _ _ threadWeight whereWeight settings _ 0 10000 = answer at h ⊢
  obtain ⟨done, hpairs, rfl⟩ := h
  refine ⟨_, ⟨done, hpairs, rfl⟩, ?_, ?_⟩
  · simp only [if_true]
  · apply shippedScore_congr <;> dsimp only

/-- Thresholds that decide every row alike misjudge alike. -/
theorem misjudged_congr {score score' : LearningExample K → K} {tau : K}
    (h : ∀ row ∈ examples, row.shownAs ≠ .pinned → (tau ≤ score row ↔ tau ≤ score' row)) :
    misjudged examples score tau = misjudged examples score' tau := by
  refine congrArg (fun rows : List (LearningExample K) => (rows.map (·.actorWeight)).sum)
    (List.filter_congr fun row hrow => ?_)
  by_cases hpinned : row.shownAs = .pinned
  · simp only [hpinned, true_or]
  · simp only [hpinned, false_or, h row hrow hpinned]

variable [IsStrictOrderedRing K]

/-- An incumbent that is a hundredth itself adds none. -/
theorem hundredths_eq {incumbent : K} {low high : ℕ}
    (h : incumbent ∈ (List.range' low (high + 1 - low)).map fun index : ℕ =>
      (index : K) / (100 : ℕ)) :
    hundredths incumbent low high = (List.range' low (high + 1 - low)).map fun index : ℕ =>
      (index : K) / (100 : ℕ) := by
  have hsorted : ((List.range' low (high + 1 - low)).map fun index : ℕ =>
      (index : K) / (100 : ℕ)).Pairwise (· < ·) := by
    refine List.pairwise_map.mpr (List.Pairwise.imp (fun hlt => ?_) List.pairwise_lt_range')
    exact div_lt_div_of_pos_right (Nat.cast_lt.mpr hlt) (by norm_num)
  rw [hundredths, List.dedup_cons_of_mem h, List.Nodup.dedup (hsorted.imp ne_of_lt),
    (hsorted.imp le_of_lt).insertionSort_eq]

end Fit

/-- A row of a gate, strong in the one feature of its memory. -/
def signalRow (injectionId : Uuid) (eventUid : Ulid) (memoryId : Uuid) (project : String)
    (targetInjected : Bool) : LearningExample ℚ :=
  { bareExample injectionId eventUid targetInjected with
    memoryId
    features := if memoryId = 1 then ⟨9 / 10, 0, 0, 0, 0, 0⟩ else ⟨0, 9 / 10, 0, 0, 0, 0⟩
    projectKey := some project }

/-- Two projects that keep opposite memories. -/
def opposedRows : List (LearningExample ℚ) :=
  [signalRow 1 1 1 "orchard" true, signalRow 1 2 2 "orchard" false,
    signalRow 2 3 2 "workshop" true, signalRow 2 4 1 "workshop" false]

end Nocturne.Learner
