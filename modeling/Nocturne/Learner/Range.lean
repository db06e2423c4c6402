import Mathlib.Tactic.NormNum.OfScientific
import Mathlib.Tactic.Linarith
import Nocturne.Inject.Simplex
import Nocturne.Learner.Axes

namespace Nocturne.Learner

open Nocturne.Inject Nocturne.Lib

variable {K : Type} [Field K]

theorem sum_sub (v w : ScorerWeights K) : (v.sub w).sum = v.sum - w.sum := by
  simp only [ScorerWeights.sum, ScorerWeights.values, ScorerWeights.sub, List.sum_cons,
    List.sum_nil]
  ring

variable [LinearOrder K]

/-- A mixing coefficient the scorer admits. -/
def Coefficient (x : K) : Prop := 0 ≤ x ∧ x < 1

section Controls

omit [Field K] in
theorem chooseControl_mem (key : K → K × Nat × K) (incumbent : K) (candidates : List K) :
    chooseControl key incumbent candidates = incumbent ∨
      chooseControl key incumbent candidates ∈ candidates := by
  apply List.foldlRecOn candidates (preferred key)
    (motive := fun best => best.1 = incumbent ∨ best.1 ∈ candidates)
  · exact .inl rfl
  · intro best hbest candidate hcandidate
    unfold preferred
    split
    · exact .inr hcandidate
    · exact hbest

variable [IsStrictOrderedRing K]

theorem mem_hundredths {incumbent x : K} {low high : Nat} (h : x ∈ hundredths incumbent low high) :
    x = incumbent ∨ (low : K) / (100 : ℕ) ≤ x ∧ x ≤ (high : K) / (100 : ℕ) := by
  simp only [hundredths, List.mem_insertionSort, List.mem_dedup, List.mem_cons, List.mem_map,
    List.mem_range'_1] at h
  rcases h with rfl | ⟨index, ⟨hlow, hhigh⟩, rfl⟩
  · exact .inl rfl
  · right
    constructor
    · gcongr
    · gcongr
      omega

theorem fitTau_range {examples : List (LearningExample K)} {fitted : Fitted K}
    {threadWeight whereWeight incumbent : K} (h : 0 ≤ incumbent ∧ incumbent ≤ 1) :
    0 ≤ fitTau examples fitted threadWeight whereWeight incumbent ∧
      fitTau examples fitted threadWeight whereWeight incumbent ≤ 1 := by
  unfold fitTau
  rcases chooseControl_mem _ incumbent (hundredths incumbent 0 100) with hchosen | hchosen
  · rwa [hchosen]
  · rcases mem_hundredths hchosen with hsame | hrange
    · rwa [hsame]
    · simpa using hrange

theorem fitShare_range {boundaries : List (ShareBoundary K)} {incumbent : K}
    (h : 1 / 100 ≤ incumbent ∧ incumbent ≤ 1 / 2) :
    1 / 100 ≤ fitShare boundaries incumbent ∧ fitShare boundaries incumbent ≤ 1 / 2 := by
  unfold fitShare
  split
  · exact h
  · rcases chooseControl_mem _ incumbent (hundredths incumbent 1 50) with hchosen | hchosen
    · rwa [hchosen]
    · rcases mem_hundredths hchosen with hsame | hrange
      · rwa [hsame]
      · norm_num at hrange ⊢
        exact hrange

end Controls

section Fit

variable [IsStrictOrderedRing K]

theorem clampWeight_coefficient (value : K) : Coefficient (clampWeight value) := by
  have hbound : (0 : K) ≤ 1 - 1e-12 ∧ (1 : K) - 1e-12 < 1 := by norm_num
  constructor
  · exact le_min (le_max_right _ _) hbound.1
  · exact lt_of_le_of_lt (min_le_right _ _) hbound.2

theorem descendLocality_coefficient {pairs : List (Pair K)} {pairMargin : K}
    {derivative : Pair K → K} {difference : K → Pair K → K} {step weight : K} {iterations : Nat}
    (fuel : Nat) (h : Coefficient weight) :
    Coefficient (descendLocality pairs pairMargin derivative difference step weight iterations
      fuel).1 := by
  induction fuel generalizing weight iterations with
  | zero => exact h
  | succ fuel ih =>
    simp only [descendLocality]
    split
    · exact clampWeight_coefficient _
    · exact ih (clampWeight_coefficient _)

theorem fitLocality_coefficient {pairs : List (Pair K)} {pairMargin : K}
    {derivative : LearningExample K → K} {difference : K → Pair K → K} (initial : K) :
    Coefficient (fitLocality pairs pairMargin derivative difference initial).1 := by
  simp only [fitLocality]
  split
  · exact clampWeight_coefficient _
  · exact descendLocality_coefficient _ (clampWeight_coefficient _)

theorem descend_onSimplex {pairs : List (Pair K)} {memoryIds : List Uuid}
    {threadWeight whereWeight : K} {settings : FitSettings K} {fitted : Fitted K}
    {iterations : Nat} (fuel : Nat) (h : fitted.weights.OnSimplex) :
    (descend pairs memoryIds threadWeight whereWeight settings fitted iterations
      fuel).1.weights.OnSimplex := by
  induction fuel generalizing fitted iterations with
  | zero => exact h
  | succ fuel ih =>
    simp only [descend]
    split
    · exact ScorerWeights.onSimplex_project _
    · exact ih (ScorerWeights.onSimplex_project _)

/-- What a projected step adds to weights that sum to one cancels out. -/
theorem sum_nextOffsets {weights : ScorerWeights K} {settings : FitSettings K}
    {deltas : List (ProjectDelta K)} {offsets : ScorerWeights K} (h : weights.sum = 1) :
    (nextOffsets weights settings deltas offsets).sum = 0 := by
  rw [nextOffsets, sum_sub, (ScorerWeights.onSimplex_project _).sum, h, sub_self]

theorem sum_descendOffsets {weights : ScorerWeights K} {settings : FitSettings K}
    {deltas : List (ProjectDelta K)} {offsets : ScorerWeights K} (fuel : Nat)
    (h : weights.sum = 1) (hoffsets : offsets.sum = 0) :
    (descendOffsets weights settings deltas offsets fuel).sum = 0 := by
  induction fuel generalizing offsets with
  | zero => exact hoffsets
  | succ fuel ih =>
    simp only [descendOffsets]
    split
    · exact sum_nextOffsets h
    · exact ih (sum_nextOffsets h)

theorem sum_fitProjectOffsets {weights : ScorerWeights K} {settings : FitSettings K}
    {examples : List (LearningExample K)} {biases : Uuid → K} {threadWeight whereWeight : K}
    (h : weights.sum = 1) :
    ∀ offsets ∈ fitProjectOffsets weights settings examples biases threadWeight whereWeight,
      offsets.2.sum = 0 := by
  intro offsets hoffsets
  simp only [fitProjectOffsets, List.mem_filterMap] at hoffsets
  obtain ⟨project, _, hsome⟩ := hoffsets
  split at hsome
  · cases hsome
  · cases hsome
    apply sum_descendOffsets _ h
    simp [ScorerWeights.zero, ScorerWeights.sum, ScorerWeights.values]

/-- What a fit may propose. -/
structure FitResult.InRange (fit : FitResult K) : Prop where
  weights : fit.weights.OnSimplex
  thread : Coefficient fit.threadWeight
  «where» : Coefficient fit.whereWeight
  tau : 0 ≤ fit.tau ∧ fit.tau ≤ 1
  share : 1 / 100 ≤ fit.memoryContextShare ∧ fit.memoryContextShare ≤ 1 / 2
  offsets : ∀ offsets ∈ fit.projectOffsets, offsets.2.sum = 0

theorem fitPairwise_inRange {examples : List (LearningExample K)}
    {incumbentWeights : ScorerWeights K}
    {incumbentThreadWeight incumbentWhereWeight incumbentTau incumbentMemoryContextShare : K}
    {shareBoundaries : List (ShareBoundary K)} {tuneShareAndTau : Bool} {settings : FitSettings K}
    {fit : FitResult K} (htau : 0 ≤ incumbentTau ∧ incumbentTau ≤ 1)
    (hshare : 1 / 100 ≤ incumbentMemoryContextShare ∧ incumbentMemoryContextShare ≤ 1 / 2)
    (h : fitPairwise examples incumbentWeights incumbentThreadWeight incumbentWhereWeight
      incumbentTau incumbentMemoryContextShare shareBoundaries tuneShareAndTau settings =
        .ok fit) : fit.InRange := by
  simp only [fitPairwise, bind_eq_ok, pure_eq_ok] at h
  obtain ⟨_, _, rfl⟩ := h
  constructor
  · exact descend_onSimplex _ (ScorerWeights.onSimplex_project _)
  · exact fitLocality_coefficient _
  · exact fitLocality_coefficient _
  · dsimp only
    split
    · exact fitTau_range htau
    · exact htau
  · dsimp only
    split
    · exact fitShare_range hshare
    · exact hshare
  · apply sum_fitProjectOffsets
    exact (descend_onSimplex _ (ScorerWeights.onSimplex_project _)).sum

end Fit

section Axes

/-- What the loader asks of one stored axis. -/
structure StoredAxis.Sound (axis : StoredAxis K) : Prop where
  name : axis.name ≠ ""
  label : axis.label ≠ ""
  rationale : axis.rationale ≠ ""
  weight : Coefficient axis.weight

def Axes.Sound (axes : Axes K) : Prop := ∀ axis ∈ axes, axis.2.Sound

variable {axes : Axes K} {axis : StoredAxis K}

theorem Axes.Sound.set (h : axes.Sound) (haxis : axis.Sound) (name : String) :
    (axes.set name axis).Sound := by
  intro entry hentry
  unfold Axes.set at hentry
  split at hentry
  · rcases List.mem_append.mp hentry with hentry | hentry
    · exact h entry hentry
    · cases List.mem_singleton.mp hentry
      exact haxis
  · obtain ⟨old, hold, rfl⟩ := List.mem_map.mp hentry
    split
    · exact haxis
    · exact h old hold

variable [IsStrictOrderedRing K] {examples : List (LearningExample K)} {fit : FitResult K}
  {settings : FitSettings K} {corpusFingerprint : String}

theorem narrow_range {at' : K → K} (fuel : Nat) {low high : K} (h : low ≤ high) :
    low ≤ (narrow at' fuel (low, high)).1 ∧
      (narrow at' fuel (low, high)).1 ≤ (narrow at' fuel (low, high)).2 ∧
      (narrow at' fuel (low, high)).2 ≤ high := by
  induction fuel generalizing low high with
  | zero => exact ⟨le_rfl, h, le_rfl⟩
  | succ fuel ih =>
    have hthird : 0 ≤ (high - low) / (3 : ℕ) := div_nonneg (sub_nonneg.mpr h) (by positivity)
    have hwidth : (high - low) / (3 : ℕ) ≤ high - low := by
      apply div_le_self (sub_nonneg.mpr h)
      norm_num
    simp only [narrow]
    split
    · obtain ⟨hlow, hrange, hhigh⟩ := ih (show low ≤ high - (high - low) / (3 : ℕ) by linarith)
      exact ⟨hlow, hrange, hhigh.trans (by linarith)⟩
    · obtain ⟨hlow, hrange, hhigh⟩ := ih (show low + (high - low) / (3 : ℕ) ≤ high by linarith)
      exact ⟨le_trans (by linarith) hlow, hrange, hhigh⟩

omit [Field K] [IsStrictOrderedRing K] in
theorem least_keeps {P : K × StoredAxis K → Prop} {a b : K × StoredAxis K} (ha : P a) (hb : P b) :
    P (least a b) := by
  unfold least
  split
  · exact hb
  · exact ha

/-- A fitted axis is measured at one of the coefficients in range. -/
theorem fittedAxis_at (axes : Axes K) (axis : StoredAxis K) : ∃ weight, Coefficient weight ∧
    fittedAxis examples fit settings axes axis = axisAt examples fit settings axes axis weight := by
  have hlimit : (0 : K) ≤ 1 - 1e-12 ∧ (1 : K) - 1e-12 < 1 := by norm_num
  obtain ⟨hlow, hrange, hhigh⟩ := @narrow_range K _ _ _
    (fun weight => (axisAt examples fit settings axes axis weight).1) 40 _ _ hlimit.1
  let Measured := fun fitted : K × StoredAxis K =>
    ∃ weight, Coefficient weight ∧ fitted = axisAt examples fit settings axes axis weight
  apply least_keeps (P := Measured)
  · apply least_keeps (P := Measured)
    · exact ⟨0, ⟨le_rfl, one_pos⟩, rfl⟩
    · refine ⟨_, ⟨?_, ?_⟩, rfl⟩
      · push_cast
        linarith
      · push_cast
        linarith
  · exact ⟨_, hlimit, rfl⟩

/-- The axis it was but for a coefficient in range. -/
def Reweighted (axis fitted : StoredAxis K) : Prop :=
  ∃ weight, Coefficient weight ∧ fitted = { axis with weight }

theorem reweighted_fittedAxis (axes : Axes K) (axis : StoredAxis K) :
    Reweighted axis (fittedAxis examples fit settings axes axis).2 := by
  obtain ⟨weight, hweight, hfitted⟩ := @fittedAxis_at K _ _ _ examples fit settings axes axis
  exact ⟨weight, hweight, congrArg Prod.snd hfitted⟩

omit [IsStrictOrderedRing K] in
theorem Reweighted.sound {fitted : StoredAxis K} (h : Reweighted axis fitted)
    (haxis : axis.Sound) : fitted.Sound := by
  obtain ⟨weight, hweight, rfl⟩ := h
  exact ⟨haxis.name, haxis.label, haxis.rationale, hweight⟩

theorem refit_sound (axes : Axes K) (h : axis.Sound) :
    (refit examples fit settings corpusFingerprint axes axis).Sound := by
  have hfitted := (@reweighted_fittedAxis K _ _ _ examples fit settings axes axis).sound h
  simp only [refit]
  generalize nextZeroGenerations axis _ = generations
  constructor
  · exact hfitted.name
  · exact hfitted.label
  · dsimp only
    split
    · decide
    · exact h.rationale
  · dsimp only
    split
    · exact ⟨le_rfl, one_pos⟩
    · exact hfitted.weight

theorem newAxis_sound (left right : NamedFeature) :
    (newAxis (K := K) examples corpusFingerprint left right).Sound := by
  constructor
  · intro h
    have hlength := congrArg String.length h
    simp [newAxis] at hlength
  · intro h
    have hlength := congrArg String.length h
    simp [newAxis] at hlength
  · simp [newAxis]
  · exact ⟨le_rfl, one_pos⟩

theorem refitAll_sound {incumbent : Axes K} (h : incumbent.Sound) :
    (refitAll examples fit settings corpusFingerprint incumbent).Sound := by
  apply List.foldlRecOn (incumbent.insertionSort fun a b => a.1 ≤ b.1) _ h
  intro axes haxes axis haxis
  split
  · exact haxes
  · exact haxes.set (refit_sound axes (h axis ((List.mem_insertionSort _).mp haxis))) _

/-- Every axis that comes out of a nomination is one the loader takes. -/
theorem nominateAxes_sound {incumbent : Axes K} (h : incumbent.Sound) :
    (nominateAxes examples fit settings corpusFingerprint incumbent).Sound := by
  simp only [nominateAxes]
  generalize haxes : refitAll examples fit settings corpusFingerprint incumbent = axes
  have hsound : axes.Sound := haxes ▸ refitAll_sound h
  have hbest : ∀ axis ∈ ((combinations featureNames).foldl
      (better examples fit settings corpusFingerprint axes)
      (axisObjective examples fit settings axes, none)).2, axis.Sound := by
    apply List.foldlRecOn (combinations featureNames)
      (motive := fun best : K × Option (StoredAxis K) => ∀ axis ∈ best.2, axis.Sound)
    · simp
    · intro best hbest candidate _
      simp only [better]
      split
      · split
        · intro axis haxis
          cases Option.some.inj haxis
          exact (reweighted_fittedAxis axes _).sound (newAxis_sound _ _)
        · exact hbest
      · exact hbest
  split
  case h_1 axis haxis => exact hsound.set (hbest axis haxis) _
  case h_2 => exact hsound

end Axes

end Nocturne.Learner
