import Mathlib.Data.List.Dedup
import Mathlib.Data.List.Perm.Basic
import Mathlib.Data.Prod.Lex
import Nocturne.Learner.Model
import Nocturne.Lib.Listing

namespace Nocturne.Learner

open Nocturne.Lib

variable {K : Type} {examples examples' : List (LearningExample K)} {a b : LearningExample K}

section Gates

/-- The rows of one gate, in the order they came in. -/
def gateRows (examples : List (LearningExample K)) (injectionId : Uuid) :
    List (LearningExample K) :=
  examples.filter (·.injectionId = injectionId)

/-- A gate is as new as its newest row; gates as new as each other follow their ids. -/
def newest (examples : List (LearningExample K)) (injectionId : Uuid) : Nat ×ₗ Uuid :=
  toLex (gateTs (gateRows examples injectionId), injectionId)

def gateIdsOf (examples : List (LearningExample K)) : List Uuid :=
  (examples.map (·.injectionId)).dedup

/-- The gates, the oldest first. -/
def gateOrder (examples : List (LearningExample K)) : List Uuid :=
  listing (newest examples) (gateIdsOf examples)

theorem gateTs_le {t : Nat} : gateTs examples ≤ t ↔ ∀ row ∈ examples, row.ts ≤ t := by
  have hfold (l : List Nat) (start : Nat) :
      l.foldl max start ≤ t ↔ start ≤ t ∧ ∀ x ∈ l, x ≤ t := by
    induction l generalizing start with
    | nil => simp
    | cons x l ih => simp [ih, and_assoc]
  simp [gateTs, hfold]

theorem gateTs_perm (h : examples'.Perm examples) : gateTs examples' = gateTs examples := by
  apply le_antisymm
  · exact gateTs_le.2 fun row hrow => gateTs_le.1 le_rfl row (h.mem_iff.mp hrow)
  · exact gateTs_le.2 fun row hrow => gateTs_le.1 le_rfl row (h.mem_iff.mpr hrow)

theorem mem_gateRows {injectionId : Uuid} :
    a ∈ gateRows examples injectionId ↔ a ∈ examples ∧ a.injectionId = injectionId := by
  rw [gateRows, List.mem_filter, decide_eq_true_eq]

theorem newest_perm (h : examples'.Perm examples) : newest examples' = newest examples := by
  funext injectionId
  have hrows : gateTs (gateRows examples' injectionId) = gateTs (gateRows examples injectionId) :=
    gateTs_perm (h.filter _)
  rw [newest, newest, hrows]

theorem newest_injective : Function.Injective (newest examples) :=
  fun _ _ h => congrArg (fun stamp => (ofLex stamp).2) h

theorem mem_gateOrder {injectionId : Uuid} :
    injectionId ∈ gateOrder examples ↔ ∃ row ∈ examples, row.injectionId = injectionId := by
  rw [gateOrder, mem_listing, gateIdsOf, List.mem_dedup, List.mem_map]

theorem nodup_gateOrder : (gateOrder examples).Nodup :=
  (perm_listing _ _).nodup_iff.mpr (List.nodup_dedup _)

/-- The order of the gates is that of their stamps, and strictly so. -/
theorem pairwise_gateOrder :
    (gateOrder examples).Pairwise fun a b => newest examples a < newest examples b :=
  ((pairwise_listing _ _).and nodup_gateOrder).imp fun h =>
    lt_of_le_of_ne h.1 fun heq => h.2 (newest_injective heq)

theorem gateOrder_perm (h : examples'.Perm examples) :
    gateOrder examples' = gateOrder examples := by
  rw [gateOrder, gateOrder, newest_perm h]
  exact listing_eq_of_perm (h.map _).dedup fun a _ b _ heq => newest_injective heq

theorem perm_gateOrder_flatMap : ((gateOrder examples).flatMap (gateRows examples)).Perm examples :=
  perm_groups nodup_gateOrder fun row hrow => mem_gateOrder.2 ⟨row, hrow, rfl⟩

theorem flatMap_gateRows_ne_nil {gates : List Uuid} (hne : gates ≠ [])
    (hgates : gates ⊆ gateOrder examples) : gates.flatMap (gateRows examples) ≠ [] := by
  obtain ⟨injectionId, rest, rfl⟩ := List.exists_cons_of_ne_nil hne
  obtain ⟨row, hrow, hid⟩ := mem_gateOrder.1 (hgates List.mem_cons_self)
  exact List.ne_nil_of_mem (List.mem_flatMap.mpr
    ⟨injectionId, List.mem_cons_self, mem_gateRows.2 ⟨hrow, hid⟩⟩)

end Gates

section Split

variable [Field K] [LinearOrder K] [FloorRing K] {holdoutFraction : K}

/-- How many of the oldest gates are trained on. -/
def trainingCount (gates : Nat) (holdoutFraction : K) : Nat :=
  gates - min (max 1 ⌈(gates : K) * holdoutFraction⌉₊) (gates - 1)

def trainingOf (examples : List (LearningExample K)) (holdoutFraction : K) :
    List (LearningExample K) :=
  ((gateOrder examples).take (trainingCount (gateOrder examples).length holdoutFraction)).flatMap
    (gateRows examples)

def holdoutOf (examples : List (LearningExample K)) (holdoutFraction : K) :
    List (LearningExample K) :=
  ((gateOrder examples).drop (trainingCount (gateOrder examples).length holdoutFraction)).flatMap
    (gateRows examples)

omit [Field K] [LinearOrder K] [FloorRing K] in
/-- The grouped rows in their order are the rows of the gates in theirs. -/
theorem sorted_gates : ((gateIdsOf examples).map fun injectionId =>
      (injectionId, examples.filter (·.injectionId = injectionId))).insertionSort
        (fun a b => gateTs a.2 < gateTs b.2 ∨ gateTs a.2 = gateTs b.2 ∧ a.1 ≤ b.1) =
    (gateOrder examples).map fun injectionId => (injectionId, gateRows examples injectionId) := by
  rw [gateOrder, listing]
  symm
  apply List.map_insertionSort
  intro a _ b _
  exact Prod.Lex.toLex_le_toLex

theorem trainingCount_bounds {gates : Nat} (h : 2 ≤ gates) :
    0 < trainingCount gates holdoutFraction ∧ trainingCount gates holdoutFraction < gates := by
  unfold trainingCount
  omega

theorem splitGates_of_gates (h : 2 ≤ (gateOrder examples).length) :
    splitGates examples holdoutFraction = .ok (trainingOf examples holdoutFraction,
      holdoutOf examples holdoutFraction, gateTs (trainingOf examples holdoutFraction)) := by
  unfold splitGates
  rw [← gateIdsOf, sorted_gates]
  simp only [List.length_map, ← List.map_take, ← List.map_drop, List.map_map]
  rw [ensure, if_pos h]
  rfl

theorem mem_trainingOf (h : a ∈ trainingOf examples holdoutFraction) :
    a ∈ examples ∧ a.injectionId ∈
      (gateOrder examples).take (trainingCount (gateOrder examples).length holdoutFraction) := by
  obtain ⟨injectionId, hgate, hrow⟩ := List.mem_flatMap.mp h
  obtain ⟨hmem, rfl⟩ := mem_gateRows.1 hrow
  exact ⟨hmem, hgate⟩

theorem mem_holdoutOf (h : a ∈ holdoutOf examples holdoutFraction) :
    a ∈ examples ∧ a.injectionId ∈
      (gateOrder examples).drop (trainingCount (gateOrder examples).length holdoutFraction) := by
  obtain ⟨injectionId, hgate, hrow⟩ := List.mem_flatMap.mp h
  obtain ⟨hmem, rfl⟩ := mem_gateRows.1 hrow
  exact ⟨hmem, hgate⟩

/-- Every gate held out is newer than every gate trained on. -/
theorem newest_lt (ha : a ∈ trainingOf examples holdoutFraction)
    (hb : b ∈ holdoutOf examples holdoutFraction) :
    newest examples a.injectionId < newest examples b.injectionId := by
  have hsorted := @pairwise_gateOrder K examples
  rw [← List.take_append_drop (trainingCount (gateOrder examples).length holdoutFraction)
    (gateOrder examples), List.pairwise_append] at hsorted
  exact hsorted.2.2 _ (mem_trainingOf ha).2 _ (mem_holdoutOf hb).2

/-- A split that leaks nothing from the gates held out. -/
structure CleanSplit (examples training holdout : List (LearningExample K)) (cutoff : Nat) :
    Prop where
  training_ne : training ≠ []
  holdout_ne : holdout ≠ []
  perm : (training ++ holdout).Perm examples
  apart : ∀ a ∈ training, ∀ b ∈ holdout, a.injectionId ≠ b.injectionId
  after : ∀ a ∈ training, ∀ b ∈ holdout,
    newest examples a.injectionId < newest examples b.injectionId
  cutoff : ∀ b ∈ holdout, cutoff ≤ gateTs (gateRows examples b.injectionId)

theorem cleanSplit (h : 2 ≤ (gateOrder examples).length) :
    CleanSplit examples (trainingOf examples holdoutFraction) (holdoutOf examples holdoutFraction)
      (gateTs (trainingOf examples holdoutFraction)) := by
  obtain ⟨hpos, hlt⟩ := @trainingCount_bounds K _ _ _ holdoutFraction _ h
  constructor
  · apply flatMap_gateRows_ne_nil
    · rw [← List.length_pos_iff, List.length_take]
      omega
    · exact List.take_subset _ _
  · apply flatMap_gateRows_ne_nil
    · rw [← List.length_pos_iff, List.length_drop]
      omega
    · exact List.drop_subset _ _
  · rw [trainingOf, holdoutOf, ← List.flatMap_append, List.take_append_drop]
    exact perm_gateOrder_flatMap
  · intro a ha b hb hsame
    have hlt := newest_lt ha hb
    rw [hsame] at hlt
    exact lt_irrefl _ hlt
  · intro a ha b hb
    exact newest_lt ha hb
  · intro b hb
    refine gateTs_le.2 fun a ha => ?_
    calc a.ts ≤ gateTs (gateRows examples a.injectionId) :=
          gateTs_le.1 le_rfl a (mem_gateRows.2 ⟨(mem_trainingOf ha).1, rfl⟩)
      _ ≤ gateTs (gateRows examples b.injectionId) := by
          rcases Prod.Lex.toLex_lt_toLex.mp (newest_lt ha hb) with hlt | ⟨heq, _⟩
          · exact hlt.le
          · exact heq.le

/-- At two gates or more the split is clean, whatever share is held out, and the same rows
are held out whatever order they came in. -/
theorem split_gates_clean (holdoutFraction : K)
    (h : 2 ≤ (examples.map (·.injectionId)).dedup.length) :
    ∃ training holdout cutoff,
      splitGates examples holdoutFraction = .ok (training, holdout, cutoff) ∧
      CleanSplit examples training holdout cutoff ∧
      ∀ examples', examples'.Perm examples → ∃ training' holdout',
        splitGates examples' holdoutFraction = .ok (training', holdout', cutoff) ∧
        training'.Perm training ∧ holdout'.Perm holdout := by
  have hgates : 2 ≤ (gateOrder examples).length := by
    rwa [gateOrder, (perm_listing _ _).length_eq]
  refine ⟨_, _, _, splitGates_of_gates hgates, cleanSplit hgates, fun examples' hperm => ?_⟩
  have horder := gateOrder_perm hperm
  have htraining : (trainingOf examples' holdoutFraction).Perm
      (trainingOf examples holdoutFraction) := by
    rw [trainingOf, trainingOf, horder]
    exact perm_flatMap_groups _ hperm
  have hholdout : (holdoutOf examples' holdoutFraction).Perm
      (holdoutOf examples holdoutFraction) := by
    rw [holdoutOf, holdoutOf, horder]
    exact perm_flatMap_groups _ hperm
  refine ⟨_, _, ?_, htraining, hholdout⟩
  rw [splitGates_of_gates (horder ▸ hgates), gateTs_perm htraining]

end Split

/-- A row of one gate with nothing scored. -/
def bareExample (injectionId : Uuid) (eventUid : Ulid) (targetInjected : Bool) :
    LearningExample ℚ where
  eventUid
  injectionId
  memoryId := eventUid
  ts := eventUid
  features := .zero
  baselineBias := 0
  targetInjected
  actorWeight := 1
  shownAs := .injected
  bodyTokens := 1
  locationFeature := none
  locationWeight := 0
  threadFeature := none
  threadId := none
  whereFeature := none
  whereWeight := 0
  projectKey := none

theorem split_gates_clean_two : ∃ training holdout cutoff,
    splitGates [bareExample 1 1 true, bareExample 2 2 false] (1 / 5 : ℚ) =
      .ok (training, holdout, cutoff) ∧
    CleanSplit [bareExample 1 1 true, bareExample 2 2 false] training holdout cutoff ∧
    ∀ examples', examples'.Perm [bareExample 1 1 true, bareExample 2 2 false] →
      ∃ training' holdout', splitGates examples' (1 / 5 : ℚ) = .ok (training', holdout', cutoff) ∧
        training'.Perm training ∧ holdout'.Perm holdout :=
  split_gates_clean (1 / 5) (by decide)

end Nocturne.Learner
