import Mathlib.Algebra.BigOperators.Ring.List
import Mathlib.Algebra.Order.BigOperators.Group.List
import Mathlib.Tactic.Positivity
import Mathlib.Tactic.Ring
import Nocturne.Inject.Scorer

universe u

namespace Nocturne.Inject

variable {K : Type u} [Field K]

@[simp] theorem addToLast_singleton (x y : K) : addToLast x [y] = [y + x] := rfl

@[simp] theorem addToLast_cons_cons (x y z : K) (l : List K) :
    addToLast x (y :: z :: l) = y :: addToLast x (z :: l) := rfl

theorem length_addToLast (x : K) (l : List K) : (addToLast x l).length = l.length := by
  induction l with
  | nil => rfl
  | cons y l ih =>
    cases l with
    | nil => rfl
    | cons z l => simpa using ih

theorem sum_addToLast (x : K) {l : List K} (h : l ≠ []) : (addToLast x l).sum = l.sum + x := by
  induction l with
  | nil => exact absurd rfl h
  | cons y l ih =>
    cases l with
    | nil => simp
    | cons z l =>
      rw [addToLast_cons_cons, List.sum_cons, ih (List.cons_ne_nil z l), ← add_assoc,
        ← List.sum_cons]

/-- Divided by its own total, a list sums to one. -/
theorem sum_div_sum {l : List K} (h : l.sum ≠ 0) : (l.map (· / l.sum)).sum = 1 := by
  simp only [div_eq_mul_inv, List.sum_map_mul_right, List.map_id']
  exact mul_inv_cancel₀ h

namespace ScorerWeights

theorem values_ofValues {l : List K} (h : l.length = 6) : (ofValues l).values = l := by
  match l, h with
  | [a, b, c, d, e, f], _ => rfl

theorem sum_add (v w : ScorerWeights K) : (v.add w).sum = v.sum + w.sum := by
  simp only [sum, values, add, List.sum_cons, List.sum_nil]
  ring

end ScorerWeights

section Projection

variable [LinearOrder K]

theorem length_projectSimplex (values : List K) :
    (projectSimplex values).length = values.length := by
  simp only [projectSimplex]
  split
  · simp
  · simp [length_addToLast]

variable [IsStrictOrderedRing K]

theorem addToLast_nonneg {x : K} {l : List K} (hx : 0 ≤ x) (hl : ∀ y ∈ l, 0 ≤ y) :
    ∀ y ∈ addToLast x l, 0 ≤ y := by
  induction l with
  | nil => exact hl
  | cons z l ih =>
    cases l with
    | nil =>
      intro y hy
      rw [addToLast_singleton, List.mem_singleton] at hy
      rw [hy]
      exact add_nonneg (hl z (by simp)) hx
    | cons z' l =>
      intro y hy
      rw [addToLast_cons_cons, List.mem_cons] at hy
      rcases hy with rfl | hy
      · exact hl y (by simp)
      · exact ih (fun w hw => hl w (List.mem_cons_of_mem _ hw)) y hy

theorem sum_projectSimplex {values : List K} (h : values ≠ []) :
    (projectSimplex values).sum = 1 := by
  simp only [projectSimplex]
  split
  · have hlength : (values.length : K) ≠ 0 := by simpa using h
    simp [hlength]
  · rw [sum_addToLast _ (by simpa using h), add_sub_cancel]

/-- Divided by its total, a list is short of one only where that total is zero. -/
theorem normalized_nonneg {projected : List K} (h : ∀ x ∈ projected, 0 ≤ x) :
    ∀ x ∈ addToLast (1 - (projected.map (· / projected.sum)).sum)
      (projected.map (· / projected.sum)), 0 ≤ x := by
  apply addToLast_nonneg
  · by_cases htotal : projected.sum = 0
    · simp [htotal]
    · rw [sum_div_sum htotal, sub_self]
  · intro x hx
    obtain ⟨y, hy, rfl⟩ := List.mem_map.mp hx
    exact div_nonneg (h y hy) (List.sum_nonneg h)

theorem projectSimplex_nonneg (values : List K) : ∀ x ∈ projectSimplex values, 0 ≤ x := by
  simp only [projectSimplex]
  split
  · intro x hx
    obtain ⟨_, _, rfl⟩ := List.mem_map.mp hx
    positivity
  · apply normalized_nonneg
    intro x hx
    obtain ⟨_, _, rfl⟩ := List.mem_map.mp hx
    exact le_max_right _ _

/-- Non-negative weights that sum to one. -/
structure ScorerWeights.OnSimplex (w : ScorerWeights K) : Prop where
  sum : w.sum = 1
  nonneg : ∀ x ∈ w.values, 0 ≤ x

theorem ScorerWeights.onSimplex_project (w : ScorerWeights K) :
    (ofValues (projectSimplex w.values)).OnSimplex := by
  have hvalues : (ofValues (projectSimplex w.values)).values = projectSimplex w.values :=
    values_ofValues (length_projectSimplex _)
  constructor
  · rw [ScorerWeights.sum, hvalues]
    exact sum_projectSimplex (by simp [values])
  · rw [hvalues]
    exact projectSimplex_nonneg _

end Projection

end Nocturne.Inject
