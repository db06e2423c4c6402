import Mathlib.Algebra.BigOperators.Ring.List
import Mathlib.Algebra.Order.BigOperators.Group.List
import Mathlib.Algebra.Order.Field.Basic
import Mathlib.Tactic.LinearCombination
import Mathlib.Tactic.Positivity
import Mathlib.Tactic.Ring

universe u v

namespace Nocturne.Lib.Hinge

variable {K : Type u} [Field K] [LinearOrder K] {τ : Type v}

/-- The weighted squares of what is still short of each term's margin. -/
def loss (a h : τ → K) (terms : List τ) : K := (terms.map fun t => a t * max 0 (h t) ^ 2).sum

/-- The terms that fall short are all the loss sees. -/
theorem sum_filter_eq_loss (a h : τ → K) (terms : List τ) :
    ((terms.filter fun t => 0 < h t).map fun t => a t * h t * h t).sum = loss a h terms := by
  induction terms with
  | nil => rfl
  | cons t terms ih =>
    rw [loss, List.map_cons, List.sum_cons, ← loss, ← ih, List.filter_cons]
    by_cases ht : 0 < h t
    · rw [if_pos (decide_eq_true ht), List.map_cons, List.sum_cons, max_eq_right ht.le, sq,
        mul_assoc]
    · rw [if_neg (by simpa using ht), max_eq_left (not_lt.mp ht)]
      simp

/-- How fast the loss falls as each term gains `e`. -/
def slope (a h e : τ → K) (terms : List τ) : K :=
  (terms.map fun t => a t * (2 • max 0 (h t)) * e t).sum

theorem slope_eq (a h e : τ → K) (terms : List τ) :
    slope a h e terms = (terms.map fun t => 2 * a t * max 0 (h t) * e t).sum :=
  congrArg List.sum (List.map_congr_left fun t _ => by ring)

theorem slope_add (a h e e' : τ → K) (terms : List τ) :
    slope a h (fun t => e t + e' t) terms = slope a h e terms + slope a h e' terms := by
  rw [slope, slope, slope, ← List.sum_map_add]
  exact congrArg List.sum (List.map_congr_left fun t _ => mul_add _ _ _)

theorem sum_filter_eq_neg_slope (a h e : τ → K) (terms : List τ) :
    ((terms.filter fun t => 0 < h t).map fun t => -2 * a t * h t * e t).sum =
      -slope a h e terms := by
  induction terms with
  | nil => simp [slope]
  | cons t terms ih =>
    rw [slope, List.map_cons, List.sum_cons, ← slope, neg_add, ← ih, List.filter_cons]
    by_cases ht : 0 < h t
    · rw [if_pos (decide_eq_true ht), List.map_cons, List.sum_cons, max_eq_right ht.le]
      ring
    · rw [if_neg (by simpa using ht), max_eq_left (not_lt.mp ht)]
      ring

variable [IsStrictOrderedRing K]

/-- A hinge moved by `e` is squared to at most its square, its slope and the square of `e`. -/
theorem sq_max_sub_le (h e : K) : max 0 (h - e) ^ 2 ≤ max 0 h ^ 2 - 2 * (max 0 h * e) + e ^ 2 := by
  rcases le_total 0 h with hh | hh
  · rw [max_eq_right hh]
    calc max 0 (h - e) ^ 2 ≤ (h - e) ^ 2 := by
          rcases le_total 0 (h - e) with hle | hle
          · rw [max_eq_right hle]
          · rw [max_eq_left hle, sq, zero_mul]
            exact sq_nonneg _
      _ = h ^ 2 - 2 * (h * e) + e ^ 2 := by ring
  · rw [max_eq_left hh]
    have hshort : max 0 (h - e) ^ 2 ≤ e ^ 2 := by
      rcases le_total 0 (h - e) with hle | hle
      · rw [max_eq_right hle, ← neg_sq e]
        exact pow_le_pow_left₀ hle (by linear_combination hh) 2
      · rw [max_eq_left hle, sq, zero_mul]
        exact sq_nonneg _
    linear_combination hshort

theorem loss_sub_le {a h e : τ → K} {terms : List τ} (ha : ∀ t ∈ terms, 0 ≤ a t) :
    loss a (fun t => h t - e t) terms ≤ loss a h terms - slope a h e terms +
      (terms.map fun t => a t * e t ^ 2).sum := by
  induction terms with
  | nil => simp [loss, slope]
  | cons t terms ih =>
    have hrest := ih fun u hu => ha u (List.mem_cons_of_mem t hu)
    have hterm := mul_le_mul_of_nonneg_left (sq_max_sub_le (h t) (e t)) (ha t List.mem_cons_self)
    simp only [loss, slope, List.map_cons, List.sum_cons] at hrest ⊢
    linear_combination hrest + hterm

/-- A step goes down a regularised loss where the slope along it outweighs its curvature: `D` is
the square of its length, `2 * R` the curvature of the regulariser, `2 * a * N` that of a term. -/
theorem descends {a h e N : τ → K} {terms : List τ} {D M R before after along : K}
    (ha : ∀ t ∈ terms, 0 ≤ a t) (hD : 0 ≤ D)
    (hregular : after ≤ before + along + R * D)
    (hcurved : ∀ t ∈ terms, e t ^ 2 ≤ N t * D)
    (hslope : along - slope a h e terms ≤ -(M * D))
    (hM : 2 * R + (terms.map fun t => 2 * a t * N t).sum ≤ M) (hpos : 0 ≤ M) :
    after + loss a (fun t => h t - e t) terms ≤ before + loss a h terms := by
  have hcurvature : 2 * (terms.map fun t => a t * e t ^ 2).sum ≤
      (terms.map fun t => 2 * a t * N t).sum * D := by
    rw [← List.sum_map_mul_left, ← List.sum_map_mul_right]
    refine List.sum_le_sum fun t ht => ?_
    linear_combination 2 * mul_le_mul_of_nonneg_left (hcurved t ht) (ha t ht)
  have hbound := mul_le_mul_of_nonneg_right hM hD
  have hdown := mul_nonneg hpos hD
  have hloss := @loss_sub_le K _ _ τ _ a h e terms ha
  linear_combination hregular + hloss + hslope + (1 / 2) * hcurvature + (1 / 2) * hbound +
    (1 / 2) * hdown

end Nocturne.Lib.Hinge
