import Mathlib.Analysis.Convex.StdSimplex
import Mathlib.Tactic.LinearCombination
import Mathlib.Tactic.Positivity

universe u v

namespace Nocturne.Lib.Simplex

open Finset

variable {K : Type u} [Field K] {ι : Type v}

def sqDist [Fintype ι] (x y : ι → K) : K := ∑ i, (x i - y i) ^ 2

theorem sqDist_split [Fintype ι] (x p q : ι → K) :
    sqDist x q = sqDist x p + sqDist p q + 2 * ∑ i, (x i - p i) * (p i - q i) := by
  rw [sqDist, sqDist, sqDist, mul_sum, ← sum_add_distrib, ← sum_add_distrib]
  refine sum_congr rfl fun i _ => ?_
  ring

section Above

variable [LinearOrder K]

/-- What of a vector rises above a threshold. -/
def above (θ : K) (x : ι → K) (i : ι) : K := max (x i - θ) 0

variable [Fintype ι] {θ θ' : K} {x p q : ι → K}

theorem above_mem (h : ∑ i, above θ x i = 1) : above θ x ∈ stdSimplex K ι :=
  ⟨fun _ => le_max_right _ _, h⟩

/-- A point of the simplex rises above zero with all it has. -/
theorem above_zero (hp : p ∈ stdSimplex K ι) : above 0 p = p := by
  funext i
  rw [above, sub_zero, max_eq_left (hp.1 i)]

theorem sum_above_comp (σ : Equiv.Perm ι) : ∑ i, above θ (x ∘ σ) i = ∑ i, above θ x i :=
  Equiv.sum_comp σ (above θ x)

variable [IsStrictOrderedRing K]

theorem sqDist_nonneg (x y : ι → K) : 0 ≤ sqDist x y := sum_nonneg fun _ _ => sq_nonneg _

theorem sqDist_eq_zero_iff : sqDist x p = 0 ↔ x = p := by
  rw [sqDist, sum_eq_zero_iff_of_nonneg fun _ _ => sq_nonneg _, funext_iff]
  simp [sub_eq_zero]

variable (h : ∑ i, above θ x i = 1)
include h

/-- From a vector to what rises above its threshold is at an obtuse angle to the simplex. -/
theorem above_obtuse (hq : q ∈ stdSimplex K ι) :
    0 ≤ ∑ i, (x i - above θ x i) * (above θ x i - q i) := by
  have hterm (i : ι) : θ * (above θ x i - q i) ≤ (x i - above θ x i) * (above θ x i - q i) := by
    rcases le_total (x i - θ) 0 with hle | hle
    · rw [above, max_eq_right hle]
      have hcoord := mul_nonneg (sub_nonneg.mpr (sub_nonpos.mp hle)) (hq.1 i)
      linear_combination hcoord
    · rw [above, max_eq_left hle, sub_sub_cancel]
  calc (0 : K) = θ * (1 - 1) := by ring
    _ = ∑ i, θ * (above θ x i - q i) := by rw [← mul_sum, sum_sub_distrib, h, hq.2]
    _ ≤ ∑ i, (x i - above θ x i) * (above θ x i - q i) := sum_le_sum fun i _ => hterm i

theorem sqDist_above_le (hq : q ∈ stdSimplex K ι) :
    sqDist x (above θ x) + sqDist (above θ x) q ≤ sqDist x q := by
  rw [sqDist_split x (above θ x) q]
  linear_combination 2 * above_obtuse h hq

/-- What rises above the threshold is nearer than any other point of the simplex. -/
theorem sqDist_above_lt (hq : q ∈ stdSimplex K ι) (hne : q ≠ above θ x) :
    sqDist x (above θ x) < sqDist x q := by
  have hapart : 0 < sqDist (above θ x) q :=
    lt_of_le_of_ne (sqDist_nonneg _ _) fun heq => hne (sqDist_eq_zero_iff.1 heq.symm).symm
  linear_combination hapart + sqDist_above_le h hq

/-- Two thresholds that leave a total of one leave the same. -/
theorem above_unique (h' : ∑ i, above θ' x i = 1) : above θ x = above θ' x := by
  by_contra hne
  exact (sqDist_above_lt h (above_mem h') (Ne.symm hne)).asymm
    (sqDist_above_lt h' (above_mem h) hne)

omit h in
/-- A projected step against a gradient goes down it at least as steeply as it is long. -/
theorem above_step {w g : ι → K} {s : K} (hw : w ∈ stdSimplex K ι)
    (hstep : ∑ i, above θ (fun i => w i - s * g i) i = 1) :
    s * ∑ i, g i * (above θ (fun i => w i - s * g i) i - w i) ≤
      -∑ i, (above θ (fun i => w i - s * g i) i - w i) ^ 2 := by
  have hobtuse := above_obtuse hstep hw
  have hsplit : ∑ i, (w i - s * g i - above θ (fun i => w i - s * g i) i) *
        (above θ (fun i => w i - s * g i) i - w i) =
      -(s * ∑ i, g i * (above θ (fun i => w i - s * g i) i - w i)) -
        ∑ i, (above θ (fun i => w i - s * g i) i - w i) ^ 2 := by
    rw [mul_sum, ← sum_neg_distrib, ← sum_sub_distrib]
    refine sum_congr rfl fun i _ => ?_
    ring
  rw [hsplit] at hobtuse
  linear_combination hobtuse

end Above

end Nocturne.Lib.Simplex
