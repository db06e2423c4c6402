import Mathlib.Algebra.BigOperators.Fin
import Mathlib.Data.List.OfFn
import Mathlib.Tactic.FieldSimp
import Mathlib.Tactic.Linarith
import Nocturne.Inject.Simplex
import Nocturne.Lib.Simplex

universe u

namespace Nocturne.Inject

open Nocturne.Lib.Simplex

variable {K : Type u} [Field K]

theorem addToLast_zero (l : List K) : addToLast 0 l = l := by
  induction l with
  | nil => rfl
  | cons x l ih =>
    cases l with
    | nil => rw [addToLast_singleton, add_zero]
    | cons y l => rw [addToLast_cons_cons, ih]

section Support

variable [LinearOrder K]

/-- How far a value exceeds the threshold of the values up to it: those before it sum to
`total` and it is the `index`-th. -/
def excess (total : K) (index : Nat) (value : K) : K := value - (total + value - 1) / (index : K)

/-- The support is what it was, or it ends at a value that exceeds its threshold and after
which none does. -/
theorem simplexSupport_spec (cumulative : K) (index rho : Nat) (l : List K) :
    (simplexSupport cumulative index rho l = rho ∧ ∀ before value after,
        l = before ++ value :: after →
          excess (cumulative + before.sum) (index + before.length) value ≤ 0) ∨
      ∃ before value after, l = before ++ value :: after ∧
        simplexSupport cumulative index rho l = index + before.length ∧
        0 < excess (cumulative + before.sum) (index + before.length) value ∧
        ∀ next ∈ after.head?,
          excess (cumulative + before.sum + value) (index + before.length + 1) next ≤ 0 := by
  induction l generalizing cumulative index rho with
  | nil => simp [simplexSupport]
  | cons x l ih =>
    have hhead : excess cumulative index x = x - (cumulative + x - 1) / (index : K) := rfl
    simp only [simplexSupport, ← hhead]
    rcases ih (cumulative + x) (index + 1)
      (if 0 < excess cumulative index x then index else rho) with
      ⟨hsame, hnone⟩ | ⟨before, value, after, rfl, hsupport, hlast, hnext⟩
    · rw [hsame]
      split
      · next hpos =>
        refine .inr ⟨[], x, l, rfl, rfl, by simpa using hpos, ?_⟩
        intro next hnext
        obtain ⟨after, rfl⟩ := List.head?_eq_some_iff.mp hnext
        simpa using hnone [] next after rfl
      · next hneg =>
        refine .inl ⟨rfl, fun before value after hsplit => ?_⟩
        cases before with
        | nil =>
          obtain ⟨rfl, rfl⟩ := List.cons.inj hsplit
          simpa using hneg
        | cons y before =>
          obtain ⟨rfl, hrest⟩ := List.cons.inj hsplit
          have hterm := hnone before value after hrest
          rwa [add_assoc, ← List.sum_cons, Nat.add_assoc, Nat.add_comm 1,
            ← List.length_cons] at hterm
    · refine .inr ⟨x :: before, value, after, rfl, ?_, ?_, ?_⟩
      · rw [hsupport, List.length_cons]
        omega
      · rwa [add_assoc, ← List.sum_cons, Nat.add_assoc, Nat.add_comm 1,
          ← List.length_cons] at hlast
      · intro next hmem
        have hterm := hnext next hmem
        rwa [add_assoc cumulative, ← List.sum_cons, Nat.add_assoc index, Nat.add_comm 1,
          ← List.length_cons] at hterm

end Support

section Threshold

variable [LinearOrder K] [IsStrictOrderedRing K]

/-- In falling order there is a support, and its threshold parts it from the other values. -/
theorem exists_support {ordered : List K} (hne : ordered ≠ [])
    (hsorted : ordered.Pairwise (· ≥ ·)) :
    ∃ (kept cut : List K) (θ : K), ordered = kept ++ cut ∧
      simplexSupport 0 1 0 ordered = kept.length ∧ kept.length ≠ 0 ∧
      kept.sum = 1 + kept.length * θ ∧ (∀ x ∈ kept, θ ≤ x) ∧ ∀ x ∈ cut, x ≤ θ := by
  rcases simplexSupport_spec 0 1 0 ordered with
    ⟨_, hnone⟩ | ⟨before, value, after, rfl, hsupport, hlast, hnext⟩
  · -- The first value always exceeds its threshold, by one.
    obtain ⟨x, rest, rfl⟩ := List.exists_cons_of_ne_nil hne
    have hfirst := hnone [] x rest rfl
    simp only [List.sum_nil, List.length_nil, excess, add_zero, zero_add, Nat.cast_one, div_one,
      sub_sub_cancel] at hfirst
    exact absurd hfirst one_pos.not_ge
  · have hcount : (0 : K) < ((1 + before.length : ℕ) : K) := by positivity
    obtain ⟨_, htail, hcross⟩ := List.pairwise_append.mp hsorted
    obtain ⟨hafter, _⟩ := List.pairwise_cons.mp htail
    let θ : K := (before.sum + value - 1) / ((1 + before.length : ℕ) : K)
    have hθ : before.sum + value - 1 = ((1 + before.length : ℕ) : K) * θ :=
      (mul_div_cancel₀ _ hcount.ne').symm
    have hvalue : θ < value := by
      simpa [excess, θ] using hlast
    refine ⟨before ++ [value], after, θ, by simp, ?_, by simp, ?_, ?_, ?_⟩
    · rw [hsupport, List.length_append, List.length_singleton, Nat.add_comm]
    · rw [List.sum_append, List.sum_singleton, List.length_append, List.length_singleton,
        Nat.add_comm before.length]
      linear_combination hθ
    · intro x hx
      rcases List.mem_append.mp hx with hx | hx
      · exact hvalue.le.trans (hcross x hx value List.mem_cons_self)
      · rw [List.mem_singleton.mp hx]
        exact hvalue.le
    · intro x hx
      obtain ⟨next, rest, rfl⟩ := List.exists_cons_of_ne_nil (List.ne_nil_of_mem hx)
      have hbound : next ≤ θ := by
        have hexcess := hnext next rfl
        rw [excess, sub_nonpos, le_div_iff₀ (by positivity)] at hexcess
        push_cast at hexcess hθ hcount
        refine le_of_mul_le_mul_left ?_ hcount
        linear_combination hexcess + hθ
      rcases List.mem_cons.mp hx with rfl | hx
      · exact hbound
      · exact ((List.pairwise_cons.mp (List.pairwise_cons.mp htail).2).1 x hx).trans hbound

omit [LinearOrder K] [IsStrictOrderedRing K] in
theorem sum_map_sub (θ : K) (l : List K) :
    (l.map fun x => x - θ).sum = l.sum - l.length * θ := by
  induction l with
  | nil => simp
  | cons x l ih =>
    rw [List.map_cons, List.sum_cons, ih, List.sum_cons, List.length_cons, Nat.cast_succ]
    ring

/-- The projection cuts the values at a threshold, and what is above it sums to one. -/
theorem exists_threshold {values : List K} (hne : values ≠ []) :
    ∃ θ, projectSimplex values = values.map (fun x => max (x - θ) 0) ∧
      (values.map fun x => max (x - θ) 0).sum = 1 ∧
      simplexSupport 0 1 0 (values.insertionSort (· ≥ ·)) ≠ 0 := by
  have hperm := List.perm_insertionSort (· ≥ ·) values
  have hordered : values.insertionSort (· ≥ ·) ≠ [] := by
    rwa [ne_eq, ← List.length_eq_zero_iff, hperm.length_eq, List.length_eq_zero_iff]
  obtain ⟨kept, cut, θ, hsplit, hsupport, hpos, htotal, hkept, hcut⟩ :=
    exists_support hordered (List.pairwise_insertionSort (· ≥ ·) values)
  have htheta : (((values.insertionSort (· ≥ ·)).take kept.length).sum - 1) / (kept.length : K) =
      θ := by
    have hcount : (kept.length : K) ≠ 0 := Nat.cast_ne_zero.mpr hpos
    rw [hsplit, List.take_left, htotal, add_sub_cancel_left, mul_div_cancel_left₀ _ hcount]
  have habove : kept.map (fun x => max (x - θ) 0) = kept.map fun x => x - θ :=
    List.map_congr_left fun x hx => max_eq_left (sub_nonneg.mpr (hkept x hx))
  have hbelow : cut.map (fun x => max (x - θ) 0) = cut.map fun _ => 0 :=
    List.map_congr_left fun x hx => max_eq_right (sub_nonpos.mpr (hcut x hx))
  have hone : (values.map fun x => max (x - θ) 0).sum = 1 := by
    rw [← (hperm.map _).sum_eq, hsplit, List.map_append, List.sum_append, habove, hbelow,
      sum_map_sub, htotal, add_sub_cancel_right, List.map_const', List.sum_replicate, smul_zero,
      add_zero]
  refine ⟨θ, ?_, hone, hsupport ▸ hpos⟩
  simp only [projectSimplex, hsupport]
  rw [if_neg hpos, htheta, hone]
  simp only [div_one, List.map_id', hone, sub_self, addToLast_zero]

end Threshold

section Vectors

variable [LinearOrder K] [IsStrictOrderedRing K] {n : Nat} {p : Fin (n + 1) → K}

/-- What a projection returns, as a vector: what rises above some threshold. -/
structure IsProjection (x p : Fin (n + 1) → K) : Prop where
  returned : projectSimplex (List.ofFn x) = List.ofFn p
  threshold : ∃ θ, p = above θ x ∧ ∑ i, above θ x i = 1

theorem exists_isProjection (x : Fin (n + 1) → K) : ∃ p, IsProjection x p := by
  obtain ⟨θ, hprojected, hone, _⟩ :=
    @exists_threshold K _ _ _ (List.ofFn x) (by simp [List.ofFn_succ])
  rw [List.map_ofFn] at hprojected hone
  rw [List.sum_ofFn] at hone
  exact ⟨above θ x, hprojected, θ, rfl, hone⟩

/-- Whatever rises above a threshold to a total of one is what is returned. -/
theorem projectSimplex_of_above {x : Fin (n + 1) → K} {θ : K} (h : ∑ i, above θ x i = 1) :
    projectSimplex (List.ofFn x) = List.ofFn (above θ x) := by
  obtain ⟨p, hreturned, θ', rfl, hone⟩ := exists_isProjection x
  rw [hreturned, above_unique hone h]

theorem projectSimplex_self (hp : p ∈ stdSimplex K (Fin (n + 1))) :
    projectSimplex (List.ofFn p) = List.ofFn p := by
  have hzero := above_zero hp
  have hone : ∑ i, above 0 p i = 1 := by rw [hzero, hp.2]
  rw [projectSimplex_of_above hone, hzero]

/-- For a vector over any ordered field: a point of the simplex, nearer than all others, where
projecting again changes nothing and permuted coordinates are permuted alike. -/
theorem project_simplex_euclidean (x : Fin (n + 1) → K) :
    ∃ p, projectSimplex (List.ofFn x) = List.ofFn p ∧ p ∈ stdSimplex K (Fin (n + 1)) ∧
      (∀ q ∈ stdSimplex K (Fin (n + 1)), q ≠ p →
        ∑ i, (x i - p i) ^ 2 < ∑ i, (x i - q i) ^ 2) ∧
      projectSimplex (List.ofFn p) = List.ofFn p ∧
      (∀ σ : Equiv.Perm (Fin (n + 1)),
        projectSimplex (List.ofFn (x ∘ σ)) = List.ofFn (p ∘ σ)) ∧
      simplexSupport 0 1 0 ((List.ofFn x).insertionSort (· ≥ ·)) ≠ 0 := by
  obtain ⟨_, _, _, hsupport⟩ := @exists_threshold K _ _ _ (List.ofFn x) (by simp [List.ofFn_succ])
  obtain ⟨p, hreturned, θ, rfl, hone⟩ := exists_isProjection x
  refine ⟨_, hreturned, above_mem hone, fun q hq hne => sqDist_above_lt hone hq hne,
    projectSimplex_self (above_mem hone), fun σ => ?_, hsupport⟩
  exact projectSimplex_of_above ((sum_above_comp σ).trans hone)

end Vectors

theorem project_simplex_euclidean_negative :
    ∃ p, projectSimplex (List.ofFn ![(-1 : ℚ), -3]) = List.ofFn p ∧ p ∈ stdSimplex ℚ (Fin 2) ∧
      (∀ q ∈ stdSimplex ℚ (Fin 2), q ≠ p →
        ∑ i, (![(-1 : ℚ), -3] i - p i) ^ 2 < ∑ i, (![(-1 : ℚ), -3] i - q i) ^ 2) ∧
      projectSimplex (List.ofFn p) = List.ofFn p ∧
      (∀ σ : Equiv.Perm (Fin 2),
        projectSimplex (List.ofFn (![(-1 : ℚ), -3] ∘ σ)) = List.ofFn (p ∘ σ)) ∧
      simplexSupport 0 1 0 ((List.ofFn ![(-1 : ℚ), -3]).insertionSort (· ≥ ·)) ≠ 0 :=
  project_simplex_euclidean ![-1, -3]

end Nocturne.Inject
