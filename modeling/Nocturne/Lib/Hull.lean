import Mathlib.Algebra.Order.Ring.Defs
import Mathlib.Data.List.Infix
import Mathlib.Tactic.Linarith
import Mathlib.Tactic.Ring

universe u v

namespace Nocturne.Lib.Hull

variable {K : Type u} [CommRing K] [LinearOrder K] {α : Type v} (x y : α → K)

/-- Positive where the path from `a` over `b` to `c` turns left. -/
def cross (a b c : α) : K := (x b - x a) * (y c - y a) - (y b - y a) * (x c - x a)

/-- A point goes on the stack once the path to it over the top makes no right turn. -/
def push : List α → α → List α
  | b :: a :: stack, p =>
    if cross x y a b p < 0 then push (a :: stack) p else p :: b :: a :: stack
  | stack, p => p :: stack

/-- The lower hull of points in ascending order, collinear ones kept. -/
def lower (points : List α) : List α := (points.foldl (push x y) []).reverse

/-- From `p` along the edges that are worth their price, up to the first that is not. -/
def walk (lambda : K) (p : α) : List α → α
  | [] => p
  | q :: points => if y q - y p ≤ lambda * (x q - x p) then walk lambda q points else p

/-- What a point is worth at `lambda` for each unit. -/
def worth (lambda : K) (p : α) : K := lambda * x p - y p

/-- No right turn over three points in a row. -/
def Convex (points : List α) : Prop :=
  ∀ a b c, [a, b, c] <:+: points → 0 ≤ cross x y a b c

/-- Worth the most among the points, and the furthest of those. -/
def IsBest (lambda : K) (points : List α) (p : α) : Prop :=
  ∀ q ∈ points, worth x y lambda q ≤ worth x y lambda p ∧
    (worth x y lambda q = worth x y lambda p → x q ≤ x p)

variable {x y} {lambda : K} {a b c p q : α} {points stack : List α}

theorem convex_tail (h : Convex x y (p :: points)) : Convex x y points :=
  fun a b c hin => h a b c (hin.trans (List.suffix_cons p points).isInfix)

theorem walk_mem : walk x y lambda p points ∈ p :: points := by
  induction points generalizing p with
  | nil => simp [walk]
  | cons q points ih =>
    unfold walk
    split
    · exact List.mem_cons_of_mem p ih
    · simp

/-- What the stack holds: its points from the last to the first, in a convex chain. -/
structure Stacked (x y : α → K) (stack : List α) : Prop where
  descending : stack.Pairwise fun p q => x q < x p
  convex : ∀ a b c, [c, b, a] <:+: stack → 0 ≤ cross x y a b c

theorem Stacked.tail (h : Stacked x y (p :: stack)) : Stacked x y stack where
  descending := h.descending.of_cons
  convex a b c hin := h.convex a b c (hin.trans (List.suffix_cons p stack).isInfix)

theorem Stacked.put (h : Stacked x y stack) (hp : ∀ q ∈ stack, x q < x p)
    (hturn : ∀ a b, [b, a] <+: stack → 0 ≤ cross x y a b p) : Stacked x y (p :: stack) where
  descending := List.pairwise_cons.mpr ⟨hp, h.descending⟩
  convex a b c hin := by
    rcases List.infix_cons_iff.mp hin with hfirst | hin
    · obtain ⟨rfl, hrest⟩ := List.cons_prefix_cons.mp hfirst
      exact hturn a b hrest
    · exact h.convex a b c hin

variable [IsStrictOrderedRing K]

theorem edge_iff : y q - y p ≤ lambda * (x q - x p) ↔ worth x y lambda p ≤ worth x y lambda q := by
  unfold worth
  constructor <;> intro h <;> linarith

/-- A point above the segment from `a` to `c` is never worth the most. -/
theorem worth_lt_of_cross (lambda : K) (hab : x a < x b) (hbc : x b < x c) (h : cross x y a b c < 0) :
    worth x y lambda b < worth x y lambda a ∨ worth x y lambda b < worth x y lambda c := by
  by_contra hnot
  rw [not_or, not_lt, not_lt] at hnot
  obtain ⟨ha, hc⟩ := hnot
  have hleft : 0 ≤ (x c - x b) * (worth x y lambda b - worth x y lambda a) :=
    mul_nonneg (sub_nonneg.mpr hbc.le) (sub_nonneg.mpr ha)
  have hright : 0 ≤ (x b - x a) * (worth x y lambda b - worth x y lambda c) :=
    mul_nonneg (sub_nonneg.mpr hab.le) (sub_nonneg.mpr hc)
  have hsum : (x c - x b) * (worth x y lambda b - worth x y lambda a) +
      (x b - x a) * (worth x y lambda b - worth x y lambda c) = cross x y a b c := by
    unfold worth cross
    ring
  linarith

/-- Over a left turn, the edge after one that costs too much costs too much. -/
theorem worth_lt_of_convex (hab : x a < x b) (hbc : x b < x c) (h : 0 ≤ cross x y a b c)
    (hsteep : worth x y lambda b < worth x y lambda a) :
    worth x y lambda c < worth x y lambda b := by
  have hturn : (x b - x a) * (worth x y lambda c - worth x y lambda b) =
      (x c - x b) * (worth x y lambda b - worth x y lambda a) - cross x y a b c := by
    unfold worth cross
    ring
  have hneg : (x c - x b) * (worth x y lambda b - worth x y lambda a) < 0 :=
    mul_neg_of_pos_of_neg (sub_pos.mpr hbc) (sub_neg.mpr hsteep)
  have hlt : (x b - x a) * (worth x y lambda c - worth x y lambda b) < 0 := by linarith
  exact sub_neg.mp ((pos_iff_neg_of_mul_neg hlt).mp (sub_pos.mpr hab))

section Stack

/-- A point pushed is on top, and a point popped is never worth the most again. -/
structure Pushed (x y : α → K) (stack : List α) (p : α) (stack' : List α) : Prop where
  stacked : Stacked x y stack'
  subset : stack' ⊆ p :: stack
  top : ∃ rest, stack' = p :: rest
  popped : ∀ q ∈ stack, q ∈ stack' ∨ ∀ lambda, ∃ r ∈ stack', worth x y lambda q < worth x y lambda r

theorem push_pushed (h : Stacked x y stack) (hp : ∀ q ∈ stack, x q < x p) :
    Pushed x y stack p (push x y stack p) := by
  fun_induction push x y stack p with
  | case1 b a stack p hneg ih =>
    obtain ⟨hstacked, hsubset, ⟨rest, htop⟩, hpopped⟩ :=
      ih h.tail fun q hq => hp q (List.mem_cons_of_mem b hq)
    refine ⟨hstacked, ?_, ⟨rest, htop⟩, ?_⟩
    · exact List.Subset.trans hsubset (List.cons_subset_cons p (List.subset_cons_self b _))
    · rw [List.forall_mem_cons]
      refine ⟨.inr fun lambda => ?_, hpopped⟩
      have hab : x a < x b := (List.pairwise_cons.mp h.descending).1 a (by simp)
      rcases worth_lt_of_cross lambda hab (hp b (by simp)) hneg with hlt | hlt
      · -- `a` may have been popped too, for one worth still more
        rcases hpopped a (by simp) with ha | ha
        · exact ⟨a, ha, hlt⟩
        · obtain ⟨r, hr, hmore⟩ := ha lambda
          exact ⟨r, hr, hlt.trans hmore⟩
      · exact ⟨p, by simp [htop], hlt⟩
  | case2 b a stack p hturn =>
    refine ⟨h.put hp ?_, List.Subset.refl _, ⟨_, rfl⟩, fun q hq => .inl (List.mem_cons_of_mem p hq)⟩
    intro a' b' hfirst
    obtain ⟨rfl, hrest⟩ := List.cons_prefix_cons.mp hfirst
    obtain ⟨rfl, _⟩ := List.cons_prefix_cons.mp hrest
    exact not_lt.mp hturn
  | case3 stack p hshort =>
    refine ⟨h.put hp ?_, List.Subset.refl _, ⟨_, rfl⟩, fun q hq => .inl (List.mem_cons_of_mem p hq)⟩
    rintro a b ⟨rest, rfl⟩
    exact (hshort b a rest rfl).elim

/-- The stack after points in ascending order, over one that stood below them. -/
theorem foldl_push (h : Stacked x y stack) (hpoints : points.Pairwise fun p q => x p < x q)
    (hbelow : ∀ p ∈ points, ∀ q ∈ stack, x q < x p) :
    Stacked x y (points.foldl (push x y) stack) ∧
      points.foldl (push x y) stack ⊆ points ++ stack ∧
      ∀ q ∈ points ++ stack, q ∈ points.foldl (push x y) stack ∨
        ∀ lambda, ∃ r ∈ points.foldl (push x y) stack, worth x y lambda q < worth x y lambda r := by
  induction points generalizing stack with
  | nil => exact ⟨h, List.Subset.refl _, fun q hq => .inl hq⟩
  | cons p points ih =>
    rw [List.pairwise_cons] at hpoints
    rw [List.forall_mem_cons] at hbelow
    have hpushed := push_pushed h hbelow.1
    obtain ⟨rest, htop⟩ := hpushed.top
    obtain ⟨hstacked, hsubset, hpopped⟩ := ih hpushed.stacked hpoints.2 fun q hq r hr => by
      rcases List.mem_cons.mp (hpushed.subset hr) with rfl | hr
      · exact hpoints.1 q hq
      · exact hbelow.2 q hq r hr
    rw [List.foldl_cons]
    refine ⟨hstacked, fun q hq => ?_, fun q hq => ?_⟩
    · rcases List.mem_append.mp (hsubset hq) with hin | hin
      · simp [hin]
      · have := hpushed.subset hin
        simp only [List.cons_append, List.mem_cons, List.mem_append] at this ⊢
        tauto
    · have hkept : q ∈ points ++ push x y stack p ∨
          ∀ lambda, ∃ r ∈ push x y stack p, worth x y lambda q < worth x y lambda r := by
        rw [List.cons_append, List.mem_cons, List.mem_append] at hq
        rcases hq with rfl | hin | hin
        · simp [htop]
        · simp [hin]
        · exact (hpushed.popped q hin).imp_left fun hin => List.mem_append_right _ hin
      rcases hkept with hin | hlt
      · exact hpopped q hin
      · refine .inr fun lambda => ?_
        obtain ⟨r, hr, hlt⟩ := hlt lambda
        rcases hpopped r (List.mem_append_right _ hr) with hin | hmore
        · exact ⟨r, hin, hlt⟩
        · obtain ⟨r', hr', hmore⟩ := hmore lambda
          exact ⟨r', hr', hlt.trans hmore⟩

end Stack

section Walk

/-- Once an edge of the chain costs too much, so does all that lies beyond it. -/
theorem worth_lt_of_steep (hconvex : Convex x y (p :: q :: points))
    (hascending : (p :: q :: points).Pairwise fun p q => x p < x q)
    (h : worth x y lambda q < worth x y lambda p) :
    ∀ r ∈ q :: points, worth x y lambda r < worth x y lambda p := by
  induction points generalizing p q with
  | nil => simpa using h
  | cons r points ih =>
    rw [List.pairwise_cons] at hascending
    obtain ⟨hp, hrest⟩ := hascending
    have hlt : worth x y lambda r < worth x y lambda q :=
      worth_lt_of_convex (hp q (by simp)) ((List.pairwise_cons.mp hrest).1 r (by simp))
        (hconvex p q r ⟨[], points, rfl⟩) h
    rw [List.forall_mem_cons]
    exact ⟨h, fun s hs => (ih (convex_tail hconvex) hrest hlt s hs).trans h⟩

/-- Along a convex chain the walk ends at the best point. -/
theorem walk_best (lambda : K) (hconvex : Convex x y (p :: points))
    (hascending : (p :: points).Pairwise fun p q => x p < x q) :
    IsBest x y lambda (p :: points) (walk x y lambda p points) := by
  induction points generalizing p with
  | nil => simp [IsBest, walk]
  | cons q points ih =>
    have hrest := (List.pairwise_cons.mp hascending)
    unfold walk
    split
    · next hedge =>
      have hbest := ih (convex_tail hconvex) hrest.2
      have hle := edge_iff.1 hedge
      obtain ⟨hq, hfar⟩ := hbest q (by simp)
      intro r hr
      rcases List.mem_cons.mp hr with rfl | hr
      · refine ⟨hle.trans hq, fun heq => ?_⟩
        have hsame := le_antisymm hq (heq ▸ hle)
        exact ((hrest.1 q (by simp)).trans_le (hfar hsame)).le
      · exact hbest r hr
    · next hedge =>
      have hlt : worth x y lambda q < worth x y lambda p := by
        rw [edge_iff, not_le] at hedge
        exact hedge
      intro r hr
      rcases List.mem_cons.mp hr with rfl | hr
      · exact ⟨le_rfl, fun _ => le_rfl⟩
      · have hworse := worth_lt_of_steep hconvex hascending hlt r hr
        exact ⟨hworse.le, fun heq => absurd heq hworse.ne⟩

end Walk

/-- The walk along the lower hull ends at the best of all the points. -/
theorem walk_lower (lambda : K) (hascending : points.Pairwise fun p q => x p < x q)
    (hp : points ≠ []) :
    ∃ p hull, lower x y points = p :: hull ∧ walk x y lambda p hull ∈ points ∧
      IsBest x y lambda points (walk x y lambda p hull) := by
  have hempty : Stacked x y ([] : List α) := ⟨.nil, fun a b c hin => by simp at hin⟩
  obtain ⟨hstacked, hsubset, hpopped⟩ := foldl_push hempty hascending (by simp)
  rw [List.append_nil] at hsubset hpopped
  have hne : lower x y points ≠ [] := by
    obtain ⟨q, hq⟩ := List.exists_mem_of_ne_nil points hp
    unfold lower
    rw [ne_eq, List.reverse_eq_nil_iff]
    intro hnil
    rcases hpopped q hq with hin | hlt
    · simp [hnil] at hin
    · obtain ⟨r, hr, _⟩ := hlt 0
      simp [hnil] at hr
  obtain ⟨p, hull, hlower⟩ := List.exists_cons_of_ne_nil hne
  have hmem {q : α} : q ∈ p :: hull ↔ q ∈ points.foldl (push x y) [] := by
    rw [← hlower, lower, List.mem_reverse]
  have hconvex : Convex x y (p :: hull) := by
    intro a b c hin
    rw [← hlower, lower, ← List.reverse_infix, List.reverse_reverse] at hin
    exact hstacked.convex a b c hin
  have hchain : (p :: hull).Pairwise fun p q => x p < x q := by
    rw [← hlower, lower, List.pairwise_reverse]
    exact hstacked.descending
  have hbest := walk_best lambda hconvex hchain
  refine ⟨p, hull, hlower, hsubset (hmem.mp walk_mem), fun q hq => ?_⟩
  rcases hpopped q hq with hin | hlt
  · exact hbest q (hmem.mpr hin)
  · obtain ⟨r, hr, hlt⟩ := hlt lambda
    have hless := hlt.trans_le (hbest r (hmem.mpr hr)).1
    exact ⟨hless.le, fun heq => absurd heq hless.ne⟩

end Nocturne.Lib.Hull
