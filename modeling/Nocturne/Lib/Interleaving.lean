import Mathlib.Data.Prod.Basic
import Nocturne.Lib.Machine

universe u v w

namespace Nocturne.Lib.Machine

variable {σ τ : Type u} {α β : Type v} {ε δ : Type w}

/-- Two machines side by side, each taking its own actions. -/
def prod (M : Machine σ α ε) (N : Machine τ β δ) : Machine (σ × τ) (α ⊕ β) (ε ⊕ δ) where
  start s := M.start s.1 ∧ N.start s.2
  step s
    | .inl a =>
      match M.step s.1 a with
      | .ok s' => .ok (s', s.2)
      | .error e => .error (.inl e)
    | .inr b =>
      match N.step s.2 b with
      | .ok t' => .ok (s.1, t')
      | .error e => .error (.inr e)

def lefts : List (α ⊕ β) → List α
  | [] => []
  | .inl a :: as => a :: lefts as
  | .inr _ :: as => lefts as

def rights : List (α ⊕ β) → List β
  | [] => []
  | .inl _ :: as => rights as
  | .inr b :: as => b :: rights as

@[simp] theorem lefts_map_inl (as : List α) :
    lefts (as.map Sum.inl : List (α ⊕ β)) = as := by
  induction as with
  | nil => rfl
  | cons a as ih => simp [lefts, ih]

@[simp] theorem rights_map_inr (bs : List β) :
    rights (bs.map Sum.inr : List (α ⊕ β)) = bs := by
  induction bs with
  | nil => rfl
  | cons b bs ih => simp [rights, ih]

variable {M : Machine σ α ε} {N : Machine τ β δ}

theorem step_prod_inl {s s' : σ × τ} {a : α} :
    (M.prod N).step s (.inl a) = .ok s' ↔ M.step s.1 a = .ok s'.1 ∧ s'.2 = s.2 := by
  simp only [prod]
  cases M.step s.1 a with
  | ok t => simp [Prod.ext_iff, eq_comm]
  | error e => simp

theorem step_prod_inr {s s' : σ × τ} {b : β} :
    (M.prod N).step s (.inr b) = .ok s' ↔ N.step s.2 b = .ok s'.2 ∧ s'.1 = s.1 := by
  simp only [prod]
  cases N.step s.2 b with
  | ok t => simp [Prod.ext_iff, eq_comm, and_comm]
  | error e => simp

@[simp] theorem next_prod_inl (s : σ × τ) (a : α) :
    (M.prod N).next s (.inl a) = (M.next s.1 a, s.2) := by
  cases h : M.step s.1 a <;> simp [next, prod, h]

@[simp] theorem next_prod_inr (s : σ × τ) (b : β) :
    (M.prod N).next s (.inr b) = (s.1, N.next s.2 b) := by
  cases h : N.step s.2 b <;> simp [next, prod, h]

/-- However their actions are interleaved, each machine runs as it does alone. -/
theorem run_prod (s : σ × τ) (as : List (α ⊕ β)) :
    (M.prod N).run s as = (M.run s.1 (lefts as), N.run s.2 (rights as)) := by
  induction as generalizing s with
  | nil => rfl
  | cons a as ih =>
    cases a with
    | inl a => simp [ih, lefts, rights]
    | inr b => simp [ih, lefts, rights]

theorem along_prod {G : σ → α → Prop} {H : τ → β → Prop} {s : σ × τ} {as : List (α ⊕ β)}
    (h : (M.prod N).Along (fun s a => Sum.elim (G s.1) (H s.2) a) s as) :
    M.Along G s.1 (lefts as) ∧ N.Along H s.2 (rights as) := by
  induction as generalizing s with
  | nil => exact ⟨trivial, trivial⟩
  | cons a as ih =>
    have hrest := ih h.2
    cases a with
    | inl a =>
      rw [next_prod_inl] at hrest
      exact ⟨⟨h.1, hrest.1⟩, hrest.2⟩
    | inr b =>
      rw [next_prod_inr] at hrest
      exact ⟨hrest.1, h.1, hrest.2⟩

/-- Each side of a state reached by guarded steps is reached by guarded steps of its own. -/
theorem ReachableBy.sides {G : σ → α → Prop} {H : τ → β → Prop} {s : σ × τ}
    (h : (M.prod N).ReachableBy (fun s a => Sum.elim (G s.1) (H s.2) a) s) :
    M.ReachableBy G s.1 ∧ N.ReachableBy H s.2 := by
  obtain ⟨s₀, as, hstart, hG, rfl⟩ := h
  obtain ⟨hleft, hright⟩ := along_prod hG
  rw [run_prod]
  exact ⟨⟨s₀.1, lefts as, hstart.1, hleft, rfl⟩, ⟨s₀.2, rights as, hstart.2, hright, rfl⟩⟩

end Nocturne.Lib.Machine
