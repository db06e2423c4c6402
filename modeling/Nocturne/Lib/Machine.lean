import Mathlib.Algebra.Group.Basic
import Mathlib.Data.List.Induction

universe u v w

namespace Nocturne.Lib

/-- A machine answers an action with its next state, or refuses it. -/
structure Machine (σ : Type u) (α : Type v) (ε : Type w) where
  start : σ → Prop
  step : σ → α → Except ε σ

namespace Machine

variable {σ : Type u} {α : Type v} {ε : Type w} (M : Machine σ α ε)

/-- A refused action leaves the state as it was. -/
def next (s : σ) (a : α) : σ :=
  match M.step s a with
  | .ok s' => s'
  | .error _ => s

def run (s : σ) : List α → σ
  | [] => s
  | a :: as => run (M.next s a) as

def Reachable (s : σ) : Prop := ∃ s₀ as, M.start s₀ ∧ M.run s₀ as = s

/-- Every action of the run meets `G` in the state it is taken in. -/
def Along (G : σ → α → Prop) (s : σ) : List α → Prop
  | [] => True
  | a :: as => G s a ∧ Along G (M.next s a) as

instance decidableAlong {G : σ → α → Prop} [∀ s a, Decidable (G s a)] :
    (s : σ) → (as : List α) → Decidable (M.Along G s as)
  | _, [] => isTrue trivial
  | s, a :: as =>
    have : Decidable (M.Along G (M.next s a) as) := decidableAlong (M.next s a) as
    inferInstanceAs (Decidable (G s a ∧ M.Along G (M.next s a) as))

/-- The states reached by runs all of whose actions meet `G`. -/
def ReachableBy (G : σ → α → Prop) (s : σ) : Prop :=
  ∃ s₀ as, M.start s₀ ∧ M.Along G s₀ as ∧ M.run s₀ as = s

variable {M} {s s' : σ} {a : α} {as : List α}

theorem next_of_ok (h : M.step s a = .ok s') : M.next s a = s' := by
  simp [next, h]

theorem next_of_error {e : ε} (h : M.step s a = .error e) : M.next s a = s := by
  simp [next, h]

theorem next_cases (s : σ) (a : α) :
    M.step s a = .ok (M.next s a) ∨ (∃ e, M.step s a = .error e) ∧ M.next s a = s := by
  unfold next
  cases h : M.step s a with
  | ok s' => exact .inl rfl
  | error e => exact .inr ⟨⟨e, rfl⟩, rfl⟩

/-- What holds before an action and after it if it is accepted. -/
theorem next_keeps {I : σ → Prop} (hs : I s) (hstep : ∀ {s'}, M.step s a = .ok s' → I s') :
    I (M.next s a) := by
  rcases next_cases (M := M) s a with h | ⟨_, h⟩
  · exact hstep h
  · rwa [h]

@[simp] theorem run_nil : M.run s [] = s := rfl

@[simp] theorem run_cons : M.run s (a :: as) = M.run (M.next s a) as := rfl

theorem run_append (as bs : List α) : M.run s (as ++ bs) = M.run (M.run s as) bs := by
  induction as generalizing s with
  | nil => rfl
  | cons a as ih => exact ih

theorem along_append {G : σ → α → Prop} {as bs : List α} :
    M.Along G s (as ++ bs) ↔ M.Along G s as ∧ M.Along G (M.run s as) bs := by
  induction as generalizing s with
  | nil => simp [Along]
  | cons a as ih => simp [Along, ih, and_assoc]

theorem along_true (s : σ) (as : List α) : M.Along (fun _ _ => True) s as := by
  induction as generalizing s with
  | nil => trivial
  | cons a as ih => exact ⟨trivial, ih _⟩

theorem along_of_forall {G : α → Prop} (s : σ) (h : ∀ a ∈ as, G a) :
    M.Along (fun _ => G) s as := by
  induction as generalizing s with
  | nil => trivial
  | cons a as ih => exact ⟨h a (by simp), ih _ fun b hb => h b (List.mem_cons_of_mem _ hb)⟩

theorem Along.mono {G G' : σ → α → Prop} (hG : ∀ {s a}, G s a → G' s a) (h : M.Along G s as) :
    M.Along G' s as := by
  induction as generalizing s with
  | nil => trivial
  | cons a as ih => exact ⟨hG h.1, ih h.2⟩

/-- Two guards that agree wherever the first keeps an invariant admit the same runs. -/
theorem along_congr {G G' : σ → α → Prop} {I : σ → Prop} (hG : ∀ {s a}, I s → (G s a ↔ G' s a))
    (hstep : ∀ {s a}, I s → G s a → I (M.next s a)) (hs : I s) :
    M.Along G s as ↔ M.Along G' s as := by
  induction as generalizing s with
  | nil => exact Iff.rfl
  | cons a as ih =>
    refine ⟨fun h => ⟨(hG hs).mp h.1, (ih (hstep hs h.1)).mp h.2⟩, fun h => ?_⟩
    have hfirst := (hG hs).mpr h.1
    exact ⟨hfirst, (ih (hstep hs hfirst)).mpr h.2⟩

/-- Where a guarded action keeps `I`, an unguarded one breaks it and nothing mends it, `I` holds
after the run exactly when the whole run was guarded. -/
theorem run_iff_along {G : σ → α → Prop} {I J : σ → Prop} (hJ : ∀ {s a}, J s → J (M.next s a))
    (hkeeps : ∀ {s a}, J s → I s → G s a → I (M.next s a))
    (hbreaks : ∀ {s a}, J s → I (M.next s a) → I s ∧ G s a) (hs : J s) (hi : I s) :
    I (M.run s as) ↔ M.Along G s as := by
  have hback : ∀ {s as}, J s → I (M.run s as) → I s ∧ M.Along G s as := by
    intro s as
    induction as generalizing s with
    | nil => exact fun _ h => ⟨h, trivial⟩
    | cons a as ih =>
      intro hs h
      obtain ⟨hnext, halong⟩ := ih (hJ hs) h
      obtain ⟨hi, hG⟩ := hbreaks hs hnext
      exact ⟨hi, hG, halong⟩
  refine ⟨fun h => (hback hs h).2, fun h => ?_⟩
  induction as generalizing s with
  | nil => exact hi
  | cons a as ih => exact ih (hJ hs) (hkeeps hs hi h.1) h.2

/-- What every accepted guarded step keeps, a guarded run keeps. -/
theorem along_run {G : σ → α → Prop} {I : σ → Prop}
    (hstep : ∀ {s a s'}, I s → G s a → M.step s a = .ok s' → I s')
    (hG : M.Along G s as) (hs : I s) : I (M.run s as) := by
  induction as generalizing s with
  | nil => exact hs
  | cons a as ih =>
    apply ih hG.2
    rcases next_cases (M := M) s a with h | ⟨_, h⟩
    · exact hstep hs hG.1 h
    · rwa [h]

/-- What holds at the start, with no action taken yet, and survives each guarded action in view
of those taken before it, holds along a guarded run. -/
theorem along_history {G : σ → α → Prop} {I : σ → List α → Prop} (hstart : I s [])
    (hstep : ∀ {as a}, I (M.run s as) as → G (M.run s as) a →
      I (M.next (M.run s as) a) (as ++ [a]))
    (hG : M.Along G s as) : I (M.run s as) as := by
  induction as using List.reverseRecOn with
  | nil => exact hstart
  | append_singleton as a ih =>
    obtain ⟨hbefore, hlast, _⟩ := along_append.1 hG
    rw [run_append]
    exact hstep (ih hbefore) hlast

theorem run_keeps {I : σ → Prop} (hstep : ∀ {s a s'}, I s → M.step s a = .ok s' → I s')
    (as : List α) (hs : I s) : I (M.run s as) :=
  along_run (G := fun _ _ => True) (fun hi _ h => hstep hi h) (along_true s as) hs

theorem reachable_keeps {I : σ → Prop} (hstart : ∀ {s}, M.start s → I s)
    (hstep : ∀ {s a s'}, I s → M.step s a = .ok s' → I s') (h : M.Reachable s) : I s := by
  obtain ⟨s₀, as, h₀, rfl⟩ := h
  exact run_keeps hstep as (hstart h₀)

theorem reachableBy_keeps {G : σ → α → Prop} {I : σ → Prop} (hstart : ∀ {s}, M.start s → I s)
    (hstep : ∀ {s a s'}, I s → G s a → M.step s a = .ok s' → I s')
    (h : M.ReachableBy G s) : I s := by
  obtain ⟨s₀, as, h₀, hG, rfl⟩ := h
  exact along_run hstep hG (hstart h₀)

theorem ReachableBy.reachable {G : σ → α → Prop} (h : M.ReachableBy G s) : M.Reachable s := by
  obtain ⟨s₀, as, h₀, _, h⟩ := h
  exact ⟨s₀, as, h₀, h⟩

theorem ReachableBy.step {G : σ → α → Prop} (h : M.ReachableBy G s) (ha : G s a)
    (hstep : M.step s a = .ok s') : M.ReachableBy G s' := by
  obtain ⟨s₀, as, h₀, hG, rfl⟩ := h
  refine ⟨s₀, as ++ [a], h₀, along_append.2 ⟨hG, ha, trivial⟩, ?_⟩
  rw [run_append, run_cons, run_nil, next_of_ok hstep]

theorem Reachable.run (h : M.Reachable s) (as : List α) : M.Reachable (M.run s as) := by
  obtain ⟨s₀, bs, h₀, rfl⟩ := h
  exact ⟨s₀, bs ++ as, h₀, run_append bs as⟩

theorem Reachable.step (h : M.Reachable s) (hstep : M.step s a = .ok s') : M.Reachable s' := by
  have hrun := h.run [a]
  rwa [run_cons, run_nil, next_of_ok hstep] at hrun

/-- What every accepted step relates, a run relates. -/
theorem run_rel {R : σ → σ → Prop} (refl : ∀ s, R s s) (trans : ∀ {s t u}, R s t → R t u → R s u)
    (hstep : ∀ {s a s'}, M.step s a = .ok s' → R s s') (s : σ) (as : List α) :
    R s (M.run s as) := by
  induction as generalizing s with
  | nil => exact refl s
  | cons a as ih =>
    refine trans ?_ (ih _)
    rcases next_cases (M := M) s a with h | ⟨_, h⟩
    · exact hstep h
    · rw [h]
      exact refl s

section Tally

variable {γ : Type*} [AddCommMonoid γ]

/-- The sum over a run of what an observer reads off each step. -/
def tally (M : Machine σ α ε) (w : σ → σ → γ) (s : σ) : List α → γ
  | [] => 0
  | a :: as => w s (M.next s a) + tally M w (M.next s a) as

/-- A measure that each guarded step moves by what is observed of it moves over a guarded run
by the tally. -/
theorem run_tally {G : σ → α → Prop} {I : σ → Prop} {w : σ → σ → γ} {m : σ → γ}
    (hidle : ∀ s, w s s = 0)
    (hstep : ∀ {s a s'}, I s → G s a → M.step s a = .ok s' → I s' ∧ m s' = m s + w s s')
    (hG : M.Along G s as) (hs : I s) : m (M.run s as) = m s + M.tally w s as := by
  induction as generalizing s with
  | nil => simp [tally]
  | cons a as ih =>
    have hnext : I (M.next s a) ∧ m (M.next s a) = m s + w s (M.next s a) := by
      rcases next_cases (M := M) s a with h | ⟨_, h⟩
      · exact hstep hs hG.1 h
      · rw [h, hidle, add_zero]
        exact ⟨hs, rfl⟩
    rw [run_cons, ih hG.2 hnext.1, hnext.2, tally, add_assoc]

end Tally

end Machine

end Nocturne.Lib
