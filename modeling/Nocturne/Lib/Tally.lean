import Mathlib.Algebra.BigOperators.Group.List.Basic
import Nocturne.Lib.Refusal
import Nocturne.Lib.Table

universe u v w

namespace Nocturne.Lib

section Sums

variable {α : Type u} {β : Type v} {γ : Type w} [AddCommMonoid γ]

/-- Elements that count for nothing may be left out of a sum. -/
theorem sum_map_filter {p : α → Bool} {g : α → γ} {l : List α}
    (h : ∀ a ∈ l, p a = false → g a = 0) : ((l.filter p).map g).sum = (l.map g).sum := by
  induction l with
  | nil => rfl
  | cons a l ih =>
    have ih := ih fun a ha => h a (List.mem_cons_of_mem _ ha)
    by_cases hp : p a = true
    · simp [hp, ih]
    · simp [hp, ih, h a (by simp) (by simpa using hp)]

/-- Each element counts under exactly one of the keys. -/
theorem sum_by_key {κ : Type v} [DecidableEq κ] {keys : List κ} {f : α → κ} {g : α → γ}
    {l : List α} (hnodup : keys.Nodup) (hall : ∀ a ∈ l, f a ∈ keys) :
    (keys.map fun k => ((l.filter (f · = k)).map g).sum).sum = (l.map g).sum := by
  have hone : ∀ {keys : List κ} {a : α}, keys.Nodup → f a ∈ keys →
      (keys.map fun k => if f a = k then g a else 0).sum = g a := by
    intro keys a
    induction keys with
    | nil => simp
    | cons k keys ih =>
      intro hnodup hin
      obtain ⟨hout, hnodup⟩ := List.nodup_cons.mp hnodup
      rw [List.map_cons, List.sum_cons]
      by_cases hk : f a = k
      · subst hk
        have hzero : (keys.map fun k => if f a = k then g a else 0).sum = 0 := by
          apply List.sum_eq_zero
          intro x hx
          obtain ⟨k, hlater, rfl⟩ := List.mem_map.mp hx
          refine if_neg ?_
          rintro rfl
          exact hout hlater
        rw [if_pos rfl, hzero, add_zero]
      · rw [if_neg hk, zero_add]
        exact ih hnodup ((List.mem_cons.mp hin).resolve_left hk)
  induction l with
  | nil => simp
  | cons a l ih =>
    have hcons (k : κ) : (((a :: l).filter (f · = k)).map g).sum =
        (if f a = k then g a else 0) + ((l.filter (f · = k)).map g).sum := by
      by_cases hk : f a = k <;> simp [hk]
    simp only [hcons, List.sum_map_add, List.map_cons, List.sum_cons]
    rw [hone hnodup (hall a (by simp)), ih fun b hb => hall b (List.mem_cons_of_mem _ hb)]

theorem sum_map_forall₂ {R : α → β → Prop} {f : α → γ} {g : β → γ} {l : List α} {r : List β}
    (h : List.Forall₂ R l r) (hfg : ∀ a b, R a b → f a = g b) :
    (l.map f).sum = (r.map g).sum := by
  induction h with
  | nil => rfl
  | cons hab _ ih => simp [hfg _ _ hab, ih]

/-- A sum over a table where one row alone counts. -/
theorem Table.sum_map_eq {κ : Type u} {ρ : Type v} {key : ρ → κ} [DecidableEq κ]
    {t : Table κ ρ key} {r : ρ} {g : ρ → γ} (h : r ∈ t.rows)
    (hg : ∀ r' ∈ t.rows, key r' ≠ key r → g r' = 0) : (t.rows.map g).sum = g r := by
  obtain ⟨rows, nodup⟩ := t
  dsimp only at h hg ⊢
  induction rows with
  | nil => simp at h
  | cons a rows ih =>
    simp only [List.map_cons, List.nodup_cons] at nodup
    rcases List.mem_cons.mp h with rfl | h
    · have hzero : (rows.map g).sum = 0 := by
        apply List.sum_eq_zero
        intro x hx
        obtain ⟨r', hr', rfl⟩ := List.mem_map.mp hx
        apply hg r' (List.mem_cons_of_mem _ hr')
        intro heq
        exact nodup.1 (heq ▸ List.mem_map_of_mem hr')
      simp [hzero]
    · have hne : key a ≠ key r := fun heq => nodup.1 (heq ▸ List.mem_map_of_mem h)
      rw [List.map_cons, List.sum_cons, hg a (by simp) hne, zero_add]
      exact ih nodup.2 h fun r' hr' => hg r' (List.mem_cons_of_mem _ hr')

end Sums

section Loop

variable {ε : Type u} {σ : Type v} {β : Type w} {γ : Type*} [AddCommMonoid γ]

/-- A measure that each pass of a loop moves by its element's worth moves over the loop by
the sum of them. -/
theorem foldlM_tally {f : σ → β → Except ε σ} {I : σ → Prop} {m : σ → γ} {worth : β → γ}
    {l : List β} {s s' : σ}
    (pass : ∀ s b s', b ∈ l → I s → f s b = .ok s' → I s' ∧ m s' = m s + worth b)
    (h : l.foldlM f s = .ok s') (hs : I s) : m s' = m s + (l.map worth).sum := by
  induction l generalizing s with
  | nil =>
    simp only [List.foldlM_nil, pure_eq_ok] at h
    simp [h]
  | cons b l ih =>
    simp only [List.foldlM_cons, bind_eq_ok] at h
    obtain ⟨t, ht, h⟩ := h
    obtain ⟨hi, hm⟩ := pass s b t (by simp) hs ht
    rw [ih (fun s b s' hb => pass s b s' (List.mem_cons_of_mem _ hb)) h hi, hm, List.map_cons,
      List.sum_cons, add_assoc]

end Loop

end Nocturne.Lib
