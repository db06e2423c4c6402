import Mathlib.Data.List.Basic

universe u

namespace Nocturne.Lib

/-! Calls in flight, each under its place in a list that only grows. -/

variable {α : Type u} {calls : List α} {a b : α} {i k : Nat}

/-- After one call moved on, each place holds the call that moved or what it held. -/
theorem set_cases (h : (calls.set k a)[i]? = some b) :
    i = k ∧ b = a ∨ i ≠ k ∧ calls[i]? = some b := by
  rw [List.getElem?_set] at h
  split at h
  · next hki =>
    split at h
    · cases h
      exact .inl ⟨hki.symm, rfl⟩
    · cases h
  · next hki => exact .inr ⟨Ne.symm hki, h⟩

theorem set_self (h : calls[k]? = some b) : (calls.set k a)[k]? = some a :=
  List.getElem?_set_self (List.getElem?_eq_some_iff.mp h).1

theorem set_other (hne : k ≠ i) (h : calls[i]? = some b) : (calls.set k a)[i]? = some b := by
  rw [List.getElem?_set_ne hne, h]

/-- After one call began, each place holds that call or what it held. -/
theorem begun_cases (h : (calls ++ [a])[i]? = some b) :
    i = calls.length ∧ b = a ∨ calls[i]? = some b := by
  rw [List.getElem?_append] at h
  split at h
  · exact .inr h
  · next hlen =>
    rw [List.getElem?_singleton] at h
    split at h
    · next hzero =>
      cases h
      exact .inl ⟨by omega, rfl⟩
    · cases h

theorem begun_other (h : calls[i]? = some b) : (calls ++ [a])[i]? = some b := by
  rw [List.getElem?_append_left (List.getElem?_eq_some_iff.mp h).1, h]

theorem begun_self : (calls ++ [a])[calls.length]? = some a := List.getElem?_concat_length

end Nocturne.Lib
