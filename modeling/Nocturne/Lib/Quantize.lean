import Mathlib.Algebra.Order.Floor.Ring
import Mathlib.Tactic.FieldSimp
import Mathlib.Tactic.Ring

universe u

namespace Nocturne.Lib

variable {K : Type u} [Field K]

/-- `q` has at most `scale` decimal places. -/
def OnGrid (scale : ℕ) (q : K) : Prop := ∃ n : ℤ, q = n / (10 ^ scale : ℕ)

variable {scale : ℕ} {q r : K}

theorem onGrid_zero (scale : ℕ) : OnGrid scale (0 : K) := ⟨0, by simp⟩

theorem OnGrid.sub (h : OnGrid scale q) (h' : OnGrid scale r) : OnGrid scale (q - r) := by
  obtain ⟨n, rfl⟩ := h
  obtain ⟨m, rfl⟩ := h'
  exact ⟨n - m, by push_cast; ring⟩

section Rounding

variable [LinearOrder K] [FloorRing K]

/-- The nearest integer, and the even one where two are as near. -/
def roundHalfEven (q : K) : ℤ :=
  if Int.fract q < 1 - Int.fract q then ⌊q⌋
  else if 1 - Int.fract q < Int.fract q then ⌊q⌋ + 1
  else if ⌊q⌋ % 2 = 0 then ⌊q⌋
  else ⌊q⌋ + 1

/-- `q` to `scale` decimal places. -/
def quantize (scale : ℕ) (q : K) : K :=
  roundHalfEven (q * (10 ^ scale : ℕ)) / (10 ^ scale : ℕ)

theorem onGrid_quantize (scale : ℕ) (q : K) : OnGrid scale (quantize scale q) := ⟨_, rfl⟩

variable [IsStrictOrderedRing K]

theorem roundHalfEven_intCast (n : ℤ) : roundHalfEven (n : K) = n := by
  simp [roundHalfEven]

theorem quantize_of_onGrid (h : OnGrid scale q) : quantize scale q = q := by
  obtain ⟨n, rfl⟩ := h
  have hscale : ((10 ^ scale : ℕ) : K) ≠ 0 := by positivity
  rw [quantize, div_mul_cancel₀ _ hscale, roundHalfEven_intCast]

end Rounding

end Nocturne.Lib
