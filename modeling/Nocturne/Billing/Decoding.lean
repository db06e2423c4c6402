import Mathlib.Algebra.Order.Field.Basic
import Mathlib.Algebra.Order.Ring.Rat

namespace Nocturne.Billing

/-- A Python string by its code points, lone surrogates among them. -/
abbrev Text := List ℕ

def text (s : String) : Text := s.toList.map Char.toNat

section Base64

def base64Value (c : ℕ) : Option ℕ :=
  if 0x41 ≤ c ∧ c ≤ 0x5A then some (c - 0x41)
  else if 0x61 ≤ c ∧ c ≤ 0x7A then some (c - 0x61 + 26)
  else if 0x30 ≤ c ∧ c ≤ 0x39 then some (c - 0x30 + 52)
  else if c = 0x2B then some 62
  else if c = 0x2F then some 63
  else none

/-- Where `binascii.a2b_base64` stands in a quad. -/
structure Quad where
  position : ℕ
  left : ℕ
  pads : ℕ
  paddingStarted : Bool

/-- `binascii.a2b_base64` in strict mode, from the second character on. -/
def a2bBase64 (quad : Quad) : Text → Option (List ℕ)
  | [] => if quad.position = 0 then some [] else none
  | c :: rest =>
    if c = 0x3D then
      if quad.position < 2 then a2bBase64 { quad with paddingStarted := true } rest
      else if quad.position + (quad.pads + 1) < 4 then
        a2bBase64 { quad with paddingStarted := true, pads := quad.pads + 1 } rest
      else if rest = [] then some []
      else none
    else
      match base64Value c with
      | none => none
      | some value =>
        if quad.paddingStarted then none
        else
          match quad.position with
          | 0 => a2bBase64 ⟨1, value, 0, false⟩ rest
          | 1 => (a2bBase64 ⟨2, value % 16, 0, false⟩ rest).map ((quad.left * 4 + value / 16) :: ·)
          | 2 => (a2bBase64 ⟨3, value % 4, 0, false⟩ rest).map ((quad.left * 16 + value / 4) :: ·)
          | _ => (a2bBase64 ⟨0, 0, 0, false⟩ rest).map ((quad.left * 64 + value) :: ·)

/-- `base64.b64decode(encoded.encode("ascii"), validate=True)`. -/
def b64decode (encoded : Text) : Option (List ℕ) :=
  if (∀ c ∈ encoded, c < 0x80) ∧ encoded.head? ≠ some 0x3D then
    a2bBase64 ⟨0, 0, 0, false⟩ encoded
  else none

end Base64

section Utf8

def isTail (b : ℕ) : Prop := 0x80 ≤ b ∧ b < 0xC0

instance (b : ℕ) : Decidable (isTail b) := inferInstanceAs (Decidable (_ ∧ _))

/-- `raw.decode("utf-8")`: shortest forms only, and no surrogates. -/
def utf8Decode : List ℕ → Option Text
  | [] => some []
  | a :: rest =>
    if a < 0x80 then (utf8Decode rest).map (a :: ·)
    else if 0xC2 ≤ a ∧ a < 0xE0 then
      match rest with
      | b :: rest =>
        if isTail b then (utf8Decode rest).map (((a - 0xC0) * 0x40 + (b - 0x80)) :: ·) else none
      | _ => none
    else if 0xE0 ≤ a ∧ a < 0xF0 then
      match rest with
      | b :: c :: rest =>
        let point := (a - 0xE0) * 0x1000 + (b - 0x80) * 0x40 + (c - 0x80)
        if isTail b ∧ isTail c ∧ 0x800 ≤ point ∧ (point < 0xD800 ∨ 0xE000 ≤ point) then
          (utf8Decode rest).map (point :: ·)
        else none
      | _ => none
    else if 0xF0 ≤ a ∧ a < 0xF5 then
      match rest with
      | b :: c :: d :: rest =>
        let point := (a - 0xF0) * 0x40000 + (b - 0x80) * 0x1000 + (c - 0x80) * 0x40 + (d - 0x80)
        if isTail b ∧ isTail c ∧ isTail d ∧ 0x10000 ≤ point ∧ point < 0x110000 then
          (utf8Decode rest).map (point :: ·)
        else none
      | _ => none
    else none

end Utf8

section Decimals

/-- A finite `decimal.Decimal`. -/
structure Decimal where
  negative : Bool
  coefficient : ℕ
  exponent : ℤ
  deriving DecidableEq

namespace Decimal

def signed (d : Decimal) : ℤ := if d.negative then -d.coefficient else d.coefficient

/-- Both coefficients at the lower of the exponents. -/
def scaled (d : Decimal) (exponent : ℤ) : ℤ := d.signed * 10 ^ (d.exponent - exponent).toNat

def lt (a b : Decimal) : Prop :=
  a.scaled (min a.exponent b.exponent) < b.scaled (min a.exponent b.exponent)

instance (a b : Decimal) : Decidable (a.lt b) := inferInstanceAs (Decidable (_ < _))

/-- The number a decimal stands for. -/
def value (d : Decimal) : ℚ := d.signed * 10 ^ d.exponent

theorem scaled_eq (d : Decimal) {exponent : ℤ} (h : exponent ≤ d.exponent) :
    d.value = d.scaled exponent * (10 : ℚ) ^ exponent := by
  have hten : (10 : ℚ) ≠ 0 := by norm_num
  rw [value, scaled]
  push_cast
  rw [mul_assoc, ← zpow_natCast, ← zpow_add₀ hten, Int.toNat_of_nonneg (sub_nonneg.mpr h),
    sub_add_cancel]

/-- Decimals compare as the numbers they stand for. -/
theorem lt_iff {a b : Decimal} : a.lt b ↔ a.value < b.value := by
  have hpos : (0 : ℚ) < 10 ^ min a.exponent b.exponent := zpow_pos (by norm_num) _
  rw [scaled_eq a (min_le_left _ _), scaled_eq b (min_le_right _ _), lt,
    mul_lt_mul_iff_left₀ hpos, Int.cast_lt]

end Decimal

end Decimals

end Nocturne.Billing
