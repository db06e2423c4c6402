import Mathlib.Data.Int.Log
import Mathlib.Data.Rat.Floor
import Mathlib.Tactic.Linarith
import Mathlib.Tactic.NormNum
import Mathlib.Tactic.Ring
import Nocturne.Lib.Decoded
import Nocturne.Lib.Refusal

namespace Nocturne.Lib

namespace Float64

/-! Arithmetic of doubles, rounded to the nearest and of two to the even one; a zero has no sign. -/

section Rounding

/-- The integer nearest to `q`, of two the even one. -/
def roundEven (q : ℚ) : ℤ :=
  if q - ⌊q⌋ < 1 / 2 then ⌊q⌋
  else if 1 / 2 < q - ⌊q⌋ then ⌊q⌋ + 1
  else if ⌊q⌋ % 2 = 0 then ⌊q⌋
  else ⌊q⌋ + 1

/-- How far doubles lie apart about `q`. -/
def spacing (q : ℚ) : ℚ := 2 ^ max (Int.log 2 |q| - 52) (-1074)

/-- The magnitude `q` is rounded to, were there no largest double. -/
def rounded (q : ℚ) : ℚ := roundEven (|q| / spacing q) * spacing q

/-- The double nearest to `q`. -/
def nearest (q : ℚ) : Float64 :=
  if rounded q < 2 ^ 1024 then .finite (if q < 0 then -rounded q else rounded q)
  else .inf (q < 0)

variable {q : ℚ} {m n : ℤ}

theorem roundEven_le (h : q ≤ n) : roundEven q ≤ n := by
  have hfloor : ⌊q⌋ ≤ n := by exact_mod_cast (Int.floor_le q).trans h
  unfold roundEven
  rcases hfloor.eq_or_lt with heq | hlt
  · have hzero : q - ⌊q⌋ < 1 / 2 := by
      rw [heq]
      linarith
    rw [if_pos hzero, heq]
  · split_ifs <;> omega

theorem le_roundEven (h : (n : ℚ) ≤ q) : n ≤ roundEven q := by
  have hfloor : n ≤ ⌊q⌋ := Int.le_floor.mpr h
  unfold roundEven
  split_ifs <;> omega

/-- Half way below an even number is rounded up to it. -/
theorem le_roundEven_of_even (heven : n % 2 = 0) (h : (n : ℚ) - 1 / 2 ≤ q) : n ≤ roundEven q := by
  rcases le_or_gt (n : ℚ) q with hle | hlt
  · exact le_roundEven hle
  have hfloor : ⌊q⌋ = n - 1 := by
    rw [Int.floor_eq_iff]
    push_cast
    constructor <;> linarith
  unfold roundEven
  rw [hfloor]
  push_cast
  rw [if_neg (by linarith)]
  split_ifs <;> omega

/-- Less than half way up to a number is rounded to one below it. -/
theorem roundEven_lt (h : q < (n : ℚ) - 1 / 2) : roundEven q < n := by
  have hfloor : ⌊q⌋ < n := by
    rw [Int.floor_lt]
    linarith
  unfold roundEven
  rcases (Int.le_sub_one_of_lt hfloor).eq_or_lt with heq | hlt
  · have hrest : q - ⌊q⌋ < 1 / 2 := by
      rw [heq]
      push_cast
      linarith
    rw [if_pos hrest]
    exact hfloor
  · split_ifs <;> omega

theorem spacing_pos : 0 < spacing q := by
  unfold spacing
  exact zpow_pos (by norm_num) _

theorem log_zero_lt {k : ℤ} (hk : 0 < k) (h : k ≤ Int.log 2 |q|) : 0 < |q| := by
  rw [abs_pos]
  rintro rfl
  rw [abs_zero, Int.log_of_right_le_zero 2 le_rfl] at h
  omega

/-- The powers about the largest double, in units of half the spacing there. -/
theorem powers_of_two : ∃ u : ℚ, 0 < u ∧ (2 : ℚ) ^ 970 = u ∧ (2 : ℚ) ^ 971 = 2 * u ∧
    (2 : ℚ) ^ 1023 = 2 ^ 53 * u ∧ (2 : ℚ) ^ 1024 = 2 ^ 54 * u :=
  ⟨2 ^ 970, pow_pos (by norm_num) _, rfl, pow_succ' 2 970, pow_add 2 53 970, pow_add 2 54 970⟩

theorem abs_lt_zpow (q : ℚ) : |q| < (2 : ℚ) ^ (Int.log 2 |q| + 1) := by
  exact_mod_cast Int.lt_zpow_succ_log_self (by decide : 1 < 2) |q|

/-- Below the top binade the spacing divides a power of two that nothing is rounded past. -/
theorem rounded_le_of_log_lt (h : Int.log 2 |q| < 1023) :
    |q| < 2 ^ 1023 ∧ rounded q ≤ 2 ^ 1023 := by
  have hspacing : 0 < spacing q := spacing_pos
  obtain ⟨k, hk⟩ : ∃ k : ℕ, max (Int.log 2 |q| - 52) (-1074) + k = 1023 :=
    ⟨(1023 - max (Int.log 2 |q| - 52) (-1074)).toNat, by omega⟩
  have hpow : (2 : ℚ) ^ k * spacing q = 2 ^ 1023 := by
    rw [spacing, ← zpow_natCast, ← zpow_add₀ (by norm_num), add_comm, hk, zpow_ofNat]
  have hq : |q| < 2 ^ 1023 := by
    refine (abs_lt_zpow q).trans_le ?_
    rw [← zpow_ofNat]
    exact zpow_le_zpow_right₀ (by norm_num) (by omega)
  have hround : roundEven (|q| / spacing q) ≤ 2 ^ k := by
    refine roundEven_le ?_
    push_cast
    rw [div_le_iff₀ hspacing, hpow]
    exact hq.le
  refine ⟨hq, ?_⟩
  rw [rounded, ← hpow]
  exact mul_le_mul_of_nonneg_right (by exact_mod_cast hround) hspacing.le

/-- In the top binade the cut is half the spacing past the largest double, which is odd. -/
theorem rounded_lt_iff_of_log_eq (h : Int.log 2 |q| = 1023) :
    rounded q < 2 ^ 1024 ↔ |q| < 2 ^ 1024 - 2 ^ 970 := by
  obtain ⟨u, hu, h970, h971, _, h1024⟩ := powers_of_two
  have hspacing : 0 < spacing q := spacing_pos
  have hvalue : spacing q = 2 * u := by
    rw [spacing, h, ← h971, ← zpow_ofNat]
    rfl
  have hround : rounded q < 2 ^ 1024 ↔ roundEven (|q| / spacing q) < 2 ^ 53 := by
    have hcast : (2 : ℚ) ^ 54 * u / (2 * u) = ((2 ^ 53 : ℤ) : ℚ) := by
      push_cast
      rw [div_eq_iff (mul_pos two_pos hu).ne']
      ring
    rw [rounded, ← lt_div_iff₀ hspacing, hvalue, h1024, hcast, Int.cast_lt]
  have hhalf : |q| < 2 ^ 1024 - 2 ^ 970 ↔ |q| / spacing q < ((2 ^ 53 : ℤ) : ℚ) - 1 / 2 := by
    have hcut : (((2 ^ 53 : ℤ) : ℚ) - 1 / 2) * (2 * u) = 2 ^ 54 * u - u := by
      push_cast
      ring
    rw [div_lt_iff₀ hspacing, hvalue, h1024, h970, hcut]
  rw [hround, hhalf]
  refine ⟨fun hlt => ?_, roundEven_lt⟩
  by_contra hge
  exact absurd (le_roundEven_of_even (by norm_num) (not_lt.mp hge)) (not_le.mpr hlt)

/-- Past the top binade nothing is rounded back into it. -/
theorem le_rounded_of_lt_log (h : 1023 < Int.log 2 |q|) :
    2 ^ 1024 ≤ |q| ∧ 2 ^ 1024 ≤ rounded q := by
  have hspacing : 0 < spacing q := spacing_pos
  have hpos := log_zero_lt (by decide : (0 : ℤ) < 1024) (Int.add_one_le_of_lt h)
  have habove : (2 : ℚ) ^ Int.log 2 |q| ≤ |q| := by
    exact_mod_cast Int.zpow_log_le_self (by decide : 1 < 2) hpos
  have hlarge : (2 : ℚ) ^ 1024 ≤ 2 ^ Int.log 2 |q| := by
    rw [← zpow_ofNat]
    exact zpow_le_zpow_right₀ (by norm_num) (Int.add_one_le_of_lt h)
  have hpow : ((2 ^ 52 : ℤ) : ℚ) * spacing q = 2 ^ Int.log 2 |q| := by
    have hcast : ((2 ^ 52 : ℤ) : ℚ) = 2 ^ (52 : ℤ) := by norm_num
    rw [spacing, max_eq_left (by omega), hcast, ← zpow_add₀ (by norm_num)]
    congr 1
    omega
  have hround : 2 ^ 52 ≤ roundEven (|q| / spacing q) := by
    refine le_roundEven ?_
    rw [le_div_iff₀ hspacing, hpow]
    exact habove
  have hle : (2 : ℚ) ^ Int.log 2 |q| ≤ rounded q := by
    rw [rounded, ← hpow]
    exact mul_le_mul_of_nonneg_right (Int.cast_le.mpr hround) hspacing.le
  exact ⟨hlarge.trans habove, hlarge.trans hle⟩

/-- What is rounded to a double is what lies less than half way past the largest one. -/
theorem rounded_lt_iff : rounded q < 2 ^ 1024 ↔ |q| < 2 ^ 1024 - 2 ^ 970 := by
  obtain ⟨u, hu, h970, _, h1023, h1024⟩ := powers_of_two
  rcases lt_trichotomy (Int.log 2 |q|) 1023 with hlt | heq | hgt
  · obtain ⟨hq, hle⟩ := rounded_le_of_log_lt hlt
    rw [h1023] at hle hq
    rw [h1024, h970]
    constructor
    · intro
      linarith only [hq, hu]
    · intro
      linarith only [hle, hu]
  · exact rounded_lt_iff_of_log_eq heq
  · obtain ⟨hq, hle⟩ := le_rounded_of_lt_log hgt
    refine iff_of_false (not_lt.mpr hle) (not_lt.mpr ?_)
    rw [h970]
    exact (sub_le_self _ hu.le).trans hq

end Rounding

section Arithmetic

/-- `float(n)`, of a number a double comes near to. -/
def ofInt (n : ℤ) : Option ℚ :=
  match nearest n with
  | .finite value => some value
  | .inf _ | .nan => none

def neg : Float64 → Float64
  | .finite v => .finite (-v)
  | .inf negative => .inf !negative
  | .nan => .nan

def add : Float64 → Float64 → Float64
  | .finite v, .finite w => nearest (v + w)
  | .nan, _ | _, .nan => .nan
  | .inf negative, .inf negative' => if negative = negative' then .inf negative else .nan
  | .inf negative, .finite _ | .finite _, .inf negative => .inf negative

def sub (x y : Float64) : Float64 := add x (neg y)

def mul : Float64 → Float64 → Float64
  | .finite v, .finite w => nearest (v * w)
  | .nan, _ | _, .nan => .nan
  | .inf negative, .inf negative' => .inf (negative ^^ negative')
  | .inf negative, .finite v | .finite v, .inf negative =>
    if v = 0 then .nan else .inf (negative ^^ decide (v < 0))

/-- `fabs(x) < fabs(y)` -/
def absLt : Float64 → Float64 → Bool
  | .finite v, .finite w => |v| < |w|
  | .finite _, .inf _ => true
  | .inf _, _ | .nan, _ | .finite _, .nan => false

/-- `x < 0.0` -/
def isNeg : Float64 → Bool
  | .finite v => v < 0
  | .inf negative => negative
  | .nan => false

/-- `x > 0.0` -/
def isPos (x : Float64) : Bool := (neg x).isNeg

theorem nearest_ne_inf_neg {q : ℚ} (h : 0 ≤ q) : nearest q ≠ .inf true := by
  unfold nearest
  rw [decide_eq_false (not_lt.mpr h)]
  split <;> exact nofun

theorem ofInt_eq_none_iff {n : ℤ} : ofInt n = none ↔ 2 ^ 1024 - 2 ^ 970 ≤ |n| := by
  have hcast : |(n : ℚ)| < 2 ^ 1024 - 2 ^ 970 ↔ |n| < 2 ^ 1024 - 2 ^ 970 := by
    rw [← Int.cast_abs, ← Int.cast_lt (R := ℚ), Int.cast_sub, Int.cast_pow, Int.cast_pow,
      Int.cast_ofNat]
  rw [← not_lt, ← hcast, ← rounded_lt_iff]
  unfold ofInt nearest
  split_ifs with h <;> simp [h]

theorem mul_self_ne_inf_neg (v : ℚ) : mul (.finite v) (.finite v) ≠ .inf true :=
  nearest_ne_inf_neg (mul_self_nonneg v)

end Arithmetic

section Summing

/-! `math.fsum`, over the partial sums that hold what rounding loses. -/

inductive SumError
  /-- intermediate overflow in fsum -/
  | overflow
  /-- -inf + inf in fsum -/
  | infinities
  deriving DecidableEq

/-- The partial sums from the least, the sum of what is not finite, and of the infinities. -/
structure Sums where
  partials : List Float64 := []
  special : Float64 := .finite 0
  infs : Float64 := .finite 0

/-- Adds into the partial sums from the least: the carry past the last, and what is left of each. -/
def carry : Float64 → List Float64 → Float64 × List Float64
  | x, [] => (x, [])
  | x, y :: partials =>
    let (x, y) := if absLt x y then (y, x) else (x, y)
    let hi := add x y
    let lo := sub y (sub hi x)
    let (total, kept) := carry hi partials
    (total, if lo = .finite 0 then kept else lo :: kept)

def absorb (s : Sums) (x : Float64) : Except SumError Sums :=
  let (total, kept) := carry x s.partials
  match total with
  | .finite v =>
    .ok { s with partials := if v = 0 then kept else kept ++ [total] }
  | .inf _ | .nan =>
    match x with
    | .finite _ => .error .overflow
    | .inf _ => .ok { partials := [], special := add s.special x, infs := add s.infs x }
    | .nan => .ok { partials := [], special := add s.special x, infs := s.infs }

/-- Rounds half to even across the partial sums below. -/
def settle (hi lo : Float64) : List Float64 → Float64
  | [] => hi
  | p :: _ =>
    if lo.isNeg && p.isNeg || lo.isPos && p.isPos then
      let y := mul lo (.finite 2)
      let x := add hi y
      if y = sub x hi then x else hi
    else hi

/-- The partial sums from the greatest, added until a sum is not exact. -/
def collapse : Float64 → List Float64 → Float64
  | hi, [] => hi
  | x, y :: partials =>
    let hi := add x y
    let lo := sub y (sub hi x)
    if lo = .finite 0 then collapse hi partials else settle hi lo partials

def total (s : Sums) : Except SumError Float64 :=
  if s.special ≠ .finite 0 then
    if s.infs = .nan then .error .infinities else .ok s.special
  else
    match s.partials.reverse with
    | [] => .ok (.finite 0)
    | hi :: partials => .ok (collapse hi partials)

def fsum (items : List Float64) : Except SumError Float64 := do
  let s ← items.foldlM absorb {}
  total s

variable {items : List Float64} {s s' : Sums} {x : Float64}

/-- No infinity summed so far but the positive one. -/
def Upward (s : Sums) : Prop := s.infs ≠ .nan ∧ s.infs ≠ .inf true

theorem Upward.add_inf (hs : Upward s) : add s.infs (.inf false) = .inf false := by
  obtain ⟨hnan, hneg⟩ := hs
  match heq : s.infs with
  | .finite v => rfl
  | .inf false => rfl
  | .inf true => exact absurd heq hneg
  | .nan => exact absurd heq hnan

theorem Upward.absorb (hs : Upward s) (hx : x ≠ .inf true) :
    Meets Upward (· = .overflow) (absorb s x) := by
  unfold Float64.absorb
  split
  split
  · exact .ok hs
  all_goals
    split
    · exact .error rfl
    · next negative _ =>
      cases negative with
      | false =>
        refine .ok ?_
        unfold Upward
        rw [hs.add_inf]
        exact ⟨nofun, nofun⟩
      | true => exact absurd rfl hx
    · exact .ok hs

/-- Where no summand is `-inf`, the one error is the overflow of a partial sum. -/
theorem fsum_error (hitems : ∀ x ∈ items, x ≠ .inf true) {e : SumError}
    (h : fsum items = .error e) : e = .overflow := by
  have hfold : Meets Upward (· = .overflow) (items.foldlM Float64.absorb {}) :=
    .foldlM (fun s hs x hx => hs.absorb (hitems x hx)) ⟨nofun, nofun⟩
  have hsum : Meets (fun _ => True) (· = .overflow) (fsum items) := by
    refine hfold.bind fun s hs => ?_
    unfold total
    rw [if_neg hs.1]
    split
    · exact .ok trivial
    · split <;> exact .ok trivial
  exact hsum.of_error h

end Summing

end Float64

end Nocturne.Lib
