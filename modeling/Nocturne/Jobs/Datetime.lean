import Mathlib.Algebra.Order.Ring.Nat
import Mathlib.Data.List.Basic
import Mathlib.Order.Lattice

namespace Nocturne.Jobs

/-- An aware `datetime` in UTC. -/
structure Datetime where
  year : Nat
  month : Nat
  day : Nat
  hour : Nat
  minute : Nat
  second : Nat
  microsecond : Nat
  year_lt : year < 10000
  month_lt : month < 13
  day_lt : day < 32
  hour_lt : hour < 24
  minute_lt : minute < 60
  second_lt : second < 60
  microsecond_lt : microsecond < 1000000
  deriving DecidableEq

namespace Datetime

/-- The fields as the digits of one number. -/
def ordinal (t : Datetime) : Nat :=
  (((((t.year * 13 + t.month) * 32 + t.day) * 24 + t.hour) * 60 + t.minute) * 60 + t.second) *
    1000000 + t.microsecond

theorem ordinal_injective : Function.Injective ordinal := by
  intro t u h
  obtain ⟨y, mo, d, h, mi, s, us, hy, hmo, hd, hh, hmi, hs, hus⟩ := t
  obtain ⟨y', mo', d', h', mi', s', us', hy', hmo', hd', hh', hmi', hs', hus'⟩ := u
  simp only [ordinal] at h
  simp only [mk.injEq]
  omega

/-- Later fields only break the ties of earlier ones. -/
instance : LinearOrder Datetime := .lift' ordinal ordinal_injective

theorem lt_iff {t u : Datetime} : t < u ↔ t.ordinal < u.ordinal := Iff.rfl

/-- `k` in decimal, zero-padded to `width` digits. -/
def padded : Nat → Nat → List Char
  | 0, _ => []
  | width + 1, k => padded width (k / 10) ++ [Nat.digitChar (k % 10)]

theorem length_padded (width k : Nat) : (padded width k).length = width := by
  induction width generalizing k with
  | zero => rfl
  | succ width ih => simp [padded, ih]

theorem digitChar_inj {a b : Nat} (ha : a < 10) (hb : b < 10)
    (h : Nat.digitChar a = Nat.digitChar b) : a = b := by
  have hcode := congrArg Char.toNat h
  rw [Nat.toNat_digitChar_of_lt_ten ha, Nat.toNat_digitChar_of_lt_ten hb] at hcode
  omega

theorem padded_inj {width a b : Nat} (ha : a < 10 ^ width) (hb : b < 10 ^ width)
    (h : padded width a = padded width b) : a = b := by
  induction width generalizing a b with
  | zero => omega
  | succ width ih =>
    simp only [padded] at h
    obtain ⟨hinit, hlast⟩ := List.append_inj h (by simp [length_padded])
    rw [Nat.pow_succ] at ha hb
    have hquot : a / 10 = b / 10 :=
      ih (Nat.div_lt_of_lt_mul (by omega)) (Nat.div_lt_of_lt_mul (by omega)) hinit
    have hrem : a % 10 = b % 10 :=
      digitChar_inj (Nat.mod_lt _ (by omega)) (Nat.mod_lt _ (by omega)) (by simpa using hlast)
    omega

/-- `datetime.isoformat`: microseconds only where there are any. -/
def isoformat (t : Datetime) : String :=
  .ofList (padded 4 t.year ++ '-' :: padded 2 t.month ++ '-' :: padded 2 t.day ++
    'T' :: padded 2 t.hour ++ ':' :: padded 2 t.minute ++ ':' :: padded 2 t.second ++
    (if t.microsecond = 0 then [] else '.' :: padded 6 t.microsecond) ++
    ['+', '0', '0', ':', '0', '0'])

theorem isoformat_injective : Function.Injective isoformat := by
  intro t u h
  simp only [isoformat, String.ofList_inj, List.append_assoc, List.cons_append] at h
  obtain ⟨hyear, h⟩ := List.append_inj h (by simp only [length_padded])
  obtain ⟨hmonth, h⟩ := List.append_inj (List.cons.inj h).2 (by simp only [length_padded])
  obtain ⟨hday, h⟩ := List.append_inj (List.cons.inj h).2 (by simp only [length_padded])
  obtain ⟨hhour, h⟩ := List.append_inj (List.cons.inj h).2 (by simp only [length_padded])
  obtain ⟨hminute, h⟩ := List.append_inj (List.cons.inj h).2 (by simp only [length_padded])
  obtain ⟨hsecond, h⟩ := List.append_inj (List.cons.inj h).2 (by simp only [length_padded])
  have hmicrosecond : t.microsecond = u.microsecond := by
    -- the offset starts with another character than a fraction does
    split at h <;> split at h
    · omega
    · simp at h
    · simp at h
    · simp only [List.cons_append, List.cons.injEq, true_and] at h
      obtain ⟨hfraction, _⟩ := List.append_inj h (by simp only [length_padded])
      exact padded_inj t.microsecond_lt u.microsecond_lt hfraction
  have hpair {a b : Nat} (ha : a < 100) (hb : b < 100) (h : padded 2 a = padded 2 b) : a = b :=
    padded_inj ha hb h
  apply ordinal_injective
  rw [ordinal, ordinal, padded_inj t.year_lt u.year_lt hyear,
    hpair (t.month_lt.trans (by omega)) (u.month_lt.trans (by omega)) hmonth,
    hpair (t.day_lt.trans (by omega)) (u.day_lt.trans (by omega)) hday,
    hpair (t.hour_lt.trans (by omega)) (u.hour_lt.trans (by omega)) hhour,
    hpair (t.minute_lt.trans (by omega)) (u.minute_lt.trans (by omega)) hminute,
    hpair (t.second_lt.trans (by omega)) (u.second_lt.trans (by omega)) hsecond, hmicrosecond]

end Datetime

end Nocturne.Jobs
