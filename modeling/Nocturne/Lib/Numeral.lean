import Mathlib.Algebra.Ring.Nat
import Mathlib.Data.List.Induction
import Mathlib.Data.List.Lex
import Mathlib.Tactic.Ring

universe u

namespace Nocturne.Lib

/-! Numerals of a fixed width, the most significant digit first. -/

/-- The last `k` digits of `v`. -/
def numeral (b : ℕ) : ℕ → ℕ → List ℕ
  | 0, _ => []
  | k + 1, v => numeral b k (v / b) ++ [v % b]

/-- The number digits stand for. -/
def numeralValue (b : ℕ) (digits : List ℕ) : ℕ := digits.foldl (fun v d => v * b + d) 0

variable {b k v w : ℕ} {digits : List ℕ}

@[simp] theorem numeral_zero : numeral b 0 v = [] := rfl

theorem numeral_succ : numeral b (k + 1) v = numeral b k (v / b) ++ [v % b] := rfl

@[simp] theorem length_numeral : (numeral b k v).length = k := by
  induction k generalizing v with
  | zero => rfl
  | succ k ih => rw [numeral_succ, List.length_append, ih, List.length_singleton]

theorem numeral_lt (hb : 0 < b) : ∀ d ∈ numeral b k v, d < b := by
  induction k generalizing v with
  | zero => simp
  | succ k ih =>
    intro d hd
    rw [numeral_succ, List.mem_append, List.mem_singleton] at hd
    rcases hd with hd | rfl
    · exact ih d hd
    · exact Nat.mod_lt v hb

theorem numeralValue_concat (digits : List ℕ) (d : ℕ) :
    numeralValue b (digits ++ [d]) = numeralValue b digits * b + d := by
  simp [numeralValue]

theorem numeralValue_cons (d : ℕ) (digits : List ℕ) :
    numeralValue b (d :: digits) = d * b ^ digits.length + numeralValue b digits := by
  induction digits using List.reverseRecOn with
  | nil => simp [numeralValue]
  | append_singleton digits e ih =>
    rw [← List.cons_append, numeralValue_concat, ih, numeralValue_concat, List.length_append,
      List.length_singleton, pow_succ]
    ring

/-- A number is read back from its digits. -/
theorem numeralValue_numeral (h : v < b ^ k) : numeralValue b (numeral b k v) = v := by
  induction k generalizing v with
  | zero =>
    rw [pow_zero, Nat.lt_one_iff] at h
    subst h
    rfl
  | succ k ih =>
    rw [numeral_succ, numeralValue_concat, ih, Nat.mul_comm, Nat.div_add_mod]
    rw [pow_succ'] at h
    exact Nat.div_lt_of_lt_mul h

/-- Digits are those of the number they stand for. -/
theorem numeral_numeralValue (h : ∀ d ∈ digits, d < b) :
    numeral b digits.length (numeralValue b digits) = digits := by
  induction digits using List.reverseRecOn with
  | nil => rfl
  | append_singleton digits d ih =>
    have hd : d < b := h d (by simp)
    rw [List.length_append, List.length_singleton, numeral_succ, numeralValue_concat, Nat.mul_comm,
      Nat.mul_add_div (by omega), Nat.div_eq_of_lt hd, Nat.add_zero,
      Nat.mul_add_mod_self_left, Nat.mod_eq_of_lt hd,
      ih fun d hd => h d (List.mem_append_left _ hd)]

theorem numeralValue_lt (h : ∀ d ∈ digits, d < b) :
    numeralValue b digits < b ^ digits.length := by
  induction digits using List.reverseRecOn with
  | nil => simp [numeralValue]
  | append_singleton digits d ih =>
    have hprefix := ih fun d hd => h d (List.mem_append_left _ hd)
    have hd : d < b := h d (by simp)
    rw [numeralValue_concat, List.length_append, List.length_singleton, pow_succ]
    calc numeralValue b digits * b + d
        < numeralValue b digits * b + b := by omega
      _ = (numeralValue b digits + 1) * b := by rw [Nat.succ_mul]
      _ ≤ b ^ digits.length * b := Nat.mul_le_mul_right b hprefix

theorem concat_lt_concat {α : Type u} [LinearOrder α] {l l' : List α} {a a' : α}
    (h : l.length = l'.length) : l ++ [a] < l' ++ [a'] ↔ l < l' ∨ l = l' ∧ a < a' := by
  induction l generalizing l' with
  | nil =>
    obtain rfl := List.length_eq_zero_iff.mp h.symm
    simp [List.cons_lt_cons_iff]
  | cons c l ih =>
    obtain ⟨c', l', rfl⟩ := List.exists_cons_of_length_eq_add_one h.symm
    rw [List.cons_append, List.cons_append, List.cons_lt_cons_iff, List.cons_lt_cons_iff,
      ih (by simpa using h), List.cons.injEq]
    tauto

/-- Numerals are ordered as the numbers are. -/
theorem numeral_lt_numeral (hv : v < b ^ k) (hw : w < b ^ k) :
    numeral b k v < numeral b k w ↔ v < w := by
  induction k generalizing v w with
  | zero => simp_all
  | succ k ih =>
    rw [pow_succ'] at hv hw
    have hv' := Nat.div_lt_of_lt_mul hv
    have hw' := Nat.div_lt_of_lt_mul hw
    rw [numeral_succ, numeral_succ, concat_lt_concat (by simp), ih hv' hw']
    have hsame : numeral b k (v / b) = numeral b k (w / b) ↔ v / b = w / b := by
      refine ⟨fun h => ?_, fun h => by rw [h]⟩
      rw [← numeralValue_numeral hv', h, numeralValue_numeral hw']
    rw [hsame]
    have hvsplit := Nat.div_add_mod v b
    have hwsplit := Nat.div_add_mod w b
    constructor
    · rintro (hlt | ⟨heq, hlt⟩)
      · exact Nat.lt_of_div_lt_div hlt
      · rw [← hvsplit, ← hwsplit, heq]
        omega
    · intro hlt
      rcases Nat.lt_or_ge (v / b) (w / b) with hdiv | hdiv
      · exact .inl hdiv
      · have heq : v / b = w / b := le_antisymm (Nat.div_le_div_right hlt.le) hdiv
        refine .inr ⟨heq, ?_⟩
        rw [← hvsplit, ← hwsplit, heq] at hlt
        omega

/-- A strictly increasing alphabet keeps the order of words. -/
theorem map_lt_map {α : Type u} [LinearOrder α] {f : ℕ → α} {l l' : List ℕ}
    (hf : ∀ a ∈ l, ∀ c ∈ l', a < c ↔ f a < f c) (hinj : ∀ a ∈ l, ∀ c ∈ l', f a = f c → a = c)
    (h : l.length = l'.length) : l.map f < l'.map f ↔ l < l' := by
  induction l generalizing l' with
  | nil =>
    obtain rfl := List.length_eq_zero_iff.mp h.symm
    simp
  | cons a l ih =>
    obtain ⟨c, l', rfl⟩ := List.exists_cons_of_length_eq_add_one h.symm
    rw [List.map_cons, List.map_cons, List.cons_lt_cons_iff, List.cons_lt_cons_iff,
      ih (fun a ha c hc => hf a (by simp [ha]) c (by simp [hc]))
        (fun a ha c hc => hinj a (by simp [ha]) c (by simp [hc])) (by simpa using h),
      hf a (by simp) c (by simp)]
    have hsame : f a = f c ↔ a = c :=
      ⟨hinj a (by simp) c (by simp), fun h => congrArg f h⟩
    rw [hsame]

end Nocturne.Lib
