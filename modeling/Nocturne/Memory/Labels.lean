import Mathlib.Data.List.Perm.Subperm
import Nocturne.Memory.Laws

namespace Nocturne

open Nocturne.Lib

/-- No two active heads of a principal carry one label. -/
def Store.Labelled (s : Store) : Prop := ∀ u ∈ s.units.rows, s.ActiveLabelFree u

namespace Store

variable {φ : Footprint} {s s' : Store}

theorem Labelled.empty (h : s.units = .empty) : s.Labelled := by
  intro u hu
  simp [h, Table.empty] at hu

theorem Labelled.congr (h : s.Labelled) (hunits : s'.units = s.units) : s'.Labelled := by
  simpa only [Labelled, ActiveLabelFree, LabelTaken, hunits] using h

/-- A new row the index admits, the others as they were or no longer there. -/
theorem Labelled.put {unit : MemoryUnit} (h : s.Labelled) (hfree : s.ActiveLabelFree unit)
    (hget : ∀ id, s'.units.get? id = if id = unit.id then some unit else s.units.get? id) :
    s'.Labelled := by
  have hrow {u : MemoryUnit} (hu : u ∈ s'.units.rows) :
      u = unit ∨ u.id ≠ unit.id ∧ u ∈ s.units.rows := by
    have hu' := Table.get?_of_mem hu
    rw [hget] at hu'
    split at hu'
    · exact .inl (Option.some.inj hu').symm
    · next hne => exact .inr ⟨hne, Table.mem_of_get? hu'⟩
  intro u hu hactive
  rintro ⟨other, hother, hne, hotherActive, hprincipal, hlabel⟩
  rcases hrow hu with rfl | ⟨hid, hu⟩ <;> rcases hrow hother with rfl | ⟨hid', hother⟩
  · exact hne rfl
  · exact hfree hactive ⟨other, hother, hne, hotherActive, hprincipal, hlabel⟩
  · exact hfree hotherActive ⟨u, hu, hid, hactive, hprincipal.symm, hlabel.symm⟩
  · exact h u hu hactive ⟨other, hother, hne, hotherActive, hprincipal, hlabel⟩

theorem Write.labelled (h : Write φ s s') (hs : s.Labelled) : s'.Labelled := by
  rcases h.units_cases with ⟨command, current, _, hstep⟩ | ⟨unit, row, _, hstep⟩ | ⟨heq, _⟩
  · apply hs.put hstep.label
    intro id
    rw [hstep.get?_units, bumped_id, hstep.id_eq]
  · exact hs.put hstep.label hstep.get?_units
  · exact hs.congr heq

theorem Writes.labelled (h : Writes φ s s') : s.Labelled → s'.Labelled :=
  h.keeps Write.labelled

end Store

namespace Memory

variable {env : Env} {s : Store} {candidate : MemoryUnit}

theorem findActiveLabel_eq_none {principalId label : String} :
    findActiveLabel s principalId label = none ↔ ∀ u ∈ s.units.rows, u.principalId = principalId →
      u.label = label → u.status ≠ .active := by
  unfold findActiveLabel
  rw [List.head?_eq_none_iff, ← List.length_eq_zero_iff, List.length_insertionSort,
    List.length_eq_zero_iff, List.filter_eq_nil_iff]
  simp

section Search

theorem digits_of_ends {x y : List Char} {n m : Nat}
    (h : x ++ ' ' :: Nat.toDigits 10 n = y ++ ' ' :: Nat.toDigits 10 m) : n = m := by
  have hlast (z : List Char) (k : Nat) :
      (z ++ ' ' :: Nat.toDigits 10 k).reverse.takeWhile (· ≠ ' ') =
        (Nat.toDigits 10 k).reverse := by
    have hdigits : ∀ c ∈ (Nat.toDigits 10 k).reverse, c ≠ ' ' := by
      intro c hc
      rw [List.mem_reverse] at hc
      have := Nat.isDigit_of_mem_toDigits (by decide) (by decide) hc
      rintro rfl
      revert this
      decide
    rw [List.reverse_append, List.reverse_cons, List.append_assoc, List.takeWhile_append_of_pos]
    · simp
    · simpa using hdigits
  have hdigits := congrArg (fun l => l.reverse.takeWhile (· ≠ ' ')) h
  rw [hlast, hlast, List.reverse_inj] at hdigits
  rw [← Nat.ofDigitChars_ten_toDigits (n := n), hdigits, Nat.ofDigitChars_ten_toDigits]

/-- From the second on, an attempt ends in its own number. -/
theorem labelAttempt_ends (env : Env) (candidate : MemoryUnit) {attempt : Nat} (h : 2 ≤ attempt) :
    ∃ stem, (labelAttempt env candidate attempt).toList =
      stem ++ ' ' :: Nat.toDigits 10 attempt := by
  have hzero : attempt ≠ 0 := by omega
  have hmany : 1 < attempt := h
  have hnumber : (" " ++ toString attempt).toList = ' ' :: Nat.toDigits 10 attempt := by
    rw [String.toList_append, Nat.toString_eq_repr, Nat.toList_repr]
    rfl
  simp only [labelAttempt, hzero, hmany, ↓reduceIte, String.toList_ofList, hnumber]
  exact ⟨_, by rw [← List.append_assoc, ← List.append_assoc]⟩

theorem labelAttempt_injOn {a b : Nat} (ha : 2 ≤ a) (hb : 2 ≤ b)
    (h : labelAttempt env candidate a = labelAttempt env candidate b) : a = b := by
  obtain ⟨x, hx⟩ := labelAttempt_ends env candidate ha
  obtain ⟨y, hy⟩ := labelAttempt_ends env candidate hb
  rw [h, hy] at hx
  exact digits_of_ends hx.symm

/-- The search for a free handle ends: it tries more handles than there are other heads. -/
theorem approvalLabel_ok (env : Env) (hcandidate : candidate ∈ s.units.rows)
    (hwaiting : candidate.status ≠ .active) : ∃ label,
      approvalLabel env s candidate = .ok label ∧
        ∀ u ∈ s.units.rows, u.principalId = candidate.principalId → u.label = label →
          u.status ≠ .active := by
  cases hfind : ((List.range (s.units.rows.length + 2)).map (labelAttempt env candidate)).find?
      fun label => (findActiveLabel s candidate.principalId label).isNone with
  | some label =>
    refine ⟨label, by simp [approvalLabel, hfind], ?_⟩
    have hnone := List.find?_some hfind
    rw [Option.isNone_iff_eq_none] at hnone
    exact findActiveLabel_eq_none.mp hnone
  | none =>
    exfalso
    have htaken : ∀ attempt < s.units.rows.length + 2, ∃ u ∈ s.units.rows,
        u.status = .active ∧ u.label = labelAttempt env candidate attempt := by
      intro attempt hattempt
      have hnot := List.find?_eq_none.mp hfind _
        (List.mem_map_of_mem (List.mem_range.mpr hattempt))
      rw [Option.isNone_iff_eq_none, findActiveLabel_eq_none] at hnot
      push Not at hnot
      obtain ⟨u, hu, _, hlabel, hactive⟩ := hnot
      exact ⟨u, hu, hactive, hlabel⟩
    -- the numbered attempts are as many as the heads, and the candidate is not active
    have hnodup : ((List.range' 2 s.units.rows.length).map (labelAttempt env candidate)).Nodup := by
      apply List.Nodup.map_on _ List.nodup_range'
      intro a ha b hb
      rw [List.mem_range'_1] at ha hb
      exact labelAttempt_injOn ha.1 hb.1
    have hsubset : (List.range' 2 s.units.rows.length).map (labelAttempt env candidate) ⊆
        (s.units.rows.filter (·.status = .active)).map (·.label) := by
      intro label hlabel
      obtain ⟨attempt, hattempt, rfl⟩ := List.mem_map.mp hlabel
      rw [List.mem_range'_1] at hattempt
      obtain ⟨u, hu, hactive, hlabel⟩ := htaken attempt (by omega)
      exact List.mem_map.mpr ⟨u, by simp [hu, hactive], hlabel⟩
    have hle := (List.subperm_of_subset hnodup hsubset).length_le
    have hlt : (s.units.rows.filter (·.status = .active)).length < s.units.rows.length :=
      List.length_filter_lt_length_iff_exists.mpr ⟨candidate, hcandidate, by simpa using hwaiting⟩
    simp only [List.length_map, List.length_range'] at hle
    omega

end Search

end Memory

end Nocturne
