import Mathlib.Algebra.BigOperators.Group.List.Basic
import Mathlib.Data.List.Pairwise
import Mathlib.Algebra.Order.Group.Nat
import Mathlib.Tactic.Linarith

universe u

namespace Nocturne.Lib.Greedy

variable {α : Type u} (eligible : α → Bool) (cost : α → Nat)

/-- What one pass over a ranked list leaves: the items taken, the items left, and
the eligible items left only because they were dearer than the room then remaining. -/
structure Cut (α : Type u) where
  taken : List α
  left : List α
  dropped : List α
  room : Nat

/-- One pass over a ranked list: an eligible item that still fits is taken and paid for. -/
def pass (room : Nat) : List α → Cut α
  | [] => ⟨[], [], [], room⟩
  | a :: l =>
    if eligible a ∧ cost a ≤ room then
      let c := pass (room - cost a) l
      { c with taken := a :: c.taken }
    else
      let c := pass room l
      { c with
        left := a :: c.left
        dropped := if eligible a ∧ room < cost a then a :: c.dropped else c.dropped }

variable {eligible cost} {room : Nat} {l : List α}

@[simp] theorem pass_nil : pass eligible cost room [] = ⟨[], [], [], room⟩ := rfl

theorem pass_cons (a : α) : pass eligible cost room (a :: l) =
    if eligible a ∧ cost a ≤ room then
      let c := pass eligible cost (room - cost a) l
      { c with taken := a :: c.taken }
    else
      let c := pass eligible cost room l
      { c with
        left := a :: c.left
        dropped := if eligible a ∧ room < cost a then a :: c.dropped else c.dropped } := rfl

theorem pass_perm :
    ((pass eligible cost room l).taken ++ (pass eligible cost room l).left).Perm l := by
  induction l generalizing room with
  | nil => simp
  | cons a l ih =>
    rw [pass_cons]
    split
    · exact ih.cons a
    · exact List.perm_middle.trans (ih.cons a)

theorem taken_sublist : (pass eligible cost room l).taken.Sublist l := by
  induction l generalizing room with
  | nil => simp
  | cons a l ih =>
    rw [pass_cons]
    split
    · exact ih.cons_cons a
    · exact ih.cons a

theorem left_sublist : (pass eligible cost room l).left.Sublist l := by
  induction l generalizing room with
  | nil => simp
  | cons a l ih =>
    rw [pass_cons]
    split
    · exact ih.cons a
    · exact ih.cons_cons a

/-- The dropped items are the eligible ones among those left. -/
theorem dropped_eq : (pass eligible cost room l).dropped =
    (pass eligible cost room l).left.filter eligible := by
  induction l generalizing room with
  | nil => simp
  | cons a l ih =>
    rw [pass_cons]
    split
    · exact ih
    · next h =>
      by_cases ha : eligible a = true
      · have hr : room < cost a := by
          by_contra hle
          exact h ⟨ha, Nat.le_of_not_lt hle⟩
        simp [ha, hr, ih]
      · simp [ha, ih]

theorem room_add_cost :
    (pass eligible cost room l).room + ((pass eligible cost room l).taken.map cost).sum = room := by
  induction l generalizing room with
  | nil => simp
  | cons a l ih =>
    rw [pass_cons]
    split
    · next h =>
      have := @ih (room - cost a)
      simp only [List.map_cons, List.sum_cons]
      omega
    · exact ih

/-- Nothing is dropped exactly when all eligible items fit in the room together. -/
theorem dropped_eq_nil_iff :
    (pass eligible cost room l).dropped = [] ↔ ((l.filter eligible).map cost).sum ≤ room := by
  induction l generalizing room with
  | nil => simp
  | cons a l ih =>
    rw [pass_cons]
    by_cases ha : eligible a = true
    · by_cases hc : cost a ≤ room
      · simp only [ha, hc, and_self, ↓reduceIte, ih, List.filter_cons_of_pos, List.map_cons,
          List.sum_cons]
        omega
      · simp only [ha, hc, and_false, ↓reduceIte, List.filter_cons_of_pos, List.map_cons,
          List.sum_cons]
        simp only [Nat.lt_of_not_le hc, and_self, ↓reduceIte, reduceCtorEq, false_iff]
        omega
    · simp [ha, ih]

/-- In a list that eligible items head, the items left are the dropped ones followed by
the ineligible ones. -/
theorem left_eq_append (h : l.Pairwise fun a b => eligible b = true → eligible a = true) :
    (pass eligible cost room l).left =
      (pass eligible cost room l).dropped ++ l.filter (fun a => !eligible a) := by
  induction l generalizing room with
  | nil => simp
  | cons a l ih =>
    obtain ⟨hhead, htail⟩ := List.pairwise_cons.mp h
    rw [pass_cons]
    by_cases ha : eligible a = true
    · split
      · simpa [ha] using ih htail
      · next hc =>
        have hr : room < cost a := by
          by_contra hle
          exact hc ⟨ha, Nat.le_of_not_lt hle⟩
        simpa [ha, hr] using ih htail
    · have hnone : ∀ b ∈ l, eligible b = false := by
        intro b hb
        by_contra hb'
        exact ha (hhead b hb (by simpa using hb'))
      have hdropped : (pass eligible cost room l).dropped = [] := by
        rw [dropped_eq, List.filter_eq_nil_iff]
        intro b hb
        simp [hnone b (List.Sublist.subset left_sublist hb)]
      have := @ih room htail
      simp only [hdropped, List.nil_append] at this
      simp [ha, this, hdropped]

/-- Before an item of the list stand those with smaller keys; the item is dropped when it is
eligible and dearer than what those taken among them leave of the room. -/
theorem mem_dropped_iff {key : α → Nat} (h : l.Pairwise fun a b => key a < key b) {a : α}
    (ha : a ∈ l) : a ∈ (pass eligible cost room l).dropped ↔ eligible a = true ∧
      room - (((pass eligible cost room l).taken.filter (key · < key a)).map cost).sum <
        cost a := by
  induction l generalizing room with
  | nil => cases ha
  | cons b l ih =>
    obtain ⟨hhead, htail⟩ := List.pairwise_cons.mp h
    have hnone (room : Nat) : (pass eligible cost room l).taken.filter (key · < key b) = [] := by
      refine List.filter_eq_nil_iff.mpr fun c hc hlt => ?_
      have hgt := hhead c (List.Sublist.subset taken_sublist hc)
      have hlt := of_decide_eq_true hlt
      omega
    have hfresh (room : Nat) : b ∉ (pass eligible cost room l).dropped := by
      intro hb
      rw [dropped_eq] at hb
      exact lt_irrefl _ (hhead b (List.Sublist.subset left_sublist (List.mem_of_mem_filter hb)))
    rw [pass_cons]
    rcases List.mem_cons.mp ha with rfl | ha
    · split
      · next hfits =>
        simp only [hfresh, false_iff, not_and, List.filter_cons, lt_irrefl, decide_false,
          Bool.false_eq_true, ↓reduceIte, hnone]
        simpa using fun _ => hfits.2
      · simp only [hnone, List.map_nil, List.sum_nil, Nat.sub_zero]
        split
        · next hcut => simpa using hcut
        · next hcut => simpa [hfresh] using hcut
    · have hlt := hhead a ha
      have hne : a ≠ b := by
        rintro rfl
        exact lt_irrefl _ hlt
      split
      · simp only [ih htail ha, List.filter_cons, hlt, decide_true, ↓reduceIte, List.map_cons,
          List.sum_cons, Nat.sub_sub]
      · simp only
        split
        · rw [List.mem_cons, or_iff_right hne, ih htail ha]
        · exact ih htail ha

end Nocturne.Lib.Greedy
