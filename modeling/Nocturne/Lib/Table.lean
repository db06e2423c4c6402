import Mathlib.Data.List.Nodup
import Mathlib.Data.List.Lemmas

universe u v

namespace Nocturne.Lib

/-- Rows in insertion order under a primary key: no two rows share a key. -/
structure Table (κ : Type u) (ρ : Type v) (key : ρ → κ) where
  rows : List ρ
  nodup : (rows.map key).Nodup

namespace Table

variable {κ : Type u} {ρ : Type v} {key : ρ → κ}

@[ext] theorem ext {t u : Table κ ρ key} (h : t.rows = u.rows) : t = u := by
  cases t
  cases u
  cases h
  rfl

def empty : Table κ ρ key := ⟨[], by simp⟩

/-- The one row of its kind is all a filter for that kind finds. -/
theorem filter_eq_singleton {t : Table κ ρ key} {r : ρ} {P : ρ → Prop} [DecidablePred P]
    (hr : r ∈ t.rows) (hP : P r) (hone : ∀ r' ∈ t.rows, P r' → r' = r) :
    t.rows.filter (fun r' => P r') = [r] := by
  have hnodup : t.rows.Nodup := .of_map key t.nodup
  rw [← List.perm_singleton, List.perm_ext_iff_of_nodup (hnodup.filter _) (List.nodup_singleton r)]
  intro r'
  rw [List.mem_filter, List.mem_singleton, decide_eq_true_eq]
  constructor
  · exact fun h => hone r' h.1 h.2
  · rintro rfl
    exact ⟨hr, hP⟩

/-- At most one row of a kind: a filter for that kind finds at most one. -/
theorem length_filter_le_one {t : Table κ ρ key} {P : ρ → Prop} [DecidablePred P]
    (hone : ∀ r ∈ t.rows, ∀ r' ∈ t.rows, P r → P r' → r = r') :
    (t.rows.filter fun r => P r).length ≤ 1 := by
  cases h : t.rows.filter fun r => P r with
  | nil => simp
  | cons r l =>
    have hr : r ∈ t.rows.filter fun r => P r := h ▸ List.mem_cons_self
    rw [List.mem_filter, decide_eq_true_eq] at hr
    rw [← h, filter_eq_singleton hr.1 hr.2 fun r' hr' hP => hone r' hr' r hr.1 hP hr.2]
    simp

section Lookup

variable [DecidableEq κ]

def get? (t : Table κ ρ key) (k : κ) : Option ρ := t.rows.find? (key · = k)

@[simp] theorem get?_empty (k : κ) : (empty : Table κ ρ key).get? k = none := rfl

theorem key_of_get? {t : Table κ ρ key} {k : κ} {r : ρ} (h : t.get? k = some r) : key r = k := by
  simpa using List.find?_some h

theorem mem_of_get? {t : Table κ ρ key} {k : κ} {r : ρ} (h : t.get? k = some r) : r ∈ t.rows :=
  List.mem_of_find?_eq_some h

theorem get?_of_mem {t : Table κ ρ key} {r : ρ} (h : r ∈ t.rows) : t.get? (key r) = some r := by
  obtain ⟨rows, nodup⟩ := t
  simp only [get?] at h ⊢
  induction rows with
  | nil => simp at h
  | cons a rows ih =>
    simp only [List.map_cons, List.nodup_cons] at nodup
    rcases List.mem_cons.mp h with rfl | h
    · simp
    · have hne : key a ≠ key r := fun e => nodup.1 (e ▸ List.mem_map_of_mem h)
      simp only [List.find?_cons, hne, decide_false]
      exact ih nodup.2 h

theorem get?_eq_some_iff {t : Table κ ρ key} {k : κ} {r : ρ} :
    t.get? k = some r ↔ r ∈ t.rows ∧ key r = k := by
  constructor
  · exact fun h => ⟨mem_of_get? h, key_of_get? h⟩
  · rintro ⟨h, rfl⟩
    exact get?_of_mem h

theorem get?_eq_none_iff {t : Table κ ρ key} {k : κ} :
    t.get? k = none ↔ ∀ r ∈ t.rows, key r ≠ k := by
  simp [get?]

/-- Append a row whose key is new. -/
def insert (t : Table κ ρ key) (r : ρ) (h : t.get? (key r) = none) : Table κ ρ key where
  rows := t.rows ++ [r]
  nodup := by
    rw [List.map_append, List.map_singleton, List.nodup_append]
    refine ⟨t.nodup, by simp, ?_⟩
    intro a ha b hb
    obtain ⟨r', hr', rfl⟩ := List.mem_map.mp ha
    rw [List.mem_singleton.mp hb]
    exact get?_eq_none_iff.mp h r' hr'

/-- Append a row, or fail on a key already taken. -/
def insert? (t : Table κ ρ key) (r : ρ) : Option (Table κ ρ key) :=
  if h : t.get? (key r) = none then some (t.insert r h) else none

/-- Rewrite the row under `k`; `f` keeps the key. -/
def modify (t : Table κ ρ key) (k : κ) (f : ρ → ρ) (hf : ∀ r, key (f r) = key r) :
    Table κ ρ key where
  rows := t.rows.map fun r => if key r = k then f r else r
  nodup := by
    have : (t.rows.map fun r => if key r = k then f r else r).map key = t.rows.map key := by
      rw [List.map_map]
      apply List.map_congr_left
      intro r _
      by_cases h : key r = k <;> simp [h, hf]
    rw [this]
    exact t.nodup

variable {t u : Table κ ρ key} {r : ρ}

@[simp] theorem rows_insert {h : t.get? (key r) = none} :
    (t.insert r h).rows = t.rows ++ [r] := rfl

theorem get?_insert {h : t.get? (key r) = none} (k : κ) :
    (t.insert r h).get? k = if k = key r then some r else t.get? k := by
  simp only [get?, rows_insert, List.find?_append]
  by_cases hk : k = key r
  · subst hk
    simp only [get?] at h
    simp [h]
  · have hk' : key r ≠ k := fun e => hk e.symm
    simp [hk, hk']

theorem get?_insert_self {h : t.get? (key r) = none} : (t.insert r h).get? (key r) = some r := by
  simp [get?_insert]

theorem get?_insert_of_ne {h : t.get? (key r) = none} {k : κ} (hk : k ≠ key r) :
    (t.insert r h).get? k = t.get? k := by
  simp [get?_insert, hk]

/-- A row read before an insertion reads the same after it. -/
theorem get?_insert_of_some {h : t.get? (key r) = none} {k : κ} {a : ρ} (hk : t.get? k = some a) :
    (t.insert r h).get? k = some a := by
  rw [get?_insert_of_ne, hk]
  rintro rfl
  simp [h] at hk

theorem insert?_eq_some : t.insert? r = some u ↔ ∃ h, u = t.insert r h := by
  unfold insert?
  split
  · next h => simp [h, eq_comm]
  · next h => simp [h]

theorem insert?_of_get?_none (h : t.get? (key r) = none) : t.insert? r = some (t.insert r h) := by
  simp [insert?, h]

/-- Append rows in one statement, or fail on a key taken twice. -/
def insertAll? (t : Table κ ρ key) (rs : List ρ) : Option (Table κ ρ key) :=
  if h : ((t.rows ++ rs).map key).Nodup then some ⟨t.rows ++ rs, h⟩ else none

theorem insertAll?_eq_some {rs : List ρ} : t.insertAll? rs = some u ↔ u.rows = t.rows ++ rs := by
  unfold insertAll?
  split
  · next h =>
    rw [Option.some.injEq]
    constructor
    · rintro rfl
      rfl
    · intro hrows
      exact Table.ext hrows.symm
  · next h =>
    constructor
    · intro hnone
      cases hnone
    · intro hrows
      exact absurd (hrows ▸ u.nodup) h

variable {k : κ} {f : ρ → ρ} {hf : ∀ r, key (f r) = key r}

@[simp] theorem rows_modify :
    (t.modify k f hf).rows = t.rows.map fun r => if key r = k then f r else r := rfl

theorem mem_modify {r' : ρ} :
    r' ∈ (t.modify k f hf).rows ↔ ∃ r ∈ t.rows, (if key r = k then f r else r) = r' := by
  simp

theorem get?_modify (k' : κ) :
    (t.modify k f hf).get? k' = if k' = k then (t.get? k').map f else t.get? k' := by
  simp only [get?, rows_modify, List.find?_map]
  have hkey : ((fun r => decide (key r = k')) ∘ fun r => if key r = k then f r else r) =
      fun r => decide (key r = k') := by
    funext r
    by_cases h : key r = k <;> simp [h, hf]
  rw [hkey]
  by_cases hk : k' = k
  · subst hk
    simp only [↓reduceIte]
    cases hr : t.rows.find? fun r => decide (key r = k') with
    | none => simp
    | some r =>
      have : key r = k' := by simpa using List.find?_some hr
      simp [this]
  · simp only [hk, ↓reduceIte]
    cases hr : t.rows.find? fun r => decide (key r = k') with
    | none => simp
    | some r =>
      have : key r = k' := by simpa using List.find?_some hr
      simp [this, hk]

theorem get?_modify_self : (t.modify k f hf).get? k = (t.get? k).map f := by
  simp [get?_modify]

theorem get?_modify_of_ne {k' : κ} (h : k' ≠ k) : (t.modify k f hf).get? k' = t.get? k' := by
  simp [get?_modify, h]

/-- Insert the row, or rewrite the one its key already has. -/
def upsert (t : Table κ ρ key) (r : ρ) (f : ρ → ρ) (hf : ∀ r, key (f r) = key r) :
    Table κ ρ key :=
  if h : t.get? (key r) = none then t.insert r h else t.modify (key r) f hf

theorem get?_upsert (k' : κ) : (t.upsert r f hf).get? k' =
    if k' = key r then some (((t.get? k').map f).getD r) else t.get? k' := by
  unfold upsert
  split
  · next h =>
    rw [get?_insert]
    split
    · next hk => simp [hk, h]
    · rfl
  · next h =>
    obtain ⟨old, hold⟩ := Option.ne_none_iff_exists'.mp h
    rw [get?_modify]
    split
    · next hk => simp [hk, hold]
    · rfl

/-- Drop the row under `k`, if there is one. -/
def erase (t : Table κ ρ key) (k : κ) : Table κ ρ key where
  rows := t.rows.filter fun r => key r ≠ k
  nodup := t.nodup.sublist (List.filter_sublist.map key)

theorem get?_erase (k' : κ) : (t.erase k).get? k' = if k' = k then none else t.get? k' := by
  split
  · next hk =>
    rw [get?_eq_none_iff]
    intro r hr
    simpa [hk] using (List.mem_filter.mp hr).2
  · next hk =>
    ext r
    simp only [get?_eq_some_iff, erase, List.mem_filter, decide_eq_true_eq]
    constructor
    · exact fun h => ⟨h.1.1, h.2⟩
    · exact fun h => ⟨⟨h.1, h.2 ▸ hk⟩, h.2⟩

/-- Insert the row unless its key is taken. -/
def insertNew (t : Table κ ρ key) (r : ρ) : Table κ ρ key :=
  if h : t.get? (key r) = none then t.insert r h else t

theorem mem_insertNew {r' : ρ} :
    r' ∈ (t.insertNew r).rows ↔ r' ∈ t.rows ∨ r' = r ∧ t.get? (key r) = none := by
  unfold insertNew
  split
  · next h => simp [h]
  · next h => simp [h]

theorem exists_insertNew (t : Table κ ρ key) (r : ρ) :
    ∃ r' ∈ (t.insertNew r).rows, key r' = key r := by
  by_cases h : t.get? (key r) = none
  · exact ⟨r, mem_insertNew.2 (.inr ⟨rfl, h⟩), rfl⟩
  · obtain ⟨old, hold⟩ := Option.ne_none_iff_exists'.mp h
    exact ⟨old, mem_insertNew.2 (.inl (mem_of_get? hold)), key_of_get? hold⟩

/-- Rows that agree on their key are one row. -/
theorem eq_of_key_eq {r' : ρ} (hr : r ∈ t.rows) (hr' : r' ∈ t.rows) (h : key r = key r') :
    r = r' := by
  have hget := get?_of_mem hr
  rw [h, get?_of_mem hr'] at hget
  exact (Option.some.inj hget).symm

end Lookup

/-- Rows meeting `P` are added at the end. -/
def Adds (P : ρ → Prop) (t u : Table κ ρ key) : Prop :=
  ∃ rows, u.rows = t.rows ++ rows ∧ ∀ r ∈ rows, P r

namespace Adds

variable {P Q : ρ → Prop} {t u v : Table κ ρ key}

theorem refl (P : ρ → Prop) (t : Table κ ρ key) : Adds P t t := ⟨[], by simp⟩

theorem trans (htu : Adds P t u) (huv : Adds P u v) : Adds P t v := by
  obtain ⟨rows, hu, hrows⟩ := htu
  obtain ⟨rows', hv, hrows'⟩ := huv
  refine ⟨rows ++ rows', by rw [hv, hu, List.append_assoc], fun r hr => ?_⟩
  exact (List.mem_append.mp hr).elim (hrows r) (hrows' r)

theorem mono (h : Adds P t u) (hPQ : ∀ r, P r → Q r) : Adds Q t u :=
  h.imp fun _ ⟨hu, hrows⟩ => ⟨hu, fun r hr => hPQ r (hrows r hr)⟩

theorem insertNew [DecidableEq κ] {r : ρ} (hr : P r) : Adds P t (t.insertNew r) := by
  unfold Table.insertNew
  split
  · exact ⟨[r], rfl, by simpa using hr⟩
  · exact .refl P t

theorem isPrefix (h : Adds P t u) : t.rows <+: u.rows := by
  obtain ⟨rows, hu, _⟩ := h
  exact ⟨rows, hu.symm⟩

theorem mem (h : Adds P t u) {r : ρ} (hr : r ∈ t.rows) : r ∈ u.rows := h.isPrefix.subset hr

theorem cases (h : Adds P t u) {r : ρ} (hr : r ∈ u.rows) : r ∈ t.rows ∨ P r := by
  obtain ⟨rows, hu, hrows⟩ := h
  rw [hu, List.mem_append] at hr
  exact hr.imp_right (hrows r)

/-- A loop that adds rows of one kind at each turn. -/
theorem foldl {α : Type*} {f : Table κ ρ key → α → Table κ ρ key} {l : List α}
    (hf : ∀ t, ∀ a ∈ l, Adds P t (f t a)) (t : Table κ ρ key) : Adds P t (l.foldl f t) := by
  induction l generalizing t with
  | nil => exact .refl P t
  | cons a l ih =>
    exact (hf t a List.mem_cons_self).trans
      (ih (fun t b hb => hf t b (List.mem_cons_of_mem a hb)) (f t a))

/-- Where each turn leaves what it was for, the loop leaves it all. -/
theorem foldl_exists {α : Type*} {f : Table κ ρ key → α → Table κ ρ key} {l : List α}
    {H : α → Prop} {Q : α → ρ → Prop} (hf : ∀ t, ∀ a ∈ l, Adds P t (f t a))
    (hQ : ∀ t, ∀ a ∈ l, H a → ∃ r ∈ (f t a).rows, Q a r) (t : Table κ ρ key) {a : α}
    (ha : a ∈ l) (hH : H a) : ∃ r ∈ (l.foldl f t).rows, Q a r := by
  induction l generalizing t with
  | nil => cases ha
  | cons b l ih =>
    have hrest : ∀ t, ∀ a ∈ l, Adds P t (f t a) := fun t a ha => hf t a (List.mem_cons_of_mem b ha)
    rw [List.foldl_cons]
    rcases List.mem_cons.mp ha with rfl | ha
    · obtain ⟨r, hr, hQr⟩ := hQ t a List.mem_cons_self hH
      exact ⟨r, (foldl hrest _).mem hr, hQr⟩
    · exact ih hrest (fun t a ha => hQ t a (List.mem_cons_of_mem b ha)) (f t b) ha

end Adds

instance [DecidableEq ρ] : DecidableEq (Table κ ρ key) := fun t u =>
  decidable_of_iff (t.rows = u.rows) ⟨ext, fun h => h ▸ rfl⟩

end Table

end Nocturne.Lib
