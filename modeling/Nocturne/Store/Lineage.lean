import Mathlib.Data.List.Chain
import Nocturne.Store.Laws

namespace Nocturne.Store

open Nocturne.Lib

/-- The revision rows of one memory, oldest first. -/
def history (s : Store) (id : Uuid) : List MemoryRevision :=
  s.revisions.rows.filter (·.memoryId = id)

/-- Every head's revision rows are numbered without gap, each hangs off the one before it,
and the newest carries the head's text. -/
structure Lineage (s : Store) : Prop where
  owned : ∀ r ∈ s.revisions.rows, (s.units.get? r.memoryId).isSome
  numbered : ∀ {id u}, s.units.get? id = some u →
    (s.history id).map (·.revision) = List.range' 1 u.revision
  linked : ∀ id, (s.history id).IsChain fun a b => b.parentUid = some a.revUid
  newest : ∀ {id u}, s.units.get? id = some u →
    (s.history id).getLast?.map (fun r => (r.body, r.label)) = some (u.body, u.label)

namespace Lineage

variable {s s' : Store} {id : Uuid} {u : MemoryUnit}

/-- A head's history ends in the row of its own revision, and no other row has that number. -/
theorem history_eq (h : s.Lineage) (hu : s.units.get? id = some u) : ∃ init last,
    s.history id = init ++ [last] ∧ last.revision = u.revision ∧
      (∀ r ∈ init, r.revision < u.revision) ∧ 1 ≤ u.revision := by
  have hnew := h.newest hu
  obtain ⟨init, last, hsplit⟩ : ∃ init last, s.history id = init ++ [last] := by
    rcases List.eq_nil_or_concat (s.history id) with hnil | ⟨init, last, hsplit⟩
    · simp [hnil] at hnew
    · exact ⟨init, last, by simpa using hsplit⟩
  have hnum := h.numbered hu
  rw [hsplit, List.map_append, List.map_singleton] at hnum
  obtain ⟨n, hn⟩ : ∃ n, u.revision = n + 1 := by
    apply Nat.exists_eq_succ_of_ne_zero
    intro hzero
    simp [hzero] at hnum
  rw [hn, List.range'_1_concat] at hnum
  obtain ⟨hinit, hlast⟩ := List.append_inj' hnum rfl
  refine ⟨init, last, hsplit, by simpa [hn, Nat.add_comm] using hlast, ?_, by omega⟩
  intro r hr
  have : r.revision ∈ List.range' 1 n := hinit ▸ List.mem_map_of_mem hr
  simp only [List.mem_range'_1] at this
  omega

/-- The parent lookup of a compare-and-set finds exactly one row, the newest. -/
theorem parentUids_eq (h : s.Lineage) (hu : s.units.get? id = some u) : ∃ init last,
    s.history id = init ++ [last] ∧ s.parentUids id u.revision = [last.revUid] := by
  obtain ⟨init, last, hsplit, hlast, hinit, _⟩ := h.history_eq hu
  refine ⟨init, last, hsplit, ?_⟩
  have hfilter : s.parentUids id u.revision =
      ((s.history id).filter (·.revision = u.revision)).map (·.revUid) := by
    simp only [parentUids, history, List.filter_filter, Bool.decide_and]
    congr 2
    funext r
    exact Bool.and_comm _ _
  have hnone : init.filter (·.revision = u.revision) = [] := by
    rw [List.filter_eq_nil_iff]
    intro r hr
    simpa using (hinit r hr).ne
  rw [hfilter, hsplit, List.filter_append, hnone]
  simp [hlast]

theorem empty (hunits : s.units = .empty) (hrevisions : s.revisions = .empty) : s.Lineage where
  owned r hr := by simp [hrevisions, Table.empty] at hr
  numbered hu := by simp [hunits] at hu
  linked id := by simp [history, hrevisions, Table.empty]
  newest hu := by simp [hunits] at hu

/-- Only heads and revision rows matter. -/
theorem congr (h : s.Lineage) (hunits : s'.units = s.units)
    (hrevisions : s'.revisions = s.revisions) : s'.Lineage := by
  obtain ⟨howned, hnumbered, hlinked, hnewest⟩ := h
  constructor <;> simpa only [history, hunits, hrevisions]

theorem history_append {r : MemoryRevision}
    (hrows : s'.revisions.rows = s.revisions.rows ++ [r]) (id : Uuid) :
    s'.history id = if r.memoryId = id then s.history id ++ [r] else s.history id := by
  unfold history
  rw [hrows, List.filter_append]
  by_cases h : r.memoryId = id <;> simp [h]

/-- Appending a row under its newest one keeps the lineage of the head it revises. -/
theorem cas {command : CasUpdate} {current : MemoryUnit} (h : s.Lineage)
    (hstep : s.CasStep command current s') : s'.Lineage := by
  obtain ⟨parentUid, revisions, hparent, hinsert, hs'⟩ := hstep.written
  obtain ⟨init, last, hsplit, hlast⟩ := h.parentUids_eq hstep.found
  have hparentUid : parentUid = last.revUid := by
    rw [hlast] at hparent
    simpa using hparent.symm
  have hrows : s'.revisions.rows =
      s.revisions.rows ++ [s.revisionOf command current parentUid] := by
    obtain ⟨_, hr⟩ := Table.insert?_eq_some.mp hinsert
    simp [hs', hr]
  have hhistory := history_append hrows
  have hown : (s.revisionOf command current parentUid).memoryId = command.memoryId := rfl
  refine ⟨?_, ?_, ?_, ?_⟩
  · intro r hr
    rw [hrows] at hr
    rw [hstep.get?_units]
    split
    · rfl
    · next hne =>
      rcases List.mem_append.mp hr with hr | hr
      · exact h.owned r hr
      · rw [List.mem_singleton.mp hr] at hne
        exact absurd hown hne
  · intro id u hu
    rw [hstep.get?_units] at hu
    rw [hhistory id, hown]
    split at hu
    · next hid =>
      subst hid
      obtain rfl := Option.some.inj hu
      rw [if_pos rfl, List.map_append, h.numbered hstep.found, bumped_revision,
        List.range'_1_concat]
      simp [revisionOf, Nat.add_comm]
    · next hid => rw [if_neg (Ne.symm hid), h.numbered hu]
  · intro id
    rw [hhistory id, hown]
    split
    · next hid =>
      subst hid
      have hchain := h.linked command.memoryId
      rw [hsplit] at hchain ⊢
      rw [List.isChain_append]
      refine ⟨hchain, .singleton _, ?_⟩
      simp [revisionOf, hparentUid]
    · exact h.linked id
  · intro id u hu
    rw [hstep.get?_units] at hu
    rw [hhistory id, hown]
    split at hu
    · next hid =>
      subst hid
      obtain rfl := Option.some.inj hu
      simp [revisionOf]
    · next hid => rw [if_neg (Ne.symm hid), h.newest hu]

/-- A first row under any parent starts a lineage of its own. -/
theorem root {unit : MemoryUnit} {row : MemoryRevision} (h : s.Lineage)
    (hstep : s.RootStep unit row s') : s'.Lineage := by
  obtain ⟨units, revisions, hunits, hinsert, hs'⟩ := hstep.written
  obtain ⟨hrevision, hrow, hmemory, hbody, hlabel⟩ := hstep.first
  have hrows : s'.revisions.rows = s.revisions.rows ++ [row] := by
    obtain ⟨_, hr⟩ := Table.insert?_eq_some.mp hinsert
    simp [hs', hr]
  have hhistory := history_append hrows
  have hnone : s.history unit.id = [] := by
    rw [history, List.filter_eq_nil_iff]
    intro r hr
    have := h.owned r hr
    intro hid
    rw [decide_eq_true_eq] at hid
    rw [hid, hstep.fresh] at this
    cases this
  refine ⟨?_, ?_, ?_, ?_⟩
  · intro r hr
    rw [hrows] at hr
    rw [hstep.get?_units]
    split
    · rfl
    · next hne =>
      rcases List.mem_append.mp hr with hr | hr
      · exact h.owned r hr
      · rw [List.mem_singleton.mp hr] at hne
        exact absurd hmemory hne
  · intro id u hu
    rw [hstep.get?_units] at hu
    rw [hhistory id, hmemory]
    split at hu
    · next hid =>
      subst hid
      obtain rfl := Option.some.inj hu
      simp [hnone, hrow, hrevision]
    · next hid => rw [if_neg (Ne.symm hid), h.numbered hu]
  · intro id
    rw [hhistory id, hmemory]
    split
    · next hid =>
      subst hid
      simp [hnone]
    · exact h.linked id
  · intro id u hu
    rw [hstep.get?_units] at hu
    rw [hhistory id, hmemory]
    split at hu
    · next hid =>
      subst hid
      obtain rfl := Option.some.inj hu
      simp [hbody, hlabel]
    · next hid => rw [if_neg (Ne.symm hid), h.newest hu]

end Lineage

section Numbering

variable {α : Type} {f : α → Nat} {l : List α} {a k : Nat}

theorem filter_of_map_range' (h : l.map f = List.range' a k) {n : Nat} (ha : a ≤ n)
    (hk : n < a + k) : ∃ r, l.filter (f · = n) = [r] := by
  induction l generalizing a k with
  | nil =>
    have : k = 0 := by simpa using h.symm
    omega
  | cons r l ih =>
    obtain ⟨k, rfl⟩ : ∃ j, k = j + 1 := Nat.exists_eq_succ_of_ne_zero (by rintro rfl; simp at h)
    simp only [List.map_cons, List.range'_succ, List.cons.injEq] at h
    obtain ⟨hr, hl⟩ := h
    by_cases hn : n = a
    · subst hn
      refine ⟨r, ?_⟩
      have hnone : l.filter (f · = n) = [] := by
        rw [List.filter_eq_nil_iff]
        intro x hx
        have : f x ∈ List.range' (n + 1) k := hl ▸ List.mem_map_of_mem hx
        simp only [List.mem_range'_1] at this
        simp only [decide_eq_true_eq]
        omega
      simp [hr, hnone]
    · obtain ⟨r', hr'⟩ := ih hl (by omega) (by omega)
      exact ⟨r', by simp [hr, Ne.symm hn, hr']⟩

/-- In a chain numbered without gap every later element follows the one numbered before it. -/
theorem pred_of_map_range' {R : α → α → Prop} (h : l.map f = List.range' a k)
    (hR : l.IsChain R) {r : α} (hr : r ∈ l) (ha : a < f r) :
    ∃ r' ∈ l, R r' r ∧ f r' + 1 = f r := by
  induction l generalizing a k with
  | nil => cases hr
  | cons x l ih =>
    obtain ⟨k, rfl⟩ : ∃ j, k = j + 1 := Nat.exists_eq_succ_of_ne_zero (by rintro rfl; simp at h)
    simp only [List.map_cons, List.range'_succ, List.cons.injEq] at h
    obtain ⟨hx, hl⟩ := h
    obtain ⟨hhead, htail⟩ := List.isChain_cons.mp hR
    have hmem : r ∈ l := by
      rcases List.mem_cons.mp hr with rfl | hr
      · omega
      · exact hr
    by_cases hnext : a + 1 < f r
    · obtain ⟨r', hr', hrel, hnum⟩ := ih hl htail hmem hnext
      exact ⟨r', List.mem_cons_of_mem _ hr', hrel, hnum⟩
    · refine ⟨x, by simp, hhead r ?_, by omega⟩
      cases l with
      | nil => cases hmem
      | cons y l =>
        rcases List.mem_cons.mp hmem with rfl | hmem
        · rfl
        · obtain ⟨k, rfl⟩ : ∃ j, k = j + 1 :=
            Nat.exists_eq_succ_of_ne_zero (by rintro rfl; simp at hl)
          simp only [List.map_cons, List.range'_succ, List.cons.injEq] at hl
          have : f r ∈ List.range' (a + 1 + 1) k := hl.2 ▸ List.mem_map_of_mem hmem
          simp only [List.mem_range'_1] at this
          omega

end Numbering

/-- The head, revision rows and parents of one memory, read off the tables. -/
structure Chained (s : Store) (u : MemoryUnit) : Prop where
  one : ∀ n, 1 ≤ n → n ≤ u.revision →
    ∃ r, s.revisions.rows.filter (fun r => r.memoryId = u.id ∧ r.revision = n) = [r]
  within : ∀ r ∈ s.revisions.rows, r.memoryId = u.id → 1 ≤ r.revision ∧ r.revision ≤ u.revision
  parent : ∀ r ∈ s.revisions.rows, r.memoryId = u.id → 1 < r.revision →
    ∃ parent ∈ s.revisions.rows, r.parentUid = some parent.revUid ∧
      parent.memoryId = u.id ∧ parent.revision + 1 = r.revision
  newest : ∀ r ∈ s.revisions.rows, r.memoryId = u.id → r.revision = u.revision →
    r.body = u.body ∧ r.label = u.label

theorem Lineage.chained {s : Store} (h : s.Lineage) {u : MemoryUnit} (hu : u ∈ s.units.rows) :
    s.Chained u := by
  have hfound := Table.get?_of_mem hu
  have hmem {r : MemoryRevision} : r ∈ s.history u.id ↔
      r ∈ s.revisions.rows ∧ r.memoryId = u.id := by
    simp [history]
  constructor
  · intro n hn hle
    obtain ⟨r, hr⟩ := filter_of_map_range' (h.numbered hfound) hn (by omega)
    refine ⟨r, ?_⟩
    rw [← hr, history, List.filter_filter]
    congr 1
    funext r
    simp [Bool.and_comm]
  · intro r hr hid
    have : r.revision ∈ List.range' 1 u.revision :=
      h.numbered hfound ▸ List.mem_map_of_mem (hmem.mpr ⟨hr, hid⟩)
    simp only [List.mem_range'_1] at this
    omega
  · intro r hr hid hlt
    obtain ⟨parent, hparent, hlink, hnum⟩ :=
      pred_of_map_range' (h.numbered hfound) (h.linked u.id) (hmem.mpr ⟨hr, hid⟩) hlt
    exact ⟨parent, (hmem.mp hparent).1, hlink, (hmem.mp hparent).2, hnum⟩
  · intro r hr hid hrev
    obtain ⟨init, last, hsplit, _, hinit, _⟩ := h.history_eq hfound
    have hnew := h.newest hfound
    simp only [hsplit, List.getLast?_append, List.getLast?_singleton, Option.some_or,
      Option.map_some, Option.some.injEq, Prod.mk.injEq] at hnew
    have hin := hmem.mpr ⟨hr, hid⟩
    rw [hsplit, List.mem_append, List.mem_singleton] at hin
    rcases hin with hin | rfl
    · exact absurd hrev (hinit r hin).ne
    · exact hnew

end Nocturne.Store
