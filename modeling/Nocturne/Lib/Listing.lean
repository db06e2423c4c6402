import Mathlib.Algebra.BigOperators.Group.List.Basic
import Mathlib.Algebra.GroupWithZero.Nat
import Mathlib.Data.List.Chain
import Mathlib.Data.List.Sort

universe u v w

namespace Nocturne.Lib

variable {ρ : Type u} {σ : Type v} {τ : Type w} [LinearOrder σ]

/-- Rows in the order of their stamps. -/
def listing (stamp : ρ → σ) (rows : List ρ) : List ρ :=
  rows.insertionSort fun a b => stamp a ≤ stamp b

variable {stamp : ρ → σ} {rows : List ρ} {row : ρ}

@[simp] theorem mem_listing : row ∈ listing stamp rows ↔ row ∈ rows := List.mem_insertionSort _

theorem perm_listing (stamp : ρ → σ) (rows : List ρ) : (listing stamp rows).Perm rows :=
  List.perm_insertionSort _ _

theorem pairwise_listing (stamp : ρ → σ) (rows : List ρ) :
    (listing stamp rows).Pairwise fun a b => stamp a ≤ stamp b :=
  have : Std.Total fun a b : ρ => stamp a ≤ stamp b := ⟨fun _ _ => le_total _ _⟩
  have : IsTrans ρ fun a b => stamp a ≤ stamp b := ⟨fun _ _ _ => le_trans⟩
  List.pairwise_insertionSort _ _

/-- Where stamps tell rows apart, rows already in order are the listing. -/
theorem eq_listing {rows' : List ρ} (hperm : rows'.Perm rows)
    (hsorted : rows'.Pairwise fun a b => stamp a ≤ stamp b)
    (hdistinct : ∀ a ∈ rows, ∀ b ∈ rows, stamp a = stamp b → a = b) :
    rows' = listing stamp rows := by
  refine @List.Perm.eq_of_pairwise ρ (fun a b => stamp a ≤ stamp b) _ _ ?_ hsorted
    (pairwise_listing _ _) (hperm.trans (perm_listing _ _).symm)
  intro a b ha hb hab hba
  exact hdistinct a (hperm.subset ha) b (mem_listing.1 hb) (le_antisymm hab hba)

theorem listing_eq_of_perm {rows' : List ρ} (hperm : rows'.Perm rows)
    (hdistinct : ∀ a ∈ rows, ∀ b ∈ rows, stamp a = stamp b → a = b) :
    listing stamp rows' = listing stamp rows :=
  eq_listing ((perm_listing _ _).trans hperm) (pairwise_listing _ _) hdistinct

/-- A row stamped after all others is listed after all others. -/
theorem listing_append
    (hdistinct : ∀ a ∈ rows ++ [row], ∀ b ∈ rows ++ [row], stamp a = stamp b → a = b)
    (hafter : ∀ a ∈ rows, stamp a ≤ stamp row) :
    listing stamp (rows ++ [row]) = listing stamp rows ++ [row] := by
  refine (eq_listing ((perm_listing stamp rows).append_right [row]) ?_ hdistinct).symm
  rw [List.pairwise_append]
  refine ⟨pairwise_listing _ _, List.pairwise_singleton _ _, ?_⟩
  intro a ha b hb
  rw [List.mem_singleton.mp hb]
  exact hafter a (mem_listing.1 ha)

/-- The stamps of a listing are those of the rows, whatever order these came in. -/
theorem map_stamp_listing_perm {rows' : List ρ} (hperm : rows'.Perm rows) :
    (listing stamp rows').map stamp = (listing stamp rows).map stamp := by
  have hsorted (rows : List ρ) : ((listing stamp rows).map stamp).Pairwise (· ≤ ·) :=
    List.pairwise_map.mpr (pairwise_listing _ _)
  refine List.Perm.eq_of_pairwise (fun a b _ _ => le_antisymm) (hsorted rows') (hsorted rows) ?_
  exact ((perm_listing _ _).trans (hperm.trans (perm_listing _ _).symm)).map stamp

/-- Where stamps tell rows apart, a part of the rows is listed in the order of the whole. -/
theorem filter_listing {p : ρ → Bool}
    (hdistinct : ∀ a ∈ rows, ∀ b ∈ rows, stamp a = stamp b → a = b) :
    (listing stamp rows).filter p = listing stamp (rows.filter p) := by
  refine eq_listing ((perm_listing stamp rows).filter p) ((pairwise_listing _ _).filter p) ?_
  intro a ha b hb
  exact hdistinct a (List.mem_of_mem_filter ha) b (List.mem_of_mem_filter hb)

/-- A map that keeps the stamps keeps the order. -/
theorem map_listing {stamp' : τ → σ} {f : ρ → τ} (h : ∀ a, stamp' (f a) = stamp a) :
    (listing stamp rows).map f = listing stamp' (rows.map f) := by
  apply List.map_insertionSort
  intro a _ b _
  rw [h, h]

/-- The row listed last is stamped last. -/
theorem getLast?_listing (h : row ∈ (listing stamp rows).getLast?) :
    row ∈ rows ∧ ∀ a ∈ rows, stamp a ≤ stamp row := by
  obtain ⟨before, hlisting⟩ := List.getLast?_eq_some_iff.mp h
  have hsorted := pairwise_listing stamp rows
  have hmem : ∀ a, a ∈ rows ↔ a ∈ before ++ [row] := by
    intro a
    rw [← hlisting, mem_listing]
  rw [hlisting, List.pairwise_append] at hsorted
  constructor
  · simp [hmem]
  · intro a ha
    rw [hmem, List.mem_append, List.mem_singleton] at ha
    rcases ha with ha | rfl
    · exact hsorted.2.2 a ha row (List.mem_singleton_self row)
    · exact le_rfl

theorem exists_getLast?_listing (stamp : ρ → σ) (h : row ∈ rows) :
    ∃ last, last ∈ (listing stamp rows).getLast? := by
  have hne : listing stamp rows ≠ [] := List.ne_nil_of_mem (mem_listing.2 h)
  exact ⟨(listing stamp rows).getLast hne, List.getLast?_eq_some_getLast hne⟩

section Pages

/-- The first `k` of a listing are the rows with fewer than `k` rows before them. -/
theorem mem_take_listing {k : ℕ} (hnodup : rows.Nodup)
    (hdistinct : ∀ a ∈ rows, ∀ b ∈ rows, stamp a = stamp b → a = b) :
    row ∈ (listing stamp rows).take k ↔
      row ∈ rows ∧ (rows.filter (stamp · < stamp row)).length < k := by
  have hstrict : (listing stamp rows).Pairwise fun a b => stamp a < stamp b := by
    have hne : (listing stamp rows).Pairwise (· ≠ ·) :=
      (perm_listing stamp rows).nodup_iff.mpr hnodup
    refine ((pairwise_listing stamp rows).and hne).imp_of_mem ?_
    rintro a b ha hb ⟨hle, hab⟩
    exact hle.lt_of_ne fun h => hab (hdistinct a (mem_listing.1 ha) b (mem_listing.1 hb) h)
  have hcount : (rows.filter (stamp · < stamp row)).length =
      ((listing stamp rows).filter (stamp · < stamp row)).length :=
    ((perm_listing stamp rows).symm.filter _).length_eq
  rw [hcount, ← @mem_listing _ _ _ stamp rows]
  clear hcount
  generalize listing stamp rows = l at hstrict ⊢
  induction l generalizing k with
  | nil => simp
  | cons a l ih =>
    obtain ⟨hfirst, hrest⟩ := List.pairwise_cons.mp hstrict
    cases k with
    | zero => simp
    | succ k =>
      have hl : row ∈ l.take k ↔ row ∈ l ∧ (l.filter (stamp · < stamp row)).length < k :=
        ih hrest
      rw [List.take_succ_cons, List.mem_cons, List.mem_cons, hl]
      by_cases heq : row = a
      · subst heq
        have hnone : l.filter (stamp · < stamp row) = [] := by
          rw [List.filter_eq_nil_iff]
          intro b hb
          simpa using (hfirst b hb).le
        simp [hnone]
      · simp only [heq, false_or]
        refine and_congr_right fun hrow => ?_
        rw [List.filter_cons_of_pos (by simpa using hfirst row hrow), List.length_cons]
        omega

/-- Pages of one length, one after the other, are the list. -/
theorem flatMap_pages {n k : ℕ} (h : rows.length ≤ n * k) :
    ((List.range n).flatMap fun i => (rows.drop (i * k)).take k) = rows := by
  have hpages (n : ℕ) :
      ((List.range n).flatMap fun i => (rows.drop (i * k)).take k) = rows.take (n * k) := by
    induction n with
    | zero => simp
    | succ n ih => simp [List.range_succ, List.flatMap_append, ih, Nat.succ_mul, List.take_add]
  rw [hpages, List.take_of_length_le h]

end Pages

section Keyed

variable {key : ρ → τ} {rows rows' : List ρ}

/-- Two lists of rows, whose keys tell a row of one from a row of the other. -/
theorem eq_of_map_eq (h : rows.map key = rows'.map key)
    (hkey : ∀ a ∈ rows, ∀ b ∈ rows', key a = key b → a = b) : rows = rows' := by
  induction rows generalizing rows' with
  | nil =>
    rw [List.map_nil, eq_comm, List.map_eq_nil_iff] at h
    rw [h]
  | cons a rows ih =>
    cases rows' with
    | nil => cases h
    | cons b rows' =>
      rw [List.map_cons, List.map_cons, List.cons.injEq] at h
      rw [hkey a List.mem_cons_self b List.mem_cons_self h.1, ih h.2]
      intro a ha b hb
      exact hkey a (List.mem_cons_of_mem _ ha) b (List.mem_cons_of_mem _ hb)

theorem perm_of_map_perm (h : (rows.map key).Perm (rows'.map key))
    (hkey : ∀ a ∈ rows, ∀ b ∈ rows', key a = key b → a = b) : rows.Perm rows' := by
  induction rows generalizing rows' with
  | nil =>
    rw [List.map_nil, List.nil_perm, List.map_eq_nil_iff] at h
    rw [h]
  | cons a rows ih =>
    obtain ⟨b, hb, hsame⟩ := List.mem_map.mp (h.subset List.mem_cons_self)
    have heq := hkey a List.mem_cons_self b hb hsame.symm
    subst b
    obtain ⟨before, after, rfl⟩ := List.append_of_mem hb
    refine ((ih ?_ ?_).cons a).trans List.perm_middle.symm
    · have hmiddle := h.trans (List.perm_middle.map key)
      exact hmiddle.cons_inv
    · intro c hc d hd
      have hd' : d ∈ before ++ a :: after :=
        List.perm_middle.mem_iff.mpr (List.mem_cons_of_mem a hd)
      exact hkey c (List.mem_cons_of_mem a hc) d hd'

end Keyed

section Groups

theorem nodup_eraseDups [BEq ρ] [LawfulBEq ρ] (rows : List ρ) : rows.eraseDups.Nodup := by
  cases rows with
  | nil => exact List.nodup_nil
  | cons row rows =>
    rw [List.eraseDups_cons, List.nodup_cons, List.mem_eraseDups, List.mem_filter]
    exact ⟨by simp, nodup_eraseDups _⟩
termination_by rows.length
decreasing_by exact Nat.lt_succ_of_le (List.length_filter_le _ _)

variable {key : ρ → τ} [DecidableEq τ] {keys : List τ} {rows rows' : List ρ}

/-- The rows of some keys, a key at a time. -/
theorem perm_flatMap_filter (hkeys : keys.Nodup) :
    (keys.flatMap fun k => rows.filter (key · = k)).Perm (rows.filter (key · ∈ keys)) := by
  induction keys with
  | nil => simp
  | cons k keys ih =>
    obtain ⟨hnew, hkeys⟩ := List.nodup_cons.mp hkeys
    have hfirst : (rows.filter (key · ∈ k :: keys)).filter (key · = k) =
        rows.filter (key · = k) := by
      rw [List.filter_filter]
      refine List.filter_congr fun a _ => ?_
      by_cases ha : key a = k <;> simp [ha]
    have hothers : (rows.filter (key · ∈ k :: keys)).filter (fun a => !decide (key a = k)) =
        rows.filter (key · ∈ keys) := by
      rw [List.filter_filter]
      refine List.filter_congr fun a _ => ?_
      by_cases ha : key a = k
      · simp [ha, hnew]
      · simp [ha]
    rw [List.flatMap_cons, ← hfirst]
    refine ((ih hkeys).append_left _).trans ?_
    rw [← hothers]
    exact List.filter_append_perm _ _

/-- Rows grouped by their keys are those rows. -/
theorem perm_groups (hkeys : keys.Nodup) (hall : ∀ a ∈ rows, key a ∈ keys) :
    (keys.flatMap fun k => rows.filter (key · = k)).Perm rows := by
  have hperm := @perm_flatMap_filter ρ τ key _ keys rows hkeys
  rwa [List.filter_eq_self.mpr fun a ha => decide_eq_true (hall a ha)] at hperm

theorem perm_flatMap_groups (keys : List τ) (h : rows'.Perm rows) :
    (keys.flatMap fun k => rows'.filter (key · = k)).Perm
      (keys.flatMap fun k => rows.filter (key · = k)) := by
  induction keys with
  | nil => exact .refl _
  | cons k keys ih => exact (h.filter _).append ih

omit [DecidableEq τ] in
/-- Groups that share nothing and hold it all together are as long as it all. -/
theorem sum_length_groups {g : τ → List ρ} {all : List ρ} (hkeys : keys.Nodup)
    (hg : ∀ k ∈ keys, (g k).Nodup)
    (hone : ∀ k ∈ keys, ∀ k' ∈ keys, ∀ a, a ∈ g k → a ∈ g k' → k = k') (hall : all.Nodup)
    (hmem : ∀ a, a ∈ all ↔ ∃ k ∈ keys, a ∈ g k) :
    (keys.map fun k => (g k).length).sum = all.length := by
  have hnodup : (keys.flatMap g).Nodup := by
    rw [List.nodup_flatMap]
    refine ⟨hg, hkeys.imp_of_mem fun {k k'} hk hk' hne => ?_⟩
    exact fun a ha ha' => hne (hone k hk k' hk' a ha ha')
  have hperm : (keys.flatMap g).Perm all := by
    rw [List.perm_ext_iff_of_nodup hnodup hall]
    intro a
    rw [hmem, List.mem_flatMap]
  rw [← hperm.length_eq, List.length_flatMap]

end Groups

end Nocturne.Lib
