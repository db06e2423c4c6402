import Mathlib.Data.List.Dedup
import Nocturne.Lib.Listing
import Nocturne.Lib.Tally

universe u v w

namespace Nocturne.Lib

variable {ρ : Type u} {κ : Type v} [LinearOrder κ] {key : ρ → κ} {rows rows' : List ρ} {k : κ}
  {g : List ρ}

/-- The keys of the rows, in order. -/
def groupKeys (key : ρ → κ) (rows : List ρ) : List κ :=
  (rows.map key).dedup.insertionSort (· ≤ ·)

/-- The rows of each key, in the order of the keys. -/
def groups (key : ρ → κ) (rows : List ρ) : List (κ × List ρ) :=
  (groupKeys key rows).map fun k => (k, rows.filter (key · = k))

@[simp] theorem mem_groupKeys : k ∈ groupKeys key rows ↔ ∃ row ∈ rows, key row = k := by
  rw [groupKeys, List.mem_insertionSort, List.mem_dedup, List.mem_map]

theorem nodup_groupKeys (key : ρ → κ) (rows : List ρ) : (groupKeys key rows).Nodup :=
  (List.perm_insertionSort _ _).nodup_iff.mpr (List.nodup_dedup _)

theorem pairwise_groupKeys (key : ρ → κ) (rows : List ρ) :
    (groupKeys key rows).Pairwise (· < ·) := by
  have hsorted : (groupKeys key rows).Pairwise (· ≤ ·) := List.pairwise_insertionSort _ _
  refine (hsorted.and (nodup_groupKeys key rows)).imp ?_
  exact fun h => lt_of_le_of_ne h.1 h.2

/-- Keys in strict order are known by what they are. -/
theorem groupKeys_eq {keys : List κ} (hsorted : keys.Pairwise (· < ·))
    (hmem : ∀ k, k ∈ keys ↔ ∃ row ∈ rows, key row = k) : groupKeys key rows = keys := by
  refine List.Perm.eq_of_pairwise' (r := (· < ·)) (pairwise_groupKeys key rows) hsorted ?_
  refine (List.perm_ext_iff_of_nodup (nodup_groupKeys key rows) (hsorted.imp ne_of_lt)).mpr ?_
  intro k
  rw [mem_groupKeys, hmem]

@[simp] theorem groups_nil : groups key ([] : List ρ) = [] := rfl

theorem groups_eq_nil : groups key rows = [] ↔ rows = [] := by
  constructor
  · intro h
    rw [List.eq_nil_iff_forall_not_mem]
    intro row hrow
    have hgroup : (key row, rows.filter (key · = key row)) ∈ groups key rows := by
      simp only [groups, List.mem_map, mem_groupKeys]
      exact ⟨key row, ⟨row, hrow, rfl⟩, rfl⟩
    rw [h] at hgroup
    cases hgroup
  · rintro rfl
    rfl

@[simp] theorem map_fst_groups (key : ρ → κ) (rows : List ρ) :
    (groups key rows).map (·.1) = groupKeys key rows := by
  rw [groups, List.map_map]
  exact List.map_id _

theorem mem_groups : (k, g) ∈ groups key rows ↔
    (∃ row ∈ rows, key row = k) ∧ g = rows.filter (key · = k) := by
  simp only [groups, List.mem_map, mem_groupKeys]
  constructor
  · rintro ⟨k', hk, heq⟩
    cases heq
    exact ⟨hk, rfl⟩
  · rintro ⟨hk, rfl⟩
    exact ⟨k, hk, rfl⟩

/-- No group is empty. -/
theorem ne_nil_of_mem_groups (h : (k, g) ∈ groups key rows) : g ≠ [] := by
  rw [mem_groups] at h
  obtain ⟨⟨row, hrow, hkey⟩, rfl⟩ := h
  intro hnil
  rw [List.filter_eq_nil_iff] at hnil
  exact hnil row hrow (decide_eq_true hkey)

theorem mem_of_mem_groups {row : ρ} (h : (k, g) ∈ groups key rows) (hrow : row ∈ g) :
    row ∈ rows ∧ key row = k := by
  rw [mem_groups] at h
  obtain ⟨_, rfl⟩ := h
  rw [List.mem_filter, decide_eq_true_eq] at hrow
  exact hrow

/-- Rows may be left out by their key before they are grouped or after. -/
theorem groups_filter (key : ρ → κ) (rows : List ρ) {p : ρ → Prop} {q : κ → Prop}
    [DecidablePred p] [DecidablePred q] (h : ∀ row ∈ rows, p row ↔ q (key row)) :
    groups key (rows.filter p) = (groups key rows).filter fun group => q group.1 := by
  have hkeys : groupKeys key (rows.filter p) = (groupKeys key rows).filter fun k => q k := by
    refine groupKeys_eq ((pairwise_groupKeys key rows).filter _) fun k => ?_
    simp only [List.mem_filter, mem_groupKeys, decide_eq_true_eq]
    constructor
    · rintro ⟨⟨row, hrow, rfl⟩, hq⟩
      exact ⟨row, ⟨hrow, (h row hrow).mpr hq⟩, rfl⟩
    · rintro ⟨row, ⟨hrow, hp⟩, rfl⟩
      exact ⟨⟨row, hrow, rfl⟩, (h row hrow).mp hp⟩
  rw [groups, hkeys, groups, List.filter_map]
  refine List.map_congr_left fun k hk => ?_
  have hq : q k := by simpa using (List.mem_filter.mp hk).2
  rw [List.filter_filter]
  congr 1
  refine List.filter_congr fun row hrow => ?_
  by_cases hsame : key row = k
  · subst hsame
    simpa using (h row hrow).mpr hq
  · simp [hsame]

section Rekeyed

variable {τ : Type w} {κ' : Type w} [LinearOrder κ']

/-- Rows that were mapped are grouped as they were before. -/
theorem groups_map {f : τ → ρ} {items : List τ} :
    groups key (items.map f) =
      (groups (fun item => key (f item)) items).map fun group => (group.1, group.2.map f) := by
  have hkeys : groupKeys key (items.map f) = groupKeys (fun item => key (f item)) items := by
    rw [groupKeys, groupKeys, List.map_map]
    rfl
  rw [groups, groups, hkeys, List.map_map]
  refine List.map_congr_left fun k _ => ?_
  rw [List.filter_map]
  rfl

/-- A key that orders the rows as another does groups them as it does. -/
theorem groups_rekey (key : ρ → κ) (key' : ρ → κ') (rows : List ρ) {e : κ → κ'}
    (he : StrictMono e) (h : ∀ row ∈ rows, key' row = e (key row)) :
    groups key' rows = (groups key rows).map fun group => (e group.1, group.2) := by
  have hkeys : groupKeys key' rows = (groupKeys key rows).map e := by
    refine groupKeys_eq (List.pairwise_map.mpr ?_) fun k => ?_
    · exact (pairwise_groupKeys key rows).imp fun hlt => he hlt
    · simp only [List.mem_map, mem_groupKeys]
      constructor
      · rintro ⟨_, ⟨row, hrow, rfl⟩, rfl⟩
        exact ⟨row, hrow, h row hrow⟩
      · rintro ⟨row, hrow, rfl⟩
        exact ⟨key row, ⟨row, hrow, rfl⟩, (h row hrow).symm⟩
  have hrows (k : κ) : rows.filter (key' · = e k) = rows.filter (key · = k) := by
    refine List.filter_congr fun row hrow => ?_
    rw [h row hrow, decide_eq_decide]
    exact he.injective.eq_iff
  rw [groups, groups, hkeys, List.map_map, List.map_map]
  refine List.map_congr_left fun k _ => ?_
  rw [Function.comp_apply, Function.comp_apply, hrows]

/-- Groups grouped again by what their keys tell are the groups of that, each grouped. -/
theorem groups_groups {c : κ → κ'} :
    groups (fun group => c group.1) (groups key rows) =
      (groups (fun row => c (key row)) rows).map fun group => (group.1, groups key group.2) := by
  have hkeys : groupKeys (fun group => c group.1) (groups key rows) =
      groupKeys (fun row => c (key row)) rows := by
    refine groupKeys_eq (pairwise_groupKeys _ rows) fun k => ?_
    simp only [mem_groupKeys, Prod.exists, mem_groups]
    constructor
    · rintro ⟨row, hrow, rfl⟩
      exact ⟨key row, _, ⟨⟨row, hrow, rfl⟩, rfl⟩, rfl⟩
    · rintro ⟨k, g, ⟨⟨row, hrow, rfl⟩, _⟩, rfl⟩
      exact ⟨row, hrow, rfl⟩
  have hfilter (k : κ') : groups key (rows.filter fun row => c (key row) = k) =
      (groups key rows).filter fun group => c group.1 = k :=
    groups_filter key rows (q := fun k' => c k' = k) fun _ _ => Iff.rfl
  generalize groups key rows = all at hkeys hfilter ⊢
  rw [groups, hkeys, groups, List.map_map]
  refine List.map_congr_left fun k _ => ?_
  rw [Function.comp_apply, hfilter]

end Rekeyed

section Sums

variable {γ : Type w} [AddCommMonoid γ] {f : ρ → γ} {m : κ × List ρ → γ}

/-- A sum over the rows, a group at a time. -/
theorem sum_groups (hm : ∀ k g, (k, g) ∈ groups key rows → m (k, g) = (g.map f).sum) :
    ((groups key rows).map m).sum = (rows.map f).sum := by
  have hgroup : (groups key rows).map m =
      (groupKeys key rows).map fun k => ((rows.filter (key · = k)).map f).sum := by
    rw [groups, List.map_map]
    refine List.map_congr_left fun k hk => ?_
    rw [mem_groupKeys] at hk
    refine hm k (rows.filter (key · = k)) ?_
    rw [mem_groups]
    exact ⟨hk, rfl⟩
  rw [hgroup]
  refine sum_by_key (nodup_groupKeys key rows) fun row hrow => ?_
  rw [mem_groupKeys]
  exact ⟨row, hrow, rfl⟩

end Sums

end Nocturne.Lib
