import Mathlib.Data.List.Sort
import Mathlib.Order.Preorder.Finite
import Nocturne.ModelPolicy.Resolver

namespace Nocturne.ModelPolicy

section Frontier

/-- What a row is compared by: its intelligence and its price. -/
def BenchmarkModel.coordinate (row : BenchmarkModel) : ℚ × ℚ :=
  (row.intelligenceIndex, row.promptPrice)

/-- `by_coordinate` after one more row: of two rows at one coordinate the smaller permaslug. -/
def keepRow (unique : List BenchmarkModel) (row : BenchmarkModel) : List BenchmarkModel :=
  match unique.find? (·.coordinate = row.coordinate) with
  | none => unique ++ [row]
  | some incumbent =>
    if row.permaslug < incumbent.permaslug then
      unique.map fun kept => if kept.coordinate = row.coordinate then row else kept
    else unique

def byCoordinate (rows : List BenchmarkModel) : List BenchmarkModel := rows.foldl keepRow []

/-- At least as intelligent at no higher a price, and better in one of the two. -/
def Dominates (other row : BenchmarkModel) : Prop :=
  row.intelligenceIndex ≤ other.intelligenceIndex ∧ other.promptPrice ≤ row.promptPrice ∧
    (row.intelligenceIndex < other.intelligenceIndex ∨ other.promptPrice < row.promptPrice)

instance (other row : BenchmarkModel) : Decidable (Dominates other row) :=
  inferInstanceAs (Decidable (_ ∧ _ ∧ (_ ∨ _)))

/-- Return the cost-intelligence frontier with coordinate deduplication. -/
def paretoFrontier (rows : List BenchmarkModel) : List BenchmarkModel :=
  let unique := byCoordinate rows
  (unique.filter fun row => ¬ ∃ other ∈ unique, other ≠ row ∧ Dominates other row).insertionSort
    fun a b => a.intelligenceIndex ≤ b.intelligenceIndex

end Frontier

section Deduplication

variable {unique rows : List BenchmarkModel} {row kept : BenchmarkModel}

theorem mem_keepRow (h : kept ∈ keepRow unique row) : kept ∈ unique ∨ kept = row := by
  unfold keepRow at h
  split at h
  · simpa using h
  · split at h
    · obtain ⟨a, ha, rfl⟩ := List.mem_map.mp h
      split
      · exact .inr rfl
      · exact .inl ha
    · exact .inl h

/-- A row brings its coordinate where that is new. -/
theorem coordinates_keepRow : (keepRow unique row).map (·.coordinate) =
    if row.coordinate ∈ unique.map (·.coordinate) then unique.map (·.coordinate)
    else unique.map (·.coordinate) ++ [row.coordinate] := by
  unfold keepRow
  split
  · next hnone =>
    have hnew : row.coordinate ∉ unique.map (·.coordinate) := by simpa using hnone
    rw [if_neg hnew, List.map_append, List.map_singleton]
  · next incumbent hsome =>
    have hheld : row.coordinate ∈ unique.map (·.coordinate) :=
      List.mem_map.mpr ⟨incumbent, List.mem_of_find?_eq_some hsome,
        by simpa using List.find?_some hsome⟩
    rw [if_pos hheld]
    split
    · rw [List.map_map]
      refine List.map_congr_left fun a _ => ?_
      by_cases ha : a.coordinate = row.coordinate <;> simp [ha]
    · rfl

theorem byCoordinate_subset : byCoordinate rows ⊆ rows := by
  apply List.foldlRecOn rows keepRow (motive := fun unique => unique ⊆ rows)
  · exact List.nil_subset _
  · intro unique hunique row hrow kept hkept
    rcases mem_keepRow hkept with h | rfl
    · exact hunique h
    · exact hrow

theorem nodup_byCoordinate : ((byCoordinate rows).map (·.coordinate)).Nodup := by
  apply List.foldlRecOn rows keepRow
    (motive := fun unique => (unique.map (·.coordinate)).Nodup)
  · exact List.nodup_nil
  · intro unique hunique row _
    rw [coordinates_keepRow]
    split
    · exact hunique
    · next hnew =>
      rw [← List.concat_eq_append]
      exact hunique.concat hnew

theorem mem_coordinates {c : ℚ × ℚ} :
    c ∈ (byCoordinate rows).map (·.coordinate) ↔ c ∈ rows.map (·.coordinate) := by
  suffices h : ∀ unique, c ∈ (rows.foldl keepRow unique).map (·.coordinate) ↔
      c ∈ unique.map (·.coordinate) ∨ c ∈ rows.map (·.coordinate) by
    simpa [byCoordinate] using h []
  intro unique
  induction rows generalizing unique with
  | nil => simp
  | cons row rows ih =>
    rw [List.foldl_cons, ih, coordinates_keepRow, List.map_cons, List.mem_cons]
    split
    · next hheld =>
      constructor
      · rintro (h | h)
        · exact .inl h
        · exact .inr (.inr h)
      · rintro (h | rfl | h)
        · exact .inl h
        · exact .inl hheld
        · exact .inr h
    · rw [List.mem_append, List.mem_singleton, or_assoc]

theorem eq_of_coordinate (ha : row ∈ byCoordinate rows) (hb : kept ∈ byCoordinate rows)
    (h : row.coordinate = kept.coordinate) : row = kept :=
  List.inj_on_of_nodup_map nodup_byCoordinate ha hb h

end Deduplication

section Order

variable {rows rows' : List BenchmarkModel} {row other kept : BenchmarkModel}

/-- A coordinate as what it is worth: more intelligence, or a lower price, is more. -/
def worth (c : ℚ × ℚ) : ℚ × ℚᵒᵈ := (c.1, OrderDual.toDual c.2)

theorem worth_injective : Function.Injective worth := fun _ _ h => h

theorem dominates_iff : Dominates other row ↔ worth row.coordinate < worth other.coordinate := by
  simp only [worth, BenchmarkModel.coordinate, Prod.mk_lt_mk, OrderDual.toDual_le_toDual,
    OrderDual.toDual_lt_toDual, Dominates]
  constructor
  · rintro ⟨hindex, hprice, h | h⟩
    · exact .inl ⟨h, hprice⟩
    · exact .inr ⟨hindex, h⟩
  · rintro (⟨h, hprice⟩ | ⟨hindex, h⟩)
    · exact ⟨h.le, hprice, .inl h⟩
    · exact ⟨hindex, h.le, .inr h⟩

/-- What the rows are worth, all of them. -/
def worths (rows : List BenchmarkModel) : Set (ℚ × ℚᵒᵈ) :=
  {w | ∃ row ∈ rows, worth row.coordinate = w}

theorem worths_finite : (worths rows).Finite :=
  (rows.map fun row => worth row.coordinate).finite_toSet.subset fun _ h => by
    obtain ⟨row, hrow, rfl⟩ := h
    exact List.mem_map.mpr ⟨row, hrow, rfl⟩

theorem exists_byCoordinate (h : row ∈ rows) :
    ∃ kept ∈ byCoordinate rows, kept.coordinate = row.coordinate := by
  rw [← List.mem_map, mem_coordinates]
  exact List.mem_map_of_mem h

/-- The frontier is the kept rows of which no row is worth more. -/
theorem mem_paretoFrontier : kept ∈ paretoFrontier rows ↔
    kept ∈ byCoordinate rows ∧ Maximal (· ∈ worths rows) (worth kept.coordinate) := by
  simp only [paretoFrontier, List.mem_insertionSort, List.mem_filter, decide_eq_true_eq, not_exists,
    not_and]
  refine and_congr_right fun hkept => ?_
  rw [maximal_iff_forall_gt, and_iff_right ⟨kept, byCoordinate_subset hkept, rfl⟩]
  constructor
  · rintro h w hlt ⟨row, hrow, rfl⟩
    obtain ⟨other, hother, hsame⟩ := exists_byCoordinate hrow
    rw [← hsame] at hlt
    have hdominates : Dominates other kept := by
      rw [dominates_iff]
      exact hlt
    refine h other hother ?_ hdominates
    rintro rfl
    exact lt_irrefl _ hlt
  · intro h other hother _ hdominates
    rw [dominates_iff] at hdominates
    exact h hdominates ⟨other, byCoordinate_subset hother, rfl⟩

/-- What the clauses of a cost-intelligence frontier come to. -/
structure IsFrontier (rows frontier : List BenchmarkModel) : Prop where
  ascending : frontier.Pairwise fun a b =>
    a.intelligenceIndex < b.intelligenceIndex ∧ a.promptPrice < b.promptPrice
  subset : ∀ kept ∈ frontier, kept ∈ rows
  covered : ∀ row ∈ rows, ∃ kept ∈ frontier,
    row.intelligenceIndex ≤ kept.intelligenceIndex ∧ kept.promptPrice ≤ row.promptPrice
  undominated : ∀ kept ∈ frontier, ∀ row ∈ rows, ¬ Dominates row kept

/-- Of two frontier rows in order the first is cheaper, or the second would dominate it. -/
theorem ascending_paretoFrontier : (paretoFrontier rows).Pairwise fun a b =>
    a.intelligenceIndex < b.intelligenceIndex ∧ a.promptPrice < b.promptPrice := by
  have hnodup : (paretoFrontier rows).Nodup :=
    (List.perm_insertionSort _ _).nodup_iff.mpr (nodup_byCoordinate.of_map.filter _)
  have hsorted := List.pairwise_insertionSort
    (fun a b : BenchmarkModel => a.intelligenceIndex ≤ b.intelligenceIndex)
    ((byCoordinate rows).filter fun row =>
      ¬ ∃ other ∈ byCoordinate rows, other ≠ row ∧ Dominates other row)
  refine (hsorted.and hnodup).imp_of_mem fun {a b} ha hb h => ?_
  rw [mem_paretoFrontier] at ha hb
  obtain ⟨ha, hmaxa⟩ := ha
  obtain ⟨hb, hmaxb⟩ := hb
  have hab : ¬ Dominates b a := by
    rw [dominates_iff]
    exact hmaxa.not_gt hmaxb.prop
  have hba : ¬ Dominates a b := by
    rw [dominates_iff]
    exact hmaxb.not_gt hmaxa.prop
  have hne : a.coordinate ≠ b.coordinate := fun hsame => h.2 (eq_of_coordinate ha hb hsame)
  unfold Dominates at hab hba
  have hprice : a.promptPrice < b.promptPrice := by
    by_contra hle
    rw [not_lt] at hle
    have hindex : b.intelligenceIndex ≤ a.intelligenceIndex := by
      by_contra hlt
      exact hab ⟨h.1, hle, .inl (not_le.mp hlt)⟩
    have heq : b.promptPrice = a.promptPrice := by
      by_contra hne
      exact hab ⟨h.1, hle, .inr (lt_of_le_of_ne hle hne)⟩
    exact hne (Prod.ext (le_antisymm h.1 hindex) heq.symm)
  refine ⟨lt_of_le_of_ne h.1 fun hindex => ?_, hprice⟩
  exact hba ⟨hindex.ge, hprice.le, .inr hprice⟩

theorem isFrontier (rows : List BenchmarkModel) : IsFrontier rows (paretoFrontier rows) where
  ascending := ascending_paretoFrontier
  subset kept hkept := by
    rw [mem_paretoFrontier] at hkept
    exact byCoordinate_subset hkept.1
  covered row hrow := by
    obtain ⟨best, hle, hmax⟩ := worths_finite.exists_le_maximal ⟨row, hrow, rfl⟩
    obtain ⟨source, hsource, rfl⟩ := hmax.prop
    obtain ⟨kept, hkept, hsame⟩ := exists_byCoordinate hsource
    rw [← hsame] at hle hmax
    refine ⟨kept, ?_, hle⟩
    rw [mem_paretoFrontier]
    exact ⟨hkept, hmax⟩
  undominated kept hkept row hrow hdominates := by
    rw [mem_paretoFrontier] at hkept
    rw [dominates_iff] at hdominates
    exact hkept.2.not_gt ⟨row, hrow, rfl⟩ hdominates

theorem mem_coordinates_paretoFrontier {c : ℚ × ℚ} :
    c ∈ (paretoFrontier rows).map (·.coordinate) ↔ Maximal (· ∈ worths rows) (worth c) := by
  simp only [List.mem_map, mem_paretoFrontier]
  constructor
  · rintro ⟨kept, ⟨_, hmax⟩, rfl⟩
    exact hmax
  · intro h
    obtain ⟨source, hsource, hworth⟩ := h.prop
    obtain ⟨kept, hkept, hsame⟩ := exists_byCoordinate hsource
    have hc : kept.coordinate = c := worth_injective (by rw [hsame, hworth])
    refine ⟨kept, ⟨hkept, ?_⟩, hc⟩
    rwa [hc]

/-- Two frontiers of the same worths hold the same coordinates in the same order. -/
theorem coordinates_paretoFrontier (h : worths rows' = worths rows) :
    (paretoFrontier rows').map (·.coordinate) = (paretoFrontier rows).map (·.coordinate) := by
  have hsorted (rows : List BenchmarkModel) :
      ((paretoFrontier rows).map (·.coordinate)).Pairwise fun a b => a.1 < b.1 :=
    List.pairwise_map.mpr (ascending_paretoFrontier.imp fun h => h.1)
  have hnodup (rows : List BenchmarkModel) : ((paretoFrontier rows).map (·.coordinate)).Nodup :=
    (hsorted rows).imp fun hlt heq => (heq ▸ hlt).false
  have hperm : ((paretoFrontier rows').map (·.coordinate)).Perm
      ((paretoFrontier rows).map (·.coordinate)) := by
    rw [List.perm_ext_iff_of_nodup (hnodup rows') (hnodup rows)]
    intro c
    rw [mem_coordinates_paretoFrontier, mem_coordinates_paretoFrontier, h]
  refine hperm.eq_of_pairwise ?_ (hsorted rows') (hsorted rows)
  intro a b _ _ hab hba
  exact absurd hab hba.asymm

theorem pareto_frontier_exact (rows : List BenchmarkModel) :
    IsFrontier rows (paretoFrontier rows) ∧ ∀ rows', rows'.Perm rows →
      (paretoFrontier rows').map (·.coordinate) = (paretoFrontier rows).map (·.coordinate) := by
  refine ⟨isFrontier rows, fun rows' hperm => coordinates_paretoFrontier ?_⟩
  ext w
  exact exists_congr fun row => and_congr_left' hperm.mem_iff

end Order

end Nocturne.ModelPolicy
