import Mathlib.Algebra.BigOperators.Group.List.Basic
import Mathlib.Algebra.Order.BigOperators.Group.List
import Mathlib.Algebra.Order.Ring.Rat
import Mathlib.Data.List.Sort
import Mathlib.Data.List.TakeWhile
import Nocturne.Lib.Tally
import Nocturne.Vitals.Service

namespace Nocturne.Vitals

open Nocturne.Lib

section Rows

/-- A row the ledger can hold. -/
structure SpendRow.Valid (row : SpendRow) : Prop where
  lines : 0 ≤ row.unpricedLines ∧ row.unpricedLines ≤ row.receiptLines
  cost : ∀ cost ∈ row.costUsd, ∃ value, cost = .finite value ∧ 0 ≤ value
  purpose : NonBlank row.purpose
  model : ∀ model ∈ row.model, NonBlank model

/-- The dollars of a row. -/
def SpendRow.amount (row : SpendRow) : ℚ :=
  match row.costUsd with
  | some (.finite value) => value
  | some .special | none => 0

/-- What rows come to. -/
def tally (rows : List SpendRow) : PointTotal where
  costUsd := (rows.map SpendRow.amount).sum
  hasPricedLine := rows.any (·.costUsd.isSome)
  receiptLines := (rows.map (·.receiptLines)).sum
  unpricedLines := (rows.map (·.unpricedLines)).sum

def pointOf (rows : List SpendRow) : Option PointTotal :=
  if rows = [] then none else some (tally rows)

variable {row : SpendRow} {rows : List SpendRow} {m : Time}

theorem tally_concat : tally (rows ++ [row]) =
    { costUsd := (tally rows).costUsd + row.amount
      hasPricedLine := (tally rows).hasPricedLine || row.costUsd.isSome
      receiptLines := (tally rows).receiptLines + row.receiptLines
      unpricedLines := (tally rows).unpricedLines + row.unpricedLines } := by
  simp [tally]

theorem getD_pointOf : (pointOf rows).getD {} = tally rows := by
  unfold pointOf
  split
  · next h =>
    subst h
    rfl
  · rfl

theorem add_tally {total : PointTotal} (h : (tally rows).add row = .ok total) :
    total = tally (rows ++ [row]) := by
  simp only [PointTotal.add, bind_eq_ok] at h
  obtain ⟨_, _, h⟩ := h
  rw [tally_concat]
  split at h
  · next hcost =>
    obtain rfl := pure_eq_ok.mp h
    simp [hcost, SpendRow.amount]
  · cases h
  · next cost hcost =>
    simp only [bind_eq_ok, pure_eq_ok] at h
    obtain ⟨_, _, rfl⟩ := h
    simp [hcost, SpendRow.amount]

theorem add_ok (hrow : row.Valid) (total : PointTotal) : ∃ total', total.add row = .ok total' := by
  obtain ⟨⟨hunpriced, hlines⟩, hcost, _, _⟩ := hrow
  simp only [PointTotal.add]
  rw [ensure_pos ⟨hunpriced.trans hlines, hunpriced, hlines⟩, ok_bind]
  split
  · exact ⟨_, rfl⟩
  · next hspecial =>
    obtain ⟨value, hvalue, _⟩ := hcost _ hspecial
    cases hvalue
  · next cost hfinite =>
    obtain ⟨value, hvalue, hpos⟩ := hcost _ hfinite
    obtain rfl := Numeric.finite.inj hvalue
    rw [ensure_pos hpos]
    exact ⟨_, rfl⟩

end Rows

section Points

/-- Points that hold, minute by minute, what the rows come to. -/
structure Accumulated (rows : List SpendRow) (points : Dict Time PointTotal) : Prop where
  keyed : points.Keyed
  lookup : ∀ m, points.lookup m = pointOf (rows.filter (·.minute = m))

variable {row : SpendRow} {rows : List SpendRow} {points points' : Dict Time PointTotal} {m : Time}

theorem Accumulated.nil : Accumulated [] [] := ⟨List.nodup_nil, fun _ => rfl⟩

theorem Accumulated.add (h : Accumulated rows points) (hok : addPoint points row = .ok points') :
    Accumulated (rows ++ [row]) points' := by
  simp only [addPoint, bind_eq_ok, pure_eq_ok] at hok
  obtain ⟨total, htotal, rfl⟩ := hok
  rw [h.lookup, getD_pointOf] at htotal
  refine ⟨h.keyed.set, fun m => ?_⟩
  rw [Dict.lookup_set, h.lookup, List.filter_append]
  by_cases hm : m = row.minute
  · subst hm
    rw [if_pos rfl, List.filter_cons_of_pos (by simp), List.filter_nil, add_tally htotal, pointOf,
      if_neg (by simp)]
  · rw [if_neg hm, List.filter_cons_of_neg (by simpa using Ne.symm hm), List.filter_nil,
      List.append_nil]

theorem addPoint_ok (hrow : row.Valid) (points : Dict Time PointTotal) :
    ∃ points', addPoint points row = .ok points' := by
  obtain ⟨total, htotal⟩ := add_ok hrow ((points.lookup row.minute).getD {})
  exact ⟨_, by rw [addPoint, htotal, ok_bind]; rfl⟩

/-- A measure of the one point of a minute. -/
theorem sum_minute {γ : Type} [AddCommMonoid γ] (h : points.Keyed) (g : PointTotal → γ) (m : Time) :
    ((points.filter (·.1 = m)).map fun point => g point.2).sum =
      ((points.lookup m).map g).getD 0 := by
  unfold Dict.Keyed at h
  induction points with
  | nil => rfl
  | cons point points ih =>
    obtain ⟨k, total⟩ := point
    rw [List.map_cons, List.nodup_cons] at h
    rw [Dict.lookup_cons]
    by_cases hm : m = k
    · subst hm
      have hnone : points.lookup m = none := Dict.lookup_eq_none_iff.mpr h.1
      rw [List.filter_cons_of_pos (by simp), List.map_cons, List.sum_cons, ih h.2, hnone]
      simp
    · rw [List.filter_cons_of_neg (by simpa using Ne.symm hm), ih h.2, if_neg hm]

end Points

section Lanes

/-- Lanes that hold, key by key, what the rows of the key come to. -/
structure Laned (key : SpendRow → String) (rows : List SpendRow)
    (lanes : Dict String (Dict Time PointTotal)) : Prop where
  keyed : lanes.Keyed
  found : ∀ {k points}, lanes.lookup k = some points →
    Accumulated (rows.filter (key · = k)) points ∧ ∃ row ∈ rows, key row = k
  missing : ∀ {k}, lanes.lookup k = none → ∀ row ∈ rows, key row ≠ k

variable {key : SpendRow → String} {row : SpendRow} {rows : List SpendRow}
  {lanes lanes' : Dict String (Dict Time PointTotal)}

theorem Laned.nil : Laned key [] [] where
  keyed := List.nodup_nil
  found h := by cases h
  missing := by simp

theorem Laned.add (h : Laned key rows lanes) (hok : addLane lanes (key row) row = .ok lanes') :
    Laned key (rows ++ [row]) lanes' := by
  simp only [addLane, bind_eq_ok, pure_eq_ok] at hok
  obtain ⟨points, hpoints, rfl⟩ := hok
  have hbefore : Accumulated (rows.filter (key · = key row)) ((lanes.lookup (key row)).getD []) := by
    cases hlookup : lanes.lookup (key row) with
    | some points => exact (h.found hlookup).1
    | none =>
      have hnil : rows.filter (key · = key row) = [] := by
        simpa [List.filter_eq_nil_iff] using h.missing hlookup
      rw [hnil]
      exact .nil
  refine ⟨h.keyed.set, fun {k other} hother => ?_, fun {k} hnone => ?_⟩
  · rw [Dict.lookup_set] at hother
    by_cases hk : k = key row
    · subst hk
      rw [if_pos rfl] at hother
      obtain rfl := Option.some.inj hother
      refine ⟨?_, row, by simp, rfl⟩
      rw [List.filter_append, List.filter_cons_of_pos (by simp), List.filter_nil]
      exact hbefore.add hpoints
    · rw [if_neg hk] at hother
      obtain ⟨haccumulated, other, hmem, hkey⟩ := h.found hother
      refine ⟨?_, other, by simp [hmem], hkey⟩
      rwa [List.filter_append, List.filter_cons_of_neg (by simpa using Ne.symm hk), List.filter_nil,
        List.append_nil]
  · rw [Dict.lookup_set] at hnone
    split at hnone
    · cases hnone
    · next hk =>
      intro other hother
      rcases List.mem_append.mp hother with hother | hother
      · exact h.missing hnone other hother
      · rw [List.mem_singleton.mp hother]
        exact Ne.symm hk

theorem addLane_ok (hrow : row.Valid) (lanes : Dict String (Dict Time PointTotal)) (k : String) :
    ∃ lanes', addLane lanes k row = .ok lanes' := by
  obtain ⟨points, hpoints⟩ := addPoint_ok hrow ((lanes.lookup k).getD [])
  exact ⟨_, by rw [addLane, hpoints, ok_bind]; rfl⟩

end Lanes

section Loop

/-- What the loop over the rows holds. -/
structure Totalled (rows : List SpendRow) (totals : SpendTotals) : Prop where
  total : Accumulated rows totals.total
  purposes : Laned (·.purpose) rows totals.purposes
  models : Laned (fun row => modelLaneKey row.model) rows totals.models

variable {row : SpendRow} {rows : List SpendRow} {totals totals' : SpendTotals}

theorem Totalled.add (h : Totalled rows totals) (hok : addRow totals row = .ok totals') :
    Totalled (rows ++ [row]) totals' := by
  simp only [addRow, bind_eq_ok, pure_eq_ok] at hok
  obtain ⟨_, _, _, _, _, _, _, _, total, htotal, purposes, hpurposes, models, hmodels, rfl⟩ := hok
  exact ⟨h.total.add htotal, h.purposes.add hpurposes, h.models.add hmodels⟩

theorem totalled (h : rows.foldlM addRow {} = .ok totals) : Totalled rows totals := by
  induction rows using List.reverseRecOn generalizing totals with
  | nil =>
    obtain rfl := Except.ok.inj h
    exact ⟨.nil, .nil, .nil⟩
  | append_singleton rows row ih =>
    simp only [List.foldlM_append, bind_eq_ok, List.foldlM_cons, List.foldlM_nil, pure_eq_ok] at h
    obtain ⟨before, hbefore, _, hrow, rfl⟩ := h
    exact (ih hbefore).add hrow

theorem NonBlank.ne_empty {value : String} (h : NonBlank value) : value ≠ "" := by
  rintro rfl
  exact h.1 rfl

theorem addRow_ok (hrow : row.Valid) (totals : SpendTotals) :
    ∃ totals', addRow totals row = .ok totals' := by
  obtain ⟨total, htotal⟩ := addPoint_ok hrow totals.total
  obtain ⟨purposes, hpurposes⟩ := addLane_ok hrow totals.purposes row.purpose
  obtain ⟨models, hmodels⟩ := addLane_ok hrow totals.models (modelLaneKey row.model)
  have hmodel : row.model ≠ some "" := fun h => (hrow.model _ h).ne_empty rfl
  simp only [addRow, bind_eq_ok, ensure_eq_ok, pure_eq_ok]
  exact ⟨_, .unit, hrow.lines.1.trans hrow.lines.2, .unit, hrow.lines.1, .unit,
    hrow.purpose.ne_empty, .unit, hmodel, total, htotal, purposes, hpurposes, models,
    hmodels, rfl⟩

end Loop

section Keys

theorem modelLaneKey_injective : Function.Injective modelLaneKey := by
  have hplain : ∀ {name : String}, ¬(name = "unreported" ∨ "~".toList <+: name.toList) →
      ∀ other, name ≠ "~" ++ other := by
    rintro name hname other rfl
    exact hname (.inr ⟨other.toList, by rw [String.toList_append]⟩)
  have hsentinel : ∀ other, "unreported" ≠ "~" ++ other := by
    intro other h
    have hlists := congrArg String.toList h
    rw [String.toList_append] at hlists
    exact absurd (List.cons.inj hlists).1 (by decide)
  intro a b h
  match a, b with
  | none, none => rfl
  | none, some b =>
    rw [modelLaneKey, modelLaneKey] at h
    split at h
    · exact absurd h (hsentinel b)
    · next hb => exact absurd (.inl h.symm) hb
  | some a, none =>
    rw [modelLaneKey, modelLaneKey] at h
    split at h
    · exact absurd h.symm (hsentinel a)
    · next ha => exact absurd (.inl h) ha
  | some a, some b =>
    rw [modelLaneKey, modelLaneKey] at h
    split at h <;> split at h
    · exact congrArg some (String.append_right_inj "~" |>.mp h)
    · next hb => exact absurd h.symm (hplain hb a)
    · next ha _ => exact absurd h (hplain ha b)
    · exact congrArg some h

/-- A reported model reads back from its key. -/
theorem modelLaneLabel_key (name : String) : modelLaneLabel (modelLaneKey (some name)) = name := by
  rw [modelLaneKey]
  split
  · have hsentinel : "~" ++ name ≠ "unreported" := by
      intro h
      have hlists := congrArg String.toList h
      rw [String.toList_append] at hlists
      exact absurd (List.cons.inj hlists).1 (by decide)
    have hprefix : "~".toList <+: ("~" ++ name).toList :=
      ⟨name.toList, by rw [String.toList_append]⟩
    rw [modelLaneLabel, if_neg hsentinel, if_pos hprefix, String.toList_append, List.drop_left,
      String.ofList_toList]
  · next hname =>
    rw [not_or] at hname
    rw [modelLaneLabel, if_neg hname.1, if_neg hname.2]

end Keys

section Measures

def pointFor (minute : Time) (total : PointTotal) : SpendPoint where
  minute := minute
  costUsd := if total.hasPricedLine then some total.costUsd else none
  receiptLines := total.receiptLines
  unpricedLines := total.unpricedLines

/-- What a lane shows of a minute. -/
def SpendLane.measure {γ : Type} [AddCommMonoid γ] (l : SpendLane) (g : SpendPoint → γ)
    (m : Time) : γ := ((l.points.filter (·.minute = m)).map g).sum

/-- What the lanes of a dimension show of a minute. -/
def SpendSnapshot.measure {γ : Type} [AddCommMonoid γ] (snapshot : SpendSnapshot)
    (dimension : SpendDimension) (g : SpendPoint → γ) (m : Time) : γ :=
  ((snapshot.lanes.filter (·.dimension = dimension)).map (·.measure g m)).sum

/-- A measure of points that adds up over the rows. -/
structure Measures {γ : Type} [AddCommMonoid γ] (g : SpendPoint → γ) (worth : SpendRow → γ) :
    Prop where
  point : ∀ (m : Time) (rows : List SpendRow), g (pointFor m (tally rows)) = (rows.map worth).sum

variable {γ : Type} [AddCommMonoid γ] {g : SpendPoint → γ} {worth : SpendRow → γ}
  {rows : List SpendRow} {points : Dict Time PointTotal} {dimension : SpendDimension}
  {key : Option String} {label : String} {l : SpendLane} {m : Time}

theorem amount_unpriced {row : SpendRow} (h : row.costUsd = none) : row.amount = 0 := by
  simp [SpendRow.amount, h]

theorem measures_cost : Measures (fun point => point.costUsd.getD 0) SpendRow.amount where
  point m rows := by
    by_cases hpriced : (tally rows).hasPricedLine
    · simp only [pointFor, hpriced, if_true, Option.getD_some]
      rfl
    · have hzero : (rows.map SpendRow.amount).sum = 0 := by
        apply List.sum_eq_zero
        intro x hx
        obtain ⟨row, hrow, rfl⟩ := List.mem_map.mp hx
        apply amount_unpriced
        simp only [tally, List.any_eq_true, not_exists, not_and] at hpriced
        simpa using hpriced row hrow
      simp [pointFor, hpriced, hzero]

theorem measures_receiptLines : Measures (·.receiptLines) (·.receiptLines) where
  point _ _ := rfl

theorem measures_unpricedLines : Measures (·.unpricedLines) (·.unpricedLines) where
  point _ _ := rfl

theorem lane_eq_ok (h : lane dimension key label points = .ok l) :
    l = ⟨dimension, key, label, (points.insertionSort (·.1 ≤ ·.1)).map fun point =>
      pointFor point.1 point.2⟩ := by
  simp only [lane, bind_eq_ok, pure_eq_ok] at h
  obtain ⟨shown, hshown, _, _, _, _, _, _, rfl⟩ := h
  congr 1
  rw [mapM_eq_ok] at hshown
  generalize points.insertionSort (·.1 ≤ ·.1) = sorted at hshown
  induction hshown with
  | nil => rfl
  | cons hpoint _ ih =>
    rw [List.map_cons, ← ih]
    simp only [checkedPoint, bind_eq_ok, pure_eq_ok] at hpoint
    obtain ⟨_, _, _, _, rfl⟩ := hpoint
    rfl

/-- A lane shows of a minute what its rows come to there. -/
theorem measure_lane (hg : Measures g worth) (hrows : Accumulated rows points)
    (h : lane dimension key label points = .ok l) :
    l.measure g m = ((rows.filter (·.minute = m)).map worth).sum := by
  have hperm := (List.perm_insertionSort (fun a b : Time × PointTotal => a.1 ≤ b.1) points).map
    fun point => pointFor point.1 point.2
  rw [SpendLane.measure, lane_eq_ok h, ((hperm.filter _).map g).sum_eq, List.filter_map,
    List.map_map]
  have hpoints := sum_minute hrows.keyed (fun total => g (pointFor m total)) m
  rw [hrows.lookup] at hpoints
  calc ((points.filter fun point => decide (point.1 = m)).map
        fun point => g (pointFor point.1 point.2)).sum
      = ((points.filter fun point => decide (point.1 = m)).map
          fun point => g (pointFor m point.2)).sum := by
        congr 1
        refine List.map_congr_left fun point hpoint => ?_
        rw [List.mem_filter, decide_eq_true_eq] at hpoint
        rw [hpoint.2]
    _ = ((pointOf (rows.filter (·.minute = m))).map fun total => g (pointFor m total)).getD 0 :=
        hpoints
    _ = ((rows.filter (·.minute = m)).map worth).sum := by
        unfold pointOf
        split
        · next hnil => simp [hnil]
        · exact hg.point m _

/-- The lanes of one dimension show of a minute what all the rows come to there. -/
theorem measure_lanes {f : SpendRow → String} {lanes : Dict String (Dict Time PointTotal)}
    {shown : List SpendLane} (labels : String → String) (hg : Measures g worth)
    (hlanes : Laned f rows lanes)
    (h : (lanes.insertionSort (·.1 ≤ ·.1)).mapM (fun (key, points) =>
      lane dimension (some key) (labels key) points) = .ok shown) :
    (shown.map (·.measure g m)).sum = ((rows.filter (·.minute = m)).map worth).sum := by
  have hsum : (shown.map (·.measure g m)).sum = (lanes.map fun entry =>
      (((rows.filter (·.minute = m)).filter (f · = entry.1)).map worth).sum).sum := by
    have hperm := List.perm_insertionSort
      (fun a b : String × Dict Time PointTotal => a.1 ≤ b.1) lanes
    rw [← (hperm.map _).sum_eq]
    refine (sum_map_forall₂ (R := fun entry l => entry ∈ lanes ∧
      lane dimension (some entry.1) (labels entry.1) entry.2 = .ok l) ?_ ?_).symm
    · exact (List.forall₂_and_left _ _).mpr ⟨fun _ => hperm.mem_iff.mp, mapM_eq_ok.mp h⟩
    · rintro ⟨k, points⟩ l ⟨hmem, hl⟩
      have hfound := hlanes.found (hlanes.keyed.lookup_iff.mpr hmem)
      rw [measure_lane hg hfound.1 hl, List.filter_filter, List.filter_filter]
      simp only [Bool.and_comm]
  rw [hsum]
  have hkeys := sum_by_key (g := worth) (f := f) (l := rows.filter (·.minute = m))
    hlanes.keyed fun row hrow => ?_
  · rwa [List.map_map] at hkeys
  · by_contra hout
    exact hlanes.missing (Dict.lookup_eq_none_iff.mpr hout) row (List.mem_of_mem_filter hrow) rfl

end Measures

section Shown

variable {rows : List SpendRow} {points : Dict Time PointTotal}

theorem nonBlank_of_trimmed {value : String} (h : Text.isTrimmed value) (hne : value ≠ "") :
    NonBlank value :=
  ⟨fun hblank => hne (h.symm.trans hblank), h⟩

/-- A trimmed text does not end in a space. -/
theorem not_isSpace_of_trimmed {value : String} {c : Char} {l : List Char}
    (h : Text.isTrimmed value) (hl : value.toList.reverse = c :: l) : Text.isSpace c = false := by
  by_contra hspace
  rw [Bool.not_eq_false] at hspace
  have htrimmed : ((value.toList.dropWhile Text.isSpace).reverse.dropWhile Text.isSpace).length =
      value.toList.length := by
    have htoList := congrArg (fun text => text.toList.length) h
    simpa [Text.strip, Text.rstrip] using htoList
  have hprefix : (value.toList.dropWhile Text.isSpace).reverse <+: c :: l :=
    hl ▸ List.reverse_prefix.mpr (List.dropWhile_suffix _)
  have hlength : value.toList.length = l.length + 1 := by
    rw [← List.length_reverse, hl, List.length_cons]
  rcases List.prefix_cons_iff.mp hprefix with hnil | ⟨t, ht, hrest⟩
  · rw [hnil] at htrimmed
    simp at htrimmed
    omega
  · rw [ht, List.dropWhile_cons_of_pos hspace] at htrimmed
    have hshort := (List.dropWhile_sublist Text.isSpace (l := t)).length_le
    have hprefixLength := hrest.length_le
    omega

theorem nonBlank_escaped {value : String} (h : NonBlank value) : NonBlank ("~" ++ value) := by
  obtain ⟨c, l, hl⟩ : ∃ c l, value.toList.reverse = c :: l := by
    cases hl : value.toList.reverse with
    | nil =>
      rw [List.reverse_eq_nil_iff, String.toList_eq_nil_iff] at hl
      exact absurd hl h.ne_empty
    | cons c l => exact ⟨c, l, rfl⟩
  have hreverse : ("~" ++ value).toList.reverse = c :: (l ++ ['~']) := by
    rw [String.toList_append, List.reverse_append, hl]
    rfl
  refine nonBlank_of_trimmed ?_ ?_
  · have hhead : ("~" ++ value).toList.dropWhile Text.isSpace = ("~" ++ value).toList := by
      rw [String.toList_append]
      rfl
    rw [Text.isTrimmed, Text.strip, hhead, Text.rstrip, hreverse,
      List.dropWhile_cons_of_neg (by simp [not_isSpace_of_trimmed h.2 hl]), ← hreverse,
      List.reverse_reverse, String.ofList_toList]
  · intro hempty
    rw [hempty] at hreverse
    cases hreverse

theorem nonBlank_modelLaneKey {model : Option String} (h : ∀ name ∈ model, NonBlank name) :
    NonBlank (modelLaneKey model) ∧ NonBlank (modelLaneLabel (modelLaneKey model)) := by
  cases model with
  | none => exact ⟨by decide, by decide⟩
  | some name =>
    have hname := h name rfl
    refine ⟨?_, (modelLaneLabel_key name).symm ▸ hname⟩
    rw [modelLaneKey]
    split
    · exact nonBlank_escaped hname
    · exact hname

theorem amount_nonneg {row : SpendRow} (h : row.Valid) : 0 ≤ row.amount := by
  unfold SpendRow.amount
  split
  · next value hcost =>
    obtain ⟨_, heq, hpos⟩ := h.cost _ hcost
    exact Numeric.finite.inj heq ▸ hpos
  · exact le_rfl
  · exact le_rfl

theorem checkedPoint_ok (h : ∀ row ∈ rows, row.Valid) (m : Time) :
    ∃ point, checkedPoint (pointFor m (tally rows)) = .ok point := by
  have hcost : 0 ≤ (tally rows).costUsd :=
    List.sum_nonneg (by simpa using fun row hrow => amount_nonneg (h row hrow))
  have hunpriced : 0 ≤ (tally rows).unpricedLines :=
    List.sum_nonneg (by simpa using fun row hrow => (h row hrow).lines.1)
  have hle : (tally rows).unpricedLines ≤ (tally rows).receiptLines :=
    List.sum_le_sum fun row hrow => (h row hrow).lines.2
  simp only [checkedPoint, bind_eq_ok, ensure_eq_ok, pure_eq_ok]
  refine ⟨_, .unit, ?_, .unit, ⟨hunpriced.trans hle, hunpriced, hle⟩, rfl⟩
  intro cost hin
  simp only [pointFor, Option.mem_def, Option.ite_none_right_eq_some] at hin
  exact Option.some.inj hin.2 ▸ hcost

theorem lane_ok (dimension : SpendDimension) (key : Option String) (label : String)
    (hrows : Accumulated rows points) (hvalid : ∀ row ∈ rows, row.Valid)
    (hkey : ∀ value ∈ key, NonBlank value) (hlabel : NonBlank label)
    (hdimension : dimension = .total ↔ key = none) :
    ∃ l, lane dimension key label points = .ok l := by
  obtain ⟨shown, hshown⟩ := mapM_total (l := points.insertionSort (·.1 ≤ ·.1))
    (f := fun point => checkedPoint
      { minute := point.1
        costUsd := if point.2.hasPricedLine then some point.2.costUsd else none
        receiptLines := point.2.receiptLines
        unpricedLines := point.2.unpricedLines }) fun point hpoint => by
    obtain ⟨m, total⟩ := point
    have hlookup := hrows.keyed.lookup_iff.mpr ((List.mem_insertionSort _).mp hpoint)
    rw [hrows.lookup, pointOf] at hlookup
    split at hlookup
    · cases hlookup
    · obtain rfl := Option.some.inj hlookup
      exact checkedPoint_ok (fun row hrow => hvalid row (List.mem_of_mem_filter hrow)) m
  refine ⟨⟨dimension, key, label, shown⟩, ?_⟩
  simp only [lane, bind_eq_ok, ensure_eq_ok, pure_eq_ok]
  exact ⟨shown, hshown, .unit, hkey, .unit, hlabel, .unit, hdimension, rfl⟩

theorem lanes_ok {f : SpendRow → String} {lanes : Dict String (Dict Time PointTotal)}
    (dimension : SpendDimension) (labels : String → String) (hlanes : Laned f rows lanes)
    (hvalid : ∀ row ∈ rows, row.Valid)
    (hkeys : ∀ row ∈ rows, NonBlank (f row) ∧ NonBlank (labels (f row)))
    (hdimension : dimension ≠ .total) :
    ∃ shown, (lanes.insertionSort (·.1 ≤ ·.1)).mapM (fun (key, points) =>
      lane dimension (some key) (labels key) points) = .ok shown := by
  apply mapM_total
  rintro ⟨k, points⟩ hin
  obtain ⟨hrows, row, hrow, rfl⟩ :=
    hlanes.found (hlanes.keyed.lookup_iff.mpr ((List.mem_insertionSort _).mp hin))
  refine lane_ok _ _ _ hrows (fun row hrow => hvalid row (List.mem_of_mem_filter hrow)) ?_
    (hkeys row hrow).2 (iff_of_false hdimension (by simp))
  rintro _ ⟨⟩
  exact (hkeys row hrow).1

/-- Valid rows make a snapshot. -/
theorem spendSnapshot_ok (source : SourceView) (hvalid : ∀ row ∈ rows, row.Valid) :
    ∃ snapshot, spendSnapshot source rows = .ok snapshot := by
  have htotals : ∃ totals, rows.foldlM addRow {} = .ok totals := by
    obtain ⟨totals, h, _⟩ := foldlM_total (f := addRow) (s := {})
      (I := fun rest _ => ∀ row ∈ rest, row.Valid) (l := rows)
      (fun totals row rest hrest => by
        obtain ⟨totals', h⟩ := addRow_ok (hrest row (by simp)) totals
        exact ⟨totals', h, fun other hother => hrest other (List.mem_cons_of_mem _ hother)⟩) hvalid
    exact ⟨totals, h⟩
  obtain ⟨totals, htotals⟩ := htotals
  obtain ⟨htotal, hpurposes, hmodels⟩ := totalled htotals
  obtain ⟨total, hshown⟩ := lane_ok .total none "All spend" htotal hvalid (by simp)
    (by decide) (by simp)
  obtain ⟨purposes, hpurposes⟩ := lanes_ok .purpose id hpurposes hvalid
    (fun row hrow => ⟨(hvalid row hrow).purpose, (hvalid row hrow).purpose⟩) (by decide)
  obtain ⟨models, hmodels⟩ := lanes_ok .model modelLaneLabel hmodels hvalid
    (fun row hrow => nonBlank_modelLaneKey (hvalid row hrow).model) (by decide)
  simp only [spendSnapshot, bind_eq_ok, pure_eq_ok]
  exact ⟨_, totals, htotals, total, hshown, purposes, hpurposes, models, hmodels, rfl⟩

end Shown

section Conserved

/-- The rows a lane is drawn from. -/
def SpendRow.In (row : SpendRow) (l : SpendLane) : Prop :=
  match l.dimension with
  | .total => True
  | .purpose => l.key = some row.purpose
  | .model => l.key = some (modelLaneKey row.model)

/-- The lanes conserve the ledger: however it is grouped, a minute shows the same dollars, receipt
lines and unpriced lines; a cost is null only where no row had one; and the model lanes are the
reported models, under their own names. -/
structure Conserved (rows : List SpendRow) (snapshot : SpendSnapshot) : Prop where
  total : ∃ total, snapshot.lanes.filter (·.dimension = .total) = [total] ∧
    ∀ dimension m,
      snapshot.measure dimension (fun point => point.costUsd.getD 0) m =
          total.measure (fun point => point.costUsd.getD 0) m ∧
        snapshot.measure dimension (·.receiptLines) m = total.measure (·.receiptLines) m ∧
        snapshot.measure dimension (·.unpricedLines) m = total.measure (·.unpricedLines) m
  ledger : ∀ dimension m,
    snapshot.measure dimension (fun point => point.costUsd.getD 0) m =
        ((rows.filter (·.minute = m)).map SpendRow.amount).sum ∧
      snapshot.measure dimension (·.receiptLines) m =
        ((rows.filter (·.minute = m)).map (·.receiptLines)).sum ∧
      snapshot.measure dimension (·.unpricedLines) m =
        ((rows.filter (·.minute = m)).map (·.unpricedLines)).sum
  priced : ∀ l ∈ snapshot.lanes, ∀ point ∈ l.points, point.costUsd = none ↔
    ∀ row ∈ rows, row.In l → row.minute = point.minute → row.costUsd = none
  models : ∀ row ∈ rows, ∀ other ∈ rows,
    (∃ l ∈ snapshot.lanes, l.dimension = .model ∧ row.In l ∧ other.In l) ↔ row.model = other.model
  labels : ∀ l ∈ snapshot.lanes, l.dimension = .model → ∀ row ∈ rows, row.In l →
    ∀ name, row.model = some name → l.label = name

variable {rows : List SpendRow} {points : Dict Time PointTotal} {dimension : SpendDimension}
  {key : Option String} {label : String} {l : SpendLane} {snapshot : SpendSnapshot}
  {source : SourceView}

theorem priced_lane (hrows : Accumulated rows points)
    (h : lane dimension key label points = .ok l) : ∀ point ∈ l.points, point.costUsd = none ↔
      ∀ row ∈ rows, row.minute = point.minute → row.costUsd = none := by
  rw [lane_eq_ok h]
  intro point hpoint
  obtain ⟨⟨m, total⟩, hin, rfl⟩ := List.mem_map.mp hpoint
  have hlookup := hrows.keyed.lookup_iff.mpr ((List.mem_insertionSort _).mp hin)
  rw [hrows.lookup, pointOf] at hlookup
  split at hlookup
  · cases hlookup
  · obtain rfl := Option.some.inj hlookup
    simp [pointFor, tally]

/-- The lanes of one dimension are the keys of the rows. -/
theorem mem_lanes {f : SpendRow → String} {lanes : Dict String (Dict Time PointTotal)}
    {shown : List SpendLane} (labels : String → String) (hlanes : Laned f rows lanes)
    (h : (lanes.insertionSort (·.1 ≤ ·.1)).mapM (fun (key, points) =>
      lane dimension (some key) (labels key) points) = .ok shown) :
    (∀ l ∈ shown, ∃ k points, lane dimension (some k) (labels k) points = .ok l ∧
      Accumulated (rows.filter (f · = k)) points) ∧
    ∀ row ∈ rows, ∃ l ∈ shown, l.key = some (f row) := by
  have hforall := mapM_eq_ok.mp h
  constructor
  · intro l hl
    obtain ⟨⟨k, points⟩, hin, hlane⟩ := forall₂_of_mem_right hforall hl
    have hlookup := hlanes.keyed.lookup_iff.mpr ((List.mem_insertionSort _).mp hin)
    exact ⟨k, points, hlane, (hlanes.found hlookup).1⟩
  · intro row hrow
    cases hlookup : lanes.lookup (f row) with
    | none => exact absurd rfl (hlanes.missing hlookup row hrow)
    | some points =>
      have hin := (List.mem_insertionSort (fun a b : String × Dict Time PointTotal => a.1 ≤ b.1)).mpr
        (hlanes.keyed.lookup_iff.mp hlookup)
      obtain ⟨l, hl, hlane⟩ := forall₂_of_mem_left hforall hin
      exact ⟨l, hl, by rw [lane_eq_ok hlane]⟩

/-- What a snapshot of the rows is put together from. -/
structure Drawn (rows : List SpendRow) (snapshot : SpendSnapshot) (totals : SpendTotals)
    (total : SpendLane) (purposes models : List SpendLane) : Prop where
  lanes : snapshot.lanes = total :: (purposes ++ models)
  totalled : Totalled rows totals
  total : lane .total none "All spend" totals.total = .ok total
  purposes : (totals.purposes.insertionSort (·.1 ≤ ·.1)).mapM (fun (key, points) =>
    lane .purpose (some key) key points) = .ok purposes
  models : (totals.models.insertionSort (·.1 ≤ ·.1)).mapM (fun (key, points) =>
    lane .model (some key) (modelLaneLabel key) points) = .ok models

theorem exists_drawn (h : spendSnapshot source rows = .ok snapshot) :
    ∃ totals total purposes models, Drawn rows snapshot totals total purposes models := by
  simp only [spendSnapshot, bind_eq_ok, pure_eq_ok] at h
  obtain ⟨totals, htotals, total, htotal, purposes, hpurposes, models, hmodels, rfl⟩ := h
  exact ⟨totals, total, purposes, models, rfl, Vitals.totalled htotals, htotal, hpurposes, hmodels⟩

/-- Lanes made in one dimension are all of another, or none. -/
theorem filter_lanes {shown : List SpendLane} {dimension d : SpendDimension}
    (h : ∀ l ∈ shown, l.dimension = dimension) :
    shown.filter (·.dimension = d) = if d = dimension then shown else [] := by
  split
  · next hd => exact List.filter_eq_self.mpr fun l hl => by simp [h l hl, hd]
  · next hd => exact List.filter_eq_nil_iff.mpr fun l hl => by simp [h l hl, Ne.symm hd]

namespace Drawn

variable {totals : SpendTotals} {total : SpendLane} {purposes models : List SpendLane}

theorem total_dimension (h : Drawn rows snapshot totals total purposes models) :
    total.dimension = .total := by
  rw [lane_eq_ok h.total]

theorem purposes_dimension (h : Drawn rows snapshot totals total purposes models) :
    ∀ l ∈ purposes, l.dimension = .purpose := by
  intro l hl
  obtain ⟨k, points, hlane, _⟩ := (mem_lanes id h.totalled.purposes h.purposes).1 l hl
  rw [lane_eq_ok hlane]

theorem models_dimension (h : Drawn rows snapshot totals total purposes models) :
    ∀ l ∈ models, l.dimension = .model := by
  intro l hl
  obtain ⟨k, points, hlane, _⟩ := (mem_lanes modelLaneLabel h.totalled.models h.models).1 l hl
  rw [lane_eq_ok hlane]

theorem filter (h : Drawn rows snapshot totals total purposes models) (d : SpendDimension) :
    snapshot.lanes.filter (·.dimension = d) =
      match d with
      | .total => [total]
      | .purpose => purposes
      | .model => models := by
  rw [h.lanes, List.filter_cons, List.filter_append, filter_lanes h.purposes_dimension,
    filter_lanes h.models_dimension, h.total_dimension]
  cases d <;> simp

/-- Each dimension shows of a minute what all the rows come to there. -/
theorem ledger (h : Drawn rows snapshot totals total purposes models) {γ : Type} [AddCommMonoid γ]
    {g : SpendPoint → γ} {worth : SpendRow → γ} (hg : Measures g worth) (d : SpendDimension)
    (m : Time) :
    snapshot.measure d g m = ((rows.filter (·.minute = m)).map worth).sum := by
  rw [SpendSnapshot.measure, h.filter]
  cases d with
  | total => simpa using measure_lane hg h.totalled.total h.total
  | purpose => exact measure_lanes id hg h.totalled.purposes h.purposes
  | model => exact measure_lanes modelLaneLabel hg h.totalled.models h.models

/-- A lane accumulates the rows it is drawn from. -/
theorem accumulated (h : Drawn rows snapshot totals total purposes models) :
    ∀ l ∈ snapshot.lanes, ∃ laneRows points key label,
      lane l.dimension key label points = .ok l ∧ Accumulated laneRows points ∧
        ∀ row, row ∈ laneRows ↔ row ∈ rows ∧ row.In l := by
  intro l hl
  rw [h.lanes, List.mem_cons, List.mem_append] at hl
  rcases hl with rfl | hl | hl
  · refine ⟨rows, totals.total, none, "All spend", h.total_dimension ▸ h.total, h.totalled.total,
      fun row => ?_⟩
    simp [SpendRow.In, h.total_dimension]
  · obtain ⟨k, points, hlane, hrows⟩ := (mem_lanes id h.totalled.purposes h.purposes).1 l hl
    refine ⟨_, points, _, _, (h.purposes_dimension l hl).symm ▸ hlane, hrows, fun row => ?_⟩
    simp [SpendRow.In, lane_eq_ok hlane, eq_comm]
  · obtain ⟨k, points, hlane, hrows⟩ := (mem_lanes modelLaneLabel h.totalled.models h.models).1 l hl
    refine ⟨_, points, _, _, (h.models_dimension l hl).symm ▸ hlane, hrows, fun row => ?_⟩
    simp [SpendRow.In, lane_eq_ok hlane, eq_comm]

/-- Two rows share a model lane where they report the same model. -/
theorem share_iff (h : Drawn rows snapshot totals total purposes models) {row other : SpendRow}
    (hrow : row ∈ rows) :
    (∃ l ∈ snapshot.lanes, l.dimension = .model ∧ row.In l ∧ other.In l) ↔
      row.model = other.model := by
  constructor
  · rintro ⟨l, _, hdimension, hrow, hother⟩
    simp only [SpendRow.In, hdimension] at hrow hother
    exact modelLaneKey_injective (Option.some.inj (hrow.symm.trans hother))
  · intro hmodel
    obtain ⟨l, hl, hkey⟩ := (mem_lanes modelLaneLabel h.totalled.models h.models).2 row hrow
    have hdimension := h.models_dimension l hl
    refine ⟨l, ?_, hdimension, ?_, ?_⟩
    · rw [h.lanes]
      exact List.mem_cons_of_mem _ (List.mem_append_right _ hl)
    · simpa [SpendRow.In, hdimension] using hkey
    · simpa [SpendRow.In, hdimension, hmodel] using hkey

/-- A model lane goes under the name its rows report. -/
theorem label_eq (h : Drawn rows snapshot totals total purposes models) {row : SpendRow}
    (hl : l ∈ snapshot.lanes) (hdimension : l.dimension = .model) (hrow : row.In l) {name : String}
    (hname : row.model = some name) : l.label = name := by
  have hmem : l ∈ snapshot.lanes.filter (·.dimension = .model) :=
    List.mem_filter.mpr ⟨hl, decide_eq_true hdimension⟩
  rw [h.filter .model] at hmem
  obtain ⟨k, points, hlane, _⟩ := (mem_lanes modelLaneLabel h.totalled.models h.models).1 l hmem
  have hlabel : l.key = some k ∧ l.label = modelLaneLabel k := by
    rw [lane_eq_ok hlane]
    exact ⟨rfl, rfl⟩
  rw [SpendRow.In, hdimension] at hrow
  obtain rfl := Option.some.inj (hlabel.1.symm.trans hrow)
  rw [hlabel.2, hname, modelLaneLabel_key]

end Drawn

theorem conserved (h : spendSnapshot source rows = .ok snapshot) : Conserved rows snapshot := by
  obtain ⟨totals, total, purposes, models, hdrawn⟩ := exists_drawn h
  refine ⟨⟨total, hdrawn.filter .total, fun d m => ?_⟩, fun d m => ?_, fun l hl point hpoint => ?_,
    fun row hrow other _ => hdrawn.share_iff hrow,
    fun l hl hdimension row _ hrow name hname => hdrawn.label_eq hl hdimension hrow hname⟩
  · have hrows := hdrawn.totalled.total
    rw [hdrawn.ledger measures_cost, hdrawn.ledger measures_receiptLines,
      hdrawn.ledger measures_unpricedLines, measure_lane measures_cost hrows hdrawn.total,
      measure_lane measures_receiptLines hrows hdrawn.total,
      measure_lane measures_unpricedLines hrows hdrawn.total]
    exact ⟨rfl, rfl, rfl⟩
  · exact ⟨hdrawn.ledger measures_cost d m, hdrawn.ledger measures_receiptLines d m,
      hdrawn.ledger measures_unpricedLines d m⟩
  · obtain ⟨laneRows, points, key, label, hlane, hrows, hmem⟩ := hdrawn.accumulated l hl
    rw [priced_lane hrows hlane point hpoint]
    simp only [hmem, and_imp]

/-- Valid rows make a snapshot, and it conserves them. -/
theorem spend_lanes_conserve (source : SourceView) (rows : List SpendRow)
    (hvalid : ∀ row ∈ rows, row.Valid) :
    ∃ snapshot, spendSnapshot source rows = .ok snapshot ∧ Conserved rows snapshot := by
  obtain ⟨snapshot, h⟩ := spendSnapshot_ok source hvalid
  exact ⟨snapshot, h, conserved h⟩

/-- An unreported model beside a model called `unreported`. -/
theorem spend_lanes_conserve_two : ∃ snapshot,
    spendSnapshot .spendRate [⟨0, "building", none, none, 1, some (.finite 1), 0⟩,
      ⟨0, "judge", some "unreported", none, 2, none, 2⟩] = .ok snapshot ∧
    Conserved [⟨0, "building", none, none, 1, some (.finite 1), 0⟩,
      ⟨0, "judge", some "unreported", none, 2, none, 2⟩] snapshot := by
  refine spend_lanes_conserve .spendRate _ ?_
  intro row hrow
  rcases List.mem_pair.mp hrow with rfl | rfl
  · exact ⟨by decide, by simp, by decide, by simp⟩
  · exact ⟨by decide, by simp, by decide, by simp; decide⟩

end Conserved

end Nocturne.Vitals
