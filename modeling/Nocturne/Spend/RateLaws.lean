import Nocturne.Spend.TableLaws

namespace Nocturne.Spend

open Nocturne.Lib Nocturne.Vitals

section Costs

variable {κ : Type} [LinearOrder κ] {key : LedgerRow → κ} {rows : List LedgerRow}
  {costs : List (Option ℚ)}

theorem sumCosts_eq_none : sumCosts costs = none ↔ ∀ cost ∈ costs, cost = none := by
  simp [sumCosts]

theorem getD_sumCosts (costs : List (Option ℚ)) :
    (sumCosts costs).getD 0 = (costs.map (·.getD 0)).sum := by
  unfold sumCosts
  split
  · rfl
  · next hnone =>
    refine (List.sum_eq_zero fun cost hcost => ?_).symm
    obtain ⟨value, hvalue, rfl⟩ := List.mem_map.mp hcost
    rw [List.any_eq_true, not_exists] at hnone
    have hvalue' : ¬value.isSome = true := fun h => hnone value ⟨hvalue, h⟩
    rw [Option.not_isSome_iff_eq_none] at hvalue'
    rw [hvalue']
    rfl

/-- A cost is known by whether it is and by what it comes to. -/
theorem cost_ext {a b : Option ℚ} (hnone : a = none ↔ b = none) (hcost : a.getD 0 = b.getD 0) :
    a = b := by
  cases a with
  | none => exact (hnone.mp rfl).symm
  | some a =>
    cases b with
    | none => cases hnone.mpr rfl
    | some b => exact congrArg some hcost

/-- What the groups cost is what their lines do. -/
theorem sumCosts_groups (key : LedgerRow → κ) (rows : List LedgerRow) :
    sumCosts ((groups key rows).map fun group => knownCost group.2) = knownCost rows := by
  refine cost_ext ?_ ?_
  · rw [sumCosts_eq_none, knownCost_eq_none]
    constructor
    · intro h row hrow
      have hgroup : (key row, rows.filter (key · = key row)) ∈ groups key rows :=
        mem_groups.mpr ⟨⟨row, hrow, rfl⟩, rfl⟩
      have hnone := h _ (List.mem_map.mpr ⟨_, hgroup, rfl⟩)
      exact knownCost_eq_none.mp hnone row (List.mem_filter.mpr ⟨hrow, decide_eq_true rfl⟩)
    · intro h cost hcost
      obtain ⟨⟨k, lines⟩, hgroup, rfl⟩ := List.mem_map.mp hcost
      exact knownCost_eq_none.mpr fun row hrow => h row (mem_of_mem_groups hgroup hrow).1
  · rw [getD_sumCosts, getD_knownCost, List.map_map]
    exact sum_groups fun k lines _ => getD_knownCost lines

theorem sum_length_lines (key : LedgerRow → κ) (rows : List LedgerRow) :
    ((groups key rows).map fun group => group.2.length).sum = rows.length := by
  have hlength : ((groups key rows).map fun group => group.2.length).sum =
      (rows.map fun _ => 1).sum := sum_groups fun k lines _ => by simp
  simpa using hlength

theorem sum_unpricedLines (key : LedgerRow → κ) (rows : List LedgerRow) :
    ((groups key rows).map fun group => unpricedLines group.2).sum = unpricedLines rows := by
  have hcount (rows : List LedgerRow) : unpricedLines rows =
      (rows.map fun row => if row.costUsd.isNone then 1 else 0).sum := cast_unpricedLines rows
  rw [hcount rows]
  exact sum_groups fun k lines _ => hcount lines

end Costs

section Lanes

attribute [local instance] purposeOrder dimensionOrder

variable {asOf : Time} {base : List LedgerRow} {dimension : RateDimension} {name : Option String}

/-- What lines cost in one minute. -/
def minutePoint (minute : Time) (rows : List LedgerRow) : RatePoint :=
  ⟨minute, knownCost rows, rows.length, unpricedLines rows⟩

/-- What the lines cost, a minute at a time. -/
def minutePoints (lines : List LedgerRow) : List RatePoint :=
  (groups (fun row => truncMinute row.ts) lines).map fun group => minutePoint group.1 group.2

/-- A lane counts the line. -/
def LedgerRow.In (dimension : RateDimension) (name : Option String) (row : LedgerRow) : Prop :=
  match dimension with
  | .total => name = none
  | .model => row.model = name
  | .curation => row.purpose = .curation ∧ name = some "curation"
  | .agent | .subagent =>
    row.productType = .llmRequest ∧ agentDimension row = dimension ∧ row.originAgent = name

instance (dimension : RateDimension) (name : Option String) :
    DecidablePred (LedgerRow.In dimension name) := fun row => by
  cases dimension <;> unfold LedgerRow.In <;> infer_instance

/-- The part of a lane that some lines are. -/
def laneRow (dimension : RateDimension) (name : Option String) (minute : Time)
    (rows : List LedgerRow) : LaneRow :=
  ⟨dimension, name, minute, knownCost rows, rows.length, unpricedLines rows⟩

/-- A lane's points from its parts. -/
def partPoints (parts : List LaneRow) : List RatePoint :=
  (groups (·.minute) parts).map fun group =>
    ⟨group.1, sumCosts (group.2.map (·.costUsd)), (group.2.map (·.receiptLines)).sum,
      (group.2.map (·.unpricedLines)).sum⟩

/-- Lines that were grouped by more than their minutes come to what they do by their minutes. -/
theorem partPoints_groups {κ : Type} [LinearOrder κ] (key : LedgerRow → κ) (minute : κ → Time)
    (hminute : ∀ row, minute (key row) = truncMinute row.ts) (lines : List LedgerRow) :
    partPoints ((groups key lines).map fun group =>
      laneRow dimension name (minute group.1) group.2) = minutePoints lines := by
  have hkey : (fun row => minute (key row)) = fun row => truncMinute row.ts := funext hminute
  rw [partPoints, groups_map, List.map_map]
  change ((groups (fun group => minute group.1) (groups key lines)).map _) = _
  rw [groups_groups, hkey, minutePoints, List.map_map]
  refine List.map_congr_left fun group _ => ?_
  have hcost := sumCosts_groups key group.2
  have hlines := sum_length_lines key group.2
  have hunpriced := sum_unpricedLines key group.2
  simp only [Function.comp_apply, List.map_map, minutePoint]
  rw [← hcost, ← hlines, ← hunpriced]
  rfl

/-- A minute's row counts in the lane. -/
def MinuteRow.In (dimension : RateDimension) (name : Option String) (row : MinuteRow) : Prop :=
  match dimension with
  | .total => name = none
  | .model => row.model = name
  | .curation => row.purpose = .curation ∧ name = some "curation"
  | .agent | .subagent => False

instance (dimension : RateDimension) (name : Option String) :
    DecidablePred (MinuteRow.In dimension name) := fun row => by
  cases dimension <;> unfold MinuteRow.In <;> infer_instance

/-- The rows of a lane. -/
def ofLane (dimension : RateDimension) (name : Option String) (lanes : List LaneRow) :
    List LaneRow :=
  lanes.filter fun row => (row.dimension, row.key) = (dimension, name)

theorem ofLane_minuteLanes (row : MinuteRow) : ofLane dimension name (minuteLanes row) =
    if row.In dimension name then
      [⟨dimension, name, row.minute, row.costUsd, row.receiptLines, row.unpricedLines⟩]
    else [] := by
  unfold ofLane minuteLanes MinuteRow.In
  cases dimension with
  | total =>
    cases name <;> by_cases hpurpose : row.purpose = .curation <;> simp [hpurpose]
  | model =>
    by_cases hmodel : row.model = name <;> by_cases hpurpose : row.purpose = .curation <;>
      simp [hmodel, hpurpose]
  | curation =>
    by_cases hname : name = some "curation" <;> by_cases hpurpose : row.purpose = .curation <;>
      simp [hname, hpurpose, eq_comm]
  | agent => by_cases hpurpose : row.purpose = .curation <;> simp [hpurpose]
  | subagent => by_cases hpurpose : row.purpose = .curation <;> simp [hpurpose]

theorem flatMap_guarded {α β : Type} {p : α → Prop} [DecidablePred p] (f : α → β) (l : List α) :
    (l.flatMap fun a => if p a then [f a] else []) = (l.filter p).map f := by
  induction l with
  | nil => rfl
  | cons a l ih =>
    rw [List.flatMap_cons, ih, List.filter_cons]
    by_cases hp : p a <;> simp [hp]

/-- The minutes' parts of a lane. -/
theorem ofLane_minutes (minutes : List MinuteRow) :
    ofLane dimension name (minutes.flatMap minuteLanes) =
      (minutes.filter (·.In dimension name)).map fun row =>
        ⟨dimension, name, row.minute, row.costUsd, row.receiptLines, row.unpricedLines⟩ := by
  rw [ofLane, List.filter_flatMap]
  refine Eq.trans ?_ (flatMap_guarded _ _)
  exact congrArg (fun f => minutes.flatMap f) (funext fun row => ofLane_minuteLanes row)

/-- The lines of the hour that a lane counts. -/
def hourLines (asOf : Time) (dimension : RateDimension) (name : Option String)
    (base : List LedgerRow) : List LedgerRow :=
  base.filter fun row => row.InHour asOf ∧ row.In dimension name

theorem filter_hour {p : LedgerRow → Prop} [DecidablePred p]
    (h : ∀ row, p row ↔ row.In dimension name) :
    (base.filter (·.InHour asOf)).filter p = hourLines asOf dimension name base := by
  rw [List.filter_filter, hourLines]
  refine List.filter_congr fun row _ => ?_
  rw [Bool.eq_iff_iff]
  simp [h row, and_comm]

/-- A lane of the minutes is the hour's lines, grouped by minute and more. -/
theorem minutes_lane (h : ∀ row : LedgerRow, ∀ minute : MinuteRow, row.purpose = minute.purpose →
      row.model = minute.model → (row.In dimension name ↔ minute.In dimension name)) :
    partPoints (ofLane dimension name ((ledgerMinutes asOf base).flatMap minuteLanes)) =
      minutePoints (hourLines asOf dimension name base) := by
  have hminutes : (ledgerMinutes asOf base).filter (·.In dimension name) =
      (groups minuteKey (hourLines asOf dimension name base)).map fun group =>
        { minute := (ofLex group.1).1
          purpose := (ofLex (ofLex group.1).2).1
          model := (ofLex (ofLex group.1).2).2
          costUsd := knownCost group.2
          receiptLines := group.2.length
          unpricedLines := unpricedLines group.2 } := by
    let shown (key : Time ×ₗ (SpendPurpose ×ₗ WithTop String)) : MinuteRow :=
      ⟨(ofLex key).1, (ofLex (ofLex key).2).1, (ofLex (ofLex key).2).2, none, 0, 0⟩
    have hgroups := groups_filter minuteKey (base.filter (·.InHour asOf))
      (p := fun row => row.In dimension name) (q := fun key => (shown key).In dimension name)
      fun row _ => h row (shown (minuteKey row)) rfl rfl
    rw [← filter_hour (fun _ => Iff.rfl), hgroups, ledgerMinutes, List.filter_map]
    congr 1
  rw [ofLane_minutes, hminutes, List.map_map]
  exact partPoints_groups minuteKey (fun key => (ofLex key).1)
    (fun _ => rfl) _

/-- No lane of the minutes is an agent's. -/
theorem minutes_agent (hagent : dimension = .agent ∨ dimension = .subagent)
    (minutes : List MinuteRow) : ofLane dimension name (minutes.flatMap minuteLanes) = [] := by
  rw [ofLane_minutes, List.map_eq_nil_iff, List.filter_eq_nil_iff]
  intro row _ hin
  rcases hagent with rfl | rfl
  · exact of_decide_eq_true hin
  · exact of_decide_eq_true hin

theorem agentDimension_cases (row : LedgerRow) :
    agentDimension row = .agent ∨ agentDimension row = .subagent := by
  unfold agentDimension
  split
  · exact .inr rfl
  · exact .inl rfl

theorem agents_other (hagent : ¬(dimension = .agent ∨ dimension = .subagent)) :
    ofLane dimension name (agentLanes asOf base) = [] := by
  rw [ofLane, List.filter_eq_nil_iff]
  intro lane hlane hsame
  obtain ⟨⟨key, lines⟩, hgroup, rfl⟩ := List.mem_map.mp hlane
  obtain ⟨row, hrow⟩ := List.exists_mem_of_ne_nil _ (ne_nil_of_mem_groups hgroup)
  obtain ⟨_, rfl⟩ := mem_of_mem_groups hgroup hrow
  obtain ⟨rfl, _⟩ := Prod.mk.inj (of_decide_eq_true hsame)
  exact hagent (agentDimension_cases row)

def agentName (key : Time ×ₗ (RateDimension ×ₗ WithTop String)) : Option String :=
  (ofLex (ofLex key).2).2

/-- An agent's lane is its requests of the hour. -/
theorem agents_lane (hagent : dimension = .agent ∨ dimension = .subagent) :
    partPoints (ofLane dimension name (agentLanes asOf base)) =
      minutePoints (hourLines asOf dimension name base) := by
  have hin (row : LedgerRow) : row.In dimension name ↔ row.productType = .llmRequest ∧
      agentDimension row = dimension ∧ row.originAgent = name := by
    rcases hagent with rfl | rfl <;> exact Iff.rfl
  have hlines : (base.filter fun row => row.InHour asOf ∧ row.productType = .llmRequest).filter
      (fun row => (agentDimension row, row.originAgent) = (dimension, name)) =
      hourLines asOf dimension name base := by
    rw [List.filter_filter, hourLines]
    refine List.filter_congr fun row _ => ?_
    rw [Bool.eq_iff_iff]
    simp only [Bool.and_eq_true, decide_eq_true_eq, hin, Prod.mk.injEq]
    tauto
  have hgroups := groups_filter agentKey
    (base.filter fun row => row.InHour asOf ∧ row.productType = .llmRequest)
    (p := fun row => (agentDimension row, row.originAgent) = (dimension, name))
    (q := fun key => ((ofLex (ofLex key).2).1, agentName key) = (dimension, name))
    fun _ _ => Iff.rfl
  have hlane : ofLane dimension name (agentLanes asOf base) =
      (groups agentKey (hourLines asOf dimension name base)).map fun group =>
        laneRow dimension name (ofLex group.1).1 group.2 := by
    rw [ofLane, agentLanes, List.filter_map, ← hlines, hgroups]
    refine List.map_congr_left fun group hgroup => ?_
    obtain ⟨hdimension, hname⟩ := Prod.mk.inj (of_decide_eq_true (List.mem_filter.mp hgroup).2)
    rw [laneRow, ← hdimension, ← hname]
  rw [hlane]
  exact partPoints_groups agentKey (fun key => (ofLex key).1)
    (fun _ => rfl) _

/-- A lane shows what its lines of the hour cost, a minute at a time. -/
theorem partPoints_lane (asOf : Time) (base : List LedgerRow) (dimension : RateDimension)
    (name : Option String) :
    partPoints (ofLane dimension name
      ((ledgerMinutes asOf base).flatMap minuteLanes ++ agentLanes asOf base)) =
        minutePoints (hourLines asOf dimension name base) := by
  rw [ofLane, List.filter_append]
  change partPoints (ofLane dimension name _ ++ ofLane dimension name _) = _
  by_cases hagent : dimension = .agent ∨ dimension = .subagent
  · rw [minutes_agent hagent, List.nil_append, agents_lane hagent]
  · rw [agents_other hagent, List.append_nil]
    refine minutes_lane fun row minute hpurpose hmodel => ?_
    cases dimension with
    | total => exact Iff.rfl
    | model => exact ⟨hmodel.symm.trans, hmodel.trans⟩
    | curation => rw [LedgerRow.In, MinuteRow.In, hpurpose]
    | agent => exact absurd (.inl rfl) hagent
    | subagent => exact absurd (.inr rfl) hagent

def laneName (key : RateDimension ×ₗ (WithTop String ×ₗ Time)) : Option String :=
  (ofLex (ofLex key).2).1

/-- A lane's points are its parts, a minute at a time. -/
theorem points_ofLane (lanes : List LaneRow) (dimension : RateDimension) (name : Option String) :
    (ofLane dimension name (rateRows lanes)).map (·.point) =
      partPoints (ofLane dimension name lanes) := by
  have hgroups := groups_filter laneKey lanes
    (p := fun row => (row.dimension, row.key) = (dimension, name))
    (q := fun key => ((ofLex key).1, laneName key) = (dimension, name)) fun _ _ => Iff.rfl
  have hrekey := groups_rekey (fun row : LaneRow => row.minute) laneKey
    (ofLane dimension name lanes)
    (e := fun minute => toLex (dimension, toLex ((name : WithTop String), minute))) ?_ ?_
  · have hrows : ofLane dimension name (rateRows lanes) =
        (groups laneKey (ofLane dimension name lanes)).map fun group =>
          { dimension := (ofLex group.1).1
            key := (ofLex (ofLex group.1).2).1
            minute := (ofLex (ofLex group.1).2).2
            costUsd := sumCosts (group.2.map (·.costUsd))
            receiptLines := (group.2.map (·.receiptLines)).sum
            unpricedLines := (group.2.map (·.unpricedLines)).sum } := by
      rw [ofLane, rateRows, List.filter_map]
      exact congrArg _ hgroups.symm
    rw [hrows, hrekey, List.map_map, List.map_map]
    rfl
  · intro minute minute' hlt
    exact Prod.Lex.toLex_lt_toLex.mpr (.inr ⟨rfl, Prod.Lex.toLex_lt_toLex.mpr (.inr ⟨rfl, hlt⟩)⟩)
  · intro row hrow
    obtain ⟨rfl, rfl⟩ := Prod.mk.inj (of_decide_eq_true (List.mem_filter.mp hrow).2)
    rfl

theorem minutePoints_eq_nil {lines : List LedgerRow} : minutePoints lines = [] ↔ lines = [] := by
  rw [minutePoints, List.map_eq_nil_iff, groups_eq_nil]

end Lanes

section Hour

attribute [local instance] purposeOrder dimensionOrder

variable {asOf : Time} {base : List LedgerRow}

/-- What a point of a lane says. -/
inductive PointColumn
  | costUsd | receiptLines | unpricedLines

def RatePoint.at (point : RatePoint) : PointColumn → ℚ
  | .costUsd => point.costUsd.getD 0
  | .receiptLines => point.receiptLines
  | .unpricedLines => point.unpricedLines

def LedgerRow.pointShare (row : LedgerRow) : PointColumn → ℚ
  | .costUsd => row.costUsd.getD 0
  | .receiptLines => 1
  | .unpricedLines => if row.costUsd.isNone then 1 else 0

/-- The table's own column for it. -/
def PointColumn.hourly : PointColumn → MetricColumn
  | .costUsd => .spendPerHourUsd
  | .receiptLines => .hourlyReceiptLines
  | .unpricedLines => .hourlyUnpricedLines

def SpendRateLane.at (lane : SpendRateLane) (column : PointColumn) : ℚ :=
  (lane.points.map (·.at column)).sum

theorem sum_minutePoints (lines : List LedgerRow) (column : PointColumn) :
    ((minutePoints lines).map (·.at column)).sum = (lines.map (·.pointShare column)).sum := by
  rw [minutePoints, List.map_map]
  refine sum_groups fun minute rows _ => ?_
  cases column with
  | costUsd => exact getD_knownCost rows
  | receiptLines => exact cast_length rows
  | unpricedLines => exact cast_unpricedLines rows

theorem share_hourly (row : LedgerRow) (column : PointColumn) :
    row.share asOf column.hourly = if row.InHour asOf then row.pointShare column else 0 := by
  cases column <;> rfl

/-- The lanes of the hour agree with the ledger and with each other. -/
structure RatesAgree (asOf : Time) (base : List LedgerRow) (rates : List SpendRateLane) :
    Prop where
  lanes : (rates.map fun lane => (lane.dimension, lane.key)).Nodup
  lane_iff : ∀ dimension name,
    (∃ lane ∈ rates, lane.dimension = dimension ∧ lane.key = name) ↔
      ∃ row ∈ base, row.InHour asOf ∧ row.In dimension name
  points : ∀ lane ∈ rates,
    lane.points = minutePoints (hourLines asOf lane.dimension lane.key base)
  /-- The whole lane, all models together and the table's rows tell the same hour. -/
  total : ∀ column, ((rates.filter (·.dimension = .total)).map (·.at column)).sum =
    (base.map (·.share asOf column.hourly)).sum
  models : ∀ column, ((rates.filter (·.dimension = .model)).map (·.at column)).sum =
    (base.map (·.share asOf column.hourly)).sum

theorem mem_drawnRates {rows : List LaneRow} {lane : SpendRateLane} :
    lane ∈ drawnRates rows ↔ (∃ row ∈ rows, (row.dimension, row.key) = (lane.dimension, lane.key)) ∧
      lane.label = rateLabel lane.dimension lane.key ∧
      lane.points = (ofLane lane.dimension lane.key rows).map (·.point) := by
  rw [drawnRates, List.mem_map]
  constructor
  · rintro ⟨⟨dimension, name⟩, hkey, rfl⟩
    rw [List.mem_eraseDups, List.mem_map] at hkey
    exact ⟨hkey, rfl, rfl⟩
  · rintro ⟨hkey, hlabel, hpoints⟩
    refine ⟨(lane.dimension, lane.key), ?_, ?_⟩
    · rw [List.mem_eraseDups, List.mem_map]
      exact hkey
    · obtain ⟨dimension, name, label, points⟩ := lane
      dsimp only at hlabel hpoints ⊢
      rw [hlabel, hpoints]
      rfl

theorem nodup_drawnRates (rows : List LaneRow) :
    ((drawnRates rows).map fun lane => (lane.dimension, lane.key)).Nodup := by
  rw [drawnRates, List.map_map]
  have hkeys := nodup_eraseDups (rows.map fun row => (row.dimension, row.key))
  refine hkeys.map_on ?_
  intro key _ key' _ heq
  exact heq

/-- There is a lane of a name wherever rows of it are. -/
theorem lane_drawnRates {rows : List LaneRow} {dimension : RateDimension}
    {name : Option String} :
    (∃ lane ∈ drawnRates rows, lane.dimension = dimension ∧ lane.key = name) ↔
      (ofLane dimension name rows).map (·.point) ≠ [] := by
  rw [Ne, List.map_eq_nil_iff, ofLane, List.filter_eq_nil_iff]
  constructor
  · rintro ⟨lane, hlane, rfl, rfl⟩ hnone
    obtain ⟨⟨row, hrow, hkey⟩, _⟩ := mem_drawnRates.mp hlane
    exact hnone row hrow (decide_eq_true hkey)
  · intro hsome
    by_contra hnone
    refine hsome fun row hrow hkey => hnone ?_
    let lane : SpendRateLane :=
      ⟨dimension, name, rateLabel dimension name, (ofLane dimension name rows).map (·.point)⟩
    exact ⟨lane, mem_drawnRates.mpr ⟨⟨row, hrow, of_decide_eq_true hkey⟩, rfl, rfl⟩, rfl, rfl⟩

/-- The lanes of one dimension count each line of the hour that has a name in it once. -/
theorem sum_dimension {rates : List SpendRateLane} {dimension : RateDimension}
    (nameOf : LedgerRow → Option String)
    (hlanes : (rates.map fun lane => (lane.dimension, lane.key)).Nodup)
    (hiff : ∀ name, (∃ lane ∈ rates, lane.dimension = dimension ∧ lane.key = name) ↔
      ∃ row ∈ base, row.InHour asOf ∧ row.In dimension name)
    (hpoints : ∀ lane ∈ rates,
      lane.points = minutePoints (hourLines asOf lane.dimension lane.key base))
    (hname : ∀ row name, row.In dimension name ↔ nameOf row = name) (column : PointColumn) :
    ((rates.filter (·.dimension = dimension)).map (·.at column)).sum =
      (base.map (·.share asOf column.hourly)).sum := by
  have hkeys : ((rates.filter (·.dimension = dimension)).map (·.key)).Nodup := by
    rw [List.nodup_map_iff_inj_on]
    · intro lane hlane other hother heq
      obtain ⟨hlane, hdimension⟩ := List.mem_filter.mp hlane
      obtain ⟨hother, hdimension'⟩ := List.mem_filter.mp hother
      refine List.inj_on_of_nodup_map hlanes hlane hother ?_
      rw [of_decide_eq_true hdimension, of_decide_eq_true hdimension', heq]
    · exact (List.Nodup.of_map _ hlanes).filter _
  have hall : ∀ row ∈ base.filter (·.InHour asOf),
      nameOf row ∈ (rates.filter (·.dimension = dimension)).map (·.key) := by
    intro row hrow
    obtain ⟨hrow, hhour⟩ := List.mem_filter.mp hrow
    obtain ⟨lane, hlane, hdimension, hkey⟩ := (hiff (nameOf row)).mpr
      ⟨row, hrow, of_decide_eq_true hhour, (hname row _).mpr rfl⟩
    exact List.mem_map.mpr ⟨lane, List.mem_filter.mpr ⟨hlane, decide_eq_true hdimension⟩, hkey⟩
  have hsum := sum_by_key (f := nameOf) (g := (·.pointShare column)) hkeys hall
  rw [sum_inHour] at hsum
  have hshare : (base.map fun row => if row.InHour asOf then row.pointShare column else 0) =
      base.map (·.share asOf column.hourly) :=
    List.map_congr_left fun row _ => (share_hourly row column).symm
  rw [← hshare, ← hsum, List.map_map]
  refine congrArg List.sum (List.map_congr_left fun lane hlane => ?_)
  obtain ⟨hlane, hdimension⟩ := List.mem_filter.mp hlane
  rw [SpendRateLane.at, hpoints lane hlane, sum_minutePoints, of_decide_eq_true hdimension]
  rw [← filter_hour (p := fun row => nameOf row = lane.key) fun row => (hname row _).symm]
  rfl

/-- Rates whose rows come to the hour's lines agree with them. -/
theorem drawnRates_hour {rows : List LaneRow}
    (hrows : ∀ dimension name, (ofLane dimension name rows).map (·.point) =
      minutePoints (hourLines asOf dimension name base)) :
    RatesAgree asOf base (drawnRates rows) := by
  have hlane (dimension : RateDimension) (name : Option String) :
      (∃ lane ∈ drawnRates rows, lane.dimension = dimension ∧ lane.key = name) ↔
        ∃ row ∈ base, row.InHour asOf ∧ row.In dimension name := by
    rw [lane_drawnRates, hrows, Ne, minutePoints_eq_nil, hourLines, List.filter_eq_nil_iff]
    simp
  have hpoints : ∀ lane ∈ drawnRates rows,
      lane.points = minutePoints (hourLines asOf lane.dimension lane.key base) := by
    intro lane hlane
    rw [(mem_drawnRates.mp hlane).2.2, hrows]
  exact
    { lanes := nodup_drawnRates rows
      lane_iff := hlane
      points := hpoints
      total := sum_dimension (fun _ => none) (nodup_drawnRates rows) (hlane .total)
        hpoints fun _ _ => eq_comm
      models := sum_dimension (fun row => row.model) (nodup_drawnRates rows)
        (hlane .model) hpoints fun _ _ => Iff.rfl }

theorem drawn_hour {ledger : List LedgerRow} {view : List MinuteRow}
    {threadIds : Option (List Uuid)} {principalId : Option String}
    (hscope : threadIds.isSome ∨ principalId.isSome) :
    RatesAgree asOf (scopedLines ledger asOf threadIds principalId)
      (drawnSnapshot ledger view asOf threadIds principalId).rates := by
  refine drawnRates_hour fun dimension name => ?_
  have hminutes : scopedMinutes ledger view asOf threadIds principalId =
      ledgerMinutes asOf (scopedLines ledger asOf threadIds principalId) := by
    rw [scopedMinutes, if_neg]
    rintro ⟨hthreads, hprincipal⟩
    rw [Option.isNone_iff_eq_none] at hthreads hprincipal
    simp [hthreads, hprincipal] at hscope
  rw [scopedLanes, hminutes, points_ofLane, partPoints_lane]

end Hour

end Nocturne.Spend
