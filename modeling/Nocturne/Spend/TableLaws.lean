import Mathlib.Tactic.Ring
import Nocturne.Spend.InvoiceLaws
import Nocturne.Spend.Ledgers
import Nocturne.Spend.Table

namespace Nocturne.Spend

open Nocturne.Lib Nocturne.Vitals

section Columns

/-- The columns that every row of the table has. -/
inductive MetricColumn
  | inputTokens | kvCacheTokens | reasoningTokens | outputTokens
  | totalUsd | totalReceiptLines | totalUnpricedLines
  | spendPerHourUsd | hourlyReceiptLines | hourlyUnpricedLines

/-- What a row of the table says in a column; an unknown cost counts for nothing. -/
def SpendTableMetrics.at (metrics : SpendTableMetrics) : MetricColumn → ℚ
  | .inputTokens => metrics.inputTokens
  | .kvCacheTokens => metrics.kvCacheTokens
  | .reasoningTokens => metrics.reasoningTokens
  | .outputTokens => metrics.outputTokens
  | .totalUsd => metrics.totalUsd.getD 0
  | .totalReceiptLines => metrics.totalReceiptLines
  | .totalUnpricedLines => metrics.totalUnpricedLines
  | .spendPerHourUsd => metrics.spendPerHourUsd.getD 0
  | .hourlyReceiptLines => metrics.hourlyReceiptLines
  | .hourlyUnpricedLines => metrics.hourlyUnpricedLines

/-- What one line of the ledger adds to a column. -/
def LedgerRow.share (asOf : Time) (row : LedgerRow) : MetricColumn → ℚ
  | .inputTokens => row.tokens ["input_fresh"]
  | .kvCacheTokens => row.tokens ["input_cached", "cache_write"]
  | .reasoningTokens => row.tokens ["reasoning"]
  | .outputTokens => row.tokens ["output"]
  | .totalUsd => row.costUsd.getD 0
  | .totalReceiptLines => 1
  | .totalUnpricedLines => if row.costUsd.isNone then 1 else 0
  | .spendPerHourUsd => if row.InHour asOf then row.costUsd.getD 0 else 0
  | .hourlyReceiptLines => if row.InHour asOf then 1 else 0
  | .hourlyUnpricedLines => if row.InHour asOf then if row.costUsd.isNone then 1 else 0 else 0

variable {asOf : Time} {rows : List LedgerRow}

theorem getD_knownCost (rows : List LedgerRow) :
    (knownCost rows).getD 0 = (rows.map fun row => row.costUsd.getD 0).sum := by
  unfold knownCost
  split
  · rfl
  · next hnone =>
    have hzero : ∀ cost ∈ rows.map fun row => row.costUsd.getD 0, cost = 0 := by
      intro cost hcost
      obtain ⟨row, hrow, rfl⟩ := List.mem_map.mp hcost
      rw [List.any_eq_true, not_exists] at hnone
      have hrow' : ¬row.costUsd.isSome = true := fun h => hnone row ⟨hrow, h⟩
      rw [Option.not_isSome_iff_eq_none] at hrow'
      rw [hrow']
      rfl
    exact (List.sum_eq_zero hzero).symm

theorem knownCost_eq_none : knownCost rows = none ↔ ∀ row ∈ rows, row.costUsd = none := by
  simp [knownCost]

theorem cast_length (rows : List LedgerRow) : (rows.length : ℚ) = (rows.map fun _ => 1).sum := by
  simp

theorem cast_unpricedLines {K : Type} [AddCommMonoidWithOne K] (rows : List LedgerRow) :
    (unpricedLines rows : K) = (rows.map fun row => if row.costUsd.isNone then 1 else 0).sum := by
  induction rows with
  | nil => simp [unpricedLines]
  | cons row rows ih =>
    rw [List.map_cons, List.sum_cons, ← ih, unpricedLines, List.filter_cons]
    cases row.costUsd.isNone
    · simp [unpricedLines]
    · simp [unpricedLines, add_comm]

/-- A sum over the hour's lines, as one over all lines. -/
theorem sum_inHour (f : LedgerRow → ℚ) (rows : List LedgerRow) :
    ((rows.filter (·.InHour asOf)).map f).sum =
      (rows.map fun row => if row.InHour asOf then f row else 0).sum := by
  have hrest : ∀ row ∈ rows, decide (row.InHour asOf) = false →
      (if row.InHour asOf then f row else 0) = 0 :=
    fun row _ hrow => if_neg (of_decide_eq_false hrow)
  rw [← sum_map_filter hrest]
  refine congrArg List.sum (List.map_congr_left fun row hrow => ?_)
  rw [if_pos (of_decide_eq_true (List.mem_filter.mp hrow).2)]

/-- A row of the table says what its lines add up to. -/
theorem at_aggregate (asOf : Time) (rows : List LedgerRow) (column : MetricColumn) :
    (aggregate asOf rows).at column = (rows.map (·.share asOf column)).sum := by
  cases column with
  | inputTokens => rfl
  | kvCacheTokens => rfl
  | reasoningTokens => rfl
  | outputTokens => rfl
  | totalUsd => exact getD_knownCost rows
  | totalReceiptLines => exact cast_length rows
  | totalUnpricedLines => exact cast_unpricedLines rows
  | spendPerHourUsd => exact (getD_knownCost _).trans (sum_inHour _ rows)
  | hourlyReceiptLines => exact (cast_length _).trans (sum_inHour _ rows)
  | hourlyUnpricedLines => exact (cast_unpricedLines _).trans (sum_inHour _ rows)

end Columns

section Drawn

attribute [local instance] purposeOrder

variable {asOf : Time} {base : List LedgerRow}

/-- What a row of the table is checked for. -/
def SpendTableMetrics.Valid (metrics : SpendTableMetrics) : Prop :=
  (FitsTokens metrics.inputTokens ∧ FitsTokens metrics.kvCacheTokens ∧
    FitsTokens metrics.reasoningTokens ∧ FitsTokens metrics.outputTokens) ∧
  ((∀ cost ∈ metrics.totalUsd, FitsUsd cost) ∧ ∀ cost ∈ metrics.spendPerHourUsd, FitsUsd cost) ∧
  HonestCost metrics.totalUsd metrics.totalReceiptLines metrics.totalUnpricedLines ∧
  HonestCost metrics.spendPerHourUsd metrics.hourlyReceiptLines metrics.hourlyUnpricedLines

theorem checkedMetrics_eq_ok {metrics metrics' : SpendTableMetrics} :
    checkedMetrics metrics = .ok metrics' ↔ metrics.Valid ∧ metrics' = metrics := by
  simp only [checkedMetrics, bind_eq_ok, ensure_eq_ok, pure_eq_ok, SpendTableMetrics.Valid]
  constructor
  · rintro ⟨_, htokens, _, husd, _, hhonest, rfl⟩
    exact ⟨⟨htokens, husd, hhonest⟩, rfl⟩
  · rintro ⟨⟨htokens, husd, hhonest⟩, rfl⟩
    exact ⟨.unit, htokens, .unit, husd, .unit, hhonest, rfl⟩

/-- The rows of each thread's models, unchecked. -/
def drawnModels (asOf : Time) (base : List LedgerRow) : List (Uuid × ModelSpendRow) :=
  (groups modelKey (threadLines base)).map fun group =>
    ((ofLex group.1).1, ⟨keyModel group.1, aggregate asOf (group.2.map (·.2))⟩)

def drawnThreads (asOf : Time) (base : List LedgerRow) : List ThreadSpendRow :=
  (groups (·.1) (threadLines base)).map fun group =>
    { threadId := group.1
      models := ((drawnModels asOf base).filter (·.1 = group.1)).map (·.2)
      metrics := aggregate asOf (group.2.map (·.2)) }

def drawnPurposes (asOf : Time) (base : List LedgerRow) : List PurposeSpendRow :=
  (groups (·.purpose) (otherLines base)).map fun group =>
    ⟨group.1, purposeLabel group.1, aggregate asOf group.2⟩

/-- What lets the models' rows through. -/
def ModelsFit (asOf : Time) (base : List LedgerRow) : Prop :=
  ∀ group ∈ groups modelKey (threadLines base),
    (∀ value ∈ keyModel group.1, NonBlank value) ∧
      (aggregate asOf (group.2.map (·.2))).Valid

def ThreadsFit (asOf : Time) (base : List LedgerRow) : Prop :=
  ∀ group ∈ groups (·.1) (threadLines base), (aggregate asOf (group.2.map (·.2))).Valid

def PurposesFit (asOf : Time) (base : List LedgerRow) : Prop :=
  ∀ group ∈ groups (·.purpose) (otherLines base), (aggregate asOf group.2).Valid

theorem modelRows_eq_ok {models : List (Uuid × ModelSpendRow)} :
    modelRows asOf base = .ok models ↔ ModelsFit asOf base ∧ models = drawnModels asOf base := by
  refine mapM_guarded fun group _ row => ?_
  simp only [modelSpendRow, bind_eq_ok, ensure_eq_ok, pure_eq_ok, checkedMetrics_eq_ok]
  constructor
  · rintro ⟨_, ⟨_, hmodel, _, ⟨hvalid, rfl⟩, rfl⟩, rfl⟩
    exact ⟨⟨hmodel, hvalid⟩, rfl⟩
  · rintro ⟨⟨hmodel, hvalid⟩, rfl⟩
    exact ⟨_, ⟨.unit, hmodel, _, ⟨hvalid, rfl⟩, rfl⟩, rfl⟩

theorem threadRows_eq_ok {threads : List ThreadSpendRow} :
    threadRows asOf base (drawnModels asOf base) = .ok threads ↔
      ThreadsFit asOf base ∧ threads = drawnThreads asOf base := by
  refine mapM_guarded fun group _ row => ?_
  simp only [bind_eq_ok, pure_eq_ok, checkedMetrics_eq_ok]
  constructor
  · rintro ⟨_, ⟨hvalid, rfl⟩, rfl⟩
    exact ⟨hvalid, rfl⟩
  · rintro ⟨hvalid, rfl⟩
    exact ⟨_, ⟨hvalid, rfl⟩, rfl⟩

theorem purposeRows_eq_ok {purposes : List PurposeSpendRow} :
    purposeRows asOf base = .ok purposes ↔
      PurposesFit asOf base ∧ purposes = drawnPurposes asOf base := by
  refine mapM_guarded fun group _ row => ?_
  have hlabel : NonBlank (purposeLabel group.1) := by cases group.1 <;> decide
  simp only [ensure_pos hlabel, ok_bind, bind_eq_ok, pure_eq_ok, checkedMetrics_eq_ok]
  constructor
  · rintro ⟨_, ⟨hvalid, rfl⟩, rfl⟩
    exact ⟨hvalid, rfl⟩
  · rintro ⟨hvalid, rfl⟩
    exact ⟨_, ⟨hvalid, rfl⟩, rfl⟩

end Drawn

section Lanes

/-- What a minute's share of a lane is checked for. -/
def LaneRow.Valid (row : LaneRow) : Prop :=
  (∀ cost ∈ row.costUsd, 0 ≤ cost) ∧ row.unpricedLines ≤ row.receiptLines

def LaneRow.point (row : LaneRow) : RatePoint :=
  ⟨row.minute, row.costUsd, row.receiptLines, row.unpricedLines⟩

/-- The lanes, unchecked. -/
def drawnRates (rows : List LaneRow) : List SpendRateLane :=
  (rows.map fun row => (row.dimension, row.key)).eraseDups.map fun lane =>
    { dimension := lane.1
      key := lane.2
      label := rateLabel lane.1 lane.2
      points := (rows.filter fun row => (row.dimension, row.key) = lane).map (·.point) }

/-- What lets the lanes through. -/
def LanesFit (rows : List LaneRow) : Prop :=
  ∀ row ∈ rows, row.Valid ∧ NonBlank (rateLabel row.dimension row.key)

variable {rows : List LaneRow}

theorem ratePoint_eq_ok {row : LaneRow} {point : RatePoint} :
    ratePoint row = .ok point ↔ row.Valid ∧ point = row.point := by
  simp only [ratePoint, bind_eq_ok, ensure_eq_ok, pure_eq_ok, LaneRow.Valid]
  constructor
  · rintro ⟨_, hcost, _, hlines, rfl⟩
    exact ⟨⟨hcost, hlines⟩, rfl⟩
  · rintro ⟨⟨hcost, hlines⟩, rfl⟩
    exact ⟨.unit, hcost, .unit, hlines, rfl⟩

theorem spendRates_eq_ok {rates : List SpendRateLane} :
    spendRates rows = .ok rates ↔ LanesFit rows ∧ rates = drawnRates rows := by
  have hlanes := mapM_guarded (l := (rows.map fun row => (row.dimension, row.key)).eraseDups)
    (r := rates) (f := fun lane => do
      let points ← (rows.filter fun row => (row.dimension, row.key) = (lane.1, lane.2)).mapM
        ratePoint
      ensure (NonBlank (rateLabel lane.1 lane.2)) TableError.contract
      return { dimension := lane.1, key := lane.2, label := rateLabel lane.1 lane.2, points })
    (p := fun lane => (∀ row ∈ rows.filter fun row => (row.dimension, row.key) = lane, row.Valid) ∧
      NonBlank (rateLabel lane.1 lane.2))
    (g := fun lane => { dimension := lane.1, key := lane.2, label := rateLabel lane.1 lane.2,
                        points := (rows.filter fun row =>
                          (row.dimension, row.key) = lane).map (·.point) }) ?_
  · rw [spendRates, hlanes, LanesFit, drawnRates]
    refine and_congr_left fun _ => ?_
    constructor
    · intro h row hrow
      have hlane : (row.dimension, row.key) ∈
          (rows.map fun row => (row.dimension, row.key)).eraseDups :=
        List.mem_eraseDups.mpr (List.mem_map_of_mem hrow)
      obtain ⟨hvalid, hlabel⟩ := h _ hlane
      exact ⟨hvalid row (List.mem_filter.mpr ⟨hrow, decide_eq_true rfl⟩), hlabel⟩
    · intro h lane hlane
      rw [List.mem_eraseDups, List.mem_map] at hlane
      obtain ⟨row, hrow, rfl⟩ := hlane
      exact ⟨fun row hrow => (h row (List.mem_of_mem_filter hrow)).1, (h row hrow).2⟩
  · intro lane _ shown
    have hpoints := fun points => mapM_guarded (f := ratePoint) (p := LaneRow.Valid)
      (g := LaneRow.point) (l := rows.filter fun row => (row.dimension, row.key) = lane)
      (r := points) fun _ _ _ => ratePoint_eq_ok
    simp only [Prod.mk.eta, bind_eq_ok, hpoints, ensure_eq_ok, pure_eq_ok]
    constructor
    · rintro ⟨_, ⟨hvalid, rfl⟩, _, hlabel, rfl⟩
      exact ⟨⟨hvalid, hlabel⟩, rfl⟩
    · rintro ⟨⟨hvalid, hlabel⟩, rfl⟩
      exact ⟨_, ⟨hvalid, rfl⟩, .unit, hlabel, rfl⟩

end Lanes

section Snapshot

variable {ledger : List LedgerRow} {view : List MinuteRow} {asOf : Time}
  {threadIds : Option (List Uuid)} {principalId : Option String} {snapshot : SpendTableSnapshot}

/-- The lines a snapshot is drawn from. -/
def scopedLines (ledger : List LedgerRow) (asOf : Time) (threadIds : Option (List Uuid))
    (principalId : Option String) : List LedgerRow :=
  ledger.filter fun row => row.Scoped asOf threadIds principalId

/-- The minutes of its lanes, and the lanes. -/
def scopedMinutes (ledger : List LedgerRow) (view : List MinuteRow) (asOf : Time)
    (threadIds : Option (List Uuid)) (principalId : Option String) : List MinuteRow :=
  if threadIds.isNone ∧ principalId.isNone then viewMinutes asOf view
  else ledgerMinutes asOf (scopedLines ledger asOf threadIds principalId)

def scopedLanes (ledger : List LedgerRow) (view : List MinuteRow) (asOf : Time)
    (threadIds : Option (List Uuid)) (principalId : Option String) : List LaneRow :=
  rateRows ((scopedMinutes ledger view asOf threadIds principalId).flatMap minuteLanes ++
    agentLanes asOf (scopedLines ledger asOf threadIds principalId))

/-- The snapshot, unchecked. -/
def drawnSnapshot (ledger : List LedgerRow) (view : List MinuteRow) (asOf : Time)
    (threadIds : Option (List Uuid)) (principalId : Option String) : SpendTableSnapshot :=
  let base := scopedLines ledger asOf threadIds principalId
  { asOf
    threads := drawnThreads asOf base
    purposes := if threadIds.isSome then [] else drawnPurposes asOf base
    rates := drawnRates (scopedLanes ledger view asOf threadIds principalId)
    rateSource := if threadIds.isSome ∨ principalId.isSome then .events else .viewAndEvents
    messages := messageRows base
    days := dayRows base
    receipts := receiptRows base }

theorem table_nil : table ledger view asOf (some []) principalId = .ok { asOf } := by
  simp only [table, if_pos]
  rfl

theorem table_eq_ok (hscope : threadIds ≠ some []) :
    table ledger view asOf threadIds principalId = .ok snapshot ↔
      (ModelsFit asOf (scopedLines ledger asOf threadIds principalId) ∧
        ThreadsFit asOf (scopedLines ledger asOf threadIds principalId) ∧
        PurposesFit asOf (scopedLines ledger asOf threadIds principalId) ∧
        LanesFit (scopedLanes ledger view asOf threadIds principalId)) ∧
      snapshot = drawnSnapshot ledger view asOf threadIds principalId := by
  simp only [table, if_neg hscope, bind_eq_ok, pure_eq_ok, modelRows_eq_ok, purposeRows_eq_ok,
    spendRates_eq_ok]
  constructor
  · rintro ⟨_, ⟨hmodels, rfl⟩, threads, hrows, _, ⟨hpurposes, rfl⟩, _, ⟨hlanes, rfl⟩, rfl⟩
    obtain ⟨hthreads, rfl⟩ := threadRows_eq_ok.mp hrows
    exact ⟨⟨hmodels, hthreads, hpurposes, hlanes⟩, rfl⟩
  · rintro ⟨⟨hmodels, hthreads, hpurposes, hlanes⟩, rfl⟩
    exact ⟨_, ⟨hmodels, rfl⟩, _, threadRows_eq_ok.mpr ⟨hthreads, rfl⟩, _, ⟨hpurposes, rfl⟩, _,
      ⟨hlanes, rfl⟩, rfl⟩

end Snapshot

section Conservation

attribute [local instance] purposeOrder

variable {asOf : Time} {base : List LedgerRow} {threadId : Uuid}

/-- A row of the table tells what its lines add up to, and which costs no line told. -/
structure SpendTableMetrics.Totals (asOf : Time) (rows : List LedgerRow)
    (metrics : SpendTableMetrics) : Prop where
  column : ∀ column, metrics.at column = (rows.map (·.share asOf column)).sum
  unknown : metrics.totalUsd = none ↔ ∀ row ∈ rows, row.costUsd = none
  unknownHour : metrics.spendPerHourUsd = none ↔
    ∀ row ∈ rows, row.InHour asOf → row.costUsd = none

theorem totals_aggregate (asOf : Time) (rows : List LedgerRow) :
    (aggregate asOf rows).Totals asOf rows where
  column := at_aggregate asOf rows
  unknown := knownCost_eq_none
  unknownHour := by
    refine knownCost_eq_none.trans ?_
    simp only [List.mem_filter, decide_eq_true_eq, and_imp]

theorem mem_threadLines {line : Uuid × LedgerRow} :
    line ∈ threadLines base ↔ line.2 ∈ base ∧ line.2.threadId = some line.1 := by
  obtain ⟨threadId, row⟩ := line
  simp only [threadLines, List.mem_filterMap, Option.map_eq_some_iff, Prod.mk.injEq]
  constructor
  · rintro ⟨row', hrow, _, hthread, rfl, rfl⟩
    exact ⟨hrow, hthread⟩
  · rintro ⟨hrow, hthread⟩
    exact ⟨row, hrow, threadId, hthread, rfl, rfl⟩

/-- The lines of one thread, of those of threads and of them all. -/
theorem map_threadLines (base : List LedgerRow) {p : Uuid × LedgerRow → Prop}
    {q : LedgerRow → Prop} [DecidablePred p] [DecidablePred q]
    (h : ∀ row ∈ base, q row ↔ ∃ threadId, row.threadId = some threadId ∧ p (threadId, row)) :
    ((threadLines base).filter p).map (·.2) = base.filter q := by
  induction base with
  | nil => rfl
  | cons row base ih =>
    have ih := ih fun row' hrow => h row' (List.mem_cons_of_mem row hrow)
    have hrow := h row List.mem_cons_self
    rw [threadLines, List.filterMap_cons]
    cases hthread : row.threadId with
    | none =>
      have hq : ¬q row := by simp [hrow, hthread]
      rw [List.filter_cons_of_neg (by simpa using hq)]
      exact ih
    | some threadId =>
      simp only [hthread, Option.some.injEq, exists_eq_left'] at hrow
      by_cases hq : q row
      · rw [List.filter_cons_of_pos (by simpa using hq)]
        change (((threadId, row) :: threadLines base).filter p).map (·.2) = _
        rw [List.filter_cons_of_pos (by simpa using hrow.mp hq), List.map_cons, ih]
      · rw [List.filter_cons_of_neg (by simpa using hq)]
        change (((threadId, row) :: threadLines base).filter p).map (·.2) = _
        rw [List.filter_cons_of_neg (by simpa using fun hp => hq (hrow.mpr hp)), ih]

theorem map_thread (base : List LedgerRow) (threadId : Uuid) :
    ((threadLines base).filter (·.1 = threadId)).map (·.2) =
      base.filter (·.threadId = some threadId) := by
  refine map_threadLines base fun row _ => ?_
  simp [eq_comm]

theorem purpose_lines {purpose : SpendPurpose} {lines : List LedgerRow}
    (h : (purpose, lines) ∈ groups (·.purpose) (otherLines base)) :
    lines = base.filter fun row => row.threadId = none ∧ row.purpose = purpose := by
  obtain ⟨_, rfl⟩ := mem_groups.mp h
  rw [otherLines, List.filter_filter]
  refine List.filter_congr fun row _ => ?_
  rw [Bool.eq_iff_iff]
  simp [and_comm]

/-- The rows of a thread's models are those its own lines are grouped to. -/
theorem drawnModels_thread (asOf : Time) (base : List LedgerRow) (threadId : Uuid) :
    ((drawnModels asOf base).filter (·.1 = threadId)).map (·.2) =
      (groups modelKey ((threadLines base).filter (·.1 = threadId))).map fun group =>
        ⟨keyModel group.1, aggregate asOf (group.2.map (·.2))⟩ := by
  have hgroups := groups_filter modelKey (threadLines base)
    (p := (·.1 = threadId)) (q := fun key => (ofLex key).1 = threadId) fun _ _ => Iff.rfl
  rw [hgroups, drawnModels, List.filter_map, List.map_map]
  rfl

/-- Each line of the scope counts once: in its thread, or in its purpose where it has none. -/
structure SpendTableSnapshot.Conserves (asOf : Time) (base : List LedgerRow)
    (snapshot : SpendTableSnapshot) : Prop where
  /-- A row for every thread with a line, in order, and no other. -/
  threads : (snapshot.threads.map (·.threadId)).Pairwise (· < ·)
  thread_iff : ∀ threadId, threadId ∈ snapshot.threads.map (·.threadId) ↔
    ∃ row ∈ base, row.threadId = some threadId
  thread : ∀ shown ∈ snapshot.threads,
    shown.metrics.Totals asOf (base.filter (·.threadId = some shown.threadId))
  /-- A thread's models share it out. -/
  models : ∀ shown ∈ snapshot.threads, (shown.models.map (·.model)).Nodup ∧
    (∀ column, (shown.models.map (·.metrics.at column)).sum = shown.metrics.at column) ∧
    ∀ part ∈ shown.models, part.metrics.Totals asOf
      (base.filter fun row => row.threadId = some shown.threadId ∧ row.model = part.model)
  purposes : (snapshot.purposes.map (·.purpose)).Nodup
  purpose : ∀ shown ∈ snapshot.purposes, shown.label = purposeLabel shown.purpose ∧
    shown.metrics.Totals asOf
      (base.filter fun row => row.threadId = none ∧ row.purpose = shown.purpose)
  total : ∀ column, (snapshot.threads.map (·.metrics.at column)).sum +
    (snapshot.purposes.map (·.metrics.at column)).sum = (base.map (·.share asOf column)).sum

theorem sum_threads (asOf : Time) (base : List LedgerRow) (column : MetricColumn) :
    ((drawnThreads asOf base).map (·.metrics.at column)).sum =
      ((base.filter (·.threadId.isSome)).map (·.share asOf column)).sum := by
  have hlines : (threadLines base).map (·.2) = base.filter (·.threadId.isSome) := by
    have hall := map_threadLines base (p := fun _ => True) (q := fun row => row.threadId.isSome)
      fun row _ => by simp [Option.isSome_iff_exists]
    simpa using hall
  rw [drawnThreads, List.map_map, ← hlines, List.map_map]
  refine sum_groups fun threadId lines _ => ?_
  exact (at_aggregate asOf _ column).trans (by rw [List.map_map])

theorem sum_purposes (asOf : Time) (base : List LedgerRow) (column : MetricColumn) :
    ((drawnPurposes asOf base).map (·.metrics.at column)).sum =
      ((otherLines base).map (·.share asOf column)).sum := by
  rw [drawnPurposes, List.map_map]
  exact sum_groups fun purpose lines _ => at_aggregate asOf lines column

theorem sum_lines (f : LedgerRow → ℚ) (base : List LedgerRow) :
    ((base.filter (·.threadId.isSome)).map f).sum + ((otherLines base).map f).sum =
      (base.map f).sum := by
  rw [← List.sum_append, ← List.map_append, otherLines]
  have hnone : (fun row : LedgerRow => row.threadId.isNone) =
      fun row => !row.threadId.isSome := by
    funext row
    rw [Option.not_isSome]
  rw [hnone]
  exact ((List.filter_append_perm _ base).map f).sum_eq

variable {ledger : List LedgerRow} {view : List MinuteRow} {threadIds : Option (List Uuid)}
  {principalId : Option String} {snapshot : SpendTableSnapshot}

/-- A scope of threads holds no line without one. -/
theorem otherLines_scoped (h : threadIds.isSome) :
    otherLines (scopedLines ledger asOf threadIds principalId) = [] := by
  obtain ⟨ids, rfl⟩ := Option.isSome_iff_exists.mp h
  rw [otherLines, List.filter_eq_nil_iff]
  intro row hrow hnone
  obtain ⟨_, hthread, _⟩ := of_decide_eq_true (List.mem_filter.mp hrow).2
  obtain ⟨threadId, heq, _⟩ := hthread ids rfl
  rw [Option.isNone_iff_eq_none.mp hnone] at heq
  cases heq

theorem purposes_drawn (ledger : List LedgerRow) (view : List MinuteRow) (asOf : Time)
    (threadIds : Option (List Uuid)) (principalId : Option String) :
    (drawnSnapshot ledger view asOf threadIds principalId).purposes =
    drawnPurposes asOf (scopedLines ledger asOf threadIds principalId) := by
  rw [drawnSnapshot]
  dsimp only
  split
  · next hsome =>
    rw [drawnPurposes, otherLines_scoped hsome]
    rfl
  · rfl

theorem drawn_conserves (ledger : List LedgerRow) (view : List MinuteRow) (asOf : Time)
    (threadIds : Option (List Uuid)) (principalId : Option String) :
    (drawnSnapshot ledger view asOf threadIds principalId).Conserves asOf
      (scopedLines ledger asOf threadIds principalId) := by
  generalize hbase : scopedLines ledger asOf threadIds principalId = base
  have hthreads : (drawnSnapshot ledger view asOf threadIds principalId).threads =
      drawnThreads asOf base := by rw [← hbase]; rfl
  have hids : (drawnThreads asOf base).map (·.threadId) =
      groupKeys (·.1) (threadLines base) := by
    rw [← map_fst_groups, drawnThreads, List.map_map]
    rfl
  have hpurposes := purposes_drawn ledger view asOf threadIds principalId
  rw [hbase] at hpurposes
  constructor
  · rw [hthreads, hids]
    exact pairwise_groupKeys _ _
  · intro threadId
    rw [hthreads, hids, mem_groupKeys]
    constructor
    · rintro ⟨line, hline, rfl⟩
      exact ⟨line.2, mem_threadLines.mp hline⟩
    · rintro ⟨row, hrow, hthread⟩
      exact ⟨(threadId, row), mem_threadLines.mpr ⟨hrow, hthread⟩, rfl⟩
  · rw [hthreads]
    intro shown hshown
    obtain ⟨⟨threadId, lines⟩, hgroup, rfl⟩ := List.mem_map.mp hshown
    obtain ⟨_, rfl⟩ := mem_groups.mp hgroup
    dsimp only
    rw [map_thread]
    exact totals_aggregate asOf _
  · rw [hthreads]
    intro shown hshown
    obtain ⟨⟨threadId, lines⟩, hgroup, rfl⟩ := List.mem_map.mp hshown
    obtain ⟨_, rfl⟩ := mem_groups.mp hgroup
    dsimp only
    rw [drawnModels_thread]
    have hown : ∀ key ∈ groupKeys modelKey ((threadLines base).filter (·.1 = threadId)),
        (ofLex key).1 = threadId := by
      intro key hkey
      obtain ⟨line, hline, rfl⟩ := mem_groupKeys.mp hkey
      exact of_decide_eq_true (List.mem_filter.mp hline).2
    refine ⟨?_, ?_, ?_⟩
    · have hmodels := (nodup_groupKeys modelKey
        ((threadLines base).filter (·.1 = threadId))).map_on (f := keyModel) ?_
      · rw [← map_fst_groups, List.map_map] at hmodels
        rw [List.map_map]
        exact hmodels
      · intro key hkey key' hkey' hmodel
        exact Prod.ext ((hown key hkey).trans (hown key' hkey').symm) hmodel
    · intro column
      rw [List.map_map, at_aggregate, List.map_map]
      refine sum_groups fun key lines _ => ?_
      exact (at_aggregate asOf _ column).trans (by rw [List.map_map])
    · intro part hpart
      obtain ⟨⟨key, lines⟩, hlines, rfl⟩ := List.mem_map.mp hpart
      obtain ⟨hkey, rfl⟩ := mem_groups.mp hlines
      dsimp only
      rw [List.filter_filter]
      have hrows := map_threadLines base
        (p := fun line => modelKey line = key ∧ line.1 = threadId)
        (q := fun row => row.threadId = some threadId ∧ row.model = keyModel key) ?_
      · simp only [← Bool.decide_and, hrows]
        exact totals_aggregate asOf _
      · intro row _
        constructor
        · rintro ⟨hthread, hmodel⟩
          refine ⟨threadId, hthread, ?_, rfl⟩
          exact Prod.ext (hown key (mem_groupKeys.mpr hkey)).symm hmodel
        · rintro ⟨_, hthread, rfl, rfl⟩
          exact ⟨hthread, rfl⟩
  · have hkeys := nodup_groupKeys (·.purpose) (otherLines base)
    rw [← map_fst_groups] at hkeys
    rw [hpurposes, drawnPurposes, List.map_map]
    exact hkeys
  · rw [hpurposes]
    intro shown hshown
    obtain ⟨⟨purpose, lines⟩, hgroup, rfl⟩ := List.mem_map.mp hshown
    refine ⟨rfl, ?_⟩
    dsimp only
    rw [purpose_lines hgroup]
    exact totals_aggregate asOf _
  · intro column
    rw [hthreads, hpurposes, sum_threads, sum_purposes, sum_lines]

end Conservation

section Digits

variable {digits places : ℕ} {q : ℚ} {values : List ℚ}

theorem den_eq_one : q.den = 1 ↔ ∃ n : ℤ, (n : ℚ) = q := by
  constructor
  · exact fun h => ⟨q.num, Rat.den_eq_one_iff q |>.mp h⟩
  · rintro ⟨n, rfl⟩
    exact Rat.den_intCast n

/-- What is within the decimal places still is when it is summed. -/
theorem den_sum (h : ∀ q ∈ values, (q * 10 ^ places).den = 1) :
    (values.sum * 10 ^ places).den = 1 := by
  induction values with
  | nil => simp
  | cons q values ih =>
    obtain ⟨n, hn⟩ := den_eq_one.mp (h q List.mem_cons_self)
    obtain ⟨m, hm⟩ := den_eq_one.mp (ih fun q hq => h q (List.mem_cons_of_mem _ hq))
    rw [List.sum_cons, add_mul, ← hn, ← hm, den_eq_one]
    exact ⟨n + m, by push_cast; rfl⟩

end Digits

section Answers

variable {asOf : Time} {rows rows' : List LedgerRow} {row : LedgerRow} {kinds : List String}

/-- What the ledger's own contracts let onto it. -/
def LedgerRow.Conforms : LedgerRow → Prop
  | .line event => event.Conforms
  | .invoice receipt => 0 < receipt.costUsd ∧ FitsDigits 20 12 receipt.costUsd

theorem SpendLedger.Sound.conform {w : SpendSettings} {s : SpendLedger} (h : s.Sound w) :
    ∀ row ∈ s.rows.rows, row.Conforms := by
  intro row hrow
  cases row with
  | line event => exact h.conforms event hrow
  | invoice r =>
    obtain ⟨k, call, hk, hphase, heq⟩ := h.recorded r (mem_invoices.mpr hrow)
    have hconforms := (h.admitted k call hk fun error herror => by simp [hphase] at herror).2
    rw [heq]
    exact ⟨hconforms.1, hconforms.2.1⟩

theorem LedgerRow.Conforms.tokens (h : row.Conforms) :
    0 ≤ row.tokens kinds ∧ (row.tokens kinds * 10 ^ 9).den = 1 := by
  unfold LedgerRow.tokens
  split
  · next hkind =>
    cases row with
    | line event =>
      obtain ⟨_, _, hpos, hdigits, _⟩ := h
      exact ⟨hpos.le, hdigits.1⟩
    | invoice r => exact absurd hkind.1 (by simp [LedgerRow.unitOfMeasure])
  · exact ⟨le_rfl, by simp⟩

theorem LedgerRow.Conforms.cost (h : row.Conforms) :
    0 ≤ row.costUsd.getD 0 ∧ (row.costUsd.getD 0 * 10 ^ 12).den = 1 := by
  cases row with
  | line event =>
    obtain ⟨_, _, _, _, hcost, _⟩ := h
    cases hcost' : event.costUsd with
    | none => simp [LedgerRow.costUsd, hcost']
    | some cost =>
      obtain ⟨hpos, hdigits⟩ := hcost cost hcost'
      simpa [LedgerRow.costUsd, hcost'] using And.intro hpos hdigits.1
  | invoice r => exact ⟨h.1.le, h.2.1⟩

theorem LedgerRow.Conforms.model (h : row.Conforms) : ∀ value ∈ row.model, NonBlank value := by
  cases row with
  | line event =>
    obtain ⟨_, _, _, _, _, _, _, _, hmodel, _⟩ := h
    exact hmodel
  | invoice r => simp [LedgerRow.model]

theorem LedgerRow.Conforms.originAgent (h : row.Conforms) :
    ∀ value ∈ row.originAgent, NonBlank value := by
  cases row with
  | line event =>
    obtain ⟨_, _, _, _, _, _, _, hagent, _⟩ := h
    exact hagent
  | invoice r => simp [LedgerRow.originAgent]

/-- Room for a total within its digits. -/
def SpendTableMetrics.Small (metrics : SpendTableMetrics) : Prop :=
  (metrics.inputTokens < 10 ^ 21 ∧ metrics.kvCacheTokens < 10 ^ 21 ∧
    metrics.reasoningTokens < 10 ^ 21 ∧ metrics.outputTokens < 10 ^ 21) ∧
  metrics.totalUsd.getD 0 < 10 ^ 8

theorem fitsTokens_sum (h : ∀ row ∈ rows, row.Conforms) :
    FitsTokens (rows.map (·.tokens kinds)).sum ↔ (rows.map (·.tokens kinds)).sum < 10 ^ 21 := by
  have hpos : 0 ≤ (rows.map (·.tokens kinds)).sum := by
    refine List.sum_nonneg fun q hq => ?_
    obtain ⟨row, hrow, rfl⟩ := List.mem_map.mp hq
    exact (h row hrow).tokens.1
  have hden : ((rows.map (LedgerRow.tokens kinds)).sum * 10 ^ 9).den = 1 := by
    refine den_sum fun q hq => ?_
    obtain ⟨row, hrow, rfl⟩ := List.mem_map.mp hq
    exact (h row hrow).tokens.2
  exact ⟨fun hfits => hfits.2.2, fun hsmall => ⟨hpos, hden, hsmall⟩⟩

theorem sum_cost_nonneg (h : ∀ row ∈ rows, row.Conforms) :
    0 ≤ (rows.map fun row => row.costUsd.getD 0).sum := by
  refine List.sum_nonneg fun q hq => ?_
  obtain ⟨row, hrow, rfl⟩ := List.mem_map.mp hq
  exact (h row hrow).cost.1

theorem fitsUsd_knownCost (h : ∀ row ∈ rows, row.Conforms) :
    (∀ cost ∈ knownCost rows, FitsUsd cost) ↔ (knownCost rows).getD 0 < 10 ^ 8 := by
  cases hknown : knownCost rows with
  | none => simp
  | some cost =>
    have hcost : cost = (rows.map fun row => row.costUsd.getD 0).sum := by
      rw [← getD_knownCost, hknown, Option.getD_some]
    have hden : (cost * 10 ^ 12).den = 1 := by
      rw [hcost]
      refine den_sum fun q hq => ?_
      obtain ⟨row, hrow, rfl⟩ := List.mem_map.mp hq
      exact (h row hrow).cost.2
    have hpos : 0 ≤ cost := hcost ▸ sum_cost_nonneg h
    simp only [Option.mem_some_iff, forall_eq', Option.getD_some]
    exact ⟨fun hfits => hfits.2.2, fun hsmall => ⟨hpos, hden, hsmall⟩⟩

/-- What the ledger tells of a cost is honest. -/
theorem honestCost_knownCost (rows : List LedgerRow) :
    HonestCost (knownCost rows) rows.length (unpricedLines rows) := by
  have hall : rows.length = unpricedLines rows ↔ ∀ row ∈ rows, row.costUsd = none := by
    rw [unpricedLines, eq_comm, List.length_filter_eq_length_iff]
    simp
  refine ⟨List.length_filter_le _ _, ?_, ?_⟩
  · exact fun heq _ => knownCost_eq_none.mpr (hall.mp heq)
  · exact fun hne hnone => hne (hall.mpr (knownCost_eq_none.mp hnone))

theorem sum_sublist {f : LedgerRow → ℚ} (hsub : rows.Sublist rows')
    (h : ∀ row ∈ rows', 0 ≤ f row) : (rows.map f).sum ≤ (rows'.map f).sum := by
  refine (hsub.map f).sum_le_sum fun q hq => ?_
  obtain ⟨row, hrow, rfl⟩ := List.mem_map.mp hq
  exact h row hrow

/-- Fewer lines leave as much room. -/
theorem small_sublist (hsub : rows.Sublist rows') (h : ∀ row ∈ rows', row.Conforms)
    (hsmall : (aggregate asOf rows').Small) : (aggregate asOf rows).Small := by
  have htokens (kinds : List String) :
      (rows.map (·.tokens kinds)).sum ≤ (rows'.map (·.tokens kinds)).sum :=
    sum_sublist hsub fun row hrow => (h row hrow).tokens.1
  obtain ⟨⟨hinput, hcache, hreasoning, houtput⟩, husd⟩ := hsmall
  refine ⟨⟨?_, ?_, ?_, ?_⟩, ?_⟩
  · exact (htokens _).trans_lt hinput
  · exact (htokens _).trans_lt hcache
  · exact (htokens _).trans_lt hreasoning
  · exact (htokens _).trans_lt houtput
  · refine lt_of_le_of_lt ?_ husd
    dsimp only [aggregate]
    rw [getD_knownCost, getD_knownCost]
    exact sum_sublist hsub fun row hrow => (h row hrow).cost.1

/-- A row of the table passes its checks when its totals are within their digits. -/
theorem valid_aggregate (h : ∀ row ∈ rows, row.Conforms) :
    (aggregate asOf rows).Valid ↔ (aggregate asOf rows).Small := by
  have hhour : ∀ row ∈ rows.filter (·.InHour asOf), row.Conforms :=
    fun row hrow => h row (List.mem_of_mem_filter hrow)
  have hhourSmall : (knownCost rows).getD 0 < 10 ^ 8 →
      (knownCost (rows.filter (·.InHour asOf))).getD 0 < 10 ^ 8 := by
    refine lt_of_le_of_lt ?_
    rw [getD_knownCost, getD_knownCost]
    exact sum_sublist List.filter_sublist fun row hrow => (h row hrow).cost.1
  simp only [SpendTableMetrics.Valid, SpendTableMetrics.Small, aggregate, fitsTokens_sum h,
    fitsUsd_knownCost h, fitsUsd_knownCost hhour, honestCost_knownCost, and_self, and_true]
  refine and_congr_right fun _ => ?_
  exact ⟨fun husd => husd.1, fun husd => ⟨husd, hhourSmall husd⟩⟩

end Answers

section Labels

/-- A name put after the label of its lane. -/
theorem nonBlank_labelled {label value : String} {c : Char} {l : List Char}
    (hlabel : label.toList = c :: l) (hc : Text.isSpace c = false) (h : NonBlank value) :
    NonBlank (label ++ value) := by
  obtain ⟨d, m, hm⟩ : ∃ d m, value.toList.reverse = d :: m := by
    cases hm : value.toList.reverse with
    | nil =>
      rw [List.reverse_eq_nil_iff, String.toList_eq_nil_iff] at hm
      exact absurd hm h.ne_empty
    | cons d m => exact ⟨d, m, rfl⟩
  have hhead : (label ++ value).toList.dropWhile Text.isSpace = (label ++ value).toList := by
    rw [String.toList_append, hlabel, List.cons_append, List.dropWhile_cons_of_neg (by simp [hc])]
  have hreverse : (label ++ value).toList.reverse = d :: (m ++ label.toList.reverse) := by
    rw [String.toList_append, List.reverse_append, hm, List.cons_append]
  refine nonBlank_of_trimmed ?_ ?_
  · rw [Text.isTrimmed, Text.strip, hhead, Text.rstrip, hreverse,
      List.dropWhile_cons_of_neg (by simp [not_isSpace_of_trimmed h.2 hm]), ← hreverse,
      List.reverse_reverse, String.ofList_toList]
  · intro hempty
    rw [hempty] at hreverse
    cases hreverse

theorem nonBlank_rateLabel (dimension : RateDimension) {key : Option String}
    (h : ∀ value ∈ key, NonBlank value) : NonBlank (rateLabel dimension key) := by
  have hname : NonBlank (if key.getD "" = "" then "unreported" else key.getD "") := by
    cases key with
    | none => decide
    | some value =>
      have hvalue := h value rfl
      rw [Option.getD_some, if_neg hvalue.ne_empty]
      exact hvalue
  cases dimension with
  | total =>
    change NonBlank "Total"
    decide
  | curation =>
    change NonBlank "Memory curation"
    decide
  | agent => exact nonBlank_labelled (c := 'A') rfl (by decide) hname
  | subagent => exact nonBlank_labelled (c := 'S') rfl (by decide) hname
  | model => exact nonBlank_labelled (c := 'M') rfl (by decide) hname

end Labels

section Rates

attribute [local instance] purposeOrder dimensionOrder

variable {asOf : Time} {rows : List LedgerRow} {lanes : List LaneRow}

theorem valid_lines (h : ∀ row ∈ rows, row.Conforms) :
    (∀ cost ∈ knownCost rows, 0 ≤ cost) ∧ unpricedLines rows ≤ rows.length := by
  refine ⟨?_, List.length_filter_le _ _⟩
  intro cost hcost
  have hsum : cost = (rows.map fun row => row.costUsd.getD 0).sum := by
    rw [← getD_knownCost, hcost, Option.getD_some]
  rw [hsum]
  exact sum_cost_nonneg h

/-- Lanes that fit a minute at a time fit when they are summed. -/
theorem fit_rateRows (h : LanesFit lanes) : LanesFit (rateRows lanes) := by
  intro row hrow
  obtain ⟨⟨key, parts⟩, hgroup, rfl⟩ := List.mem_map.mp hrow
  have hparts : ∀ part ∈ parts, part.Valid := fun part hpart =>
    (h part (mem_of_mem_groups hgroup hpart).1).1
  refine ⟨⟨?_, ?_⟩, ?_⟩
  · intro cost hcost
    simp only [sumCosts, Option.mem_def, Option.ite_none_right_eq_some, Option.some.injEq] at hcost
    rw [← hcost.2]
    refine List.sum_nonneg fun q hq => ?_
    simp only [List.mem_map, exists_exists_and_eq_and] at hq
    obtain ⟨part, hpart, rfl⟩ := hq
    cases hpartCost : part.costUsd with
    | none => exact le_rfl
    | some cost => exact (hparts part hpart).1 cost hpartCost
  · exact List.sum_le_sum fun part hpart => (hparts part hpart).2
  · obtain ⟨part, hpart⟩ := List.exists_mem_of_ne_nil _ (ne_nil_of_mem_groups hgroup)
    obtain ⟨hin, rfl⟩ := mem_of_mem_groups hgroup hpart
    exact (h part hin).2

/-- What a minute's row is good for. -/
def MinuteRow.Valid (row : MinuteRow) : Prop :=
  ((∀ cost ∈ row.costUsd, 0 ≤ cost) ∧ row.unpricedLines ≤ row.receiptLines) ∧
    ∀ value ∈ row.model, NonBlank value

theorem fit_minuteLanes {row : MinuteRow} (h : row.Valid) : LanesFit (minuteLanes row) := by
  intro lane hlane
  simp only [minuteLanes, List.mem_append, List.mem_cons, List.not_mem_nil, or_false] at hlane
  rcases hlane with (rfl | rfl) | hcuration
  · exact ⟨h.1, nonBlank_rateLabel .total (by simp)⟩
  · exact ⟨h.1, nonBlank_rateLabel .model h.2⟩
  · split at hcuration
    · rw [List.mem_singleton] at hcuration
      rw [hcuration]
      exact ⟨h.1, nonBlank_rateLabel .curation (by simp; decide)⟩
    · cases hcuration

theorem valid_spendRateView (h : ∀ row ∈ rows, row.Conforms) :
    ∀ row ∈ spendRateView rows, row.Valid := by
  intro shown hshown
  obtain ⟨⟨key, lines⟩, hgroup, rfl⟩ := List.mem_map.mp hshown
  have hlines : ∀ row ∈ lines, row.Conforms :=
    fun row hrow => h row (mem_of_mem_groups hgroup hrow).1
  refine ⟨valid_lines hlines, ?_⟩
  obtain ⟨row, hrow⟩ := List.exists_mem_of_ne_nil _ (ne_nil_of_mem_groups hgroup)
  obtain ⟨hin, rfl⟩ := mem_of_mem_groups hgroup hrow
  exact (h row hin).model

theorem valid_ledgerMinutes (h : ∀ row ∈ rows, row.Conforms) :
    ∀ row ∈ ledgerMinutes asOf rows, row.Valid := by
  intro shown hshown
  obtain ⟨⟨key, lines⟩, hgroup, rfl⟩ := List.mem_map.mp hshown
  have hlines : ∀ row ∈ lines, row.Conforms :=
    fun row hrow => h row (List.mem_of_mem_filter (mem_of_mem_groups hgroup hrow).1)
  refine ⟨valid_lines hlines, ?_⟩
  obtain ⟨row, hrow⟩ := List.exists_mem_of_ne_nil _ (ne_nil_of_mem_groups hgroup)
  obtain ⟨hin, rfl⟩ := mem_of_mem_groups hgroup hrow
  exact (hlines row hrow).model

theorem fit_agentLanes (h : ∀ row ∈ rows, row.Conforms) : LanesFit (agentLanes asOf rows) := by
  intro lane hlane
  obtain ⟨⟨key, lines⟩, hgroup, rfl⟩ := List.mem_map.mp hlane
  have hlines : ∀ row ∈ lines, row.Conforms :=
    fun row hrow => h row (List.mem_of_mem_filter (mem_of_mem_groups hgroup hrow).1)
  refine ⟨valid_lines hlines, ?_⟩
  obtain ⟨row, hrow⟩ := List.exists_mem_of_ne_nil _ (ne_nil_of_mem_groups hgroup)
  obtain ⟨hin, rfl⟩ := mem_of_mem_groups hgroup hrow
  exact nonBlank_rateLabel _ (hlines row hrow).originAgent

end Rates

section Table

attribute [local instance] purposeOrder

variable {w : SpendSettings} {s s₀ : SpendLedger} {ledger base : List LedgerRow}
  {view : List MinuteRow} {asOf : Time} {threadIds : Option (List Uuid)}
  {principalId : Option String}

theorem scopedLines_nil (ledger : List LedgerRow) (asOf : Time) (principalId : Option String) :
    scopedLines ledger asOf (some []) principalId = [] := by
  rw [scopedLines, List.filter_eq_nil_iff]
  intro row _ hscoped
  obtain ⟨_, hthread, _⟩ := of_decide_eq_true hscoped
  obtain ⟨_, _, hin⟩ := hthread [] rfl
  cases hin

theorem small_nil (asOf : Time) : (aggregate asOf []).Small := by
  refine ⟨⟨?_, ?_, ?_, ?_⟩, ?_⟩ <;> simp [aggregate, knownCost]

/-- The totals of every thread, and of every purpose off the threads, are within their digits. -/
def TotalsFit (asOf : Time) (base : List LedgerRow) : Prop :=
  (∀ threadId, (aggregate asOf (base.filter (·.threadId = some threadId))).Small) ∧
    ∀ purpose, (aggregate asOf
      (base.filter fun row => row.threadId = none ∧ row.purpose = purpose)).Small

theorem threadsFit_iff (h : ∀ row ∈ base, row.Conforms) : ThreadsFit asOf base ↔
    ∀ threadId, (aggregate asOf (base.filter (·.threadId = some threadId))).Small := by
  have hconform (threadId : Uuid) :
      ∀ row ∈ base.filter (·.threadId = some threadId), row.Conforms :=
    fun row hrow => h row (List.mem_of_mem_filter hrow)
  constructor
  · intro hfit threadId
    by_cases hnone : ∃ line ∈ threadLines base, line.1 = threadId
    · have hvalid := hfit (threadId, _) (mem_groups.mpr ⟨hnone, rfl⟩)
      dsimp only at hvalid
      rw [map_thread] at hvalid
      exact (valid_aggregate (hconform threadId)).mp hvalid
    · have hempty : base.filter (·.threadId = some threadId) = [] := by
        rw [← map_thread, List.map_eq_nil_iff, List.filter_eq_nil_iff]
        intro line hline heq
        exact hnone ⟨line, hline, of_decide_eq_true heq⟩
      rw [hempty]
      exact small_nil asOf
  · rintro hsmall ⟨threadId, lines⟩ hgroup
    obtain ⟨_, rfl⟩ := mem_groups.mp hgroup
    dsimp only
    rw [map_thread]
    exact (valid_aggregate (hconform threadId)).mpr (hsmall threadId)

theorem purposesFit_iff (h : ∀ row ∈ base, row.Conforms) : PurposesFit asOf base ↔
    ∀ purpose, (aggregate asOf
      (base.filter fun row => row.threadId = none ∧ row.purpose = purpose)).Small := by
  have hconform (purpose : SpendPurpose) :
      ∀ row ∈ base.filter (fun row => row.threadId = none ∧ row.purpose = purpose),
        row.Conforms := fun row hrow => h row (List.mem_of_mem_filter hrow)
  constructor
  · intro hfit purpose
    by_cases hnone : ∃ row ∈ otherLines base, row.purpose = purpose
    · have hgroup := mem_groups.mpr ⟨hnone, rfl⟩
      have hvalid := hfit _ hgroup
      dsimp only at hvalid
      rw [purpose_lines hgroup] at hvalid
      exact (valid_aggregate (hconform purpose)).mp hvalid
    · have hempty : base.filter (fun row => row.threadId = none ∧ row.purpose = purpose) = [] := by
        rw [List.filter_eq_nil_iff]
        intro row hrow heq
        obtain ⟨hthread, hpurpose⟩ := of_decide_eq_true heq
        refine hnone ⟨row, List.mem_filter.mpr ⟨hrow, ?_⟩, hpurpose⟩
        rw [hthread]
        rfl
      rw [hempty]
      exact small_nil asOf
  · rintro hsmall ⟨purpose, lines⟩ hgroup
    dsimp only
    rw [purpose_lines hgroup]
    exact (valid_aggregate (hconform purpose)).mpr (hsmall purpose)

/-- A model's share of a thread's lines is no larger than the thread. -/
theorem modelsFit_of_threads (h : ∀ row ∈ base, row.Conforms)
    (hsmall : ∀ threadId, (aggregate asOf (base.filter (·.threadId = some threadId))).Small) :
    ModelsFit asOf base := by
  rintro ⟨key, lines⟩ hgroup
  obtain ⟨line, hline⟩ := List.exists_mem_of_ne_nil _ (ne_nil_of_mem_groups hgroup)
  obtain ⟨hin, hkey⟩ := mem_of_mem_groups hgroup hline
  obtain ⟨_, rfl⟩ := mem_groups.mp hgroup
  subst hkey
  dsimp only
  refine ⟨(h line.2 (mem_threadLines.mp hin).1).model, ?_⟩
  have hsub : ((threadLines base).filter (modelKey · = modelKey line)).Sublist
      ((threadLines base).filter (·.1 = line.1)) := by
    refine List.monotone_filter_right _ fun other hother => ?_
    exact decide_eq_true (congrArg (fun key => (ofLex key).1) (of_decide_eq_true hother))
  have hrows := hsub.map (·.2)
  rw [map_thread] at hrows
  have hconform : ∀ row ∈ base.filter (·.threadId = some line.1), row.Conforms :=
    fun row hrow => h row (List.mem_of_mem_filter hrow)
  rw [valid_aggregate fun row hrow => hconform row (hrows.subset hrow)]
  exact small_sublist hrows hconform (hsmall line.1)

theorem fit_scopedLanes (h : ∀ row ∈ ledger, row.Conforms) (hview : ∀ row ∈ view, row.Valid) :
    LanesFit (scopedLanes ledger view asOf threadIds principalId) := by
  have hscoped : ∀ row ∈ scopedLines ledger asOf threadIds principalId, row.Conforms :=
    fun row hrow => h row (List.mem_of_mem_filter hrow)
  refine fit_rateRows fun lane hlane => ?_
  rcases List.mem_append.mp hlane with hlane | hlane
  · obtain ⟨minute, hminute, hlane⟩ := List.mem_flatMap.mp hlane
    refine fit_minuteLanes ?_ lane hlane
    rw [scopedMinutes] at hminute
    split at hminute
    · exact hview minute (List.mem_of_mem_filter hminute)
    · exact valid_ledgerMinutes hscoped minute hminute
  · exact fit_agentLanes hscoped lane hlane

theorem nil_conserves (asOf : Time) : ({ asOf } : SpendTableSnapshot).Conserves asOf [] := by
  constructor <;> simp

theorem shown_conserves {snapshot : SpendTableSnapshot}
    (h : table ledger view asOf threadIds principalId = .ok snapshot) :
    snapshot.Conserves asOf (scopedLines ledger asOf threadIds principalId) := by
  by_cases hscope : threadIds = some []
  · subst hscope
    rw [table_nil, Except.ok.injEq] at h
    rw [scopedLines_nil, ← h]
    exact nil_conserves asOf
  · obtain ⟨_, rfl⟩ := (table_eq_ok hscope).mp h
    exact drawn_conserves _ _ _ _ _

/-- Only a total that outgrows its digits keeps the table from being shown. -/
theorem table_answers (hledger : ∀ row ∈ ledger, row.Conforms) (hview : ∀ row ∈ view, row.Valid) :
    (∃ snapshot, table ledger view asOf threadIds principalId = .ok snapshot) ↔
      TotalsFit asOf (scopedLines ledger asOf threadIds principalId) := by
  have hbase : ∀ row ∈ scopedLines ledger asOf threadIds principalId, row.Conforms :=
    fun row hrow => hledger row (List.mem_of_mem_filter hrow)
  by_cases hscope : threadIds = some []
  · subst hscope
    rw [scopedLines_nil]
    exact iff_of_true ⟨_, table_nil⟩ ⟨fun _ => small_nil asOf, fun _ => small_nil asOf⟩
  · constructor
    · rintro ⟨snapshot, hsnapshot⟩
      obtain ⟨⟨_, hthreads, hpurposes, _⟩, _⟩ := (table_eq_ok hscope).mp hsnapshot
      exact ⟨(threadsFit_iff hbase).mp hthreads, (purposesFit_iff hbase).mp hpurposes⟩
    · rintro ⟨hthreads, hpurposes⟩
      refine ⟨_, (table_eq_ok hscope).mpr ⟨⟨?_, ?_, ?_, ?_⟩, rfl⟩⟩
      · exact modelsFit_of_threads hbase hthreads
      · exact (threadsFit_iff hbase).mpr hthreads
      · exact (purposesFit_iff hbase).mpr hpurposes
      · exact fit_scopedLanes hledger hview

/-- Of a ledger in any state, with the view as it was refreshed in any: what the table shows
counts each line in its scope once, and it shows it unless a total outgrows its digits. -/
theorem spend_table_conserves (h : (spendLedger w).Reachable s)
    (h₀ : (spendLedger w).Reachable s₀) (asOf : Time) (threadIds : Option (List Uuid))
    (principalId : Option String) :
    let shown := table s.rows.rows (spendRateView s₀.rows.rows) asOf threadIds principalId
    let base := scopedLines s.rows.rows asOf threadIds principalId
    (∀ snapshot, shown = .ok snapshot → snapshot.Conserves asOf base) ∧
      ((∃ snapshot, shown = .ok snapshot) ↔ TotalsFit asOf base) := by
  intro shown base
  constructor
  · intro snapshot hsnapshot
    exact shown_conserves hsnapshot
  · exact table_answers (sound_of_ledger h).conform
      (valid_spendRateView (sound_of_ledger h₀).conform)

end Table

section Small

/-- A line of a thread and the September bill. -/
def billedActions : List LedgerAction :=
  [.append [inputLine (.bool true)], .begin "invoice-owner" septemberInvoice, .lock 0, .read 0 7,
    .commit 0]

def billedLedger : SpendLedger := (spendLedger invoiceSettings).run ⟨.empty, []⟩ billedActions

theorem billedLedger_reachable : (spendLedger invoiceSettings).Reachable billedLedger :=
  ⟨⟨.empty, []⟩, billedActions, ⟨rfl, rfl⟩, rfl⟩

/-- The line and the bill, accepted once. -/
theorem billedLedger_holds : billedLedger.rows.rows =
      [.line (inputLine (.bool true)),
        .invoice (invoiceReceipt 7 "invoice-owner" septemberInvoice)] ∧
    billedLedger.accepted = [septemberInvoice] := by
  decide +kernel

end Small

theorem spend_table_conserves_billed : ∃ snapshot,
    table billedLedger.rows.rows (spendRateView billedLedger.rows.rows) 1790000000000000 none none =
        .ok snapshot ∧
      (snapshot.threads.map (·.metrics.at .totalReceiptLines)).sum +
        (snapshot.purposes.map (·.metrics.at .totalReceiptLines)).sum = 2 := by
  obtain ⟨hconserves, _⟩ := spend_table_conserves billedLedger_reachable billedLedger_reachable
    1790000000000000 none none
  have hok : (table billedLedger.rows.rows (spendRateView billedLedger.rows.rows) 1790000000000000
      none none).toOption.isSome = true := by
    rw [billedLedger_holds.1]
    decide +kernel
  cases hshown : table billedLedger.rows.rows (spendRateView billedLedger.rows.rows)
      1790000000000000 none none with
  | error error =>
    rw [hshown] at hok
    cases hok
  | ok snapshot =>
    refine ⟨snapshot, rfl, ?_⟩
    rw [(hconserves snapshot hshown).total .totalReceiptLines, billedLedger_holds.1]
    decide +kernel

end Nocturne.Spend
