import Nocturne.Ids.Ulid
import Nocturne.Lib.Grouping
import Nocturne.Spend.Invoices
import Nocturne.Vitals.Windows

namespace Nocturne.Spend

open Nocturne.Lib Nocturne.Vitals

inductive TableError
  /-- Request does not match the endpoint contract -/
  | unprocessable
  /-- Only the Palace owner can view the whole Palace. -/
  | notOwner
  /-- The values do not make a snapshot. -/
  | contract
  deriving DecidableEq

section Metrics

/-- Exact token lanes and the known cost of one grouping of the ledger. -/
structure SpendTableMetrics where
  inputTokens : ℚ
  kvCacheTokens : ℚ
  reasoningTokens : ℚ
  outputTokens : ℚ
  totalUsd : Option ℚ
  totalReceiptLines : Nat
  totalUnpricedLines : Nat
  spendPerHourUsd : Option ℚ
  hourlyReceiptLines : Nat
  hourlyUnpricedLines : Nat
  deriving DecidableEq

/-- The quantity of a line that counts tokens of one of the kinds. -/
def LedgerRow.tokens (kinds : List String) (row : LedgerRow) : ℚ :=
  if row.unitOfMeasure = "tokens" ∧ row.quantityType ∈ kinds then row.quantity else 0

/-- `sum(cost_usd)`, which is null where no cost is known. -/
def knownCost (rows : List LedgerRow) : Option ℚ :=
  if rows.any (·.costUsd.isSome) then some (rows.map fun row => row.costUsd.getD 0).sum else none

def unpricedLines (rows : List LedgerRow) : Nat := (rows.filter (·.costUsd.isNone)).length

/-- `ts >= :window_start`, an hour before `asOf`. -/
def LedgerRow.InHour (asOf : Time) (row : LedgerRow) : Prop := asOf ≤ row.ts + 3600000000

instance (asOf : Time) : DecidablePred (LedgerRow.InHour asOf) :=
  fun _ => inferInstanceAs (Decidable (_ ≤ _))

/-- `_AGGREGATE_COLUMNS` -/
def aggregate (asOf : Time) (rows : List LedgerRow) : SpendTableMetrics where
  inputTokens := (rows.map (·.tokens ["input_fresh"])).sum
  kvCacheTokens := (rows.map (·.tokens ["input_cached", "cache_write"])).sum
  reasoningTokens := (rows.map (·.tokens ["reasoning"])).sum
  outputTokens := (rows.map (·.tokens ["output"])).sum
  totalUsd := knownCost rows
  totalReceiptLines := rows.length
  totalUnpricedLines := unpricedLines rows
  spendPerHourUsd := knownCost (rows.filter (·.InHour asOf))
  hourlyReceiptLines := (rows.filter (·.InHour asOf)).length
  hourlyUnpricedLines := unpricedLines (rows.filter (·.InHour asOf))

/-- The bounds of a token lane. -/
def FitsTokens (quantity : ℚ) : Prop := 0 ≤ quantity ∧ FitsDigits 30 9 quantity

instance : DecidablePred FitsTokens := fun _ => inferInstanceAs (Decidable (_ ∧ _))

/-- `_require_honest_cost` -/
def HonestCost (cost : Option ℚ) (receiptLines unpricedLines : Nat) : Prop :=
  unpricedLines ≤ receiptLines ∧
    (receiptLines = unpricedLines → 0 < receiptLines → cost = none) ∧
    (receiptLines ≠ unpricedLines → cost ≠ none)

instance (cost : Option ℚ) (receiptLines unpricedLines : Nat) :
    Decidable (HonestCost cost receiptLines unpricedLines) := inferInstanceAs (Decidable (_ ∧ _))

/-- The checks of `SpendTableMetrics`. -/
def checkedMetrics (metrics : SpendTableMetrics) : Except TableError SpendTableMetrics := do
  ensure (FitsTokens metrics.inputTokens ∧ FitsTokens metrics.kvCacheTokens ∧
    FitsTokens metrics.reasoningTokens ∧ FitsTokens metrics.outputTokens) .contract
  ensure ((∀ cost ∈ metrics.totalUsd, FitsUsd cost) ∧
    ∀ cost ∈ metrics.spendPerHourUsd, FitsUsd cost) .contract
  ensure (HonestCost metrics.totalUsd metrics.totalReceiptLines metrics.totalUnpricedLines ∧
    HonestCost metrics.spendPerHourUsd metrics.hourlyReceiptLines metrics.hourlyUnpricedLines)
    .contract
  return metrics

end Metrics

section Rows

structure ModelSpendRow where
  model : Option String
  metrics : SpendTableMetrics
  deriving DecidableEq

structure ThreadSpendRow where
  threadId : Uuid
  models : List ModelSpendRow
  metrics : SpendTableMetrics
  deriving DecidableEq

structure PurposeSpendRow where
  purpose : SpendPurpose
  label : String
  metrics : SpendTableMetrics
  deriving DecidableEq

/-- `_PURPOSE_LABELS` -/
def purposeLabel : SpendPurpose → String
  | .building => "Building"
  | .extraction => "Memory extraction"
  | .curation => "Memory keeping"
  | .judge => "Judging"
  | .remember => "Remembering"
  | .embedding => "Embeddings"
  | .scout => "Verification"

theorem purposeText_injective : Function.Injective purposeText := by
  intro a b h
  cases a <;> cases b <;> first | rfl | exact absurd h (by decide)

/-- Purposes in the order of their names. -/
@[reducible] def purposeOrder : LinearOrder SpendPurpose :=
  LinearOrder.lift' purposeText purposeText_injective

attribute [local instance] purposeOrder

variable (asOf : Time)

/-- The filters that every read of the ledger shares. -/
def LedgerRow.Scoped (threadIds : Option (List Uuid)) (principalId : Option String)
    (row : LedgerRow) : Prop :=
  row.ts ≤ asOf ∧ (∀ ids ∈ threadIds, ∃ threadId ∈ row.threadId, threadId ∈ ids) ∧
    ∀ principal ∈ principalId, row.principalId = some principal

instance (threadIds : Option (List Uuid)) (principalId : Option String) :
    DecidablePred (LedgerRow.Scoped asOf threadIds principalId) := fun row =>
  have : Decidable (∀ ids ∈ threadIds, ∃ threadId ∈ row.threadId, threadId ∈ ids) :=
    match threadIds, row.threadId with
    | none, _ => isTrue (by simp)
    | some ids, none => isFalse (by simp)
    | some ids, some threadId => decidable_of_iff (threadId ∈ ids) (by simp)
  inferInstanceAs (Decidable (_ ∧ _ ∧ _))

/-- The lines of threads, each with its own. -/
def threadLines (base : List LedgerRow) : List (Uuid × LedgerRow) :=
  base.filterMap fun row => row.threadId.map fun threadId => (threadId, row)

/-- The lines of no thread. -/
def otherLines (base : List LedgerRow) : List LedgerRow := base.filter (·.threadId.isNone)

/-- `thread_id, model`, in this order, nulls last. -/
def modelKey (line : Uuid × LedgerRow) : Uuid ×ₗ WithTop String := toLex (line.1, line.2.model)

def keyModel (key : Uuid ×ₗ WithTop String) : Option String := (ofLex key).2

def modelSpendRow (model : Option String) (lines : List LedgerRow) :
    Except TableError ModelSpendRow := do
  ensure (∀ value ∈ model, NonBlank value) .contract
  return ⟨model, ← checkedMetrics (aggregate asOf lines)⟩

/-- The rows of `_table_query` that tell a thread's models apart. -/
def modelRows (base : List LedgerRow) : Except TableError (List (Uuid × ModelSpendRow)) :=
  (groups modelKey (threadLines base)).mapM fun (key, lines) => do
    return ((ofLex key).1, ← modelSpendRow asOf (keyModel key) (lines.map (·.2)))

def threadRows (base : List LedgerRow) (models : List (Uuid × ModelSpendRow)) :
    Except TableError (List ThreadSpendRow) :=
  (groups (·.1) (threadLines base)).mapM fun (threadId, lines) => do
    let metrics ← checkedMetrics (aggregate asOf (lines.map (·.2)))
    return { threadId, metrics, models := (models.filter (·.1 = threadId)).map (·.2) }

def purposeRows (base : List LedgerRow) : Except TableError (List PurposeSpendRow) :=
  (groups (·.purpose) (otherLines base)).mapM fun (purpose, lines) => do
    ensure (NonBlank (purposeLabel purpose)) .contract
    return ⟨purpose, purposeLabel purpose, ← checkedMetrics (aggregate asOf lines)⟩

end Rows

section History

inductive RateDimension
  | agent | curation | model | subagent | total
  deriving DecidableEq, Repr

/-- The text that orders the lanes. -/
def dimensionText : RateDimension → String
  | .agent => "agent"
  | .curation => "curation"
  | .model => "model"
  | .subagent => "subagent"
  | .total => "total"

theorem dimensionText_injective : Function.Injective dimensionText := by
  intro a b h
  cases a <;> cases b <;> first | rfl | exact absurd h (by decide)

/-- Lanes in the order of their dimensions' names. -/
@[reducible] def dimensionOrder : LinearOrder RateDimension :=
  LinearOrder.lift' dimensionText dimensionText_injective

/-- What a minute cost, of one purpose and model. -/
structure MinuteRow where
  minute : Time
  purpose : SpendPurpose
  model : Option String
  costUsd : Option ℚ
  receiptLines : Nat
  unpricedLines : Nat
  deriving DecidableEq

/-- A minute's share of one lane. -/
structure LaneRow where
  dimension : RateDimension
  key : Option String
  minute : Time
  costUsd : Option ℚ
  receiptLines : Nat
  unpricedLines : Nat
  deriving DecidableEq

variable (asOf : Time)

attribute [local instance] purposeOrder dimensionOrder

/-- `minute, purpose, model` -/
def minuteKey (row : LedgerRow) : Time ×ₗ (SpendPurpose ×ₗ WithTop String) :=
  toLex (truncMinute row.ts, toLex (row.purpose, row.model))

/-- The minutes of the ledger's own rows within the hour. -/
def ledgerMinutes (base : List LedgerRow) : List MinuteRow :=
  (groups minuteKey (base.filter (·.InHour asOf))).map fun (key, rows) =>
    { minute := (ofLex key).1
      purpose := (ofLex (ofLex key).2).1
      model := (ofLex (ofLex key).2).2
      costUsd := knownCost rows
      receiptLines := rows.length
      unpricedLines := unpricedLines rows }

/-- `minute, purpose, model, provider` -/
def viewKey (row : LedgerRow) :
    Time ×ₗ (SpendPurpose ×ₗ (WithTop String ×ₗ WithTop String)) :=
  toLex (truncMinute row.ts, toLex (row.purpose, toLex (row.model, row.provider)))

/-- `v_spend_rate`, as it is refreshed from the ledger. -/
def spendRateView (ledger : List LedgerRow) : List MinuteRow :=
  (groups viewKey ledger).map fun (key, rows) =>
    { minute := (ofLex key).1
      purpose := (ofLex (ofLex key).2).1
      model := (ofLex (ofLex (ofLex key).2).2).1
      costUsd := knownCost rows
      receiptLines := rows.length
      unpricedLines := unpricedLines rows }

/-- The minutes the refreshed view holds of the hour. -/
def viewMinutes (view : List MinuteRow) : List MinuteRow :=
  view.filter fun row => asOf ≤ row.minute + 3600000000 ∧ row.minute ≤ asOf

/-- The lanes each minute counts in. -/
def minuteLanes (row : MinuteRow) : List LaneRow :=
  let lane (dimension : RateDimension) (key : Option String) : LaneRow :=
    ⟨dimension, key, row.minute, row.costUsd, row.receiptLines, row.unpricedLines⟩
  [lane .total none, lane .model row.model] ++
    if row.purpose = .curation then [lane .curation (some "curation")] else []

/-- The agent's path has a run's root on it, or ends in a run. -/
def isSubagent (path : String) : Prop :=
  "/root.".toList <:+: path.toList ∨
    ∃ rest ∈ path.toList.tails, ∃ run ∈ rest.tail?, rest.head? = some '/' ∧
      Ids.storePattern (.ofList run)

instance : DecidablePred isSubagent := fun _ => inferInstanceAs (Decidable (_ ∨ _))

def agentDimension (row : LedgerRow) : RateDimension :=
  if ∃ path ∈ row.originAgent, isSubagent path then .subagent else .agent

/-- `date_trunc('minute', ts)`, the dimension and `origin_agent`. -/
def agentKey (row : LedgerRow) : Time ×ₗ (RateDimension ×ₗ WithTop String) :=
  toLex (truncMinute row.ts, toLex (agentDimension row, row.originAgent))

/-- The lanes of the agents that made requests within the hour. -/
def agentLanes (base : List LedgerRow) : List LaneRow :=
  (groups agentKey (base.filter fun row =>
    row.InHour asOf ∧ row.productType = .llmRequest)).map fun (key, rows) =>
      { dimension := (ofLex (ofLex key).2).1
        key := (ofLex (ofLex key).2).2
        minute := (ofLex key).1
        costUsd := knownCost rows
        receiptLines := rows.length
        unpricedLines := unpricedLines rows }

/-- `dimension, key, minute` -/
def laneKey (row : LaneRow) : RateDimension ×ₗ (WithTop String ×ₗ Time) :=
  toLex (row.dimension, toLex (row.key, row.minute))

/-- `sum(cost_usd)` over rows that were summed before. -/
def sumCosts (costs : List (Option ℚ)) : Option ℚ :=
  if costs.any (·.isSome) then some (costs.map (·.getD 0)).sum else none

/-- The lanes, a row for each minute of each. -/
def rateRows (lanes : List LaneRow) : List LaneRow :=
  (groups laneKey lanes).map fun (key, rows) =>
    { dimension := (ofLex key).1
      key := (ofLex (ofLex key).2).1
      minute := (ofLex (ofLex key).2).2
      costUsd := sumCosts (rows.map (·.costUsd))
      receiptLines := (rows.map (·.receiptLines)).sum
      unpricedLines := (rows.map (·.unpricedLines)).sum }

structure RatePoint where
  minute : Time
  costUsd : Option ℚ
  receiptLines : Nat
  unpricedLines : Nat
  deriving DecidableEq

structure SpendRateLane where
  dimension : RateDimension
  key : Option String
  label : String
  points : List RatePoint
  deriving DecidableEq

def rateLabel (dimension : RateDimension) (key : Option String) : String :=
  let name := if key.getD "" = "" then "unreported" else key.getD ""
  let named (label : String) := label ++ " · " ++ name
  match dimension with
  | .total => "Total"
  | .curation => "Memory curation"
  | .agent => named "Agent"
  | .subagent => named "Sub-agent"
  | .model => named "Model"

/-- The checks of a point. -/
def ratePoint (row : LaneRow) : Except TableError RatePoint := do
  ensure (∀ cost ∈ row.costUsd, 0 ≤ cost) .contract
  ensure (row.unpricedLines ≤ row.receiptLines) .contract
  return ⟨row.minute, row.costUsd, row.receiptLines, row.unpricedLines⟩

/-- The rows of each lane, the lanes as they first come. -/
def spendRates (rows : List LaneRow) : Except TableError (List SpendRateLane) :=
  (rows.map fun row => (row.dimension, row.key)).eraseDups.mapM fun (dimension, key) => do
    let points ← (rows.filter fun row => (row.dimension, row.key) = (dimension, key)).mapM ratePoint
    ensure (NonBlank (rateLabel dimension key)) .contract
    return { dimension, key, label := rateLabel dimension key, points }

structure MessageCache where
  threadId : Uuid
  promptId : Option Ulid
  firstRequestAt : Time
  freshTokens : ℚ
  cachedTokens : ℚ
  cacheWriteTokens : ℚ
  deriving DecidableEq

/-- `thread_id, prompt_id`, nulls last. -/
def messageKey (line : Uuid × LedgerRow) : Uuid ×ₗ WithTop Ulid := toLex (line.1, line.2.promptId)

/-- What the lines of one kind count. -/
def quantityOf (kind : String) (rows : List LedgerRow) : ℚ :=
  ((rows.filter (·.quantityType = kind)).map (·.quantity)).sum

/-- `first_request_at, thread_id, prompt_id` -/
def messageStamp (row : MessageCache) : Time ×ₗ (Uuid ×ₗ WithTop Ulid) :=
  toLex (row.firstRequestAt, toLex (row.threadId, row.promptId))

/-- The cache history, in the order of first requests. -/
def messageRows (base : List LedgerRow) : List MessageCache :=
  let requests := base.filter fun row =>
    row.productType = .llmRequest ∧ row.unitOfMeasure = "tokens"
  listing messageStamp <| (groups messageKey (threadLines requests)).map fun (key, lines) =>
    { threadId := (ofLex key).1
      promptId := (ofLex key).2
      firstRequestAt := ((lines.map (·.2.ts)).min?).getD 0
      freshTokens := quantityOf "input_fresh" (lines.map (·.2))
      cachedTokens := quantityOf "input_cached" (lines.map (·.2))
      cacheWriteTokens := quantityOf "cache_write" (lines.map (·.2)) }

structure DailySpend where
  day : Time
  modelUsd : Option ℚ
  infrastructureUsd : Option ℚ
  totalUsd : Option ℚ
  unpricedLines : Nat
  deriving DecidableEq

/-- `date_trunc('day', …)` at UTC. -/
def truncDay (ts : Time) : Time := ts - ts % microsecondsPerDay

/-- What each day cost. -/
def dayRows (base : List LedgerRow) : List DailySpend :=
  (groups (fun row => truncDay row.ts) base).map fun (day, rows) =>
    { day
      modelUsd := knownCost (rows.filter fun row =>
        row.productType = .llmRequest ∨ row.productType = .llmEmbedding)
      infrastructureUsd := knownCost (rows.filter (·.productType = .infraRunServe))
      totalUsd := knownCost rows
      unpricedLines := unpricedLines rows }

structure SpendReceipt where
  eventUid : Ulid
  ts : Time
  threadId : Option Uuid
  model : Option String
  purpose : SpendPurpose
  quantityType : String
  unitOfMeasure : String
  quantity : ℚ
  costUsd : Option ℚ
  basis : SpendBasis
  ref : String
  deriving DecidableEq

def spendReceipt (row : LedgerRow) : SpendReceipt where
  eventUid := row.eventUid
  ts := row.ts
  threadId := row.threadId
  model := row.model
  purpose := row.purpose
  quantityType := row.quantityType
  unitOfMeasure := row.unitOfMeasure
  quantity := row.quantity
  costUsd := row.costUsd
  basis := row.basis
  ref := row.ref

/-- The receipts in the order of their uids. -/
def receiptRows (base : List LedgerRow) : List SpendReceipt :=
  (listing (·.eventUid) base).map spendReceipt

end History

section Snapshot

inductive RateSource
  | viewAndEvents
  | events
  deriving DecidableEq

structure SpendTableSnapshot where
  canRecordInvoice : Bool := false
  asOf : Time
  threads : List ThreadSpendRow := []
  purposes : List PurposeSpendRow := []
  rates : List SpendRateLane := []
  rateSource : RateSource := .events
  messages : List MessageCache := []
  days : List DailySpend := []
  receipts : List SpendReceipt := []
  deriving DecidableEq

/-- `table`, of the ledger and of the view as it was last refreshed. -/
def table (ledger : List LedgerRow) (view : List MinuteRow) (asOf : Time)
    (threadIds : Option (List Uuid)) (principalId : Option String) :
    Except TableError SpendTableSnapshot := do
  if threadIds = some [] then return { asOf }
  let base := ledger.filter fun row => row.Scoped asOf threadIds principalId
  let minutes :=
    if threadIds.isNone ∧ principalId.isNone then viewMinutes asOf view else ledgerMinutes asOf base
  let models ← modelRows asOf base
  let threads ← threadRows asOf base models
  let purposes ← purposeRows asOf base
  let rates ← spendRates (rateRows (minutes.flatMap minuteLanes ++ agentLanes asOf base))
  return {
    asOf, threads, rates
    purposes := if threadIds.isSome then [] else purposes
    rateSource := if threadIds.isSome ∨ principalId.isSome then .events else .viewAndEvents
    messages := messageRows base
    days := dayRows base
    receipts := receiptRows base }

inductive TableScope
  | principal | palace | global | threads
  deriving DecidableEq

/-- `metrics_principal` -/
def metricsPrincipal (owner principalId : String) (palace : Bool) :
    Except TableError (Option String) := do
  if palace then
    ensure (principalId = owner) .notOwner
    return none
  return some principalId

/-- `read_spend_table` -/
def readSpendTable (owner : String) (ledger : List LedgerRow) (view : List MinuteRow) (now : Time)
    (principalId : String) (threadIds : Option (List Uuid)) (scope : TableScope) :
    Except TableError SpendTableSnapshot := do
  ensure (principalId ≠ "") .unprocessable
  let scopedThreads := threadIds.orElse fun _ => if scope = .threads then some [] else none
  let principal ← metricsPrincipal owner principalId (scope = .palace)
  let snapshot ← table ledger view now scopedThreads principal
  return { snapshot with canRecordInvoice := principalId = owner }

end Snapshot

end Nocturne.Spend
