import Nocturne.Spend.RateLaws

namespace Nocturne.Spend

open Nocturne.Lib Nocturne.Vitals

section Days

variable {base : List LedgerRow}

/-- The lines of one day. -/
def dayLines (base : List LedgerRow) (day : Time) : List LedgerRow :=
  base.filter fun row => truncDay row.ts = day

/-- The days agree with the ledger. -/
structure DaysAgree (base : List LedgerRow) (days : List DailySpend) : Prop where
  /-- A day for every line, in order, and no other. -/
  sorted : (days.map (·.day)).Pairwise (· < ·)
  day_iff : ∀ day, day ∈ days.map (·.day) ↔ ∃ row ∈ base, truncDay row.ts = day
  total : ∀ shown ∈ days, shown.totalUsd = knownCost (dayLines base shown.day)
  unpriced : ∀ shown ∈ days, shown.unpricedLines = unpricedLines (dayLines base shown.day)
  /-- The models and the invoices share the day's cost. -/
  shared : ∀ shown ∈ days, sumCosts [shown.modelUsd, shown.infrastructureUsd] = shown.totalUsd
  sum : (days.map (·.totalUsd.getD 0)).sum = (base.map fun row => row.costUsd.getD 0).sum
  sumUnpriced : (days.map (·.unpricedLines)).sum = unpricedLines base

theorem knownCost_append (rows rows' : List LedgerRow) :
    knownCost (rows ++ rows') = sumCosts [knownCost rows, knownCost rows'] := by
  refine cost_ext ?_ ?_
  · rw [sumCosts_eq_none, knownCost_eq_none]
    simp only [List.mem_cons, List.not_mem_nil, or_false, forall_eq_or_imp, forall_eq,
      knownCost_eq_none, List.mem_append]
    exact ⟨fun h => ⟨fun row hrow => h row (.inl hrow), fun row hrow => h row (.inr hrow)⟩,
      fun h row hrow => hrow.elim (h.1 row) (h.2 row)⟩
  · rw [getD_sumCosts, getD_knownCost, List.map_append, List.sum_append]
    simp [getD_knownCost]

theorem knownCost_perm {rows rows' : List LedgerRow} (h : rows.Perm rows') :
    knownCost rows = knownCost rows' := by
  refine cost_ext ?_ ?_
  · rw [knownCost_eq_none, knownCost_eq_none]
    exact forall_congr' fun row => by rw [h.mem_iff]
  · rw [getD_knownCost, getD_knownCost]
    exact (h.map _).sum_eq

/-- Every line is of a model's request or of an invoice. -/
theorem knownCost_products (rows : List LedgerRow) :
    sumCosts [knownCost (rows.filter fun row =>
        row.productType = .llmRequest ∨ row.productType = .llmEmbedding),
      knownCost (rows.filter (·.productType = .infraRunServe))] = knownCost rows := by
  rw [← knownCost_append]
  refine knownCost_perm ?_
  have hrest : (fun row : LedgerRow => decide (row.productType = .infraRunServe)) =
      fun row => !decide (row.productType = .llmRequest ∨ row.productType = .llmEmbedding) := by
    funext row
    cases row.productType <;> rfl
  rw [hrest]
  exact List.filter_append_perm _ rows

theorem days_agree (base : List LedgerRow) : DaysAgree base (dayRows base) := by
  have hdays : (dayRows base).map (·.day) = groupKeys (fun row => truncDay row.ts) base := by
    rw [← map_fst_groups, dayRows, List.map_map]
    rfl
  have hgroup : ∀ shown ∈ dayRows base, ∃ lines, lines = dayLines base shown.day ∧
      shown.modelUsd = knownCost (lines.filter fun row =>
        row.productType = .llmRequest ∨ row.productType = .llmEmbedding) ∧
      shown.infrastructureUsd = knownCost (lines.filter (·.productType = .infraRunServe)) ∧
      shown.totalUsd = knownCost lines ∧ shown.unpricedLines = unpricedLines lines := by
    intro shown hshown
    obtain ⟨⟨day, lines⟩, hgroup, rfl⟩ := List.mem_map.mp hshown
    exact ⟨lines, (mem_groups.mp hgroup).2, rfl, rfl, rfl, rfl⟩
  constructor
  · rw [hdays]
    exact pairwise_groupKeys _ _
  · intro day
    rw [hdays, mem_groupKeys]
  · intro shown hshown
    obtain ⟨lines, rfl, _, _, htotal, _⟩ := hgroup shown hshown
    exact htotal
  · intro shown hshown
    obtain ⟨lines, rfl, _, _, _, hunpriced⟩ := hgroup shown hshown
    exact hunpriced
  · intro shown hshown
    obtain ⟨lines, _, hmodel, hinfrastructure, htotal, _⟩ := hgroup shown hshown
    rw [hmodel, hinfrastructure, htotal]
    exact knownCost_products lines
  · rw [dayRows, List.map_map]
    exact sum_groups fun day lines _ => getD_knownCost lines
  · rw [dayRows, List.map_map]
    exact sum_unpricedLines _ base

end Days

section Receipts

variable {base : List LedgerRow}

/-- The receipts are the ledger's lines, each once, in the order of their uids. -/
structure ReceiptsAgree (base : List LedgerRow) (receipts : List SpendReceipt) : Prop where
  perm : receipts.Perm (base.map spendReceipt)
  sorted : (receipts.map (·.eventUid)).Pairwise (· < ·)

theorem receipts_agree (h : (base.map (·.eventUid)).Nodup) :
    ReceiptsAgree base (receiptRows base) where
  perm := (perm_listing _ base).map spendReceipt
  sorted := by
    have huids : (receiptRows base).map (·.eventUid) =
        (listing (·.eventUid) base).map (·.eventUid) := by
      rw [receiptRows, List.map_map]
      rfl
    have hnodup := ((perm_listing (·.eventUid) base).map (·.eventUid)).nodup_iff.mpr h
    have hsorted : ((listing (·.eventUid) base).map (·.eventUid)).Pairwise (· ≤ ·) :=
      List.pairwise_map.mpr (pairwise_listing _ _)
    rw [huids]
    exact (hsorted.and hnodup).imp fun h => lt_of_le_of_ne h.1 h.2

end Receipts

section Messages

variable {base : List LedgerRow}

/-- The lines that count the tokens of requests made in a thread. -/
def LedgerRow.Requested (row : LedgerRow) : Prop :=
  (row.productType = .llmRequest ∧ row.unitOfMeasure = "tokens") ∧ row.threadId.isSome

instance : DecidablePred LedgerRow.Requested := fun _ => inferInstanceAs (Decidable (_ ∧ _))

/-- The lines of one message. -/
def messageLines (base : List LedgerRow) (shown : MessageCache) : List LedgerRow :=
  base.filter fun row => row.Requested ∧ row.threadId = some shown.threadId ∧
    row.promptId = shown.promptId

/-- The cache history agrees with the ledger. -/
structure MessagesAgree (base : List LedgerRow) (messages : List MessageCache) : Prop where
  sorted : (messages.map messageStamp).Pairwise (· < ·)
  message_iff : ∀ threadId promptId,
    (∃ shown ∈ messages, shown.threadId = threadId ∧ shown.promptId = promptId) ↔
      ∃ row ∈ base, row.Requested ∧ row.threadId = some threadId ∧ row.promptId = promptId
  tokens : ∀ shown ∈ messages,
    shown.freshTokens = quantityOf "input_fresh" (messageLines base shown) ∧
    shown.cachedTokens = quantityOf "input_cached" (messageLines base shown) ∧
    shown.cacheWriteTokens = quantityOf "cache_write" (messageLines base shown)
  /-- A message begins with its first request. -/
  first : ∀ shown ∈ messages,
    (∃ row ∈ messageLines base shown, row.ts = shown.firstRequestAt) ∧
      ∀ row ∈ messageLines base shown, shown.firstRequestAt ≤ row.ts

/-- The rows of the cache history, before they are put in order. -/
def drawnMessages (base : List LedgerRow) : List MessageCache :=
  (groups messageKey (threadLines (base.filter fun row =>
    row.productType = .llmRequest ∧ row.unitOfMeasure = "tokens"))).map fun group =>
      { threadId := (ofLex group.1).1
        promptId := (ofLex group.1).2
        firstRequestAt := ((group.2.map (·.2.ts)).min?).getD 0
        freshTokens := quantityOf "input_fresh" (group.2.map (·.2))
        cachedTokens := quantityOf "input_cached" (group.2.map (·.2))
        cacheWriteTokens := quantityOf "cache_write" (group.2.map (·.2)) }

theorem messageRows_eq (base : List LedgerRow) :
    messageRows base = listing messageStamp (drawnMessages base) := rfl

def nameKey (threadId : Uuid) (promptId : Option Ulid) : Uuid ×ₗ WithTop Ulid :=
  toLex (threadId, promptId)

def keyPrompt (key : Uuid ×ₗ WithTop Ulid) : Option Ulid := (ofLex key).2

def messageName (shown : MessageCache) : Uuid ×ₗ WithTop Ulid :=
  nameKey shown.threadId shown.promptId

theorem map_messageName (base : List LedgerRow) : (drawnMessages base).map messageName =
    groupKeys messageKey (threadLines (base.filter fun row =>
      row.productType = .llmRequest ∧ row.unitOfMeasure = "tokens")) := by
  rw [← map_fst_groups, drawnMessages, List.map_map]
  rfl

theorem message_key {lines : List (Uuid × LedgerRow)} {key : Uuid ×ₗ WithTop Ulid}
    (h : (key, lines) ∈ groups messageKey (threadLines (base.filter fun row =>
      row.productType = .llmRequest ∧ row.unitOfMeasure = "tokens"))) :
    lines.map (·.2) = base.filter fun row => row.Requested ∧
      row.threadId = some (ofLex key).1 ∧ row.promptId = keyPrompt key := by
  obtain ⟨_, rfl⟩ := mem_groups.mp h
  have hlines := map_threadLines (base.filter fun row =>
      row.productType = .llmRequest ∧ row.unitOfMeasure = "tokens") (p := (messageKey · = key))
    (q := fun row => row.threadId = some (ofLex key).1 ∧ row.promptId = keyPrompt key) ?_
  · rw [hlines, List.filter_filter]
    refine List.filter_congr fun row _ => ?_
    rw [Bool.eq_iff_iff]
    simp only [Bool.and_eq_true, decide_eq_true_eq]
    constructor
    · rintro ⟨⟨hthread, hprompt⟩, hrequest⟩
      exact ⟨⟨hrequest, by rw [hthread]; rfl⟩, hthread, hprompt⟩
    · rintro ⟨⟨hrequest, _⟩, hthread, hprompt⟩
      exact ⟨⟨hthread, hprompt⟩, hrequest⟩
  · intro row _
    constructor
    · rintro ⟨hthread, hprompt⟩
      exact ⟨_, hthread, Prod.ext rfl hprompt⟩
    · rintro ⟨threadId, hthread, rfl⟩
      exact ⟨hthread, rfl⟩

/-- The first time is a line's, and no line's is earlier. -/
theorem first_time {rows : List LedgerRow} (h : rows ≠ []) :
    (∃ row ∈ rows, row.ts = ((rows.map (·.ts)).min?).getD 0) ∧
      ∀ row ∈ rows, ((rows.map (·.ts)).min?).getD 0 ≤ row.ts := by
  cases hmin : (rows.map (·.ts)).min? with
  | none =>
    rw [List.min?_eq_none_iff, List.map_eq_nil_iff] at hmin
    exact absurd hmin h
  | some first =>
    obtain ⟨hmem, hle⟩ := List.min?_eq_some_iff.mp hmin
    obtain ⟨row, hrow, hts⟩ := List.mem_map.mp hmem
    exact ⟨⟨row, hrow, hts⟩, fun other hother => hle _ (List.mem_map_of_mem hother)⟩

theorem messages_agree (base : List LedgerRow) : MessagesAgree base (messageRows base) := by
  have hmem (shown : MessageCache) : shown ∈ messageRows base ↔ shown ∈ drawnMessages base := by
    rw [messageRows_eq, mem_listing]
  have hnames : ((drawnMessages base).map messageName).Nodup := by
    rw [map_messageName]
    exact nodup_groupKeys _ _
  constructor
  · have hsorted := List.pairwise_map.mpr
      (pairwise_listing messageStamp (drawnMessages base))
    have hnodup : ((listing messageStamp (drawnMessages base)).map messageStamp).Nodup := by
      refine ((perm_listing _ _).map messageStamp).nodup_iff.mpr ?_
      refine List.Nodup.map_on ?_ (List.Nodup.of_map _ hnames)
      intro shown hshown other hother heq
      refine List.inj_on_of_nodup_map hnames hshown hother ?_
      exact congrArg (fun stamp => (ofLex stamp).2) heq
    rw [messageRows_eq]
    exact (hsorted.and hnodup).imp fun h => lt_of_le_of_ne h.1 h.2
  · intro threadId promptId
    have hname : (∃ shown ∈ messageRows base, shown.threadId = threadId ∧
        shown.promptId = promptId) ↔
        nameKey threadId promptId ∈ (drawnMessages base).map messageName := by
      rw [List.mem_map]
      constructor
      · rintro ⟨shown, hshown, rfl, rfl⟩
        exact ⟨shown, (hmem shown).mp hshown, rfl⟩
      · rintro ⟨shown, hshown, heq⟩
        obtain ⟨hthread, hprompt⟩ := Prod.mk.inj heq
        exact ⟨shown, (hmem shown).mpr hshown, hthread, hprompt⟩
    rw [hname, map_messageName, mem_groupKeys]
    constructor
    · rintro ⟨⟨_, row⟩, hline, heq⟩
      obtain ⟨rfl, hprompt⟩ := Prod.mk.inj heq
      obtain ⟨hrow, hthread⟩ := mem_threadLines.mp hline
      obtain ⟨hrow, hrequest⟩ := List.mem_filter.mp hrow
      refine ⟨row, hrow, ⟨of_decide_eq_true hrequest, ?_⟩, hthread, hprompt⟩
      rw [hthread]
      rfl
    · rintro ⟨row, hrow, hrequested, hthread, rfl⟩
      refine ⟨(threadId, row), mem_threadLines.mpr ⟨?_, hthread⟩, rfl⟩
      exact List.mem_filter.mpr ⟨hrow, decide_eq_true hrequested.1⟩
  · intro shown hshown
    obtain ⟨⟨key, lines⟩, hgroup, rfl⟩ := List.mem_map.mp ((hmem shown).mp hshown)
    have hlines := message_key hgroup
    refine ⟨?_, ?_, ?_⟩
    · exact congrArg (quantityOf _) hlines
    · exact congrArg (quantityOf _) hlines
    · exact congrArg (quantityOf _) hlines
  · intro shown hshown
    obtain ⟨⟨key, lines⟩, hgroup, rfl⟩ := List.mem_map.mp ((hmem shown).mp hshown)
    have hlines := message_key hgroup
    have hnil : lines.map (·.2) ≠ [] := by
      rw [Ne, List.map_eq_nil_iff]
      exact ne_nil_of_mem_groups hgroup
    have htimes : lines.map (·.2.ts) = (lines.map (·.2)).map (·.ts) := by
      rw [List.map_map]
      rfl
    have hfirst := first_time hnil
    rw [← htimes, hlines] at hfirst
    exact hfirst

end Messages

section History

variable {ledger base : List LedgerRow} {view : List MinuteRow} {asOf : Time}
  {threadIds : Option (List Uuid)} {principalId : Option String} {snapshot : SpendTableSnapshot}

/-- What the rows of the table come to in a column. -/
def SpendTableSnapshot.sum (snapshot : SpendTableSnapshot) (column : MetricColumn) : ℚ :=
  (snapshot.threads.map (·.metrics.at column)).sum +
    (snapshot.purposes.map (·.metrics.at column)).sum

/-- The history tells what the ledger and the rows of the table do. -/
structure SpendTableSnapshot.HistoryAgrees (asOf : Time) (base : List LedgerRow)
    (snapshot : SpendTableSnapshot) : Prop where
  rates : snapshot.rateSource = .events → RatesAgree asOf base snapshot.rates
  days : DaysAgree base snapshot.days
  receipts : ReceiptsAgree base snapshot.receipts
  messages : MessagesAgree base snapshot.messages
  /-- The hour of the lanes is the hour of the rows. -/
  hour : snapshot.rateSource = .events → ∀ column,
    ((snapshot.rates.filter (·.dimension = .total)).map (·.at column)).sum =
        snapshot.sum column.hourly ∧
      ((snapshot.rates.filter (·.dimension = .model)).map (·.at column)).sum =
        snapshot.sum column.hourly
  daily : (snapshot.days.map (·.totalUsd.getD 0)).sum = snapshot.sum .totalUsd
  dailyUnpriced : ((snapshot.days.map (·.unpricedLines)).sum : ℕ) =
    snapshot.sum .totalUnpricedLines
  cost : (snapshot.receipts.map (·.costUsd.getD 0)).sum = snapshot.sum .totalUsd
  lines : (snapshot.receipts.length : ℚ) = snapshot.sum .totalReceiptLines

/-- What holds of the parts holds of what they come to. -/
theorem history_of_parts (hconserves : snapshot.Conserves asOf base)
    (hrates : snapshot.rateSource = .events → RatesAgree asOf base snapshot.rates)
    (hdays : DaysAgree base snapshot.days) (hreceipts : ReceiptsAgree base snapshot.receipts)
    (hmessages : MessagesAgree base snapshot.messages) : snapshot.HistoryAgrees asOf base where
  rates := hrates
  days := hdays
  receipts := hreceipts
  messages := hmessages
  hour hsource column := by
    rw [SpendTableSnapshot.sum, hconserves.total]
    exact ⟨(hrates hsource).total column, (hrates hsource).models column⟩
  daily := by
    rw [SpendTableSnapshot.sum, hconserves.total]
    exact hdays.sum
  dailyUnpriced := by
    rw [SpendTableSnapshot.sum, hconserves.total, hdays.sumUnpriced]
    exact cast_unpricedLines base
  cost := by
    rw [SpendTableSnapshot.sum, hconserves.total, (hreceipts.perm.map _).sum_eq, List.map_map]
    rfl
  lines := by
    rw [SpendTableSnapshot.sum, hconserves.total, hreceipts.perm.length_eq, List.length_map]
    exact cast_length base

theorem rateSource_drawn : (drawnSnapshot ledger view asOf threadIds principalId).rateSource =
    .events ↔ threadIds.isSome ∨ principalId.isSome := by
  rw [drawnSnapshot]
  dsimp only
  split
  · next hscope => exact iff_of_true rfl hscope
  · next hscope => exact iff_of_false (by decide) hscope

theorem nodup_scopedLines (h : (ledger.map (·.eventUid)).Nodup) :
    ((scopedLines ledger asOf threadIds principalId).map (·.eventUid)).Nodup :=
  h.sublist (List.filter_sublist.map _)

theorem nil_history (asOf : Time) : ({ asOf } : SpendTableSnapshot).HistoryAgrees asOf [] := by
  refine history_of_parts (nil_conserves asOf) ?_ (days_agree []) ?_ (messages_agree [])
  · intro _
    have hrates : RatesAgree asOf [] (drawnRates []) := drawnRates_hour fun _ _ => rfl
    exact hrates
  · exact receipts_agree List.nodup_nil

/-- What the table shows of the past of a ledger agrees with its lines and with its own rows. -/
theorem spend_history_agrees {ledger : Table Ulid LedgerRow (·.eventUid)}
    (h : table ledger.rows view asOf threadIds principalId = .ok snapshot) :
    snapshot.HistoryAgrees asOf (scopedLines ledger.rows asOf threadIds principalId) := by
  by_cases hscope : threadIds = some []
  · subst hscope
    rw [table_nil, Except.ok.injEq] at h
    rw [scopedLines_nil, ← h]
    exact nil_history asOf
  · obtain ⟨_, rfl⟩ := (table_eq_ok hscope).mp h
    refine history_of_parts (drawn_conserves _ _ _ _ _) ?_ (days_agree _) ?_ (messages_agree _)
    · intro hsource
      exact drawn_hour (rateSource_drawn.mp hsource)
    · exact receipts_agree (nodup_scopedLines ledger.nodup)

end History

section Invoiced

variable {w : SpendSettings} {s : SpendLedger}
  {view : List MinuteRow} {asOf : Time} {threadIds : Option (List Uuid)}
  {principalId : Option String} {snapshot : SpendTableSnapshot}

/-- What a line adds to the cost of the infrastructure. -/
def LedgerRow.infrastructure (row : LedgerRow) : ℚ :=
  if row.productType = .infraRunServe then row.costUsd.getD 0 else 0

theorem sum_infrastructure (base : List LedgerRow) :
    ((dayRows base).map (·.infrastructureUsd.getD 0)).sum = (base.map (·.infrastructure)).sum := by
  rw [dayRows, List.map_map]
  refine sum_groups fun day lines _ => ?_
  rw [Function.comp_apply, getD_knownCost]
  have hrest : ∀ row ∈ lines, decide (row.productType = .infraRunServe) = false →
      row.infrastructure = 0 := fun row _ hrow => if_neg (of_decide_eq_false hrow)
  rw [← sum_map_filter hrest]
  refine congrArg List.sum (List.map_congr_left fun row hrow => ?_)
  exact (if_pos (of_decide_eq_true (List.mem_filter.mp hrow).2)).symm

/-- One day's row is that of the day's lines. -/
theorem filter_dayRows (base : List LedgerRow) (day : Time) :
    (dayRows base).filter (·.day = day) = dayRows (dayLines base day) := by
  have hgroups := groups_filter (fun row : LedgerRow => truncDay row.ts) base
    (p := fun row => truncDay row.ts = day) (q := fun d => d = day) fun _ _ => Iff.rfl
  rw [dayRows, List.filter_map]
  change ((groups _ base).filter fun group => group.1 = day).map _ = _
  rw [← hgroups]
  rfl

/-- Only invoices are infrastructure. -/
theorem sum_invoices {p : LedgerRow → Prop} [DecidablePred p] (ledger : List LedgerRow) :
    ((ledger.filter p).map (·.infrastructure)).sum =
      (((ledger.filterMap LedgerRow.invoice?).filter fun r => p (.invoice r)).map
        (·.costUsd)).sum := by
  induction ledger with
  | nil => rfl
  | cons row ledger ih =>
    rw [List.filter_cons]
    cases row with
    | line event =>
      have hline : (LedgerRow.line event).infrastructure = 0 := by
        refine if_neg ?_
        rw [LedgerRow.productType]
        cases event.productType <;> decide
      rw [List.filterMap_cons_none rfl, ← ih]
      split
      · rw [List.map_cons, List.sum_cons, hline, zero_add]
      · rfl
    | invoice r =>
      have hcons : (LedgerRow.invoice r :: ledger).filterMap LedgerRow.invoice? =
          r :: ledger.filterMap LedgerRow.invoice? := List.filterMap_cons_some rfl
      rw [hcons, List.filter_cons]
      split
      · rw [List.map_cons, List.sum_cons, List.map_cons, List.sum_cons, ih]
        rfl
      · exact ih

/-- The scope takes in every line that is the owner's, and of no thread. -/
def OwnerScope (w : SpendSettings) (threadIds : Option (List Uuid))
    (principalId : Option String) : Prop :=
  threadIds = none ∧ principalId.getD w.ownerPrincipalId = w.ownerPrincipalId

instance (w : SpendSettings) (threadIds : Option (List Uuid)) (principalId : Option String) :
    Decidable (OwnerScope w threadIds principalId) := inferInstanceAs (Decidable (_ ∧ _))

theorem scoped_invoice {r : InvoiceReceipt} (howner : r.principalId = w.ownerPrincipalId) :
    (LedgerRow.invoice r).Scoped asOf threadIds principalId ↔
      OwnerScope w threadIds principalId ∧ r.ts ≤ asOf := by
  have hthread : (∀ ids ∈ threadIds, ∃ threadId ∈ (LedgerRow.invoice r).threadId,
      threadId ∈ ids) ↔ threadIds = none := by
    cases threadIds with
    | none => simp
    | some ids => simp [LedgerRow.threadId]
  have hprincipal : (∀ principal ∈ principalId,
      (LedgerRow.invoice r).principalId = some principal) ↔
        principalId.getD w.ownerPrincipalId = w.ownerPrincipalId := by
    cases principalId with
    | none => simp
    | some principal => simp [LedgerRow.principalId, howner, eq_comm]
  rw [LedgerRow.Scoped, hthread, hprincipal, OwnerScope]
  exact and_comm

/-- An invoice's time is its date's midnight. -/
theorem SpendLedger.Sound.dated (h : s.Sound w) {r : InvoiceReceipt} (hr : r ∈ s.invoices) :
    r.ts = r.invoice.invoiceDate * microsecondsPerDay := by
  obtain ⟨_, call, _, _, heq⟩ := h.recorded r hr
  rw [heq, invoice_invoiceReceipt]
  rfl

/-- The accepted invoices of one date that a scope takes in. -/
def shownInvoices (w : SpendSettings) (s : SpendLedger) (asOf : Time)
    (threadIds : Option (List Uuid)) (principalId : Option String) (date : Nat) :
    List InfrastructureInvoice :=
  s.accepted.dedup.filter fun invoice => OwnerScope w threadIds principalId ∧
    invoice.invoiceDate * microsecondsPerDay ≤ asOf ∧ invoice.invoiceDate = date

theorem truncDay_date (date : Nat) :
    truncDay (date * microsecondsPerDay) = date * microsecondsPerDay := by
  rw [truncDay, Nat.mul_mod_left, Nat.sub_zero]

theorem date_inj {date date' : Nat} :
    date * microsecondsPerDay = date' * microsecondsPerDay ↔ date = date' :=
  Nat.mul_left_inj (by decide)

theorem days_shown {ledger : List LedgerRow}
    (h : table ledger view asOf threadIds principalId = .ok snapshot) :
    snapshot.days = dayRows (scopedLines ledger asOf threadIds principalId) := by
  by_cases hscope : threadIds = some []
  · subst hscope
    rw [table_nil, Except.ok.injEq] at h
    rw [scopedLines_nil, ← h]
    rfl
  · obtain ⟨_, rfl⟩ := (table_eq_ok hscope).mp h
    rfl

/-- In every state of the ledger, and whatever is asked of the table: a day's infrastructure
costs what the invoices of its date do that were accepted, each of them once. -/
theorem invoices_shown (h : (spendLedger w).Reachable s)
    (hshown : table s.rows.rows view asOf threadIds principalId = .ok snapshot) (date : Nat) :
    ((snapshot.days.filter (·.day = date * microsecondsPerDay)).map
        (·.infrastructureUsd.getD 0)).sum =
      ((shownInvoices w s asOf threadIds principalId date).map (·.amountUsd)).sum := by
  have hsound := sound_of_ledger h
  have hlines : dayLines (scopedLines s.rows.rows asOf threadIds principalId)
      (date * microsecondsPerDay) = s.rows.rows.filter fun row =>
        row.Scoped asOf threadIds principalId ∧ truncDay row.ts = date * microsecondsPerDay := by
    rw [dayLines, scopedLines, List.filter_filter]
    refine List.filter_congr fun row _ => ?_
    rw [Bool.eq_iff_iff]
    simp [and_comm]
  have hscoped : (s.invoices.filter fun r => (LedgerRow.invoice r).Scoped asOf threadIds
        principalId ∧ truncDay (LedgerRow.invoice r).ts = date * microsecondsPerDay) =
      s.invoices.filter fun r => OwnerScope w threadIds principalId ∧
        r.invoice.invoiceDate * microsecondsPerDay ≤ asOf ∧ r.invoice.invoiceDate = date := by
    refine List.filter_congr fun r hr => ?_
    rw [decide_eq_decide, scoped_invoice (hsound.owned hr), and_assoc, LedgerRow.ts,
      hsound.dated hr, truncDay_date, date_inj]
  have hshares : ((s.invoices.filter fun r => OwnerScope w threadIds principalId ∧
        r.invoice.invoiceDate * microsecondsPerDay ≤ asOf ∧ r.invoice.invoiceDate = date).map
          (·.costUsd)) =
      ((s.invoices.map (·.invoice)).filter fun invoice => OwnerScope w threadIds principalId ∧
        invoice.invoiceDate * microsecondsPerDay ≤ asOf ∧ invoice.invoiceDate = date).map
          (·.amountUsd) := by
    rw [List.filter_map, List.map_map]
    rfl
  rw [days_shown hshown, filter_dayRows, sum_infrastructure, hlines, sum_invoices,
    ← SpendLedger.invoices, hscoped, hshares]
  exact (((perm_accepted hsound).filter _).map _).sum_eq

end Invoiced

section Small

/-- What the owner asks of the ledger that was billed. -/
def billedTable : Except TableError SpendTableSnapshot :=
  table billedLedger.rows.rows [] 1790000000000000 none (some "invoice-owner")

theorem billedTable_ok : ∃ snapshot, billedTable = .ok snapshot := by
  have hok : billedTable.toOption.isSome = true := by
    rw [billedTable, billedLedger_holds.1]
    decide +kernel
  cases hshown : billedTable with
  | error error =>
    rw [hshown] at hok
    cases hok
  | ok snapshot => exact ⟨snapshot, rfl⟩

end Small

theorem spend_history_agrees_billed : ∃ snapshot, billedTable = .ok snapshot ∧
    snapshot.HistoryAgrees 1790000000000000
      (scopedLines billedLedger.rows.rows 1790000000000000 none (some "invoice-owner")) := by
  obtain ⟨snapshot, hshown⟩ := billedTable_ok
  exact ⟨snapshot, hshown, spend_history_agrees hshown⟩

theorem invoices_shown_billed : ∃ snapshot, billedTable = .ok snapshot ∧
    ((snapshot.days.filter (·.day = 20697 * microsecondsPerDay)).map
      (·.infrastructureUsd.getD 0)).sum = 2515 / 100 := by
  obtain ⟨snapshot, hshown⟩ := billedTable_ok
  refine ⟨snapshot, hshown, ?_⟩
  rw [invoices_shown billedLedger_reachable hshown 20697, shownInvoices, billedLedger_holds.2]
  decide +kernel

end Nocturne.Spend
