import Nocturne.Spend.HistoryLaws

namespace Nocturne.Spend

open Nocturne.Lib Nocturne.Vitals

section Threads

attribute [local instance] purposeOrder

variable {asOf : Time} {base : List LedgerRow} {ids : List Uuid}

/-- What is of a thread is of one of these. -/
def OfThreads (ids : List Uuid) (threadId : Option Uuid) : Prop := ∃ id ∈ threadId, id ∈ ids

instance (ids : List Uuid) : DecidablePred (OfThreads ids) := fun threadId =>
  match threadId with
  | none => isFalse (by simp [OfThreads])
  | some id => decidable_of_iff (id ∈ ids) (by simp [OfThreads])

@[simp] theorem not_ofThreads_none : ¬OfThreads ids none := by
  simp [OfThreads]

@[simp] theorem ofThreads_some {threadId : Uuid} :
    OfThreads ids (some threadId) ↔ threadId ∈ ids := by
  simp [OfThreads]

/-- The lines of a scope of threads are those of the whole that are of the threads. -/
theorem scopedLines_threads (ledger : List LedgerRow) (asOf : Time) (ids : List Uuid)
    (principalId : Option String) : scopedLines ledger asOf (some ids) principalId =
      (scopedLines ledger asOf none principalId).filter (OfThreads ids ·.threadId) := by
  rw [scopedLines, scopedLines, List.filter_filter]
  refine List.filter_congr fun row _ => ?_
  rw [Bool.eq_iff_iff]
  simp only [LedgerRow.Scoped, OfThreads, Option.mem_def, Option.some.injEq,
    forall_eq', reduceCtorEq, IsEmpty.forall_iff, implies_true, true_and, Bool.and_eq_true,
    decide_eq_true_eq]
  tauto

theorem threadLines_threads (base : List LedgerRow) (ids : List Uuid) :
    threadLines (base.filter (OfThreads ids ·.threadId)) =
      (threadLines base).filter (·.1 ∈ ids) := by
  induction base with
  | nil => rfl
  | cons row base ih =>
    rw [List.filter_cons]
    cases hthread : row.threadId with
    | none =>
      have hskip : threadLines (row :: base) = threadLines base := by
        rw [threadLines, List.filterMap_cons, hthread]
        rfl
      rw [if_neg (by simp), ih, hskip]
    | some threadId =>
      have hcons (rows : List LedgerRow) :
          threadLines (row :: rows) = (threadId, row) :: threadLines rows := by
        rw [threadLines, List.filterMap_cons, hthread]
        rfl
      rw [hcons, List.filter_cons]
      by_cases hin : threadId ∈ ids
      · rw [if_pos (by simpa using hin), if_pos (decide_eq_true hin), hcons, ih]
      · rw [if_neg (by simpa using hin), if_neg (by simpa using hin), ih]

theorem drawnModels_threads (asOf : Time) (base : List LedgerRow) (ids : List Uuid) :
    drawnModels asOf (base.filter (OfThreads ids ·.threadId)) =
      (drawnModels asOf base).filter (·.1 ∈ ids) := by
  have hgroups := groups_filter modelKey (threadLines base) (p := (·.1 ∈ ids))
    (q := fun key => (ofLex key).1 ∈ ids) fun _ _ => Iff.rfl
  rw [drawnModels, threadLines_threads, hgroups, drawnModels, List.filter_map]
  rfl

/-- The rows of some threads are those the whole table has of them. -/
theorem drawnThreads_threads (asOf : Time) (base : List LedgerRow) (ids : List Uuid) :
    drawnThreads asOf (base.filter (OfThreads ids ·.threadId)) =
      (drawnThreads asOf base).filter (·.threadId ∈ ids) := by
  have hgroups := groups_filter (·.1) (threadLines base) (p := (·.1 ∈ ids)) (q := (· ∈ ids))
    fun _ _ => Iff.rfl
  rw [drawnThreads, threadLines_threads, hgroups, drawnThreads, List.filter_map]
  refine List.map_congr_left fun group hgroup => ?_
  have hin : group.1 ∈ ids := of_decide_eq_true (List.mem_filter.mp hgroup).2
  have hmodels : (drawnModels asOf (base.filter (OfThreads ids ·.threadId))).filter
      (·.1 = group.1) = (drawnModels asOf base).filter (·.1 = group.1) := by
    rw [drawnModels_threads, List.filter_filter]
    refine List.filter_congr fun model _ => ?_
    rw [Bool.eq_iff_iff]
    simp only [Bool.and_eq_true, decide_eq_true_eq]
    constructor
    · exact fun h => h.1
    · intro h
      exact ⟨h, h ▸ hin⟩
  rw [hmodels]

theorem drawnMessages_threads (base : List LedgerRow) (ids : List Uuid) :
    drawnMessages (base.filter (OfThreads ids ·.threadId)) =
      (drawnMessages base).filter (·.threadId ∈ ids) := by
  have hcomm : (base.filter (OfThreads ids ·.threadId)).filter (fun row =>
      row.productType = .llmRequest ∧ row.unitOfMeasure = "tokens") =
      (base.filter fun row => row.productType = .llmRequest ∧
        row.unitOfMeasure = "tokens").filter (OfThreads ids ·.threadId) := List.filter_comm _ _ _
  have hgroups := groups_filter messageKey (threadLines (base.filter fun row =>
      row.productType = .llmRequest ∧ row.unitOfMeasure = "tokens")) (p := (·.1 ∈ ids))
    (q := fun key => (ofLex key).1 ∈ ids) fun _ _ => Iff.rfl
  rw [drawnMessages, hcomm, threadLines_threads, hgroups, drawnMessages, List.filter_map]
  rfl

theorem messageRows_threads (base : List LedgerRow) (ids : List Uuid) :
    messageRows (base.filter (OfThreads ids ·.threadId)) =
      (messageRows base).filter (·.threadId ∈ ids) := by
  have hnames : ((drawnMessages base).map messageName).Nodup := by
    rw [map_messageName]
    exact nodup_groupKeys _ _
  rw [messageRows_eq, messageRows_eq, drawnMessages_threads]
  refine (filter_listing ?_).symm
  intro shown hshown other hother heq
  refine List.inj_on_of_nodup_map hnames hshown hother ?_
  exact congrArg (fun stamp => (ofLex stamp).2) heq

theorem receiptRows_threads (h : (base.map (·.eventUid)).Nodup) (ids : List Uuid) :
    receiptRows (base.filter (OfThreads ids ·.threadId)) =
      (receiptRows base).filter (OfThreads ids ·.threadId) := by
  rw [receiptRows, receiptRows, List.filter_map]
  refine congrArg (List.map spendReceipt) (filter_listing ?_).symm
  intro row hrow other hother heq
  exact List.inj_on_of_nodup_map h hrow hother heq

end Threads

section Restrict

attribute [local instance] purposeOrder

variable {w : SpendSettings} {s : SpendLedger} {view : List MinuteRow} {asOf : Time}
  {ids : List Uuid} {principalId : Option String} {base : List LedgerRow}

/-- What a table of some threads takes from the whole one. -/
structure SpendTableSnapshot.RestrictsTo (ids : List Uuid)
    (whole part : SpendTableSnapshot) : Prop where
  threads : part.threads = whole.threads.filter (·.threadId ∈ ids)
  messages : part.messages = whole.messages.filter (·.threadId ∈ ids)
  receipts : part.receipts = whole.receipts.filter (OfThreads ids ·.threadId)
  purposes : part.purposes = []

theorem filter_thread (base : List LedgerRow) (ids : List Uuid) (threadId : Uuid) :
    (base.filter (OfThreads ids ·.threadId)).filter (·.threadId = some threadId) =
      if threadId ∈ ids then base.filter (·.threadId = some threadId) else [] := by
  rw [List.filter_filter]
  split
  · next hin =>
    refine List.filter_congr fun row _ => ?_
    rw [Bool.eq_iff_iff]
    simp only [Bool.and_eq_true, decide_eq_true_eq]
    constructor
    · exact fun h => h.1
    · intro h
      exact ⟨h, by rw [h]; simpa using hin⟩
  · next hout =>
    rw [List.filter_eq_nil_iff]
    intro row _ h
    simp only [Bool.and_eq_true, decide_eq_true_eq] at h
    obtain ⟨hthread, hin⟩ := h
    rw [hthread, ofThreads_some] at hin
    exact hout hin

/-- Totals that fit the whole fit its threads. -/
theorem totalsFit_threads (h : TotalsFit asOf base) (ids : List Uuid) :
    TotalsFit asOf (base.filter (OfThreads ids ·.threadId)) := by
  constructor
  · intro threadId
    rw [filter_thread]
    split
    · exact h.1 threadId
    · exact small_nil asOf
  · intro purpose
    have hnone : (base.filter (OfThreads ids ·.threadId)).filter
        (fun row => row.threadId = none ∧ row.purpose = purpose) = [] := by
      rw [List.filter_eq_nil_iff]
      intro row hrow hthread
      have hin := of_decide_eq_true (List.mem_filter.mp hrow).2
      rw [(of_decide_eq_true hthread).1] at hin
      exact not_ofThreads_none hin
    rw [hnone]
    exact small_nil asOf

theorem drawn_restricts {ledger : Table Ulid LedgerRow (·.eventUid)} (ids : List Uuid) :
    (drawnSnapshot ledger.rows view asOf none principalId).RestrictsTo ids
      (drawnSnapshot ledger.rows view asOf (some ids) principalId) where
  threads := by
    simp only [drawnSnapshot, scopedLines_threads]
    exact drawnThreads_threads _ _ _
  messages := by
    simp only [drawnSnapshot, scopedLines_threads]
    exact messageRows_threads _ _
  receipts := by
    simp only [drawnSnapshot, scopedLines_threads]
    exact receiptRows_threads (nodup_scopedLines ledger.nodup) ids
  purposes := rfl

theorem nil_restricts (whole : SpendTableSnapshot) (asOf : Time) :
    whole.RestrictsTo [] { asOf } := by
  constructor <;> simp [OfThreads]

/-- In every state of the ledger: where the whole table can be shown, so can that of any of its
threads, and it has of them what the whole one has. -/
theorem thread_scope_restricts {whole : SpendTableSnapshot} {s₀ : SpendLedger}
    (h : (spendLedger w).Reachable s) (h₀ : (spendLedger w).Reachable s₀)
    (hwhole : table s.rows.rows (spendRateView s₀.rows.rows) asOf none principalId = .ok whole)
    (ids : List Uuid) :
    ∃ part, table s.rows.rows (spendRateView s₀.rows.rows) asOf (some ids) principalId =
      .ok part ∧ whole.RestrictsTo ids part := by
  have hledger := (sound_of_ledger h).conform
  have hview := valid_spendRateView (sound_of_ledger h₀).conform
  have hfit : TotalsFit asOf (scopedLines s.rows.rows asOf (some ids) principalId) := by
    rw [scopedLines_threads]
    exact totalsFit_threads ((table_answers hledger hview).mp ⟨whole, hwhole⟩) ids
  obtain ⟨part, hpart⟩ := (table_answers hledger hview).mpr hfit
  refine ⟨part, hpart, ?_⟩
  by_cases hids : ids = []
  · subst hids
    rw [table_nil, Except.ok.injEq] at hpart
    rw [← hpart]
    exact nil_restricts whole asOf
  · have hwhole' := ((table_eq_ok (by simp)).mp hwhole).2
    have hpart' := ((table_eq_ok (by simpa using hids)).mp hpart).2
    rw [hwhole', hpart']
    exact drawn_restricts ids

end Restrict

section Privacy

variable {owner principalId : String} {ledger ledger' : List LedgerRow}
  {view view' : List MinuteRow} {now asOf : Time} {threadIds : Option (List Uuid)}
  {scope : TableScope}

/-- The table of a principal is drawn from that principal's lines. -/
theorem table_congr (h : scopedLines ledger asOf threadIds (some principalId) =
      scopedLines ledger' asOf threadIds (some principalId)) :
    table ledger view asOf threadIds (some principalId) =
      table ledger' view' asOf threadIds (some principalId) := by
  unfold scopedLines at h
  simp only [table, h, Option.isNone_some, Bool.false_eq_true, and_false, if_false]

theorem scopedLines_principal (ledger : List LedgerRow) :
    scopedLines ledger asOf threadIds (some principalId) =
      scopedLines (ledger.filter (·.principalId = some principalId)) asOf threadIds
        (some principalId) := by
  rw [scopedLines, scopedLines, List.filter_filter]
  refine List.filter_congr fun row _ => ?_
  rw [Bool.eq_iff_iff]
  simp only [Bool.and_eq_true, decide_eq_true_eq]
  constructor
  · intro h
    exact ⟨h, h.2.2 principalId rfl⟩
  · exact fun h => h.1

/-- Whoever does not ask, as the owner, for the whole palace is answered from lines of their own:
whatever else is on the ledger, and however the view was refreshed. -/
theorem spend_table_private
    (hmine : ledger.filter (·.principalId = some principalId) =
      ledger'.filter (·.principalId = some principalId))
    (hscope : scope = .palace → principalId ≠ owner) :
    readSpendTable owner ledger view now principalId threadIds scope =
      readSpendTable owner ledger' view' now principalId threadIds scope := by
  by_cases hpalace : scope = .palace
  · have hprincipal : metricsPrincipal owner principalId (scope = .palace) =
        .error .notOwner := by
      simp only [metricsPrincipal, hpalace, decide_true, if_true]
      rw [ensure_neg (hscope hpalace)]
      rfl
    simp only [readSpendTable, hprincipal, error_bind]
  · have hprincipal : metricsPrincipal owner principalId (scope = .palace) =
        .ok (some principalId) := by
      simp [metricsPrincipal, hpalace, pure, Except.pure]
    have htable (threadIds : Option (List Uuid)) :
        table ledger view now threadIds (some principalId) =
          table ledger' view' now threadIds (some principalId) := by
      refine table_congr ?_
      rw [scopedLines_principal ledger, hmine, ← scopedLines_principal]
    simp only [readSpendTable, hprincipal, ok_bind, htable]

end Privacy

theorem thread_scope_restricts_billed : ∃ whole part,
    table billedLedger.rows.rows (spendRateView billedLedger.rows.rows) 1790000000000000 none none =
        .ok whole ∧
      table billedLedger.rows.rows (spendRateView billedLedger.rows.rows) 1790000000000000
        (some [22685491128062790912553268770669400337]) none = .ok part ∧
      whole.RestrictsTo [22685491128062790912553268770669400337] part := by
  have hok : (table billedLedger.rows.rows (spendRateView billedLedger.rows.rows) 1790000000000000
      none none).toOption.isSome = true := by
    rw [billedLedger_holds.1]
    decide +kernel
  cases hwhole : table billedLedger.rows.rows (spendRateView billedLedger.rows.rows)
      1790000000000000 none none with
  | error error =>
    rw [hwhole] at hok
    cases hok
  | ok whole =>
    obtain ⟨part, hpart, hrestricts⟩ := thread_scope_restricts billedLedger_reachable
      billedLedger_reachable hwhole [22685491128062790912553268770669400337]
    exact ⟨whole, part, rfl, hpart, hrestricts⟩

/-- A guest with no line on the ledger is shown what an empty one would be. -/
theorem spend_table_private_guest :
    readSpendTable "invoice-owner" billedLedger.rows.rows (spendRateView billedLedger.rows.rows)
        1790000000000000 "guest" none .principal =
      readSpendTable "invoice-owner" [] [] 1790000000000000 "guest" none .principal :=
  spend_table_private (by rw [billedLedger_holds.1]; decide +kernel) (by simp)

end Nocturne.Spend
