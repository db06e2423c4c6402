import Nocturne.Palace.Consent

namespace Nocturne

open Nocturne.Lib Nocturne.Store Nocturne.Memory Nocturne.Queue

variable {w : World} {p : Palace}

section Preflight

variable {env : Env} {s s' : Store} {item : ApprovalQueueItem}

theorem prepareCuratorSplit_resent {children : List SplitChild} {embeddings again : List Embedding}
    {prepared : List (SplitChild × Embedding)} (hlength : again.length = embeddings.length)
    (h : prepareCuratorSplit env children embeddings = .ok prepared) :
    ∃ prepared', prepareCuratorSplit env children again = .ok prepared' := by
  simp only [prepareCuratorSplit, bind_eq_ok, ensure_eq_ok, pure_eq_ok] at h ⊢
  obtain ⟨_, hcount, _, hchildren, _, hembeddings, _⟩ := h
  exact ⟨_, .unit, hcount, .unit, hchildren, .unit, hlength.trans hembeddings, rfl⟩

theorem preparedSplitOf_resent {embeddings again : List Embedding}
    {prepared : Option (List (SplitChild × Embedding))} (hlength : again.length = embeddings.length)
    (h : preparedSplitOf env (some item) embeddings = .ok prepared) :
    ∃ prepared', preparedSplitOf env (some item) again = .ok prepared' := by
  by_cases hsplit : item.verdict = .split ∧ item.birthplace.IsCurator
  · obtain ⟨hverdict, hcurator⟩ := hsplit
    cases hbirth : item.birthplace with
    | curator =>
      simp only [preparedSplitOf, hverdict, hbirth, bind_eq_ok, pure_eq_ok] at h ⊢
      obtain ⟨children, hchildren, prepared, hprepared, _⟩ := h
      obtain ⟨prepared', hprepared'⟩ := prepareCuratorSplit_resent hlength hprepared
      exact ⟨_, children, hchildren, prepared', hprepared', rfl⟩
    | thread | seed | symphony => simp [hbirth, Birthplace.IsCurator] at hcurator
  · refine ⟨none, ?_⟩
    unfold preparedSplitOf
    dsimp only
    split
    · next hverdict hbirth => exact absurd ⟨hverdict, by simp [hbirth, Birthplace.IsCurator]⟩ hsplit
    · rfl

/-- An un-amended request passes its preflight again on the same card, decided or not. -/
theorem decidePreflight_resent {request : QueueDecisionRequest} {embedding embedding' : Embedding}
    {embeddings again : List Embedding} {plan : DecisionPlan} {state : ItemState}
    {decidedAt : Option Time} (hitem : s.items.get? item.itemUid = some item)
    (hitem' : s'.items.get? item.itemUid = some { item with state, decidedAt })
    (hbody : request.amendedBody = none) (hlength : again.length = embeddings.length)
    (h : decidePreflight env s item.itemUid request embedding embeddings = .ok plan) :
    ∃ preparedSplit, decidePreflight env s' item.itemUid request embedding' again =
      .ok ⟨item.itemUid, request, preparedSplit, none⟩ := by
  simp only [decidePreflight, amendmentOf, hbody, hitem, ok_bind, bind_eq_ok, ensure_eq_ok,
    pure_eq_ok] at h
  obtain ⟨_, hsignal, preparedSplit, hprepared, _⟩ := h
  obtain ⟨prepared', hprepared'⟩ := preparedSplitOf_resent hlength hprepared
  refine ⟨prepared', ?_⟩
  have hsame : preparedSplitOf env (some { item with state, decidedAt }) again = .ok prepared' :=
    hprepared'
  simp only [decidePreflight, amendmentOf, hbody, hitem', ok_bind, ensure_pos hsignal, hsame]
  rfl

end Preflight

/-- A card and the decisions that name it agree: none while it is open, one once it is closed. -/
def Agrees (s : Store) (item : ApprovalQueueItem) : Prop :=
  (item.state = .pending ↔ s.decisions.rows.filter (·.itemUid = item.itemUid) = []) ∧
    (item.state ≠ .pending → ∃ d, s.decisions.rows.filter (·.itemUid = item.itemUid) = [d] ∧
      item.state = d.decision.itemState)

theorem Store.Ledger.agrees {s : Store} (h : s.Ledger) {item : ApprovalQueueItem}
    (hitem : item ∈ s.items.rows) : Agrees s item := by
  have hget := Table.get?_of_mem hitem
  have hopen : item.state = .pending ↔
      s.decisions.rows.filter (·.itemUid = item.itemUid) = [] := by
    simp [h.pending hget, List.filter_eq_nil_iff]
  refine ⟨hopen, fun hclosed => ?_⟩
  obtain ⟨d, rest, hrows⟩ := List.exists_cons_of_ne_nil (mt hopen.mpr hclosed)
  have hmem : ∀ e ∈ d :: rest, e ∈ s.decisions.rows ∧ e.itemUid = item.itemUid := by
    intro e he
    rw [← hrows] at he
    simpa using he
  -- a second decision would be the first one again
  have hnodup : (d :: rest).Nodup := hrows ▸ (List.Nodup.of_map _ s.decisions.nodup).filter _
  have hrest : rest = [] := by
    apply List.eq_nil_iff_forall_not_mem.mpr
    intro e he
    have heq := h.unique (hmem e (by simp [he])).1 (hmem d (by simp)).1
      ((hmem e (by simp [he])).2.trans (hmem d (by simp)).2.symm)
    exact (List.nodup_cons.mp hnodup).1 (heq ▸ he)
  obtain ⟨hd, hnamed⟩ := hmem d (by simp)
  exact ⟨d, hrest ▸ hrows, h.decided hget d hd hnamed⟩

/-- From an empty store on: a card is open exactly while no decision names it, and closed by one
decision that says how. A decision in flight on a decided card answers that decision and writes
nothing when it repeats it un-amended, and is refused when it is any other; a request accepted
on a card once starts again in every later state. A batch decision decides every open card of
its batch and no card that was decided before, and a refusal writes nothing. -/
theorem queue_decisions (h : (palace w).Reachable p) :
    (∀ item ∈ p.store.items.rows, Agrees p.store item) ∧
    (∀ (k : Nat) (plan : DecisionPlan) (session : Session), p.ops[k]? = some (.deciding plan) →
      ∀ d ∈ p.store.decisions.rows, d.itemUid = plan.itemUid →
        (plan.request.amendedBody = none → Repeats d plan.request →
          (∃ card, decide w.env (p.store.begin session) plan =
            .ok (⟨card, d.decision, d.approvalMode, d.actorClass, d.decisionUid⟩,
              p.store.begin session)) ∧
          (palace w).step p ⟨session, .decide k⟩ =
            .ok (p.become k (p.store.begin session) .done)) ∧
        (¬Repeats d plan.request → ∃ e, (palace w).step p ⟨session, .decide k⟩ = .error e)) ∧
    (∀ (item : ApprovalQueueItem) (session : Session) (request : QueueDecisionRequest)
      (embedding : Embedding) (embeddings : List Embedding) (p₁ : Palace),
      item ∈ p.store.items.rows → request.amendedBody = none →
      (palace w).step p ⟨session, .startDecision item.itemUid request embedding embeddings⟩ =
      .ok p₁ →
      ∀ (calls : List Call) (session' : Session) (embedding' : Embedding) (again : List Embedding),
        again.length = embeddings.length → ∃ preparedSplit,
          (palace w).step ((palace w).run p₁ calls)
              ⟨session', .startDecision item.itemUid request embedding' again⟩ =
            .ok (((palace w).run p₁ calls).launch (((palace w).run p₁ calls).store.begin session')
              (.deciding ⟨item.itemUid, request, preparedSplit, none⟩))) ∧
    (∀ (session : Session) (batchUid : Uuid) (request : QueueDecisionRequest) (p' : Palace),
      (palace w).step p ⟨session, .decideBatch batchUid request⟩ = .ok p' →
      (∀ item ∈ p.store.items.rows, item.birthplace.batchUid = some batchUid →
        BatchDecided request p.store p'.store item) ∧
      ∀ item ∈ p.store.items.rows, item.birthplace.batchUid ≠ some batchUid →
        p'.store.items.get? item.itemUid = some item ∧
          p'.store.decisions.rows.filter (·.itemUid = item.itemUid) =
            p.store.decisions.rows.filter (·.itemUid = item.itemUid)) ∧
    (∀ call e, (palace w).step p call = .error e → (palace w).next p call = p) := by
  have hconsented := consented_of_reachable h
  have hlineage := lineage_of_reachable h
  refine ⟨fun item hitem => hconsented.ledger.agrees hitem, ?_, ?_, ?_, ?_⟩
  · intro k plan session hop d hd hnamed
    have hledger : (p.store.begin session).Ledger := hconsented.ledger.congr rfl rfl
    obtain ⟨item, hitem⟩ := Option.isSome_iff_exists.mp (hledger.filed d hd)
    have huid := Table.key_of_get? hitem
    rw [hnamed] at hitem
    have hnamed' : d.itemUid = item.itemUid := huid.symm
    constructor
    · intro hbody hrepeats
      obtain ⟨u, hu, hstaged⟩ := hconsented.cards.carried item (Table.mem_of_get? hitem)
      obtain ⟨c, hc⟩ : ∃ c, card w.env (p.store.begin session) item = .ok c := card_ok hu hstaged
      have hdecide := decide_again hledger hd hitem hnamed' hbody hrepeats hc
      refine ⟨⟨c, hdecide⟩, ?_⟩
      simp only [palace, Palace.step, Palace.inFlight, hop, Option.bind_some, Operation.deciding?,
        require_some, ok_bind, hdecide]
      rfl
    · intro hother
      cases hstep : (palace w).step p ⟨session, .decide k⟩ with
      | error e => exact ⟨e, rfl⟩
      | ok p' =>
        simp only [palace, Palace.step, Palace.inFlight, hop, Option.bind_some,
          Operation.deciding?, require_some, ok_bind, bind_eq_ok] at hstep
        obtain ⟨r, hr, _⟩ := hstep
        exact absurd hr (decide_other hledger hd hitem hnamed' hother r)
  · intro item session request embedding embeddings p₁ hitem hbody hstep calls session' embedding'
      again hlength
    have hget : p.store.items.get? item.itemUid = some item := Table.get?_of_mem hitem
    have hreach := h.step hstep
    simp only [palace, Palace.step, bind_eq_ok, pure_eq_ok] at hstep
    obtain ⟨plan, hplan, rfl⟩ := hstep
    obtain ⟨state, decidedAt, hget'⟩ := (writes_of_run hreach calls).item hget
    generalize (palace w).run _ calls = q at hget' ⊢
    obtain ⟨preparedSplit, hagain⟩ : ∃ preparedSplit, decidePreflight w.env
        (q.store.begin session') item.itemUid request embedding' again =
          .ok ⟨item.itemUid, request, preparedSplit, none⟩ :=
      decidePreflight_resent hget hget' hbody hlength hplan
    refine ⟨preparedSplit, ?_⟩
    simp only [palace, Palace.step, hagain, ok_bind]
    rfl
  · intro session batchUid request p' hstep
    simp only [palace, Palace.step, bind_eq_ok, pure_eq_ok] at hstep
    obtain ⟨r, hr, rfl⟩ := hstep
    have hlineage' : (p.store.begin session).Lineage := hlineage.congr rfl rfl
    have hledger : (p.store.begin session).Ledger := hconsented.ledger.congr rfl rfl
    have hdecides := decideBatch_decides hlineage' hledger hr
    exact hdecides
  · exact fun call e herror => Machine.next_of_error herror

/-- One candidate extracted, its card approved, and the approval sent again. -/
def approvedPalace : Palace :=
  (palace default).run ⟨.deployed .empty, []⟩
    [⟨⟨1, []⟩, .startExtract (offeredMemories [offeredCandidate "tea" "drinks tea"])⟩,
      ⟨⟨2, [7, 70]⟩, .ingest 0 [1]⟩,
      ⟨⟨3, [50]⟩, .ingest 0 []⟩,
      ⟨⟨4, []⟩, .startDecision 50 (explicitly .approve) [] []⟩,
      ⟨⟨5, [71, 60]⟩, .decide 1⟩,
      ⟨⟨6, []⟩, .startDecision 50 (explicitly .approve) [] []⟩]

theorem approvedPalace_reachable : (palace default).Reachable approvedPalace :=
  ⟨_, _, ⟨_, rfl⟩, rfl⟩

theorem queue_decisions_approved : ∃ card, decide (default : World).env
    (approvedPalace.store.begin ⟨7, []⟩) ⟨50, explicitly .approve, none, none⟩ =
      .ok (⟨card, .approve, .explicit, .human, 60⟩, approvedPalace.store.begin ⟨7, []⟩) := by
  have hflight : approvedPalace.ops[2]?.bind Operation.deciding? =
      some ⟨50, explicitly .approve, none, none⟩ := by decide +kernel
  obtain ⟨_, hop, hplan⟩ := Option.bind_eq_some_iff.mp hflight
  obtain rfl := Operation.deciding?_eq_some.mp hplan
  have hd : (⟨60, 50, .approve, .explicit, .human⟩ : ApprovalDecision) ∈
      approvedPalace.store.decisions.rows := by decide +kernel
  exact (((queue_decisions (w := default) approvedPalace_reachable).2.1 2 _ ⟨7, []⟩ hop _ hd rfl).1
    rfl ⟨rfl, rfl, rfl⟩).1

end Nocturne
