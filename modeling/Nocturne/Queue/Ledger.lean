import Nocturne.Queue.Laws

namespace Nocturne

open Nocturne.Lib Nocturne.Store Nocturne.Queue

/-- The queue and its decision log agree: a card is open exactly while no decision names it,
and a closed card stands as its one decision says. -/
structure Store.Ledger (s : Store) : Prop where
  filed : ∀ d ∈ s.decisions.rows, (s.items.get? d.itemUid).isSome
  pending : ∀ {uid item}, s.items.get? uid = some item →
    (item.state = .pending ↔ ∀ d ∈ s.decisions.rows, d.itemUid ≠ uid)
  decided : ∀ {uid item}, s.items.get? uid = some item → ∀ d ∈ s.decisions.rows,
    d.itemUid = uid → item.state = d.decision.itemState
  single : (s.decisions.rows.map (·.itemUid)).Nodup

variable {s s' : Store}

theorem itemState_ne_pending (d : Decision) : d.itemState ≠ .pending := by
  cases d <;> simp [Decision.itemState]

namespace Store

theorem Ledger.empty (hi : s.items = .empty) (hd : s.decisions = .empty) : s.Ledger where
  filed d h := by simp [hd, Table.empty] at h
  pending h := by simp [hi] at h
  decided h := by simp [hi] at h
  single := by simp [hd, Table.empty]

theorem Ledger.congr (h : s.Ledger) (hi : s'.items = s.items) (hd : s'.decisions = s.decisions) :
    s'.Ledger := by
  obtain ⟨hfiled, hpending, hdecided, hsingle⟩ := h
  constructor <;> simpa only [hi, hd]

/-- A card's decision is the only one there is. -/
theorem Ledger.unique (h : s.Ledger) {d d' : ApprovalDecision} (hd : d ∈ s.decisions.rows)
    (hd' : d' ∈ s.decisions.rows) (heq : d.itemUid = d'.itemUid) : d = d' :=
  List.inj_on_of_nodup_map h.single hd hd' heq

/-- A new card is open, and nothing has decided it. -/
theorem Ledger.card (h : s.Ledger) {item : ApprovalQueueItem} (hstate : item.state = .pending)
    (hs : s.insertItem item = .ok s') : s'.Ledger := by
  obtain ⟨_, _, _, items, hinsert, rfl⟩ := insertItem_eq_ok.mp hs
  obtain ⟨hfresh, rfl⟩ := Table.insert?_eq_some.mp hinsert
  have hnone : ∀ d ∈ s.decisions.rows, d.itemUid ≠ item.itemUid := by
    intro d hd heq
    have hsome := h.filed d hd
    rw [heq, hfresh] at hsome
    cases hsome
  refine ⟨?_, ?_, ?_, h.single⟩
  · intro d hd
    rw [Table.get?_insert_of_ne (hnone d hd)]
    exact h.filed d hd
  · intro uid row hrow
    dsimp only at hrow
    rw [Table.get?_insert] at hrow
    split at hrow
    · next huid =>
      obtain rfl := Option.some.inj hrow
      rw [huid]
      exact ⟨fun _ => hnone, fun _ => hstate⟩
    · exact h.pending hrow
  · intro uid row hrow d hd heq
    dsimp only at hrow
    rw [Table.get?_insert, if_neg (heq ▸ hnone d hd)] at hrow
    exact h.decided hrow d hd heq

variable {φ : Footprint}

theorem Write.ledger (h : Write φ s s') (hc : ∀ item, φ.card item → item.state = .pending)
    (hd : ∀ d, ¬φ.decision d) (hs : s.Ledger) : s'.Ledger := by
  cases h with
  | head _ hstep =>
    obtain ⟨_, _, _, _, rfl⟩ := hstep.written
    exact hs.congr rfl rfl
  | root _ hstep =>
    obtain ⟨_, _, _, _, rfl⟩ := hstep.written
    exact hs.congr rfl rfl
  | quiet hq => exact hs.congr hq.items hq.decisions
  | card hφ hstep => exact hs.card (hc _ hφ) hstep
  | decision hφ => exact absurd hφ (hd _)
  | record => exact hs.congr rfl rfl
  | outcome _ hstep =>
    obtain ⟨_, _, _, rfl⟩ := replaceOutcome_eq_ok.mp hstep
    exact hs.congr rfl rfl
  | resolution _ hstep =>
    obtain ⟨_, _, rfl⟩ := hstep
    exact hs.congr rfl rfl

/-- An operation that decides nothing and files open cards only. -/
theorem Writes.ledger (h : Writes φ s s') (hc : ∀ item, φ.card item → item.state = .pending)
    (hd : ∀ d, ¬φ.decision d) : s.Ledger → s'.Ledger :=
  h.keeps fun hw => hw.ledger hc hd

/-- A closed card stays closed, and the same way. -/
theorem Ledger.closed_stays (hs : s.Ledger) (hs' : s'.Ledger) (h : Writes φ s s') {uid : Ulid}
    {item : ApprovalQueueItem} (hitem : s.items.get? uid = some item)
    (hclosed : item.state ≠ .pending) :
    ∃ item' ∈ s'.items.get? uid, item'.state = item.state := by
  have hnamed : ∃ d ∈ s.decisions.rows, d.itemUid = uid := by
    simpa using mt (hs.pending hitem).mpr hclosed
  obtain ⟨d, hd, huid⟩ := hnamed
  obtain ⟨_, _, hitem'⟩ := h.item hitem
  exact ⟨_, hitem', (hs'.decided hitem' d (h.decision_kept hd) huid).trans
    (hs.decided hitem d hd huid).symm⟩

end Store

namespace Queue

variable {env : Env} {item : ApprovalQueueItem} {plan : DecisionPlan}
  {request : QueueDecisionRequest}

theorem decisionHeads_frame {t : Store} (h : Writes (decisionHeads item plan) s t) :
    t.items = s.items ∧ t.decisions = s.decisions :=
  h.items_eq (fun _ => id) fun _ => id

/-- Closing a card appends its decision and rewrites its row, and leaves the others alone. -/
theorem Closed.rows (h : Closed s item request s') : ∃ d,
    d.itemUid = item.itemUid ∧ d.decision = request.decision ∧
      (∀ other ∈ s.decisions.rows, other.itemUid ≠ item.itemUid) ∧
      s'.decisions.rows = s.decisions.rows ++ [d] ∧
      ∀ uid, s'.items.get? uid = if uid = item.itemUid then
        (s.items.get? uid).map fun row =>
          { row with state := request.decision.itemState, decidedAt := some s.session.now }
        else s.items.get? uid := by
  obtain ⟨d, t, hitem, hdecision, ht, rfl⟩ := h.written
  obtain ⟨hnone, decisions, hinsert, rfl⟩ := insertDecision_eq_ok.mp ht
  obtain ⟨_, rfl⟩ := Table.insert?_eq_some.mp hinsert
  refine ⟨d, hitem, hdecision, ?_, rfl, fun uid => ?_⟩
  · intro other hother heq
    exact hnone other hother (heq.trans hitem.symm)
  · rw [← hitem, ← hdecision]
    simp only [setItemState, Table.get?_modify, drawn_items, drawn_now]

theorem Closed.ledger (h : Closed s item request s') (hs : s.Ledger)
    (hfiled : (s.items.get? item.itemUid).isSome) : s'.Ledger := by
  obtain ⟨d, hitem, hdecision, hnone, hdecisions, hitems⟩ := h.rows
  constructor
  · intro e he
    rw [hdecisions, List.mem_append, List.mem_singleton] at he
    rw [hitems]
    rcases he with he | rfl
    · rw [if_neg (hnone e he)]
      exact hs.filed e he
    · rw [if_pos hitem, Option.isSome_map, hitem]
      exact hfiled
  · intro uid row hrow
    rw [hitems] at hrow
    simp only [hdecisions, List.mem_append, List.mem_singleton, or_imp, forall_and, forall_eq]
    split at hrow
    · next huid =>
      obtain ⟨old, _, rfl⟩ := Option.map_eq_some_iff.mp hrow
      constructor
      · exact fun hpending => absurd hpending (itemState_ne_pending _)
      · exact fun hopen => absurd (hitem.trans huid.symm) hopen.2
    · next huid =>
      rw [hs.pending hrow]
      exact ⟨fun hopen => ⟨hopen, fun heq => huid (heq.symm.trans hitem)⟩, fun hopen => hopen.1⟩
  · intro uid row hrow e he heq
    rw [hitems] at hrow
    rw [hdecisions, List.mem_append, List.mem_singleton] at he
    split at hrow
    · next huid =>
      obtain ⟨old, _, rfl⟩ := Option.map_eq_some_iff.mp hrow
      rcases he with he | rfl
      · exact absurd (heq.trans huid) (hnone e he)
      · rw [hdecision]
    · next huid =>
      rcases he with he | rfl
      · exact hs.decided hrow e he heq
      · exact absurd (heq.symm.trans hitem) huid
  · rw [hdecisions, List.map_append, List.nodup_append]
    refine ⟨hs.single, by simp, ?_⟩
    intro a ha b hb
    obtain ⟨e, he, rfl⟩ := List.mem_map.mp ha
    obtain rfl : b = d.itemUid := by simpa using hb
    exact hitem ▸ hnone e he

theorem Decided.ledger (h : Decided s item plan s') (hs : s.Ledger)
    (hfiled : (s.items.get? item.itemUid).isSome) : s'.Ledger := by
  obtain ⟨t, ht, hclosed⟩ := h.written
  obtain ⟨hitems, hdecisions⟩ := decisionHeads_frame ht
  exact hclosed.ledger (hs.congr hitems hdecisions) (hitems ▸ hfiled)

/-- What one decision leaves of the queue: the card it closed, and every other as it was. -/
theorem Decided.rows (h : Decided s item plan s') : ∃ d now,
    d.itemUid = item.itemUid ∧ d.decision = plan.request.decision ∧
      s'.decisions.rows = s.decisions.rows ++ [d] ∧
      ∀ uid, s'.items.get? uid = if uid = item.itemUid then
        (s.items.get? uid).map fun row =>
          { row with state := plan.request.decision.itemState, decidedAt := some now }
        else s.items.get? uid := by
  obtain ⟨t, ht, hclosed⟩ := h.written
  obtain ⟨hitems, hdecisions⟩ := decisionHeads_frame ht
  obtain ⟨d, hitem, hdecision, _, hrows, hget⟩ := hclosed.rows
  refine ⟨d, t.session.now, hitem, hdecision, hdecisions ▸ hrows, fun uid => ?_⟩
  rw [hget, hitems]

/-- The queue after a decision: the closed card, and the others as they were. -/
theorem Decided.mem_rows (h : Decided s item plan s') {row : ApprovalQueueItem}
    (hitem : s.items.get? item.itemUid = some item) (hrow : row ∈ s'.items.rows) :
    (row ∈ s.items.rows ∧ row.itemUid ≠ item.itemUid) ∨
      ∃ now, row =
        { item with state := plan.request.decision.itemState, decidedAt := some now } := by
  obtain ⟨_, now, _, _, _, hitems⟩ := h.rows
  have hget := Table.get?_of_mem hrow
  rw [hitems] at hget
  split at hget
  · next huid =>
    rw [huid, hitem] at hget
    exact .inr ⟨now, (Option.some.inj hget).symm⟩
  · next huid => exact .inl ⟨Table.mem_of_get? hget, huid⟩

/-- The card a decision closes was open. -/
theorem Decided.open (h : Decided s item plan s') (hs : s.Ledger)
    (hitem : s.items.get? item.itemUid = some item) : item.state = .pending :=
  (hs.pending hitem).mpr h.undecided

theorem Decided.closed_as (h : Decided s item plan s')
    (hitem : s.items.get? item.itemUid = some item) :
    ∃ item' ∈ s'.items.get? item.itemUid, item'.state = plan.request.decision.itemState := by
  obtain ⟨_, now, _, _, _, hitems⟩ := h.rows
  exact ⟨_, by rw [hitems, if_pos rfl, hitem]; rfl, rfl⟩

section Replay

variable {prior : ApprovalDecision}

/-- The request is the one the decision recorded. -/
def Repeats (prior : ApprovalDecision) (request : QueueDecisionRequest) : Prop :=
  prior.decision = request.decision ∧ prior.approvalMode = request.approvalMode ∧
    prior.actorClass = request.actorClass

theorem find?_decision (h : s.Ledger) (hprior : prior ∈ s.decisions.rows)
    (hitem : prior.itemUid = item.itemUid) :
    s.decisions.rows.find? (·.itemUid = item.itemUid) = some prior := by
  cases hfind : s.decisions.rows.find? (·.itemUid = item.itemUid) with
  | none =>
    rw [List.find?_eq_none] at hfind
    simpa [hitem] using hfind prior hprior
  | some d =>
    have hd : d.itemUid = item.itemUid := by simpa using List.find?_some hfind
    rw [h.unique (List.mem_of_find?_eq_some hfind) hprior (hd.trans hitem.symm)]

/-- Sending a decided card's own decision again answers it and writes nothing. -/
theorem decide_again {c : QueueCard} (h : s.Ledger) (hprior : prior ∈ s.decisions.rows)
    (hitem : s.items.get? plan.itemUid = some item) (hnamed : prior.itemUid = item.itemUid)
    (hbody : plan.request.amendedBody = none) (hrepeats : Repeats prior plan.request)
    (hcard : card env s item = .ok c) : decide env s plan =
      .ok (⟨c, prior.decision, prior.approvalMode, prior.actorClass, prior.decisionUid⟩, s) := by
  have hfind := find?_decision h hprior hnamed
  unfold Repeats at hrepeats
  simp only [decide, hitem, require_some, ok_bind, decideRow, hfind, replayDecision, hbody, hcard,
    ensure_pos hrepeats]
  rfl

/-- A decided card refuses every other decision. -/
theorem decide_other (h : s.Ledger) (hprior : prior ∈ s.decisions.rows)
    (hitem : s.items.get? plan.itemUid = some item) (hnamed : prior.itemUid = item.itemUid)
    (hother : ¬Repeats prior plan.request) (r : QueueDecisionResponse × Store) :
    decide env s plan ≠ .ok r := by
  intro hr
  simp only [decide, hitem, require_some, ok_bind, decideRow, find?_decision h hprior hnamed,
    replayDecision, bind_eq_ok, ensure_eq_ok] at hr
  obtain ⟨_, ⟨_, _, _, hsame, _⟩, _⟩ := hr
  exact hother hsame

theorem card_ok {u : MemoryUnit} (hu : s.units.get? item.candidateMemoryId = some u)
    (hstatus : u.status ≠ .staged) : ∃ c, card env s item = .ok c := by
  simp only [card, hu, require_some, ok_bind, Memory.contractMemory, ensure_pos hstatus]
  exact ⟨_, rfl⟩

end Replay

section Batch

/-- What a batch decision leaves of one of its cards. -/
def BatchDecided (request : QueueDecisionRequest) (s s' : Store) (item : ApprovalQueueItem) :
    Prop :=
  if item.state = .pending then
    (∃ d ∈ s'.decisions.rows, d.itemUid = item.itemUid ∧ d.decision = request.decision) ∧
      ∃ now, s'.items.get? item.itemUid =
        some { item with state := request.decision.itemState, decidedAt := some now }
  else s'.items.get? item.itemUid = some item ∧
    s'.decisions.rows.filter (·.itemUid = item.itemUid) =
      s.decisions.rows.filter (·.itemUid = item.itemUid)

theorem Decided.frame {uid : Ulid} (h : Decided s item plan s') (hne : uid ≠ item.itemUid) :
    s'.items.get? uid = s.items.get? uid ∧
      s'.decisions.rows.filter (·.itemUid = uid) = s.decisions.rows.filter (·.itemUid = uid) := by
  obtain ⟨d, now, hitem, _, hdecisions, hitems⟩ := h.rows
  refine ⟨by rw [hitems, if_neg hne], ?_⟩
  rw [hdecisions, List.filter_append]
  simp [hitem, Ne.symm hne]

/-- Deciding a batch decides each of its open cards and leaves every other card as it was. -/
theorem decideBatchRows_decides {rows : List ApprovalQueueItem} {cards : List QueueCard}
    (hlineage : s.Lineage) (h : s.Ledger)
    (hrows : ∀ item ∈ rows, s.items.get? item.itemUid = some item)
    (hnodup : (rows.map (·.itemUid)).Nodup)
    (hok : decideBatchRows env request s rows = .ok (cards, s')) :
    (∀ item ∈ rows, BatchDecided request s s' item) ∧
      ∀ uid, uid ∉ rows.map (·.itemUid) → s'.items.get? uid = s.items.get? uid ∧
        s'.decisions.rows.filter (·.itemUid = uid) =
          s.decisions.rows.filter (·.itemUid = uid) := by
  induction rows generalizing s cards with
  | nil =>
    simp only [decideBatchRows, Except.ok.injEq, Prod.mk.injEq] at hok
    obtain ⟨_, rfl⟩ := hok
    exact ⟨by simp, fun _ _ => ⟨rfl, rfl⟩⟩
  | cons item rest ih =>
    simp only [decideBatchRows, bind_eq_ok, pure_eq_ok, Prod.mk.injEq] at hok
    obtain ⟨⟨c, t⟩, hrow, ⟨cs, t'⟩, hrest, _, rfl⟩ := hok
    dsimp only at hrest ⊢
    simp only [List.map_cons, List.nodup_cons] at hnodup
    have hitem := hrows item (by simp)
    have hothers : ∀ other ∈ rest, other.itemUid ≠ item.itemUid := fun other hother heq =>
      hnodup.1 (heq ▸ List.mem_map_of_mem hother)
    unfold decideBatchRow at hrow
    split at hrow
    · next hpending =>
      simp only [bind_eq_ok, pure_eq_ok, Prod.mk.injEq] at hrow
      obtain ⟨⟨response, t⟩, hdecide, _, rfl⟩ := hrow
      dsimp only at hrest
      have hnone : s.decisions.rows.find? (·.itemUid = item.itemUid) = none := by
        simpa [List.find?_eq_none] using (h.pending hitem).mp hpending
      have hdecided : Decided s item ⟨item.itemUid, request, none, none⟩ t :=
        (decideRow_open_meets hlineage hnone).of_ok hdecide
      obtain ⟨d, now, hnamed, hdecision, hdecisions, hitems⟩ := hdecided.rows
      have hcurrent : ∀ other ∈ rest, t.items.get? other.itemUid = some other := by
        intro other hother
        rw [(hdecided.frame (hothers other hother)).1]
        exact hrows other (List.mem_cons_of_mem _ hother)
      obtain ⟨hdone, hframe⟩ := ih (hdecided.writes.lineage hlineage)
        (hdecided.ledger h (by simp [hitem])) hcurrent hnodup.2 hrest
      have hkept := hframe item.itemUid hnodup.1
      constructor
      · intro other hother
        rcases List.mem_cons.mp hother with rfl | hother
        · rw [BatchDecided, if_pos hpending]
          constructor
          · have hd : d ∈ t'.decisions.rows.filter (·.itemUid = other.itemUid) := by
              rw [hkept.2]
              simp [hdecisions, hnamed]
            simp only [List.mem_filter, decide_eq_true_eq] at hd
            exact ⟨d, hd.1, hd.2, hdecision⟩
          · exact ⟨now, by rw [hkept.1, hitems, if_pos rfl, hitem]; rfl⟩
        · have hbefore := hdone other hother
          unfold BatchDecided at hbefore ⊢
          split
          · next hopen => simpa [hopen] using hbefore
          · next hopen =>
            simp only [hopen, ↓reduceIte] at hbefore
            exact ⟨hbefore.1, hbefore.2.trans (hdecided.frame (hothers other hother)).2⟩
      · intro uid huid
        simp only [List.map_cons, List.mem_cons, not_or] at huid
        have hne : uid ≠ item.itemUid := huid.1
        have hone := hdecided.frame hne
        have hall := hframe uid huid.2
        exact ⟨hall.1.trans hone.1, hall.2.trans hone.2⟩
    · next hclosed =>
      simp only [bind_eq_ok, pure_eq_ok, Prod.mk.injEq] at hrow
      obtain ⟨_, _, _, rfl⟩ := hrow
      obtain ⟨hdone, hframe⟩ := ih hlineage h
        (fun other hother => hrows other (List.mem_cons_of_mem _ hother)) hnodup.2 hrest
      constructor
      · intro other hother
        rcases List.mem_cons.mp hother with rfl | hother
        · have hkept := hframe other.itemUid hnodup.1
          rw [BatchDecided, if_neg hclosed]
          exact ⟨hkept.1.trans hitem, hkept.2⟩
        · exact hdone other hother
      · intro uid huid
        exact hframe uid fun hmem => huid (List.mem_cons_of_mem _ hmem)

theorem batchRows_perm (s : Store) (batchUid : Uuid) :
    (batchRows s batchUid).Perm (s.items.rows.filter (·.birthplace.batchUid = some batchUid)) :=
  List.perm_insertionSort _ _

/-- An accepted batch decision decides every open card of its batch, and no other card. -/
theorem decideBatch_decides {batchUid : Uuid} {cards : List QueueCard} (hlineage : s.Lineage)
    (h : s.Ledger) (hok : decideBatch env s batchUid request = .ok (cards, s')) :
    (∀ item ∈ s.items.rows, item.birthplace.batchUid = some batchUid →
      BatchDecided request s s' item) ∧
    ∀ item ∈ s.items.rows, item.birthplace.batchUid ≠ some batchUid →
      s'.items.get? item.itemUid = some item ∧
        s'.decisions.rows.filter (·.itemUid = item.itemUid) =
          s.decisions.rows.filter (·.itemUid = item.itemUid) := by
  simp only [decideBatch, bind_eq_ok, ensure_eq_ok] at hok
  obtain ⟨_, _, _, _, _, _, _, _, hok⟩ := hok
  have hperm := batchRows_perm s batchUid
  have hmem {item : ApprovalQueueItem} : item ∈ batchRows s batchUid ↔
      item ∈ s.items.rows ∧ item.birthplace.batchUid = some batchUid := by
    rw [hperm.mem_iff, List.mem_filter, decide_eq_true_eq]
  have hnodup : ((batchRows s batchUid).map (·.itemUid)).Nodup := by
    rw [(hperm.map _).nodup_iff]
    exact s.items.nodup.sublist (List.filter_sublist.map _)
  obtain ⟨hdone, hframe⟩ := decideBatchRows_decides hlineage h
    (fun item hitem => Table.get?_of_mem (hmem.mp hitem).1) hnodup hok
  constructor
  · exact fun item hitem hbatch => hdone item (hmem.mpr ⟨hitem, hbatch⟩)
  · intro item hitem hbatch
    have hnot : item.itemUid ∉ (batchRows s batchUid).map (·.itemUid) := by
      intro hin
      obtain ⟨other, hother, heq⟩ := List.mem_map.mp hin
      obtain ⟨hrow, hsame⟩ := hmem.mp hother
      have := List.inj_on_of_nodup_map s.items.nodup hrow hitem heq
      exact hbatch (this ▸ hsame)
    obtain ⟨hget, hfilter⟩ := hframe _ hnot
    exact ⟨hget.trans (Table.get?_of_mem hitem), hfilter⟩

end Batch

end Queue

end Nocturne
