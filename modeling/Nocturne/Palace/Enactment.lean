import Nocturne.Palace.Ledger
import Nocturne.Palace.Shapes
import Nocturne.Queue.Enactment

namespace Nocturne

open Nocturne.Lib Nocturne.Store Nocturne.Memory Nocturne.Queue

variable {w : World} {p : Palace} {s s' : Store} {item : ApprovalQueueItem} {plan : DecisionPlan}

/-- A transaction is about to decide an open card: alone, or after the cards its batch puts
before it. -/
inductive Palace.Deciding (w : World) (p : Palace) : Store → ApprovalQueueItem → DecisionPlan → Prop
  | alone {session : Session} {k : Nat} {plan : DecisionPlan} {item : ApprovalQueueItem} :
    p.ops[k]? = some (.deciding plan) → p.store.items.get? plan.itemUid = some item →
      item.state = .pending → Deciding w p (p.store.begin session) item plan
  | batch {session : Session} {batchUid : Uuid} {request : QueueDecisionRequest}
    {before after : List ApprovalQueueItem} {item : ApprovalQueueItem} {cards : List QueueCard}
    {s : Store} : batchRows (p.store.begin session) batchUid = before ++ item :: after →
      decideBatchRows w.env request (p.store.begin session) before = .ok (cards, s) →
      item.state = .pending → Deciding w p s item ⟨item.itemUid, request, none, none⟩

/-- What a transaction about to decide an open card may rely on. -/
structure Palace.Ready (p : Palace) (s : Store) (item : ApprovalQueueItem) : Prop where
  filed : item ∈ p.store.items.rows
  lineage : s.Lineage
  undecided : ∀ d ∈ s.decisions.rows, d.itemUid ≠ item.itemUid

theorem Palace.Deciding.ready (h : p.Deciding w s item plan) (hreach : (palace w).Reachable p) :
    p.Ready s item := by
  have hlineage := lineage_of_reachable hreach
  have hledger := (consented_of_reachable hreach).ledger
  cases h with
  | alone _ hitem hpending =>
    have hid := Table.key_of_get? hitem
    refine ⟨Table.mem_of_get? hitem, hlineage.congr rfl rfl, ?_⟩
    rw [hid]
    exact (hledger.pending hitem).mp hpending
  | @batch session batchUid request before after _ cards _ hrows hok hpending =>
    have hlineage' : (p.store.begin session).Lineage := hlineage.congr rfl rfl
    obtain ⟨hcurrent, hnodup⟩ := batchRows_current (p.store.begin session) batchUid
    rw [hrows] at hcurrent hnodup
    have hitem : (p.store.begin session).items.get? item.itemUid = some item :=
      hcurrent item (by simp)
    rw [List.map_append, List.map_cons, List.nodup_append] at hnodup
    have hnot : item.itemUid ∉ before.map (·.itemUid) := fun hin =>
      hnodup.2.2 _ hin _ (by simp) rfl
    obtain ⟨_, hframe⟩ := decideBatchRows_decides hlineage' (hledger.congr rfl rfl)
      (fun other hother => hcurrent other (List.mem_append_left _ hother)) hnodup.1 hok
    have hwrites := (decideBatchRows_meets hlineage').of_ok hok
    refine ⟨Table.mem_of_get? hitem, hwrites.writes.lineage hlineage', fun d hd heq => ?_⟩
    have hin : d ∈ s.decisions.rows.filter (·.itemUid = item.itemUid) := by simp [hd, heq]
    rw [(hframe item.itemUid hnot).2, List.mem_filter] at hin
    exact (hledger.pending hitem).mp hpending d hin.1 heq

section Verdicts

/-- The head stood before, and is a tombstone after. -/
def Store.Tombstones (s s' : Store) (id : Uuid) : Prop :=
  (∃ u ∈ s.units.get? id, u.status ≠ .tombstoned) ∧
    ∃ u ∈ s'.units.get? id, u.status = .tombstoned

/-- The edge is new. -/
def Store.Links (s s' : Store) (a b : Uuid) (edge : EdgeType) : Prop :=
  ¬s.Linked a b edge ∧ s'.Linked a b edge

/-- What a verdict says of one of its targets. -/
def Verdict.Enacts (s s' : Store) (candidateId targetId : Uuid) : Verdict → Prop
  | .new => True
  | .merge => s.Tombstones s' targetId ∧ s.Links s' candidateId targetId .mergedFrom
  | .supersede => s.Tombstones s' targetId ∧ s.Links s' candidateId targetId .supersedes
  | .contradict => s.Links s' candidateId targetId .contradicts ∧
      ∃ u ∈ s'.units.get? targetId, u.status = .active
  | .retire | .split => s.Tombstones s' targetId
  | .keywordRepair => ∃ u ∈ s.units.get? targetId, ∃ u' ∈ s'.units.get? targetId,
      u'.keywords ≠ u.keywords

/-- A verdict carried to its targets does what it says of each. -/
theorem Queue.Admitted.enacts {edge : EdgeType} {id : Uuid} (h : Admitted item s s')
    (hlineage : s.Lineage) (hedge : edgeType item.verdict = some edge) (hid : id ∈ item.targetIds) :
    item.verdict.Enacts s s' item.candidateMemoryId id := by
  obtain ⟨candidate, machineId, t, hfound, hwaiting, ht, hlinked, hunits, _⟩ := h.enacted
  have himplicated := (enactTargets_implicated hlineage ht).1 edge hedge
  have hkey := Table.key_of_get? hfound
  obtain ⟨⟨u, hu, _, hactive⟩, hunlinked⟩ := himplicated.before id hid
  obtain ⟨u', hu', hstatus, _⟩ := himplicated.after id hid u hu
  have hne : id ≠ item.candidateMemoryId := by
    rintro rfl
    obtain rfl := Option.some.inj (hfound.symm.trans hu)
    rw [hwaiting] at hactive
    cases hactive
  rw [hkey] at hunlinked
  have hlinks : s.Links s' item.candidateMemoryId id edge :=
    ⟨hunlinked, (hlinked _ _ _).mpr ((himplicated.linked _ _ _).mpr (.inr ⟨hkey.symm, hid, rfl⟩))⟩
  have hafter : s'.units.get? id = some u' := (hunits id hne).trans hu'
  have htombstones (hreplaces : item.verdict.Replaces) : s.Tombstones s' id := by
    rw [if_pos hreplaces] at hstatus
    exact ⟨⟨u, hu, by simp [hactive]⟩, u', hafter, hstatus⟩
  cases hverdict : item.verdict with
  | merge =>
    obtain rfl : EdgeType.mergedFrom = edge := by simpa [edgeType, hverdict] using hedge
    exact ⟨htombstones (.inl hverdict), hlinks⟩
  | supersede =>
    obtain rfl : EdgeType.supersedes = edge := by simpa [edgeType, hverdict] using hedge
    exact ⟨htombstones (.inr hverdict), hlinks⟩
  | contradict =>
    obtain rfl : EdgeType.contradicts = edge := by simpa [edgeType, hverdict] using hedge
    refine ⟨hlinks, u', hafter, ?_⟩
    rw [hstatus, if_neg (by simp [Verdict.Replaces, hverdict]), hactive]
  | new | retire | keywordRepair | split => simp [edgeType, hverdict] at hedge

/-- A verdict that is not carried to its targets leaves each as it was. -/
theorem Queue.Admitted.idle {id : Uuid} (h : Admitted item s s') (hlineage : s.Lineage)
    (hnone : edgeType item.verdict = none) (hnew : item.verdict ≠ .new) :
    ¬item.verdict.Enacts s s' item.candidateMemoryId id := by
  obtain ⟨candidate, machineId, t, hfound, _, ht, _, hunits, u, hu, hactive, hkeywords⟩ := h.enacted
  obtain rfl := (enactTargets_implicated hlineage ht).2 hnone
  have hsame : (∃ v ∈ s'.units.get? id, v.status = .tombstoned) →
      ∃ v ∈ t.units.get? id, v.status = .tombstoned := by
    rintro ⟨v, hv, htombstoned⟩
    by_cases hid : id = item.candidateMemoryId
    · subst hid
      obtain rfl := Option.some.inj (hu.symm.trans hv)
      rw [hactive] at htombstoned
      cases htombstoned
    · exact ⟨v, hunits id hid ▸ hv, htombstoned⟩
  have hstands : ¬t.Tombstones s' id := by
    rintro ⟨⟨v, hv, hstood⟩, htombstoned⟩
    obtain ⟨v', hv', htombstoned'⟩ := hsame htombstoned
    obtain rfl := Option.some.inj (hv.symm.trans hv')
    exact hstood htombstoned'
  cases hverdict : item.verdict with
  | new => exact absurd hverdict hnew
  | merge | supersede | contradict => simp [edgeType, hverdict] at hnone
  | retire | split => exact hstands
  | keywordRepair =>
    rintro ⟨v, hv, v', hv', hdiffer⟩
    by_cases hid : id = item.candidateMemoryId
    · subst hid
      obtain rfl := Option.some.inj (hfound.symm.trans hv)
      obtain rfl := Option.some.inj (hu.symm.trans hv')
      exact hdiffer hkeywords
    · rw [hunits id hid] at hv'
      exact hdiffer (congrArg MemoryUnit.keywords (Option.some.inj (hv'.symm.trans hv)))

/-- An approved card of an extraction or a seed does to each of its targets what its verdict
says, exactly where that verdict merges, supersedes or contradicts. -/
theorem verdict_enacted {r : QueueDecisionResponse × Store} (hreach : (palace w).Reachable p)
    (h : p.Deciding w s item plan) (hoffered : item.birthplace.IsOffered)
    (hnew : item.verdict ≠ .new) (happrove : plan.request.decision = .approve)
    (hok : decideRow w.env s item plan = .ok r) :
    (∀ id ∈ item.targetIds, item.verdict.Enacts s r.2 item.candidateMemoryId id) ↔
      item.verdict = .merge ∨ item.verdict = .supersede ∨ item.verdict = .contradict := by
  obtain ⟨hfiled, hlineage, hundecided⟩ := h.ready hreach
  have hshaped := (shaped_of_reachable hreach).cards item hfiled
  have hadmitted : Admitted item s r.2 := by
    rw [decideRow_candidate hundecided hoffered.1] at hok
    simp only [lockedMemory, bind_eq_ok, ensure_eq_ok, require_eq_ok] at hok
    obtain ⟨_, _, candidate, hfound, hok⟩ := hok
    exact decideCandidate_admits hlineage happrove hfound hok
  have hcases : edgeType item.verdict ≠ none ↔
      item.verdict = .merge ∨ item.verdict = .supersede ∨ item.verdict = .contradict := by
    cases item.verdict <;> simp [edgeType]
  rw [← hcases]
  constructor
  · intro henacts hnone
    obtain ⟨id, hid⟩ := List.exists_mem_of_ne_nil _ (mt (hshaped.offered hoffered).mpr hnew)
    exact hadmitted.idle hlineage hnone hnew (henacts id hid)
  · intro hedge id hid
    obtain ⟨edge, hedge⟩ := Option.ne_none_iff_exists'.mp hedge
    exact hadmitted.enacts hlineage hedge hid

/-- A memory, and a conversation that offers one in view of it; the owner is about to approve. -/
def implicatedCalls (verdict : Verdict) : List Call :=
  [⟨⟨1, [7, 70]⟩, .create (savedMemory "tea" "drinks tea") [1]⟩,
    ⟨⟨2, []⟩, .startExtract (offeredMemories
      [{ offeredCandidate "chai" "drinks chai" with verdict, targetIds := [7] }])⟩,
    ⟨⟨3, [8, 71]⟩, .ingest 0 [2]⟩,
    ⟨⟨4, []⟩, .ingest 0 []⟩,
    ⟨⟨5, [50]⟩, .ingest 0 []⟩,
    ⟨⟨6, []⟩, .startDecision 50 (explicitly .approve) [] []⟩]

/-- Any two memories are alike, and none duplicates another. -/
def similarWorld : World :=
  { (default : World) with
    env := { (default : World).env with cosine := fun a b => if a = b then 1 else 85 / 100 } }

def implicatedPalace (verdict : Verdict) : Palace :=
  (palace similarWorld).run ⟨.deployed .empty, []⟩ (implicatedCalls verdict)

theorem implicatedPalace_reachable (verdict : Verdict) :
    (palace similarWorld).Reachable (implicatedPalace verdict) :=
  ⟨_, _, ⟨_, rfl⟩, rfl⟩

theorem implicatedPalace_deciding (verdict : Verdict)
    (h : (implicatedPalace verdict).ops[1]?.bind Operation.deciding? =
      some ⟨50, explicitly .approve, none, none⟩)
    (hitem : ∃ item ∈ (implicatedPalace verdict).store.items.get? 50, item.state = .pending ∧
      item.birthplace.IsOffered ∧ item.verdict = verdict ∧ item.targetIds = [7]) :
    ∃ item, (implicatedPalace verdict).Deciding similarWorld
        ((implicatedPalace verdict).store.begin ⟨7, [60, 61, 62, 63]⟩) item
        ⟨50, explicitly .approve, none, none⟩ ∧
      (implicatedPalace verdict).store.items.get? 50 = some item ∧
      item.birthplace.IsOffered ∧ item.verdict = verdict ∧ item.targetIds = [7] := by
  obtain ⟨_, hop, hplan⟩ := Option.bind_eq_some_iff.mp h
  obtain rfl := Operation.deciding?_eq_some.mp hplan
  obtain ⟨item, hget, hpending, hrest⟩ := hitem
  exact ⟨item, .alone hop hget hpending, hget, hrest⟩

theorem verdict_enacted_superseded : ∃ item r,
    decideRow similarWorld.env
      ((implicatedPalace .supersede).store.begin ⟨7, [60, 61, 62, 63]⟩) item
        ⟨50, explicitly .approve, none, none⟩ = .ok r ∧
    ∀ id ∈ item.targetIds, item.verdict.Enacts
      ((implicatedPalace .supersede).store.begin ⟨7, [60, 61, 62, 63]⟩) r.2
        item.candidateMemoryId id := by
  obtain ⟨item, hdeciding, hget, hoffered, hverdict, _⟩ :=
    implicatedPalace_deciding .supersede (by decide +kernel) (by decide +kernel)
  have hruns : ∀ item ∈ (implicatedPalace .supersede).store.items.get? 50,
      Answers (decideRow similarWorld.env
        ((implicatedPalace .supersede).store.begin ⟨7, [60, 61, 62, 63]⟩) item
          ⟨50, explicitly .approve, none, none⟩) fun _ => True := by decide +kernel
  obtain ⟨r, hr, _⟩ := answers_iff.mp (hruns item hget)
  refine ⟨item, r, hr, (verdict_enacted (implicatedPalace_reachable .supersede) hdeciding hoffered
    (by simp [hverdict]) rfl hr).mpr (by simp [hverdict])⟩

theorem verdict_enacted_retired : (palace similarWorld).Reachable (implicatedPalace .retire) ∧
    ∃ item r, (implicatedPalace .retire).Deciding similarWorld
        ((implicatedPalace .retire).store.begin ⟨7, [60, 61, 62, 63]⟩) item
        ⟨50, explicitly .approve, none, none⟩ ∧
      item.birthplace.IsOffered ∧ item.verdict = .retire ∧ item.targetIds = [7] ∧
      decideRow similarWorld.env ((implicatedPalace .retire).store.begin ⟨7, [60, 61, 62, 63]⟩)
        item ⟨50, explicitly .approve, none, none⟩ = .ok r ∧
      ∃ u ∈ r.2.units.get? 7, u.status = .active := by
  obtain ⟨item, hdeciding, hget, hoffered, hverdict, htargets⟩ :=
    implicatedPalace_deciding .retire (by decide +kernel) (by decide +kernel)
  have hruns : ∀ item ∈ (implicatedPalace .retire).store.items.get? 50,
      Answers (decideRow similarWorld.env
        ((implicatedPalace .retire).store.begin ⟨7, [60, 61, 62, 63]⟩) item
          ⟨50, explicitly .approve, none, none⟩)
        fun r => ∃ u ∈ r.2.units.get? 7, u.status = .active := by decide +kernel
  obtain ⟨r, hr, hactive⟩ := answers_iff.mp (hruns item hget)
  exact ⟨implicatedPalace_reachable _, item, r, hdeciding, hoffered, hverdict, htargets, hr,
    hactive⟩

end Verdicts

end Nocturne
