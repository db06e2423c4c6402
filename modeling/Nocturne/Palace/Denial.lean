import Nocturne.Palace.Approval
import Nocturne.Palace.Rejection

namespace Nocturne

open Nocturne.Lib Nocturne.Store Nocturne.Memory Nocturne.Queue Nocturne.Curation

namespace Queue

variable {env : Env} {s t : Store} {item : ApprovalQueueItem} {candidate : MemoryUnit}
  {request : QueueDecisionRequest} {plan : DecisionPlan} {embedding : Embedding}
  {embeddings : List Embedding}

/-- The children a split card proposes pass the preflight every decision on it makes. -/
def ChildrenPrepared (env : Env) (payload : Proposal) : Prop :=
  Answers (proposalChildren env payload) fun children =>
    (2 ≤ children.length ∧ children.length ≤ 64) ∧
      Answers (prepareSplitChildren.{0} env [] [] children) fun _ => True

instance (env : Env) (payload : Proposal) : Decidable (ChildrenPrepared env payload) :=
  inferInstanceAs (Decidable (Answers _ fun _ => _ ∧ Answers _ fun _ => _))

/-- What denying a card asks of its candidate. -/
def Refusable (env : Env) (item : ApprovalQueueItem) (candidate : MemoryUnit) : Prop :=
  match item.birthplace with
  | .curator _ _ candidateRevision payload =>
    candidate.revision = candidateRevision ∧
      (item.verdict = .split → ChildrenPrepared env payload)
  | .thread _ | .seed .. | .symphony .. => candidate.status = .candidate

theorem preparedSplitOf_answers (hlength : ∀ payload ∈ item.birthplace.payload,
      ∀ children ∈ payload.children, embeddings.length = children.length) :
    (∃ prepared, preparedSplitOf env (some item) embeddings = .ok prepared) ↔
      (item.verdict = .split → ∀ payload ∈ item.birthplace.payload,
        ChildrenPrepared env payload) := by
  cases hbirth : item.birthplace with
  | thread | seed | symphony =>
    have hnone : preparedSplitOf env (some item) embeddings = .ok none := by
      cases hverdict : item.verdict <;> simp [preparedSplitOf, hbirth, hverdict]
    simp [hnone, Birthplace.payload]
  | curator runUid findingUid candidateRevision payload =>
    by_cases hverdict : item.verdict = .split
    · simp only [preparedSplitOf, hbirth, hverdict, prepareCuratorSplit, ChildrenPrepared,
        Birthplace.payload, Option.mem_some_iff, forall_eq', forall_const, answers_iff,
        bind_eq_ok, ensure_eq_ok, pure_eq_ok, and_true]
      constructor
      · rintro ⟨_, children, hchildren, _, ⟨_, hcount, _, hvalid, _⟩, _⟩
        exact ⟨children, hchildren, hcount, _, hvalid⟩
      · rintro ⟨children, hchildren, hcount, _, hvalid⟩
        have hmany : embeddings.length = children.length := by
          simp only [proposalChildren, bind_eq_ok, require_eq_ok] at hchildren
          obtain ⟨proposed, hproposed, hmapped⟩ := hchildren
          rw [hlength payload (by simp [hbirth, Birthplace.payload]) proposed hproposed]
          exact (mapM_eq_ok.mp hmapped).length_eq
        exact ⟨_, children, hchildren, _, ⟨.unit, hcount, _, hvalid, .unit, hmany, rfl⟩, rfl⟩
    · have hnone : preparedSplitOf env (some item) embeddings = .ok none := by
        unfold preparedSplitOf
        dsimp only
        split
        · next hsplit _ => exact absurd hsplit hverdict
        · rfl
      simp [hnone, hverdict]

theorem amendmentOf_deny (embedding : Embedding) (hdeny : request.decision = .deny) :
    (∃ amendment, amendmentOf env (some item) request embedding = .ok amendment) ↔
      request.amendedBody = none := by
  cases hbody : request.amendedBody with
  | none => simp [amendmentOf, hbody]
  | some body => simp [amendmentOf, hbody, hdeny, bind_eq_ok]

/-- A tombstone takes no label from anyone. -/
theorem tombstone_label (s : Store) (u : MemoryUnit) :
    s.ActiveLabelFree (s.bumped { status := some .tombstoned } u) := by
  simp [ActiveLabelFree, bumped, MemoryUnitChanges.apply]

theorem decideCandidate_deny (hlineage : s.Lineage)
    (hundecided : ∀ d ∈ s.decisions.rows, d.itemUid ≠ item.itemUid)
    (hfound : s.units.get? item.candidateMemoryId = some candidate)
    (hdeny : request.decision = .deny) :
    (∃ r, decideCandidate env s item candidate request = .ok r) ↔
      candidate.status = .candidate := by
  have hid := Table.key_of_get? hfound
  constructor
  · rintro ⟨r, hok⟩
    simp only [decideCandidate, bind_eq_ok, ensure_eq_ok] at hok
    obtain ⟨_, hstatus, _⟩ := hok
    exact hstatus
  · intro hstatus
    obtain ⟨t, hstep, hcas⟩ := cas_ok (fun revUid =>
      { memoryId := candidate.id
        expectedRevision := candidate.revision
        revUid
        editor := if request.actorClass = .human then "human" else "passive"
        originMachineId := request.machineId
        reason := "rejected"
        changes := { status := some .tombstoned } })
      hlineage (hid ▸ hfound) rfl rfl (by simp) (tombstone_label _ _)
    obtain ⟨_, hdecisions⟩ : t.items = s.items ∧ t.decisions = s.decisions := by
      obtain ⟨_, _, _, _, rfl⟩ := hstep.written
      exact ⟨rfl, rfl⟩
    obtain ⟨r, hr⟩ := close_ok env request (hdecisions ▸ hundecided)
      (by rw [hstep.get?_units, if_pos hid.symm]) (by simp)
    refine ⟨r, ?_⟩
    simp only [decideCandidate, enactCandidate, hdeny, ensure_pos hstatus, ok_bind, reduceCtorEq,
      ↓reduceIte, hcas, hr]

theorem decideCuratorRow_deny {findingUid : Ulid} {candidateRevision : Nat} {payload : Proposal}
    (hlineage : s.Lineage) (hcards : s.Cards) (hitem : item ∈ s.items.rows)
    (hundecided : ∀ d ∈ s.decisions.rows, d.itemUid ≠ item.itemUid)
    (hfound : s.units.get? item.candidateMemoryId = some candidate)
    (hdeny : plan.request.decision = .deny)
    (hexplicit : plan.request.approvalMode = .explicit ∧ plan.request.actorClass = .human) :
    (∃ r, decideCuratorRow env s item candidate findingUid candidateRevision payload plan =
      .ok r) ↔ candidate.revision = candidateRevision := by
  have hid := Table.key_of_get? hfound
  simp only [decideCuratorRow, ensure_pos hexplicit, ok_bind, hdeny]
  constructor
  · rintro ⟨r, hok⟩
    simp only [bind_eq_ok, ensure_eq_ok] at hok
    obtain ⟨_, hrevision, _⟩ := hok
    exact hrevision
  · intro hrevision
    rw [ensure_pos hrevision, ok_bind]
    split
    · apply bind_total ((curatorCas_ok hlineage (hid ▸ hfound) (by simp)).mpr
        (tombstone_label s candidate))
      intro t ht
      simp only [curatorCas, bind_eq_ok, pure_eq_ok] at ht
      obtain ⟨⟨_, _⟩, hcas, rfl⟩ := ht
      obtain ⟨current, hstep, _⟩ := casUpdate_eq_ok.mp hcas
      obtain ⟨_, _, _, _, rfl⟩ := hstep.written
      refine close_ok env plan.request hundecided
        ((hstep.get?_units _).trans (if_pos hid.symm)) (by simp)
    · obtain ⟨u, hu, hstaged⟩ := hcards.carried item hitem
      exact close_ok env plan.request hundecided hu hstaged

/-- The owner's denial of an open card is carried out exactly where the card is refusable. -/
theorem decideRow_deny (hlineage : s.Lineage) (hcards : s.Cards) (hitem : item ∈ s.items.rows)
    (hundecided : ∀ d ∈ s.decisions.rows, d.itemUid ≠ item.itemUid)
    (hfound : s.units.get? item.candidateMemoryId = some candidate)
    (hdeny : plan.request.decision = .deny)
    (hexplicit : plan.request.approvalMode = .explicit ∧ plan.request.actorClass = .human) :
    (∃ r, decideRow env s item plan = .ok r) ↔
      if item.birthplace.IsCurator then
        ∀ revision ∈ item.birthplace.candidateRevision, candidate.revision = revision
      else candidate.status = .candidate := by
  have hactive : ¬(item.verdict = .contradict ∧ plan.request.approvalMode = .passive) := by
    simp [hexplicit.1]
  have hlocked : lockedMemory s item.candidateMemoryId = .ok candidate := by
    simp [lockedMemory, hfound]
  cases hbirth : item.birthplace with
  | thread | seed | symphony =>
    rw [decideRow_candidate hundecided (by simp [hbirth, Birthplace.IsCurator])]
    simp only [ensure_pos hactive, ok_bind, hlocked, Birthplace.IsCurator, ↓reduceIte]
    exact decideCandidate_deny hlineage hundecided hfound hdeny
  | curator runUid findingUid candidateRevision payload =>
    rw [decideRow_curator hundecided hbirth]
    simp only [ensure_pos hactive, ok_bind, hlocked, Birthplace.IsCurator, ↓reduceIte,
      Birthplace.candidateRevision, Option.mem_some_iff, forall_eq']
    exact decideCuratorRow_deny hlineage hcards hitem hundecided hfound hdeny hexplicit

theorem refusable_iff : Refusable env item candidate ↔
    (if item.birthplace.IsCurator then
      ∀ revision ∈ item.birthplace.candidateRevision, candidate.revision = revision
    else candidate.status = .candidate) ∧
      (item.verdict = .split → ∀ payload ∈ item.birthplace.payload,
        ChildrenPrepared env payload) := by
  cases hbirth : item.birthplace <;>
    simp [Refusable, hbirth, Birthplace.IsCurator, Birthplace.candidateRevision,
      Birthplace.payload]

/-- Reading the card, then denying it in a transaction of its own. -/
theorem deny_ok (env : Env) (embedding : Embedding) (session : Session) (hlineage : s.Lineage)
    (hcards : s.Cards) (hitem : s.items.get? item.itemUid = some item)
    (hundecided : ∀ d ∈ s.decisions.rows, d.itemUid ≠ item.itemUid)
    (hfound : s.units.get? item.candidateMemoryId = some candidate)
    (hdeny : request.decision = .deny)
    (hexplicit : request.approvalMode = .explicit ∧ request.actorClass = .human)
    (hlength : ∀ payload ∈ item.birthplace.payload, ∀ children ∈ payload.children,
      embeddings.length = children.length) :
    (∃ plan, decidePreflight env s item.itemUid request embedding embeddings = .ok plan ∧
      ∃ r, decide env (s.begin session) plan = .ok r) ↔
      request.amendedBody = none ∧ Refusable env item candidate := by
  have hsignal : request.SignalPair := by
    simp [QueueDecisionRequest.SignalPair, hexplicit]
  have hdecide (prepared : Option (List (SplitChild × Embedding)))
      (amendment : Option MemoryUnitChanges) :
      (∃ r, decide env (s.begin session) ⟨item.itemUid, request, prepared, amendment⟩ = .ok r) ↔
        if item.birthplace.IsCurator then
          ∀ revision ∈ item.birthplace.candidateRevision, candidate.revision = revision
        else candidate.status = .candidate := by
    have hfiled : (s.begin session).items.get? item.itemUid = some item := hitem
    simp only [decide, hfiled, require_some, ok_bind]
    exact decideRow_deny (hlineage.congr rfl rfl) (hcards.congr rfl rfl)
      (Table.mem_of_get? hfiled) hundecided hfound hdeny hexplicit
  rw [refusable_iff, ← preparedSplitOf_answers hlength,
    ← amendmentOf_deny embedding hdeny]
  simp only [decidePreflight, hitem, ensure_pos hsignal, ok_bind, bind_eq_ok, pure_eq_ok]
  constructor
  · rintro ⟨_, ⟨amendment, hamendment, prepared, hprepared, rfl⟩, hok⟩
    exact ⟨⟨amendment, hamendment⟩, (hdecide prepared amendment).mp hok, prepared, hprepared⟩
  · rintro ⟨⟨amendment, hamendment⟩, hstands, prepared, hprepared⟩
    exact ⟨_, ⟨amendment, hamendment, prepared, hprepared, rfl⟩,
      (hdecide prepared amendment).mpr hstands⟩

/-- An open card, decided. -/
theorem decided_of_decide {r : QueueDecisionResponse × Store} (h : s.Lineage)
    (hitem : s.items.get? plan.itemUid = some item)
    (hundecided : ∀ d ∈ s.decisions.rows, d.itemUid ≠ item.itemUid)
    (hr : decide env s plan = .ok r) : Decided s item plan r.2 := by
  simp only [decide, hitem, require_some, ok_bind] at hr
  have hnone : s.decisions.rows.find? (·.itemUid = item.itemUid) = none := by
    simpa [List.find?_eq_none] using hundecided
  exact (decideRow_open_meets h hnone).of_ok hr

end Queue

variable {w : World} {p : Palace} {item : ApprovalQueueItem} {candidate : MemoryUnit}
  {request : QueueDecisionRequest} {embedding : Embedding} {embeddings : List Embedding}
  {session session' : Session}

theorem step_decide_ok {k : Nat} {plan : DecisionPlan} {r : QueueDecisionResponse × Store}
    (hop : p.ops[k]? = some (.deciding plan))
    (h : decide w.env (p.store.begin session) plan = .ok r) :
    (palace w).step p ⟨session, .decide k⟩ = .ok (p.become k r.2 .done) := by
  simp only [palace, Palace.step, Palace.inFlight, hop, Option.bind_some, Operation.deciding?,
    require_some, ok_bind, h]
  rfl

/-- From `s` to `s'` the card is rejected, and no head that was active is touched. -/
def Refuses (s s' : Store) (item : ApprovalQueueItem) : Prop :=
  (∃ item' ∈ s'.items.get? item.itemUid, item'.state = .rejected) ∧
    ∀ u ∈ s.units.rows, u.status = .active → s'.units.get? u.id = some u

theorem Queue.Decided.refuses {s s' : Store} {plan : DecisionPlan} (h : Decided s item plan s')
    (hitem : s.items.get? item.itemUid = some item) (hdeny : plan.request.decision = .deny) :
    Refuses s s' item := by
  constructor
  · obtain ⟨item', hitem', hstate⟩ := h.closed_as hitem
    exact ⟨item', hitem', by rw [hstate, hdeny]; rfl⟩
  · intro u hu hactive
    obtain ⟨v, hv, hsame | ⟨_, hcandidate, _⟩⟩ := h.head_deny hdeny (Table.get?_of_mem hu)
    · rw [hv, hsame]
    · rw [hactive] at hcandidate
      cases hcandidate

/-- The owner denies an open card: the card is rejected and every active head left alone exactly
where a card born outside curation still has its candidate waiting, and a curator's card finds its
candidate at the revision it was filed on and, if it is a split, proposes children that pass the
preflight. -/
theorem denial_accepted (hreach : (palace w).Reachable p)
    (hitem : p.store.items.get? item.itemUid = some item) (hpending : item.state = .pending)
    (hfound : p.store.units.get? item.candidateMemoryId = some candidate)
    (hdeny : request.decision = .deny)
    (hexplicit : request.approvalMode = .explicit ∧ request.actorClass = .human)
    (hlength : ∀ payload ∈ item.birthplace.payload, ∀ children ∈ payload.children,
      embeddings.length = children.length) :
    (∃ q q', (palace w).step p
        ⟨session, .startDecision item.itemUid request embedding embeddings⟩ = .ok q ∧
      (palace w).step q ⟨session', .decide p.ops.length⟩ = .ok q' ∧
        Refuses p.store q'.store item) ↔
      request.amendedBody = none ∧ Refusable w.env item candidate := by
  have hconsented := consented_of_reachable hreach
  have hundecided := (hconsented.ledger.pending hitem).mp hpending
  have hlineage : (p.store.begin session).Lineage := (lineage_of_reachable hreach).congr rfl rfl
  rw [← deny_ok w.env embedding session' hlineage (hconsented.cards.congr rfl rfl) hitem hundecided
    hfound hdeny hexplicit hlength]
  constructor
  · rintro ⟨q, q', hstart, hdecide, _⟩
    obtain ⟨plan, hplan, rfl⟩ := step_startDecision.mp hstart
    exact ⟨plan, hplan, (step_decide (p.ops_launch _ _)).mp ⟨q', hdecide⟩⟩
  · rintro ⟨plan, hplan, r, hr⟩
    obtain ⟨huid, hrequest, _⟩ := decidePreflight_meets.of_ok hplan
    refine ⟨_, _, step_startDecision.mpr ⟨plan, hplan, rfl⟩,
      step_decide_ok (p.ops_launch _ _) hr, ?_⟩
    have hfiled : ((p.store.begin session).begin session').items.get? plan.itemUid = some item :=
      huid ▸ hitem
    have hlineage' : ((p.store.begin session).begin session').Lineage := hlineage.congr rfl rfl
    have hdecided := decided_of_decide hlineage' hfiled hundecided hr
    exact hdecided.refuses (huid ▸ hfiled) (hrequest ▸ hdeny)

/-- A head with no keywords, for which a curator files a repair; what `calls` do then. -/
def unkeptCalls (calls : List Call) : List Call :=
  [⟨⟨1, [7, 70]⟩, .create (savedMemory "tea" "drinks tea") [1]⟩,
    ⟨⟨2, [30]⟩, .startPass "owner" "m"⟩,
    ⟨⟨3, [31]⟩, .advance 0 (some ⟨.act .keywordRepair,
      ⟨none, none, some ["tea", "drink"], none⟩⟩) []⟩,
    ⟨⟨4, []⟩, .advance 0 none []⟩,
    ⟨⟨5, [50]⟩, .advance 0 none []⟩] ++ calls

def unkeptPalace (calls : List Call) : Palace := (palace default).run plainPalace (unkeptCalls calls)

theorem unkeptPalace_reachable (calls : List Call) :
    (palace default).Reachable (unkeptPalace calls) :=
  ⟨_, _, ⟨_, rfl⟩, rfl⟩

theorem denial_accepted_unkept : ∃ item ∈ (unkeptPalace []).store.items.get? 50, ∃ q q',
    (palace default).step (unkeptPalace [])
      ⟨⟨6, []⟩, .startDecision 50 (explicitly .deny) [] []⟩ = .ok q ∧
    (palace default).step q ⟨⟨7, [60]⟩, .decide (unkeptPalace []).ops.length⟩ = .ok q' ∧
      Refuses (unkeptPalace []).store q'.store item := by
  have hcard : ∃ item ∈ (unkeptPalace []).store.items.get? 50, item.state = .pending ∧
      item.verdict = .keywordRepair ∧ item.birthplace.candidateRevision = some 1 ∧
      item.birthplace.IsCurator ∧ (∀ payload ∈ item.birthplace.payload, payload.children = none) ∧
      ∃ candidate ∈ (unkeptPalace []).store.units.get? item.candidateMemoryId,
        candidate.revision = 1 := by decide +kernel
  obtain ⟨item, hitem, hpending, hverdict, hfiled, hcurator, hchildren, candidate, hfound,
    hrevision⟩ := hcard
  have huid : item.itemUid = 50 := Table.key_of_get? hitem
  refine ⟨item, hitem, ?_⟩
  rw [← huid] at hitem ⊢
  have hlength : ∀ payload ∈ item.birthplace.payload, ∀ children ∈ payload.children,
      ([] : List Embedding).length = children.length := by
    intro payload hpayload children hsome
    rw [hchildren payload hpayload] at hsome
    cases hsome
  refine (denial_accepted (unkeptPalace_reachable []) hitem hpending hfound rfl ⟨rfl, rfl⟩
    hlength).mpr ⟨rfl, refusable_iff.mpr ⟨?_, by simp [hverdict]⟩⟩
  simp [hcurator, hfiled, hrevision]

/-- The head is injected once while its card is open. -/
def injectedCalls : List Call :=
  [⟨⟨6, []⟩, .prepare (openedGate 3) [1]⟩, ⟨⟨6, [9, 90]⟩, .prepareWrite 1⟩]

theorem denial_accepted_injected : (palace default).Reachable (unkeptPalace injectedCalls) ∧
    (∃ item ∈ (unkeptPalace injectedCalls).store.items.get? 50, item.state = .pending) ∧
    ∃ q, (palace default).step (unkeptPalace injectedCalls)
        ⟨⟨7, []⟩, .startDecision 50 (explicitly .deny) [] []⟩ = .ok q ∧
      (palace default).step q
        ⟨⟨8, [60]⟩, .decide (unkeptPalace injectedCalls).ops.length⟩ =
        .error (.queueConflict "curator target changed after diagnosis; run curators again") := by
  refine ⟨unkeptPalace_reachable _, by decide +kernel, answers_iff.mp ?_⟩
  decide +kernel

end Nocturne
