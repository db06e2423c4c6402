import Nocturne.Palace.Consent
import Nocturne.Palace.Shapes
import Nocturne.Queue.Approval

namespace Nocturne

open Nocturne.Lib Nocturne.Store Nocturne.Memory Nocturne.Queue Nocturne.Curation

variable {w : World} {p : Palace} {item : ApprovalQueueItem} {candidate : MemoryUnit}
  {request : QueueDecisionRequest} {embedding : Embedding} {embeddings : List Embedding}
  {session session' : Session}

theorem labelled_of_reachable (h : (palace w).Reachable p) : p.store.Labelled := by
  obtain ⟨start, calls, hstart, rfl⟩ := h
  apply (writes_of_run ⟨start, [], hstart, rfl⟩ calls).labelled
  obtain ⟨configs, rfl⟩ := hstart
  exact .empty rfl

theorem nodup_of_reachable (h : (palace w).Reachable p) (hitem : item ∈ p.store.items.rows)
    (hedge : edgeType item.verdict ≠ none) : item.targetIds.Nodup := by
  have hshaped := (shaped_of_reachable h).cards item hitem
  apply hshaped.nodup
  intro hsymphony
  rw [hshaped.symphony hsymphony] at hedge
  exact hedge rfl

theorem step_startDecision {itemUid : Ulid} {q : Palace} :
    (palace w).step p ⟨session, .startDecision itemUid request embedding embeddings⟩ = .ok q ↔
      ∃ plan, decidePreflight w.env (p.store.begin session) itemUid request embedding embeddings =
        .ok plan ∧ p.launch (p.store.begin session) (.deciding plan) = q := by
  simp only [palace, Palace.step, bind_eq_ok, pure_eq_ok]

theorem step_decide {k : Nat} {plan : DecisionPlan} (hop : p.ops[k]? = some (.deciding plan)) :
    (∃ q, (palace w).step p ⟨session, .decide k⟩ = .ok q) ↔
      ∃ r, decide w.env (p.store.begin session) plan = .ok r := by
  simp only [palace, Palace.step, Palace.inFlight, hop, Option.bind_some, Operation.deciding?,
    require_some, ok_bind, bind_eq_ok, pure_eq_ok]
  constructor
  · rintro ⟨_, r, hr, _⟩
    exact ⟨r, hr⟩
  · rintro ⟨r, hr⟩
    exact ⟨_, r, hr, rfl⟩

/-- The owner approves an open card: it is carried out exactly where the candidate and the
targets still stand as its verdict needs them, no target is linked already, and no label a
curator's verdict makes active is carried by a head it leaves active. -/
theorem approval_accepted (hreach : (palace w).Reachable p)
    (hitem : p.store.items.get? item.itemUid = some item) (hpending : item.state = .pending)
    (hfound : p.store.units.get? item.candidateMemoryId = some candidate)
    (happrove : request.decision = .approve)
    (hexplicit : request.approvalMode = .explicit ∧ request.actorClass = .human)
    (hlength : ∀ payload ∈ item.birthplace.payload, ∀ children ∈ payload.children,
      embeddings.length = children.length) :
    (∃ q q', (palace w).step p
        ⟨session, .startDecision item.itemUid request embedding embeddings⟩ = .ok q ∧
      (palace w).step q ⟨session', .decide p.ops.length⟩ = .ok q') ↔
      Amendable w.env item request ∧ Approvable w.env p.store item candidate := by
  have hconsented := consented_of_reachable hreach
  have hundecided := (hconsented.ledger.pending hitem).mp hpending
  have hlineage : (p.store.begin session).Lineage := (lineage_of_reachable hreach).congr rfl rfl
  have happroves := approve_ok w.env embedding session' hlineage
    ((labelled_of_reachable hreach).congr rfl) (hconsented.cards.congr rfl rfl) hitem hundecided
    (nodup_of_reachable hreach (Table.mem_of_get? hitem)) hfound happrove hexplicit hlength
  rw [show Approvable w.env p.store item candidate ↔
    Approvable w.env (p.store.begin session) item candidate from Iff.rfl, ← happroves]
  constructor
  · rintro ⟨q, q', hstart, hdecide⟩
    obtain ⟨plan, hplan, rfl⟩ := step_startDecision.mp hstart
    exact ⟨plan, hplan, (step_decide (p.ops_launch _ _)).mp ⟨q', hdecide⟩⟩
  · rintro ⟨plan, hplan, hdecide⟩
    obtain ⟨q', hq'⟩ := (step_decide (p.ops_launch _ _)).mpr hdecide
    exact ⟨_, q', step_startDecision.mpr ⟨plan, hplan, rfl⟩, hq'⟩

/-- Two memories grow stale, and a curator proposes to replace the first under this label. -/
def staleCalls (label : String) : List Call :=
  [⟨⟨1, [7, 70]⟩, .create
      { savedMemory "tea" "drinks tea" with keywords := ["drink", "taste"] } [1]⟩,
    ⟨⟨2, [8, 71]⟩, .create
      { savedMemory "coffee" "drinks coffee" with keywords := ["drink", "taste"] } [2]⟩,
    ⟨⟨300, [90]⟩, .startPass "owner" "m"⟩,
    ⟨⟨301, [91]⟩, .advance 0 (some
      { action := .act .supersede
        proposal :=
          { label := some label
            body := some "drinks iced tea"
            keywords := some ["drink", "ice"]
            children := none } }) []⟩,
    ⟨⟨302, []⟩, .advance 0 none []⟩,
    ⟨⟨303, []⟩, .advance 0 none []⟩,
    ⟨⟨304, [9, 72]⟩, .advance 0 none [3]⟩,
    ⟨⟨305, []⟩, .advance 0 none []⟩,
    ⟨⟨306, [50]⟩, .advance 0 none []⟩]

def stalePalace (label : String) : Palace :=
  (palace default).run ⟨.deployed .empty, []⟩ (staleCalls label)

theorem stalePalace_reachable (label : String) : (palace default).Reachable (stalePalace label) :=
  ⟨_, _, ⟨_, rfl⟩, rfl⟩

theorem approval_accepted_relabelled : ∃ q q', (palace default).step (stalePalace "iced tea")
      ⟨⟨307, []⟩, .startDecision 50 (explicitly .approve) [] []⟩ = .ok q ∧
    (palace default).step q
      ⟨⟨308, [60, 61, 62]⟩, .decide (stalePalace "iced tea").ops.length⟩ = .ok q' := by
  have hcard : ∃ item ∈ (stalePalace "iced tea").store.items.get? 50, item.state = .pending ∧
      item.verdict = .supersede ∧ item.birthplace.candidateRevision = some 1 ∧
      (∀ payload ∈ item.birthplace.payload, payload.children = none) ∧
      ∃ candidate ∈ (stalePalace "iced tea").store.units.get? item.candidateMemoryId,
        candidate.revision = 1 ∧ candidate.status = .candidate ∧
          TargetsOpen (stalePalace "iced tea").store item candidate ∧
          ¬LabelHeld (stalePalace "iced tea").store item candidate := by decide +kernel
  obtain ⟨item, hitem, hpending, hverdict, hbirth, hchildren, candidate, hfound, hrevision,
    hreplacement⟩ := hcard
  have huid : item.itemUid = 50 := Table.key_of_get? hitem
  rw [← huid] at hitem ⊢
  have hlength : ∀ payload ∈ item.birthplace.payload, ∀ children ∈ payload.children,
      ([] : List Embedding).length = children.length := by
    intro payload hpayload children hsome
    rw [hchildren payload hpayload] at hsome
    cases hsome
  have happrovable : Approvable (default : World).env (stalePalace "iced tea").store item
      candidate := by
    cases hcurator : item.birthplace with
    | curator =>
      simp only [hcurator, Birthplace.candidateRevision, Option.some.injEq] at hbirth
      simp only [Approvable, CuratorApprovable, hcurator, hverdict]
      exact ⟨hrevision.trans hbirth.symm, hreplacement⟩
    | thread | seed | symphony => simp [hcurator, Birthplace.candidateRevision] at hbirth
  exact (approval_accepted (stalePalace_reachable _) hitem hpending hfound rfl ⟨rfl, rfl⟩
    hlength).mpr ⟨by simp [Amendable, explicitly], happrovable⟩

/-- The replacement's label is the other memory's, and nothing has changed since it was filed. -/
theorem approval_accepted_collides : (palace default).Reachable (stalePalace "coffee") ∧
    ((palace default).run ⟨.deployed .empty, []⟩
      (staleCalls "coffee").dropLast).store.items.rows = [] ∧
    (∃ item ∈ (stalePalace "coffee").store.items.get? 50, item.state = .pending) ∧
    ∃ q, (palace default).step (stalePalace "coffee")
        ⟨⟨307, []⟩, .startDecision 50 (explicitly .approve) [] []⟩ = .ok q ∧
      (palace default).step q ⟨⟨308, [60, 61, 62]⟩, .decide (stalePalace "coffee").ops.length⟩ =
        .error (.integrity "memory_unit_active_label") := by
  refine ⟨stalePalace_reachable _, by decide +kernel, by decide +kernel, answers_iff.mp ?_⟩
  decide +kernel

end Nocturne
