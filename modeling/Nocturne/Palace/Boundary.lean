import Nocturne.Palace.Rejection

namespace Nocturne

open Nocturne.Lib Nocturne.Store Nocturne.Memory Nocturne.Queue Nocturne.Curation
  Nocturne.Symphony Nocturne.Inject

variable {w : World} {p q : Palace} {s t s' : Store}

section Stores

/-- A thread-, seed- or symphony-born card is open exactly while its candidate waits. -/
def Store.Bounded (s : Store) : Prop :=
  ∀ item ∈ s.items.rows, ¬item.birthplace.IsCurator →
    ∃ u ∈ s.units.get? item.candidateMemoryId, (item.state = .pending ↔ u.status = .candidate)

instance (s : Store) : Decidable s.Bounded :=
  inferInstanceAs (Decidable (∀ item ∈ s.items.rows, _))

/-- An open thread-, seed- or symphony-born card names the head. -/
def Store.Offered (s : Store) (id : Uuid) : Prop :=
  ∃ item ∈ s.items.rows, item.candidateMemoryId = id ∧ ¬item.birthplace.IsCurator ∧
    item.state = .pending

instance (s : Store) (id : Uuid) : Decidable (s.Offered id) :=
  inferInstanceAs (Decidable (∃ item ∈ s.items.rows, _))

/-- From `s` to `s'` an open card on the head is approved, and the decision recorded. -/
def Approves (s s' : Store) (id : Uuid) : Prop :=
  ∃ item ∈ s.items.rows, item.candidateMemoryId = id ∧ item.state = .pending ∧
    ∃ d ∈ s'.decisions.rows, d.itemUid = item.itemUid ∧ d.decision = .approve

/-- A head that comes to be active was approved. -/
def Approved (s s' : Store) : Prop :=
  ∀ id u v, s.units.get? id = some u → s'.units.get? id = some v → v.status = .active →
    u.status = .active ∨ Approves s s' id

/-- A head that waited for consent and comes to be active was approved. -/
def Admits (s s' : Store) : Prop :=
  ∀ id u v, s.units.get? id = some u → u.status.Unadmitted → s'.units.get? id = some v →
    v.status = .active → Approves s s' id

theorem ne_active_of_unadmitted {status : MemoryStatus} (h : status.Unadmitted) :
    status ≠ .active := by
  rintro rfl
  exact h

theorem Approved.admits (h : Approved s s') : Admits s s' := by
  intro id u v hu hunadmitted hv hactive
  rcases h id u v hu hv hactive with hwas | happroves
  · exact absurd hwas (ne_active_of_unadmitted hunadmitted)
  · exact happroves

/-- Only an open card can be at odds with its candidate. -/
theorem Store.Cards.bounded_iff (h : s.Cards) : s.Bounded ↔
    ∀ item ∈ s.items.rows, ¬item.birthplace.IsCurator → item.state = .pending →
      ∃ u ∈ s.units.get? item.candidateMemoryId, u.status = .candidate := by
  constructor
  · intro hbounded item hitem hborn hopen
    obtain ⟨u, hu, hiff⟩ := hbounded item hitem hborn
    exact ⟨u, hu, hiff.mp hopen⟩
  · intro hopen item hitem hborn
    obtain ⟨u, hu, _⟩ := h.carried item hitem
    refine ⟨u, hu, fun hpending => ?_, fun hcandidate => (h.waiting item hitem u hu hcandidate).1⟩
    obtain ⟨v, hv, hcandidate⟩ := hopen item hitem hborn hpending
    obtain rfl := Option.some.inj (hu.symm.trans hv)
    exact hcandidate

/-- An operation that moves the status of active heads only. -/
def Footprint.Reserved (φ : Footprint) : Prop :=
  ∀ u command, φ.head u command → u.status ≠ .active →
    command.changes.status.getD u.status = u.status

theorem reserved_of_none {φ : Footprint} (h : ∀ u c, ¬φ.head u c) : φ.Reserved :=
  fun u c hc => absurd hc (h u c)

theorem reserved_of_counts {φ : Footprint} (h : ∀ u c, φ.head u c → Counts u c.changes) :
    φ.Reserved := by
  intro u c hc hactive
  cases hstatus : c.changes.status with
  | none => rfl
  | some status =>
    rcases (h u c hc).status status hstatus with hsame | ⟨hwas, _⟩
    · exact hsame
    · exact absurd hwas hactive

theorem Store.Writes.reserved {φ : Footprint} (h : Writes φ s s') (hφ : φ.Reserved) {id : Uuid}
    {u : MemoryUnit} (hu : s.units.get? id = some u) (hactive : u.status ≠ .active) :
    ∃ v, s'.units.get? id = some v ∧ v.status = u.status := by
  apply h.head_keeps (P := fun v => v.status = u.status) ?_ hu rfl
  intro s v command hc _ _ hv
  rw [bumped_status, hφ v command hc (hv ▸ hactive), hv]

theorem Store.Writes.approved {φ : Footprint} (h : Writes φ s s') (hφ : φ.Reserved) :
    Approved s s' := by
  intro id u v hu hv hactive
  by_contra hnot
  obtain ⟨hwas, _⟩ := not_or.mp hnot
  obtain ⟨v', hv', hsame⟩ := h.reserved hφ hu hwas
  obtain rfl := Option.some.inj (hv.symm.trans hv')
  exact hwas (hsame ▸ hactive)

/-- An operation that decides nothing and files curator cards at most keeps the boundary. -/
theorem Store.Bounded.of_writes {φ : Footprint} (h : s.Bounded) (hcards : s.Cards)
    (hcards' : s'.Cards) (hw : Writes φ s s') (hφ : φ.Reserved)
    (hc : ∀ item, φ.card item → item.birthplace.IsCurator) : s'.Bounded := by
  rw [hcards.bounded_iff] at h
  rw [hcards'.bounded_iff]
  intro item hitem hborn hopen
  rcases hw.pending_cases hitem hopen with hold | hnew
  · obtain ⟨u, hu, hcandidate⟩ := h item hold hborn hopen
    obtain ⟨v, hv, hsame⟩ := hw.reserved hφ hu (by simp [hcandidate])
    exact ⟨v, hv, hsame.trans hcandidate⟩
  · exact absurd (hc item hnew) hborn

end Stores

section Decisions

variable {item : ApprovalQueueItem} {plan : DecisionPlan} {request : QueueDecisionRequest}

namespace Queue

/-- A decision activates the candidate of an approved card, and nothing else. -/
theorem Decided.approved (h : Decided s item plan s') (hledger : s.Ledger)
    (hitem : s.items.get? item.itemUid = some item) : Approved s s' := by
  intro id u v hu hv hactive
  by_contra hnot
  obtain ⟨hwas, hunapproved⟩ := not_or.mp hnot
  obtain ⟨v', hv', hkept⟩ := h.writes.head_keeps (P := (·.status ≠ .active)) (by
    rintro s₁ x command (hreplaced | hon) hid _ hx
    · exact absurd hreplaced.active hx
    · obtain ⟨hcandidate, _, hcarries⟩ := hon
      rw [bumped_status]
      have happroves (happrove : plan.request.decision = .approve) : False := by
        obtain ⟨d, _, huid, hdecision, hrows, _⟩ := h.rows
        apply hunapproved
        exact ⟨item, Table.mem_of_get? hitem, hcandidate.symm.trans hid, h.open hledger hitem, d,
          by simp [hrows], huid, hdecision.trans happrove⟩
      generalize command.changes = changes at hcarries ⊢
      cases hcarries with
      | deny => exact nofun
      | approve happrove | activate happrove | retire happrove | repair happrove
        | split happrove => exact (happroves happrove).elim) hu hwas
  obtain rfl := Option.some.inj (hv.symm.trans hv')
  exact hkept hactive

/-- A card that waits after a decision waited before it, on the same candidate. -/
theorem Decided.pending_old (h : Decided s item plan s')
    (hitem : s.items.get? item.itemUid = some item) {row : ApprovalQueueItem}
    (hrow : row ∈ s'.items.rows) (hopen : row.state = .pending) :
    row ∈ s.items.rows ∧ row.itemUid ≠ item.itemUid := by
  rcases h.mem_rows hitem hrow with hold | ⟨_, rfl⟩
  · exact hold
  · exact absurd hopen (itemState_ne_pending _)

/-- A decision touches no candidate of another card. -/
theorem Decided.bounded (h : Decided s item plan s') (hcards : s.Cards) (hcards' : s'.Cards)
    (hitem : s.items.get? item.itemUid = some item) (hbounded : s.Bounded) : s'.Bounded := by
  rw [hcards.bounded_iff] at hbounded
  rw [hcards'.bounded_iff]
  intro row hrow hborn hopen
  obtain ⟨hold, huid⟩ := h.pending_old hitem hrow hopen
  obtain ⟨u, hu, hcandidate⟩ := hbounded row hold hborn hopen
  obtain ⟨v, hv, hkept⟩ := h.writes.head_keeps (P := (·.status = .candidate)) (by
    rintro s₁ x command (hreplaced | hon) hid _ hx
    · rw [hreplaced.active] at hx
      cases hx
    · have hsame := (hcards.waiting row hold u hu hcandidate).2 item (Table.mem_of_get? hitem)
        (hon.candidate.symm.trans hid)
      exact absurd (congrArg ApprovalQueueItem.itemUid hsame).symm huid) hu hcandidate
  exact ⟨v, hv, hkept⟩

/-- What a decision keeps of the boundary, whichever card it is on. -/
structure Keeps (s s' : Store) : Prop where
  open_old : ∀ row ∈ s'.items.rows, row.state = .pending → row ∈ s.items.rows
  decisions : ∀ d ∈ s.decisions.rows, d ∈ s'.decisions.rows
  heads : ∀ id u, s.units.get? id = some u → ∃ v, s'.units.get? id = some v
  approved : Approved s s'
  bounded : s.Bounded → s'.Bounded

theorem Keeps.refl (s : Store) : Keeps s s where
  open_old _ hrow _ := hrow
  decisions _ := id
  heads _ u hu := ⟨u, hu⟩
  approved id u v hu hv hactive := by
    obtain rfl := Option.some.inj (hu.symm.trans hv)
    exact .inl hactive
  bounded := id

theorem Keeps.trans (hst : Keeps s t) (hts : Keeps t s') : Keeps s s' where
  open_old row hrow hopen := hst.open_old row (hts.open_old row hrow hopen) hopen
  decisions d hd := hts.decisions d (hst.decisions d hd)
  heads id u hu := by
    obtain ⟨v, hv⟩ := hst.heads id u hu
    exact hts.heads id v hv
  approved id u v hu hv hactive := by
    obtain ⟨x, hx⟩ := hst.heads id u hu
    rcases hts.approved id x v hx hv hactive with hwas | ⟨item, hitem, hnamed, hopen, hrest⟩
    · refine (hst.approved id u x hu hx hwas).imp_right ?_
      rintro ⟨item, hitem, hnamed, hopen, d, hd, hrest⟩
      exact ⟨item, hitem, hnamed, hopen, d, hts.decisions d hd, hrest⟩
    · exact .inr ⟨item, hst.open_old item hitem hopen, hnamed, hopen, hrest⟩
  bounded h := hts.bounded (hst.bounded h)

theorem Decided.keeps (h : Decided s item plan s') (hledger : s.Ledger) (hcards : s.Cards)
    (hitem : s.items.get? item.itemUid = some item)
    (hamendment : ∀ changes ∈ plan.amendment, changes.status = some .active) : Keeps s s' where
  open_old row hrow hopen := (h.pending_old hitem hrow hopen).1
  decisions d hd := h.writes.decision_kept hd
  heads id u hu := by
    obtain ⟨v, hv, _⟩ := h.writes.descends hu
    exact ⟨v, hv⟩
  approved := h.approved hledger hitem
  bounded := h.bounded hcards (h.cards hcards hitem hamendment) hitem

theorem BatchSteps.boundary {rows : List ApprovalQueueItem} (h : BatchSteps request s rows s')
    (hledger : s.Ledger) (hcards : s.Cards)
    (hrows : ∀ item ∈ rows, s.items.get? item.itemUid = some item)
    (hnodup : (rows.map (·.itemUid)).Nodup) : Keeps s s' := by
  refine (h.rel (R := Keeps) Keeps.refl Keeps.trans ?_ hledger hcards hrows hnodup).2.2
  intro s t item hledger hcards hitem hdecided
  exact hdecided.keeps hledger hcards hitem (by simp)

end Queue

end Decisions

section Steps

/-- The call names no new status for a head with an open thread-, seed- or symphony-born card,
activates no head that waits for consent, and files no card on a head that has stopped waiting. -/
def Consents (p : Palace) : Action → Prop
  | .patch k => ∀ plan ∈ p.ops[k]?.bind Operation.patching?, ∀ status ∈ plan.changes.status,
      ¬p.store.Offered plan.request.memoryId ∧
        (status = .active →
          ∀ u ∈ p.store.units.get? plan.request.memoryId, ¬u.status.Unadmitted)
  | .ingest k _ => ∀ admission ∈ p.ops[k]?.bind Operation.admitting?,
      ∀ unfiled ∈ admission.unfiled, unfiled.unchecked = [] →
      (∀ id ∈ unfiled.draft.targetIds, id ∈ unfiled.activeNeighbors) →
        ∃ u ∈ p.store.units.get? unfiled.memoryId, u.status = .candidate
  | _ => True

instance (p : Palace) : DecidablePred (Consents p)
  | .patch k => inferInstanceAs (Decidable (∀ plan ∈ p.ops[k]?.bind Operation.patching?, _))
  | .ingest k _ =>
    inferInstanceAs (Decidable (∀ admission ∈ p.ops[k]?.bind Operation.admitting?, _))
  | .create .. | .split .. | .stage .. | .resolve .. | .startPatch .. | .startExtract ..
   | .startSeed .. | .seedSource .. | .startPass .. | .advance .. | .startDecision .. | .decide ..
   | .decideBatch .. | .prepare .. | .prepareWrite .. | .commit .. | .feedback ..
   | .abandon .. => isTrue trivial

variable {session : Session} {action : Action}

/-- A transaction that decides nothing and moves the status of active heads only. -/
theorem boundary_of_writes {φ : Footprint} (h : Consented p) (hbounded : p.store.Bounded)
    (hq : q.store.Cards) (hw : Writes φ (p.store.begin session) q.store) (hφ : φ.Reserved)
    (hc : ∀ item, φ.card item → item.birthplace.IsCurator) :
    q.store.Bounded ∧ Admits p.store q.store := by
  have hcards : (p.store.begin session).Cards := h.cards.congr rfl rfl
  have hbefore : (p.store.begin session).Bounded := hbounded
  have hadmits : Admits (p.store.begin session) q.store := (hw.approved hφ).admits
  exact ⟨hbefore.of_writes hcards hq hw hφ hc, hadmits⟩

theorem boundary_resolve {runId : String} {request : ResolveRunRequest}
    {rows : List MemoryUnit} (hsettles : Settles runId request s rows s')
    (hstaged : ∀ row ∈ rows, s.units.get? row.id = some row ∧ row.status = .staged)
    (hcards : s.Cards) (hbounded : s.Bounded) : s'.Bounded ∧ Admits s s' := by
  have hothers {id : Uuid} {u : MemoryUnit} (hu : s.units.get? id = some u)
      (hstatus : u.status ≠ .staged) : s'.units.get? id = some u := by
    rw [hsettles.others, hu]
    intro hin
    obtain ⟨row, hrow, rfl⟩ := List.mem_map.mp hin
    obtain ⟨hget, hrowStaged⟩ := hstaged row hrow
    obtain rfl := Option.some.inj (hu.symm.trans hget)
    exact hstatus hrowStaged
  constructor
  · rw [hcards.bounded_iff] at hbounded
    rw [hsettles.cards.bounded_iff]
    intro item hitem hborn hopen
    rcases hsettles.filed item hitem with hold | ⟨row, hrow, hwinner, hcard⟩
    · obtain ⟨u, hu, hcandidate⟩ := hbounded item hold hborn hopen
      exact ⟨u, hothers hu (by simp [hcandidate]), hcandidate⟩
    · obtain ⟨u, hsettled⟩ := hsettles.settled row hrow
      refine ⟨u, hcard.candidate ▸ hsettled.found, ?_⟩
      rw [hsettled.status, if_pos hwinner]
  · intro id u v hu hunadmitted hv hactive
    by_cases hin : id ∈ rows.map (·.id)
    · obtain ⟨row, hrow, rfl⟩ := List.mem_map.mp hin
      obtain ⟨v', hsettled⟩ := hsettles.settled row hrow
      obtain rfl := Option.some.inj (hv.symm.trans hsettled.found)
      rw [hsettled.status] at hactive
      split at hactive <;> cases hactive
    · rw [hsettles.others id hin, hu] at hv
      obtain rfl := Option.some.inj hv
      exact absurd hactive (ne_active_of_unadmitted hunadmitted)

/-- A PATCH that names a status names it for a head no open card offers. -/
theorem boundary_patch {plan : PatchPlan} (h : Consented p) (hbounded : p.store.Bounded)
    (hq : q.store.Cards) (hw : Writes (patchFootprint plan) (p.store.begin session) q.store)
    (hconsents : ∀ status ∈ plan.changes.status, ¬p.store.Offered plan.request.memoryId ∧
      (status = .active →
        ∀ u ∈ p.store.units.get? plan.request.memoryId, ¬u.status.Unadmitted)) :
    q.store.Bounded ∧ Admits p.store q.store := by
  constructor
  · rw [h.cards.bounded_iff] at hbounded
    rw [hq.bounded_iff]
    intro item hitem hborn hopen
    have hold : item ∈ p.store.items.rows := (hw.pending_cases hitem hopen).resolve_right id
    obtain ⟨u, hu, hcandidate⟩ := hbounded item hold hborn hopen
    obtain ⟨v, hv, hkept⟩ := hw.head_keeps (P := (·.status = .candidate)) (by
      rintro s₁ x command ⟨hmemory, _, hchanges⟩ hid _ hx
      rw [bumped_status, hchanges]
      cases hstatus : plan.changes.status with
      | none => exact hx
      | some status =>
        have hoffered : p.store.Offered plan.request.memoryId :=
          ⟨item, hold, hid.symm.trans hmemory, hborn, hopen⟩
        exact absurd hoffered (hconsents status hstatus).1) hu hcandidate
    exact ⟨v, hv, hkept⟩
  · intro id u v hu hunadmitted hv hactive
    have hwas := ne_active_of_unadmitted hunadmitted
    obtain ⟨v', hv', hkept⟩ := hw.head_keeps (P := (·.status ≠ .active)) (by
      rintro s₁ x command ⟨hmemory, _, hchanges⟩ hid _ hx
      rw [bumped_status, hchanges]
      cases hstatus : plan.changes.status with
      | none => exact hx
      | some status =>
        intro hnamed
        have hmemory' : plan.request.memoryId = id := hmemory.symm.trans hid
        exact (hconsents status hstatus).2 hnamed u (hmemory' ▸ hu) hunadmitted) hu hwas
    obtain rfl := Option.some.inj (hv.symm.trans hv')
    exact absurd hactive hkept

theorem boundary_ingest {k : Nat} {admission : Admission} {next : Option Admission}
    (h : Consented p) (hop : p.ops[k]? = some (.admitting admission))
    (hbounded : p.store.Bounded) (hq : q.store.Cards)
    (hstep : IngestStep (p.store.begin session) admission next q.store)
    (hconsents : ∀ unfiled ∈ admission.unfiled, unfiled.unchecked = [] →
      (∀ id ∈ unfiled.draft.targetIds, id ∈ unfiled.activeNeighbors) →
        ∃ u ∈ p.store.units.get? unfiled.memoryId, u.status = .candidate) :
    q.store.Bounded ∧ Admits p.store q.store := by
  generalize hstore : q.store = s' at hq hstep ⊢
  have hidle {φ : Footprint} (hw : Writes φ (p.store.begin session) s')
      (hhead : ∀ u c, ¬φ.head u c) (hc : ∀ item, φ.card item → item.birthplace.IsCurator) :
      s'.Bounded ∧ Admits p.store s' :=
    boundary_of_writes (q := ⟨s', []⟩) h hbounded hq hw (reserved_of_none hhead) hc
  cases hstep with
  | check | duplicate => exact hidle (φ := {}) .refl (fun _ _ => id) fun _ => False.elim
  | finish _ hquiet => exact hidle (φ := {}) hquiet.writes (fun _ _ => id) fun _ => False.elim
  | created _ _ hw => exact hidle hw (fun _ _ => id) fun _ => False.elim
  | @discard unfiled _ hunfiled _ _ hw _ =>
    have hheld : (Operation.admitting admission).held = some unfiled.memoryId := by
      simp [Operation.held, hunfiled]
    constructor
    · rw [h.cards.bounded_iff] at hbounded
      rw [hq.bounded_iff]
      intro item hitem hborn hopen
      have hold : item ∈ p.store.items.rows := (hw.pending_cases hitem hopen).resolve_right id
      obtain ⟨u, hu, hcandidate⟩ := hbounded item hold hborn hopen
      have hkept : s'.units.get? item.candidateMemoryId = some u := by
        refine hw.get?_units ?_ hu
        rintro v command ⟨hid, _⟩ hnamed
        -- no card names a candidate that is still held
        obtain ⟨v, hv, _, hfree⟩ := h.held hop hheld
        rw [← hid, hnamed] at hv
        obtain rfl := Option.some.inj (hu.symm.trans hv)
        exact hfree hcandidate item hold (hnamed.symm.trans hid)
      exact ⟨u, hkept, hcandidate⟩
    · intro id u v hu hunadmitted hv hactive
      obtain ⟨v', hv', hkept⟩ := hw.head_keeps (P := (·.status ≠ .active)) (by
        rintro s₁ x command ⟨_, hchanges⟩ _ _ _
        simp [bumped_status, hchanges]) hu (ne_active_of_unadmitted hunadmitted)
      obtain rfl := Option.some.inj (hv.symm.trans hv')
      exact absurd hactive hkept
  | @file unfiled _ hunfiled hchecked htargets hinsert =>
    obtain ⟨u, hu, hcandidate⟩ := hconsents unfiled hunfiled hchecked htargets
    obtain ⟨_, _, _, items, hrows, rfl⟩ := insertItem_eq_ok.mp hinsert
    obtain ⟨_, rfl⟩ := Table.insert?_eq_some.mp hrows
    constructor
    · rw [h.cards.bounded_iff] at hbounded
      rw [hq.bounded_iff]
      intro item hitem hborn hopen
      simp only [Table.rows_insert, List.mem_append, List.mem_singleton] at hitem
      rcases hitem with hold | rfl
      · exact hbounded item hold hborn hopen
      · exact ⟨u, hu, hcandidate⟩
    · intro id u v hu hunadmitted hv hactive
      obtain rfl := Option.some.inj (hu.symm.trans hv)
      exact absurd hactive (ne_active_of_unadmitted hunadmitted)

/-- A transaction that meets the condition keeps the boundary, and activates no waiting head
but by an approval. -/
theorem boundary_kept (hlineage : p.store.Lineage) (h : Consented p)
    (hbounded : p.store.Bounded) (hconsents : Consents p action)
    (haccepted : (palace w).step p ⟨session, action⟩ = .ok q) :
    q.store.Bounded ∧ Admits p.store q.store := by
  have hstepped := stepped_of_step hlineage haccepted
  have hq : q.store.Cards := (h.stepped hstepped).cards
  have hidle {φ : Footprint} (hw : Writes φ (p.store.begin session) q.store)
      (hφ : φ.Reserved) (hc : ∀ item, φ.card item → item.birthplace.IsCurator) :
      q.store.Bounded ∧ Admits p.store q.store :=
    boundary_of_writes h hbounded hq hw hφ hc
  have hledger : (p.store.begin session).Ledger := h.ledger.congr rfl rfl
  have hcards : (p.store.begin session).Cards := h.cards.congr rfl rfl
  have hkeeps (hk : Keeps (p.store.begin session) q.store) :
      q.store.Bounded ∧ Admits p.store q.store := by
    have hadmits : Admits (p.store.begin session) q.store := hk.approved.admits
    exact ⟨hk.bounded hbounded, hadmits⟩
  cases hstepped with
  | create hw | split hw | stage hw | seedSource _ hw =>
    exact hidle hw (reserved_of_none fun _ _ => id) fun _ => False.elim
  | startPatch | startExtract | seeded | startSeed | startDecision | prepare | abandon =>
    exact hidle (φ := {}) .refl (reserved_of_none fun _ _ => id) fun _ => False.elim
  | startPass =>
    exact hidle (φ := {}) drawn_quiet.writes (reserved_of_none fun _ _ => id) fun _ => False.elim
  | resolve hr =>
    rcases hr with ⟨rfl, _⟩ | ⟨t, hresolves, hrouted⟩
    · exact hidle (φ := {}) .refl (reserved_of_none fun _ _ => id) fun _ => False.elim
    · refine boundary_resolve (h.settles hresolves hrouted) (fun row hrow => ?_) h.cards hbounded
      obtain ⟨hmem, _, hstaged⟩ := mem_lockedRunRows.mp hrow
      exact ⟨Table.get?_of_mem hmem, hstaged⟩
  | patch hop hw => exact boundary_patch h hbounded hq hw (hconsents _ (by simp [hop]))
  | ingest hop hstep =>
    exact boundary_ingest h hop hbounded hq hstep (hconsents _ (by simp [hop]))
  | advance _ hstep =>
    refine hidle hstep.writes (reserved_of_none fun _ _ => id) fun item hcard => ?_
    obtain ⟨_, _, _, _, _, _, _, hbirth, _⟩ := hcard.filed
    simp [hbirth, Birthplace.IsCurator]
  | decide hop hitem hr =>
    rcases hr with rfl | hdecided
    · exact hkeeps (.refl _)
    · have huid := Table.key_of_get? hitem
      exact hkeeps (hdecided.keeps hledger hcards (huid ▸ hitem) (h.sound hop))
  | decideBatch hr =>
    obtain ⟨hcurrent, hnodup⟩ := batchRows_current (p.store.begin session) _
    exact hkeeps (hr.boundary hledger hcards hcurrent hnodup)
  | prepareWrite _ _ hw =>
    refine hidle hw (reserved_of_counts ?_) fun _ => False.elim
    rintro u c ⟨_, _, _, hc⟩
    exact hc ▸ injectedChanges_counts u
  | commit _ hw => exact hidle hw (reserved_of_counts fun _ _ hc => hc.2) fun _ => False.elim
  | feedback _ hw =>
    exact hidle hw (reserved_of_counts fun _ _ hc => hc.2.2) fun _ => False.elim

theorem consents_of_patch {k : Nat} (h : Consented p) (hkept : q.store.Bounded)
    (hadmits : Admits p.store q.store)
    (haccepted : (palace w).step p ⟨session, .patch k⟩ = .ok q) : Consents p (.patch k) := by
  intro plan hplan status hstatus
  obtain ⟨_, hop, hpatching⟩ := Option.bind_eq_some_iff.mp hplan
  obtain rfl := Operation.patching?_eq_some.mp hpatching
  simp only [palace, Palace.step, Palace.inFlight, hop, Option.bind_some, Operation.patching?,
    require_some, ok_bind, bind_eq_ok, pure_eq_ok] at haccepted
  obtain ⟨r, hr, rfl⟩ := haccepted
  obtain ⟨command, current, hcas, hid, hchanges, _⟩ := patch_cas hr
  obtain ⟨hitems, hdecisions⟩ := CasStep.items_eq hcas
  have hwritten : r.2.units.get? plan.request.memoryId =
      some ((p.store.begin session).drawn.bumped command.changes current) := by
    rw [hcas.get?_units, if_pos hid.symm]
  have hnamed : ((p.store.begin session).drawn.bumped command.changes current).status = status := by
    rw [bumped_status, hchanges, Option.mem_def.mp hstatus]
    rfl
  constructor
  · rintro ⟨item, hitem, hcandidate, hborn, hopen⟩
    obtain ⟨v, hv, hiff⟩ := hkept item (hitems ▸ hitem) hborn
    rw [hcandidate] at hv
    obtain rfl := Option.some.inj (hwritten.symm.trans hv)
    -- a PATCH may not name the waiting status itself
    have hadmitted : ¬status.Unadmitted := h.sound hop status hstatus
    rw [← hnamed, hiff.mp hopen] at hadmitted
    exact hadmitted trivial
  · rintro rfl u hu hunadmitted
    obtain ⟨item, hitem, _, hopen, d, hd, huid, _⟩ :=
      hadmits _ u _ hu hunadmitted hwritten hnamed
    exact (h.ledger.pending (Table.get?_of_mem hitem)).mp hopen d (hdecisions ▸ hd) huid

theorem consents_of_ingest {k : Nat} {embedding : Embedding} (hkept : q.store.Bounded)
    (haccepted : (palace w).step p ⟨session, .ingest k embedding⟩ = .ok q) :
    Consents p (.ingest k embedding) := by
  intro admission hadmission unfiled hunfiled hchecked htargets
  obtain ⟨_, hop, hadmitting⟩ := Option.bind_eq_some_iff.mp hadmission
  obtain rfl := Operation.admitting?_eq_some.mp hadmitting
  have hunfiled : admission.unfiled = some unfiled := hunfiled
  have htargets : ¬∃ id ∈ unfiled.draft.targetIds, id ∉ unfiled.activeNeighbors := by
    push Not
    exact htargets
  simp only [palace, Palace.step, Palace.inFlight, hop, Option.bind_some, Operation.admitting?,
    require_some, ok_bind, ingest, hunfiled, hchecked, enqueue, if_neg htargets, bind_eq_ok,
    pure_eq_ok] at haccepted
  obtain ⟨_, ⟨t, hinsert, rfl⟩, rfl⟩ := haccepted
  obtain ⟨_, _, _, items, hrows, rfl⟩ := insertItem_eq_ok.mp hinsert
  obtain ⟨_, rfl⟩ := Table.insert?_eq_some.mp hrows
  have hborn : ¬(admission.item (p.store.begin session) unfiled).birthplace.IsCurator := by
    cases hsource : admission.source <;>
      simp [Admission.item, Source.birthplace, hsource, Birthplace.IsCurator]
  obtain ⟨u, hu, hiff⟩ := hkept (admission.item (p.store.begin session) unfiled)
    (by simp [Palace.become, Table.rows_insert]) hborn
  exact ⟨u, hu, hiff.mp rfl⟩

/-- Exactly the transactions that meet the condition keep the boundary. -/
theorem consents_iff (hlineage : p.store.Lineage) (h : Consented p) (hbounded : p.store.Bounded)
    (haccepted : (palace w).step p ⟨session, action⟩ = .ok q) :
    Consents p action ↔ q.store.Bounded ∧ Admits p.store q.store := by
  refine ⟨fun hconsents => boundary_kept hlineage h hbounded hconsents haccepted, ?_⟩
  rintro ⟨hkept, hadmits⟩
  cases action with
  | patch => exact consents_of_patch h hkept hadmits haccepted
  | ingest => exact consents_of_ingest hkept haccepted
  | _ => trivial

end Steps

section Runs

/-- Where the transaction `call` leads, every thread-, seed- and symphony-born card is open exactly
while its candidate waits, and it activated no waiting head but by approving an open card on it. -/
def Keeping (w : World) (p : Palace) (call : Call) : Prop :=
  ((palace w).next p call).store.Bounded ∧ Admits p.store ((palace w).next p call).store

/-- The transaction is refused, or meets the condition. -/
def Guarded (w : World) (p : Palace) (call : Call) : Prop :=
  (∃ e, (palace w).step p call = .error e) ∨ Consents p call.action

theorem guarded_iff_keeping {call : Call} (h : (palace w).Reachable p)
    (hbounded : p.store.Bounded) : Guarded w p call ↔ Keeping w p call := by
  unfold Guarded Keeping
  rcases Machine.next_cases (M := palace w) p call with haccepted | ⟨hrefused, hsame⟩
  · rw [← consents_iff (lineage_of_reachable h) (consented_of_reachable h) hbounded haccepted]
    refine or_iff_right ?_
    rintro ⟨e, he⟩
    rw [he] at haccepted
    cases haccepted
  · rw [hsame]
    have hadmits : Admits p.store p.store := (Keeps.refl p.store).approved.admits
    exact iff_of_true (.inl hrefused) ⟨hbounded, hadmits⟩

/-- A candidate extracted, filed and approved. -/
def approvedCalls : List Call :=
  [⟨⟨1, []⟩, .startExtract (offeredMemories [offeredCandidate "tea" "drinks tea"])⟩,
    ⟨⟨2, [7, 70]⟩, .ingest 0 [1]⟩,
    ⟨⟨3, [50]⟩, .ingest 0 []⟩,
    ⟨⟨4, []⟩, .startDecision 50 (explicitly .approve) [] []⟩,
    ⟨⟨5, [71, 60]⟩, .decide 1⟩]

/-- The candidate of an open card, activated by a PATCH. -/
def bypassedPalace : Palace :=
  (palace default).run ⟨.deployed .empty, []⟩
    [⟨⟨1, []⟩, .startExtract (offeredMemories [offeredCandidate "tea" "drinks tea"])⟩,
      ⟨⟨2, [7, 70]⟩, .ingest 0 [1]⟩,
      ⟨⟨3, [50]⟩, .ingest 0 []⟩,
      ⟨⟨4, []⟩, .startPatch
        { memoryId := 7, expectedRevision := 1, status := some .active, editor := "user",
          reason := "edit", machineId := "m" } []⟩,
      ⟨⟨5, [71]⟩, .patch 1⟩]

end Runs

end Nocturne
