import Nocturne.Memory.Rejection
import Nocturne.Palace.Consent

namespace Nocturne

open Nocturne.Lib Nocturne.Store Nocturne.Memory Nocturne.Queue Nocturne.Symphony
  Nocturne.Inject

variable {w : World} {p p' : Palace} {s t s' : Store}

section Ghost

/-- A rejected card names the head. -/
def Store.Refused (s : Store) (id : Uuid) : Prop :=
  ∃ item ∈ s.items.rows, item.candidateMemoryId = id ∧ item.state = .rejected

instance (s : Store) (id : Uuid) : Decidable (s.Refused id) :=
  inferInstanceAs (Decidable (∃ item ∈ s.items.rows, _))

/-- A tombstone that a rejected card names: its text is refused from now on. -/
def Store.Buried (s : Store) (u : MemoryUnit) : Prop :=
  s.units.get? u.id = some u ∧ u.status = .tombstoned ∧ s.Refused u.id

/-- From `s` to `s'` the owner denies a waiting candidate its admission. -/
def Denies (s s' : Store) (u : MemoryUnit) : Prop :=
  s.units.get? u.id = some u ∧ u.status = .candidate ∧
    ∃ item ∈ s.items.rows, item.candidateMemoryId = u.id ∧ item.state = .pending ∧
      ∃ item' ∈ s'.items.get? item.itemUid, item'.state = .rejected

instance (s s' : Store) (u : MemoryUnit) : Decidable (Denies s s' u) :=
  inferInstanceAs (Decidable (_ ∧ _))

/-- Every text refused after is refused before, or is denied its admission in between. -/
def Accounted (s s' : Store) : Prop :=
  ∀ u', s'.Buried u' → ∃ u, u.principalId = u'.principalId ∧ u.body = u'.body ∧
    (s.Buried u ∨ Denies s s' u)

theorem Accounted.refl (s : Store) : Accounted s s := fun u hu => ⟨u, rfl, rfl, .inl hu⟩

/-- A later version of a head is a tombstone only if it was one, with the same text. -/
def Spared (u v : MemoryUnit) : Prop :=
  v.status = .tombstoned → u.status = .tombstoned ∧ v.body = u.body

theorem Spared.refl (u : MemoryUnit) : Spared u u := fun h => ⟨h, rfl⟩

theorem Spared.bumped {u v : MemoryUnit} {changes : MemoryUnitChanges} (h : Spared u v)
    (hchanges : changes.status.getD v.status = .tombstoned →
      v.status = .tombstoned ∧ changes.body.getD v.body = v.body) :
    Spared u (s.bumped changes v) := by
  intro hstatus
  obtain ⟨hv, hbody⟩ := hchanges hstatus
  exact ⟨(h hv).1, hbody.trans (h hv).2⟩

theorem Spared.counts {u v : MemoryUnit} {changes : MemoryUnitChanges} (h : Spared u v)
    (hcounts : Counts v changes) : Spared u (s.bumped changes v) := by
  apply h.bumped
  have hbody : changes.body = none := by rw [hcounts.only]
  rw [hbody]
  cases hstatus : changes.status with
  | none => exact fun hv => ⟨hv, rfl⟩
  | some status =>
    rcases hcounts.status status hstatus with rfl | ⟨_, rfl⟩
    · exact fun hv => ⟨hv, rfl⟩
    · exact nofun

/-- A closed card was closed before. -/
theorem Writes.closed_before {φ : Footprint} (h : Writes φ s s')
    (hc : ∀ item, φ.card item → item.state = .pending) (hd : ∀ d, ¬φ.decision d) :
    ∀ item ∈ s'.items.rows, item.state ≠ .pending → item ∈ s.items.rows := by
  apply h.rel (R := fun s s' => ∀ item ∈ s'.items.rows, item.state ≠ .pending →
    item ∈ s.items.rows)
  · exact fun _ _ hitem _ => hitem
  · exact fun hst htu item hitem hclosed => hst item (htu item hitem hclosed) hclosed
  · intro s t hw item hitem hclosed
    cases hw with
    | head _ hs =>
      obtain ⟨_, _, _, _, rfl⟩ := hs.written
      exact hitem
    | root _ hs =>
      obtain ⟨_, _, _, _, rfl⟩ := hs.written
      exact hitem
    | quiet hq => exact hq.items ▸ hitem
    | card hφ hs =>
      rcases (mem_of_insertItem hs).mp hitem with hitem | rfl
      · exact hitem
      · exact absurd (hc _ hφ) hclosed
    | decision hφ => exact absurd hφ (hd _)
    | record => exact hitem
    | outcome _ hs =>
      obtain ⟨_, _, _, rfl⟩ := replaceOutcome_eq_ok.mp hs
      exact hitem
    | resolution _ hs =>
      obtain ⟨_, _, rfl⟩ := hs
      exact hitem

/-- A transaction that decides nothing and spares every refused head buries nothing. -/
theorem Accounted.of_writes {φ : Footprint} (hw : Writes φ s s') (hcards : s.Cards)
    (hc : ∀ item, φ.card item → item.state = .pending) (hd : ∀ d, ¬φ.decision d)
    (hφ : ∀ s₁ u v command, s.Refused command.memoryId → s.units.get? command.memoryId = some u →
      φ.head v command → Spared u v → Spared u (Store.bumped s₁ command.changes v)) :
    Accounted s s' := by
  rintro u' ⟨hfound, hstatus, item, hitem, hnamed, hrejected⟩
  have hold := Writes.closed_before hw hc hd item hitem (by simp [hrejected])
  obtain ⟨u, hu, _⟩ := hcards.carried item hold
  rw [hnamed] at hu
  have hrefused : s.Refused u'.id := ⟨item, hold, hnamed, hrejected⟩
  obtain ⟨v, hv, hspared⟩ := hw.head_keeps (P := Spared u)
    (fun s₁ v command hhead hid _ hspared =>
      hφ s₁ u v command (hid ▸ hrefused) (hid ▸ hu) hhead hspared) hu (.refl u)
  obtain rfl := Option.some.inj (hfound.symm.trans hv)
  obtain ⟨u'', hu'', hdescends⟩ := hw.descends hu
  obtain rfl := Option.some.inj (hfound.symm.trans hu'')
  obtain ⟨htombstoned, hbody⟩ := hspared hstatus
  have hid := Table.key_of_get? hu
  refine ⟨u, hdescends.principalId.symm, hbody.symm, .inl ⟨hid ▸ hu, htombstoned, hid ▸ hrefused⟩⟩

end Ghost

section Decisions

variable {item : ApprovalQueueItem} {plan : DecisionPlan} {request : QueueDecisionRequest}

/-- The decision tombstones no refused head, and denies nothing on a tombstone. -/
def DecisionSpares (s : Store) (item : ApprovalQueueItem) : Decision → Prop
  | .approve => (item.verdict.Replaces → ∀ id ∈ item.targetIds, ¬s.Refused id) ∧
      (item.birthplace.IsCurator → item.verdict = .retire ∨ item.verdict = .split →
        ¬s.Refused item.candidateMemoryId)
  | .deny => ∀ u ∈ s.units.get? item.candidateMemoryId, u.status ≠ .tombstoned

instance (s : Store) (item : ApprovalQueueItem) (decision : Decision) :
    Decidable (DecisionSpares s item decision) := by
  cases decision <;> unfold DecisionSpares <;> infer_instance

/-- A refused head no longer waits: its card is closed. -/
theorem Store.Cards.refused (h : s.Cards) {id : Uuid} {u : MemoryUnit} (hid : s.Refused id)
    (hu : s.units.get? id = some u) : u.status ≠ .candidate := by
  obtain ⟨item, hitem, rfl, hrejected⟩ := hid
  intro hcandidate
  have hopen := (h.waiting item hitem u hu hcandidate).1
  rw [hrejected] at hopen
  cases hopen

namespace Queue

theorem Decided.refused_approve (h : Decided s item plan s')
    (hitem : s.items.get? item.itemUid = some item) (happrove : plan.request.decision = .approve)
    {id : Uuid} (hid : s'.Refused id) : s.Refused id := by
  obtain ⟨row, hrow, hnamed, hrejected⟩ := hid
  rcases h.mem_rows hitem hrow with ⟨hrow, _⟩ | ⟨_, rfl⟩
  · exact ⟨row, hrow, hnamed, hrejected⟩
  · simp [happrove, Decision.itemState] at hrejected

/-- Under a denial a head is as it was, or was the waiting candidate and keeps its text. -/
theorem Decided.head_deny (h : Decided s item plan s') (hdeny : plan.request.decision = .deny)
    {id : Uuid} {u : MemoryUnit} (hu : s.units.get? id = some u) :
    ∃ v, s'.units.get? id = some v ∧ (v = u ∨ id = item.candidateMemoryId ∧
      u.status = .candidate ∧ v.body = u.body) := by
  apply h.writes.head_keeps (P := fun v => v = u ∨ id = item.candidateMemoryId ∧
    u.status = .candidate ∧ v.body = u.body) ?_ hu (.inl rfl)
  rintro s₁ v command (hreplaced | hon) hid _ hv
  · exact absurd (hdeny.symm.trans hreplaced.approve) nofun
  · obtain ⟨hcandidate, _, hcarries⟩ := hon
    generalize hchanges : command.changes = changes at hcarries
    cases hcarries with
    | deny _ hstatus =>
      rcases hv with rfl | ⟨hid', hu', hbody⟩
      · exact .inr ⟨hid.symm.trans hcandidate, hstatus, rfl⟩
      · exact .inr ⟨hid', hu', hbody⟩
    | approve happrove | activate happrove | retire happrove | repair happrove | split happrove =>
      exact absurd (hdeny.symm.trans happrove) nofun

theorem Decided.head_approve (h : Decided s item plan s')
    (happrove : plan.request.decision = .approve)
    (hamendment : ∀ changes ∈ plan.amendment, changes.status = some .active)
    (hspares : DecisionSpares s item .approve) {id : Uuid} {u : MemoryUnit}
    (hu : s.units.get? id = some u) (hid : s.Refused id) :
    ∃ v, s'.units.get? id = some v ∧ Spared u v := by
  apply h.writes.head_keeps (P := Spared u) ?_ hu (.refl u)
  rintro s₁ v command (hreplaced | hon) hcommand _ hv
  · exact absurd (hcommand ▸ hid) (hspares.1 hreplaced.replaces _ hreplaced.target)
  · obtain ⟨hcandidate, _, hcarries⟩ := hon
    have hnamed : s.Refused item.candidateMemoryId := hcandidate ▸ hcommand ▸ hid
    apply hv.bumped
    generalize command.changes = changes at hcarries ⊢
    cases hcarries with
    | approve => exact nofun
    | deny hdeny => exact absurd (happrove.symm.trans hdeny) nofun
    | activate =>
      cases hplan : plan.amendment with
      | none => exact nofun
      | some changes =>
        rw [Option.getD_some, hamendment changes hplan]
        exact nofun
    | retire _ hcurator hverdict => exact absurd hnamed (hspares.2 hcurator (.inl hverdict))
    | repair => exact fun hv => ⟨hv, rfl⟩
    | split _ hcurator hverdict => exact absurd hnamed (hspares.2 hcurator (.inr hverdict))

/-- A decision that spares every refused head buries what it denies, and nothing else. -/
theorem Decided.accounted (h : Decided s item plan s') (hledger : s.Ledger) (hcards : s.Cards)
    (hitem : s.items.get? item.itemUid = some item)
    (hamendment : ∀ changes ∈ plan.amendment, changes.status = some .active)
    (hspares : DecisionSpares s item plan.request.decision) : Accounted s s' := by
  rintro u' ⟨hfound, hstatus, row, hrow, hnamed, hrejected⟩
  have hmem := Table.mem_of_get? hitem
  have hopen := h.open hledger hitem
  -- the head the card names, before the decision
  have hbefore {row' : ApprovalQueueItem} (hrow' : row' ∈ s.items.rows)
      (hnamed' : row'.candidateMemoryId = u'.id) : ∃ u, s.units.get? u.id = some u ∧ u.id = u'.id ∧
        u.principalId = u'.principalId := by
    obtain ⟨u, hu, _⟩ := hcards.carried row' hrow'
    rw [hnamed'] at hu
    obtain ⟨v, hv, hdescends⟩ := h.writes.descends hu
    obtain rfl := Option.some.inj (hfound.symm.trans hv)
    have hid := Table.key_of_get? hu
    exact ⟨u, hid ▸ hu, hid, hdescends.principalId.symm⟩
  cases hdecision : plan.request.decision with
  | approve =>
    have hrefused := h.refused_approve hitem hdecision ⟨row, hrow, hnamed, hrejected⟩
    have ⟨row', hrow', hnamed', _⟩ := hrefused
    obtain ⟨u, hu, hid, hprincipal⟩ := hbefore hrow' hnamed'
    obtain ⟨v, hv, hspared⟩ :=
      h.head_approve hdecision hamendment (hdecision ▸ hspares) hu (hid ▸ hrefused)
    obtain rfl := Option.some.inj (hfound.symm.trans (hid ▸ hv))
    obtain ⟨htombstoned, hbody⟩ := hspared hstatus
    exact ⟨u, hprincipal, hbody.symm, .inl ⟨hu, htombstoned, hid ▸ hrefused⟩⟩
  | deny =>
    have hname : ∃ row' ∈ s.items.rows, row'.candidateMemoryId = u'.id := by
      rcases h.mem_rows hitem hrow with ⟨hrow, _⟩ | ⟨_, rfl⟩
      · exact ⟨row, hrow, hnamed⟩
      · exact ⟨item, hmem, hnamed⟩
    obtain ⟨row', hrow', hnamed'⟩ := hname
    obtain ⟨u, hu, hid, hprincipal⟩ := hbefore hrow' hnamed'
    obtain ⟨v, hv, hkept⟩ := h.head_deny hdecision hu
    obtain rfl := Option.some.inj (hfound.symm.trans (hid ▸ hv))
    rcases hkept with rfl | ⟨hcandidate, hwaiting, hbody⟩
    · refine ⟨_, rfl, rfl, .inl ⟨hu, hstatus, ?_⟩⟩
      rcases h.mem_rows hitem hrow with ⟨hrow, _⟩ | ⟨_, rfl⟩
      · exact ⟨row, hrow, hnamed, hrejected⟩
      · -- a denied card is not on a tombstone
        rw [hdecision] at hspares
        exact absurd hstatus (hspares _ (hnamed ▸ hu))
    · refine ⟨u, hprincipal, hbody.symm,
        .inr ⟨hu, hwaiting, item, hmem, hcandidate.symm, hopen, ?_⟩⟩
      simpa [hdecision, Decision.itemState] using h.closed_as hitem

/-- What a decision leaves a candidate was a candidate, with the same text. -/
theorem Decided.was_candidate (h : Decided s item plan s')
    (hamendment : ∀ changes ∈ plan.amendment, changes.status = some .active) {id : Uuid}
    {u : MemoryUnit} (hu : s.units.get? id = some u) : ∃ v, s'.units.get? id = some v ∧
      (v.status = .candidate → u.status = .candidate ∧ v.body = u.body) := by
  apply h.writes.head_keeps (P := fun v => v.status = .candidate →
    u.status = .candidate ∧ v.body = u.body) ?_ hu fun hu => ⟨hu, rfl⟩
  rintro s₁ v command (hreplaced | hon) _ _ hv
  · simp [hreplaced.changes]
  · obtain ⟨_, _, hcarries⟩ := hon
    generalize command.changes = changes at hcarries
    cases hcarries with
    | approve | deny | retire | split => exact nofun
    | repair => exact hv
    | activate =>
      cases hplan : plan.amendment with
      | none => exact nofun
      | some changes =>
        intro hcandidate
        rw [bumped_status, Option.getD_some, hamendment changes hplan] at hcandidate
        cases hcandidate

/-- The guard of a card still open survives the decision of another. -/
theorem Decided.spares {other : ApprovalQueueItem} (h : Decided s item plan s') (hcards : s.Cards)
    (hitem : s.items.get? item.itemUid = some item) (hother : other ∈ s.items.rows)
    (hne : other.itemUid ≠ item.itemUid)
    (hspares : DecisionSpares s other plan.request.decision) :
    DecisionSpares s' other plan.request.decision := by
  cases hdecision : plan.request.decision with
  | approve =>
    rw [hdecision] at hspares
    have hrefused {id : Uuid} (hid : s'.Refused id) := h.refused_approve hitem hdecision hid
    exact ⟨fun hreplaces id hid hbad => hspares.1 hreplaces id hid (hrefused hbad),
      fun hcurator hverdict hbad => hspares.2 hcurator hverdict (hrefused hbad)⟩
  | deny =>
    rw [hdecision] at hspares
    intro v hv
    obtain ⟨u, hu, _⟩ := hcards.carried other hother
    obtain ⟨v', hv', hkept⟩ := h.head_deny hdecision hu
    obtain rfl := Option.some.inj (hv'.symm.trans hv)
    rcases hkept with rfl | ⟨hcandidate, hwaiting, _⟩
    · exact hspares _ hu
    · -- a candidate that still waits has one card only
      have honly := (hcards.waiting other hother u hu hwaiting).2 item (Table.mem_of_get? hitem)
        hcandidate.symm
      exact absurd (congrArg ApprovalQueueItem.itemUid honly).symm hne

theorem BatchSteps.accounted {rows : List ApprovalQueueItem} (h : BatchSteps request s rows s')
    (hledger : s.Ledger) (hcards : s.Cards)
    (hrows : ∀ item ∈ rows, s.items.get? item.itemUid = some item)
    (hnodup : (rows.map (·.itemUid)).Nodup)
    (hspares : ∀ item ∈ rows, item.state = .pending → DecisionSpares s item request.decision) :
    Accounted s s' := by
  induction h with
  | nil => exact .refl _
  | skip _ ih =>
    exact ih hledger hcards (fun item hitem => hrows item (List.mem_cons_of_mem _ hitem))
      (List.nodup_cons.mp hnodup).2 fun item hitem => hspares item (List.mem_cons_of_mem _ hitem)
  | @decide s t s' item rest hpending hdecided hrest ih =>
    simp only [List.map_cons, List.nodup_cons] at hnodup
    have hitem := hrows item (by simp)
    have hnone : ∀ changes ∈ (none : Option MemoryUnitChanges),
        changes.status = some .active := by simp
    have hne : ∀ other ∈ rest, other.itemUid ≠ item.itemUid := fun other hother heq =>
      hnodup.1 (heq ▸ List.mem_map_of_mem hother)
    have hfirst : Accounted s t :=
      hdecided.accounted hledger hcards hitem hnone (hspares item (by simp) hpending)
    have hthen : Accounted t s' := by
      apply ih (hdecided.ledger hledger (by simp [hitem])) (hdecided.cards hcards hitem hnone) ?_
        hnodup.2
      · intro other hother hopen
        have hmem := hrows other (List.mem_cons_of_mem _ hother)
        exact hdecided.spares hcards hitem (Table.mem_of_get? hmem) (hne other hother)
          (hspares other (List.mem_cons_of_mem _ hother) hopen)
      · intro other hother
        rw [(hdecided.frame (hne other hother)).1]
        exact hrows other (List.mem_cons_of_mem _ hother)
    have hledger' := hdecided.ledger hledger (by simp [hitem])
    have hcurrent : ∀ other ∈ rest, t.items.get? other.itemUid = some other := by
      intro other hother
      rw [(hdecided.frame (hne other hother)).1]
      exact hrows other (List.mem_cons_of_mem _ hother)
    have hkeeps := hrest.keeps hledger' (hdecided.cards hcards hitem hnone) hcurrent hnodup.2
    intro u' hu'
    obtain ⟨v, hprincipal, hbody,
      hburied | ⟨hfound, hwaiting, row, hrow, hnamed, hopen, hclosed⟩⟩ :=
      hthen u' hu'
    · obtain ⟨u, hprincipal', hbody', hu⟩ := hfirst v hburied
      refine ⟨u, hprincipal'.trans hprincipal, hbody'.trans hbody, hu.imp id ?_⟩
      rintro ⟨hfound, hwaiting, row, hrow, hnamed, hopen, row', hrow', hrejected⟩
      obtain ⟨row'', hrow'', hstate⟩ :=
        hledger'.closed_stays hkeeps.1 hrest.writes hrow' (by simp [hrejected])
      exact ⟨hfound, hwaiting, row, hrow, hnamed, hopen, row'', hrow'', hstate.trans hrejected⟩
    · -- what is denied later in the batch waited before it, with the same text
      have hrow' : row ∈ s.items.rows := by
        rcases hdecided.mem_rows hitem hrow with ⟨hrow, _⟩ | ⟨_, rfl⟩
        · exact hrow
        · exact absurd hopen (itemState_ne_pending _)
      obtain ⟨u, hu, _⟩ := hcards.carried row hrow'
      obtain ⟨v', hv', hcandidate⟩ := hdecided.was_candidate hnone hu
      rw [hnamed] at hu hv'
      obtain rfl := Option.some.inj (hfound.symm.trans hv')
      obtain ⟨hwaiting', hsame⟩ := hcandidate hwaiting
      obtain ⟨v'', hv'', hdescends⟩ := hdecided.writes.descends hu
      obtain rfl := Option.some.inj (hfound.symm.trans hv'')
      have hid := Table.key_of_get? hu
      exact ⟨u, hdescends.principalId.symm.trans hprincipal, hsame.symm.trans hbody,
        .inr ⟨hid ▸ hu, hwaiting', row, hrow', hnamed.trans hid.symm, hopen, hclosed⟩⟩

end Queue

end Decisions

section Runs

/-- The call tombstones no head that a rejected card names, gives no new text to a tombstone
that one names, and denies no card on a tombstone. -/
def Spares (p : Palace) : Action → Prop
  | .patch k => ∀ plan ∈ p.ops[k]?.bind Operation.patching?,
      p.store.Refused plan.request.memoryId →
      ∀ u ∈ p.store.units.get? plan.request.memoryId,
        plan.changes.status.getD u.status = .tombstoned →
          u.status = .tombstoned ∧ plan.changes.body.getD u.body = u.body
  | .ingest k _ => ∀ admission ∈ p.ops[k]?.bind Operation.admitting?,
      ∀ unfiled ∈ admission.unfiled, unfiled.unchecked = [] →
      (∃ id ∈ unfiled.draft.targetIds, id ∉ unfiled.activeNeighbors) →
        ¬p.store.Refused unfiled.memoryId
  | .decide k => ∀ plan ∈ p.ops[k]?.bind Operation.deciding?,
      ∀ item ∈ p.store.items.get? plan.itemUid, item.state = .pending →
        DecisionSpares p.store item plan.request.decision
  | .decideBatch batchUid request => ∀ item ∈ p.store.items.rows,
      item.birthplace.batchUid = some batchUid → item.state = .pending →
        DecisionSpares p.store item request.decision
  | _ => True

instance (p : Palace) : DecidablePred (Spares p)
  | .patch k => inferInstanceAs (Decidable (∀ plan ∈ p.ops[k]?.bind Operation.patching?, _))
  | .ingest k _ =>
    inferInstanceAs (Decidable (∀ admission ∈ p.ops[k]?.bind Operation.admitting?, _))
  | .decide k => inferInstanceAs (Decidable (∀ plan ∈ p.ops[k]?.bind Operation.deciding?, _))
  | .decideBatch .. => inferInstanceAs (Decidable (∀ item ∈ p.store.items.rows, _))
  | .create .. | .split .. | .stage .. | .resolve .. | .startPatch .. | .startExtract ..
   | .startSeed .. | .seedSource .. | .startPass .. | .advance .. | .startDecision ..
   | .prepare .. | .prepareWrite .. | .commit .. | .feedback .. | .abandon .. => isTrue trivial

/-- Somewhere along the run the owner denied a candidate of this text its admission. -/
def DeniedAdmission (w : World) (p : Palace) (calls : List Call) (principalId body : String) :
    Prop :=
  ∃ n < calls.length,
    ∃ u ∈ ((palace w).run p (calls.take n)).store.units.rows,
      u.principalId = principalId ∧ u.body = body ∧
      Denies ((palace w).run p (calls.take n)).store
        ((palace w).run p (calls.take (n + 1))).store u

theorem patch_cas {plan : PatchPlan} {r : MemoryUnit × Store} (h : patch s plan = .ok r) :
    ∃ command current, s.drawn.CasStep command current r.2 ∧
      command.memoryId = plan.request.memoryId ∧ command.changes = plan.changes ∧
      (s.drawn.bumped command.changes current).status ≠ .staged := by
  unfold patch at h
  dsimp only at h
  split at h
  · next hcas =>
    simp only [contractMemory, bind_eq_ok, ensure_eq_ok, pure_eq_ok] at h
    obtain ⟨_, ⟨_, hstatus, rfl⟩, rfl⟩ := h
    obtain ⟨current, hstep, rfl⟩ := casUpdate_eq_ok.mp hcas
    exact ⟨_, current, hstep, rfl, rfl, hstatus⟩
  · simp [bind_eq_ok] at h
  · split at h
    · cases h
    · split at h
      · split at h <;> cases h
      · cases h
  · cases h

theorem Accounted.of_cas {command : CasUpdate} {current : MemoryUnit}
    (hstep : s.CasStep command current s')
    (hspares : s.Refused command.memoryId → Spared current (s.bumped command.changes current)) :
    Accounted s s' := by
  rintro u' ⟨hfound, hstatus, item, hitem, hnamed, hrejected⟩
  have hitems : s'.items = s.items := by
    obtain ⟨_, _, _, _, rfl⟩ := hstep.written
    rfl
  rw [hitems] at hitem
  rw [hstep.get?_units] at hfound
  have hrefused : s.Refused u'.id := ⟨item, hitem, hnamed, hrejected⟩
  split at hfound
  · next hid =>
    obtain rfl := Option.some.inj hfound
    obtain ⟨htombstoned, hbody⟩ := hspares (hid ▸ hrefused) hstatus
    have hcurrent := hstep.id_eq
    refine ⟨current, rfl, hbody.symm, .inl ⟨hcurrent ▸ hstep.found, htombstoned, hrefused⟩⟩
  · exact ⟨u', rfl, rfl, .inl ⟨hfound, hstatus, hrefused⟩⟩

theorem refused_of_step {session : Session} {action : Action} (hlineage : p.store.Lineage)
    (h : Consented p) (hspares : Spares p action)
    (haccepted : (palace w).step p ⟨session, action⟩ = .ok p') : Accounted p.store p'.store := by
  suffices haccounted : Accounted (p.store.begin session) p'.store from haccounted
  have hcards : (p.store.begin session).Cards := h.cards.congr rfl rfl
  have hledger : (p.store.begin session).Ledger := h.ledger.congr rfl rfl
  have hheadless {φ : Footprint} {t : Store} (hw : Writes φ (p.store.begin session) t)
      (hhead : ∀ u c, ¬φ.head u c) (hc : ∀ item, φ.card item → item.state = .pending)
      (hd : ∀ d, ¬φ.decision d) : Accounted (p.store.begin session) t :=
    Accounted.of_writes hw hcards hc hd fun _ _ v c _ _ hv _ => absurd hv (hhead v c)
  have hcounted {φ : Footprint} {t : Store} (hw : Writes φ (p.store.begin session) t)
      (hhead : ∀ u c, φ.head u c → Counts u c.changes) (hc : ∀ item, ¬φ.card item)
      (hd : ∀ d, ¬φ.decision d) : Accounted (p.store.begin session) t :=
    Accounted.of_writes hw hcards (fun item hitem => absurd hitem (hc item)) hd
      fun _ _ v c _ _ hv hspared => hspared.counts (hhead v c hv)
  have hsame : Accounted (p.store.begin session) (p.store.begin session) := .refl _
  cases stepped_of_step hlineage haccepted with
  | create hw | split hw | stage hw | seedSource _ hw =>
    exact hheadless hw (fun _ _ => id) (fun _ => False.elim) fun _ => id
  | startPatch | startExtract | seeded | startSeed | startDecision | prepare | abandon =>
    exact hsame
  | startPass =>
    exact hheadless (φ := {}) drawn_quiet.writes (fun _ _ => id) (fun _ => False.elim) fun _ => id
  | @resolve runId request _ hr =>
    rcases hr with ⟨rfl, _⟩ | ⟨t, hresolves, hrouted⟩
    · exact hsame
    · apply Accounted.of_writes (hrouted.resolve_writes hresolves) hcards _ fun _ => id
      · rintro _ _ v c hrefused _ ⟨row, hrow, hat⟩ _
        -- a staged head has no card
        obtain ⟨item, hitem, hnamed, _⟩ := hrefused
        obtain ⟨u, hu, hstaged⟩ := hcards.carried item hitem
        obtain ⟨hmem, _, hstatus⟩ := mem_lockedRunRows.mp hrow
        have hid : c.memoryId = row.id := hat.elim (·.1) (·.1)
        rw [hnamed, hid, Table.get?_of_mem hmem] at hu
        exact absurd (Option.some.inj hu ▸ hstatus) hstaged
      · rintro item ⟨_, _, hcard⟩
        exact hcard.pending
  | patch hop hw =>
    simp only [palace, Palace.step, Palace.inFlight, hop, Option.bind_some, Operation.patching?,
      require_some, ok_bind, bind_eq_ok, pure_eq_ok] at haccepted
    obtain ⟨r, hr, heq⟩ := haccepted
    obtain ⟨command, current, hcas, hid, hchanges, _⟩ := patch_cas hr
    have hstore : r.2 = _ := congrArg Palace.store heq
    suffices haccounted : Accounted (p.store.begin session).drawn r.2 from hstore ▸ haccounted
    apply Accounted.of_cas hcas
    intro hrefused
    apply (Spared.refl current).bumped
    rw [hchanges]
    exact hspares _ (by simp [hop]) (hid ▸ hrefused) current (hid ▸ hcas.found)
  | @ingest k _ admission _ _ hop hstep =>
    cases hstep with
    | check | duplicate => exact hsame
    | discard hunfiled hchecked htargets hw _ =>
      apply Accounted.of_writes hw hcards (fun _ => False.elim) fun _ => id
      rintro _ _ v c hrefused _ ⟨hid, _⟩ _
      exact absurd (hid ▸ hrefused) (hspares _ (by simp [hop]) _ hunfiled hchecked htargets)
    | file _ _ _ hinsert =>
      have hw : Writes { card := (·.state = .pending) } (p.store.begin session) _ :=
        drawn_quiet.writes.tail (.card rfl hinsert)
      exact hheadless hw (fun _ _ => id) (fun _ => id) fun _ => id
    | created _ _ hw => exact hheadless hw (fun _ _ => id) (fun _ => False.elim) fun _ => id
    | finish _ hquiet =>
      exact hheadless (φ := {}) hquiet.writes (fun _ _ => id) (fun _ => False.elim) fun _ => id
  | advance _ hstep =>
    exact hheadless hstep.writes (fun _ _ => id) (fun _ hcard => hcard.pending) fun _ => id
  | @decide k plan item _ hop hitem hr =>
    rcases hr with rfl | hdecided
    · exact hsame
    · have huid := Table.key_of_get? hitem
      have hitem' := huid ▸ hitem
      have hopen := hdecided.open hledger hitem'
      exact hdecided.accounted hledger hcards hitem' (h.sound hop)
        (hspares plan (by simp [hop]) item hitem hopen)
  | @decideBatch batchUid _ _ hr =>
    obtain ⟨hcurrent, hnodup⟩ := batchRows_current (p.store.begin session) batchUid
    apply hr.accounted hledger hcards hcurrent hnodup
    intro item hitem hopen
    have hrow := (batchRows_perm _ _).mem_iff.mp hitem
    simp only [List.mem_filter, decide_eq_true_eq] at hrow
    exact hspares item hrow.1 hrow.2 hopen
  | prepareWrite _ _ hw =>
    apply hcounted hw _ (fun _ => id) fun _ => id
    rintro u c ⟨_, _, _, hc⟩
    exact hc ▸ injectedChanges_counts u
  | commit _ hw => exact hcounted hw (fun _ _ hc => hc.2) (fun _ => id) fun _ => id
  | feedback _ hw => exact hcounted hw (fun _ _ hc => hc.2.2) (fun _ => id) fun _ => id

theorem DeniedAdmission.snoc {calls : List Call} {call : Call} {principalId body : String}
    (h : DeniedAdmission w p calls principalId body) :
    DeniedAdmission w p (calls ++ [call]) principalId body := by
  obtain ⟨n, hn, u, hu⟩ := h
  refine ⟨n, by simp; omega, u, ?_⟩
  rwa [List.take_append_of_le_length (by omega), List.take_append_of_le_length (by omega)]

theorem DeniedAdmission.last {calls : List Call} {call : Call} {u : MemoryUnit}
    (h : Denies ((palace w).run p calls).store
      ((palace w).next ((palace w).run p calls) call).store u) :
    DeniedAdmission w p (calls ++ [call]) u.principalId u.body := by
  refine ⟨calls.length, by simp, u, ?_⟩
  rw [List.take_left, List.take_of_length_le (by simp), Machine.run_append]
  exact ⟨Table.mem_of_get? h.1, rfl, rfl, h⟩

/-- Along a run that spares every refused head, a text is refused only once denied. -/
theorem denied_of_run {calls : List Call} (hstart : (palace w).start p)
    (hspares : (palace w).Along (fun p call => Spares p call.action) p calls) :
    ∀ u, ((palace w).run p calls).store.Buried u →
      DeniedAdmission w p calls u.principalId u.body := by
  refine Machine.along_history (M := palace w) (I := fun q calls => ∀ u, q.store.Buried u →
    DeniedAdmission w p calls u.principalId u.body) ?_ ?_ hspares
  · rintro u ⟨hu, _⟩
    obtain ⟨configs, rfl⟩ := hstart
    cases hu
  · intro calls call hbefore hcall u hu
    have hreach : (palace w).Reachable ((palace w).run p calls) := ⟨p, calls, hstart, rfl⟩
    rcases Machine.next_cases (M := palace w) ((palace w).run p calls) call with
      haccepted | ⟨_, hsame⟩
    · obtain ⟨v, hprincipal, hbody, hv⟩ := refused_of_step (lineage_of_reachable hreach)
        (consented_of_reachable hreach) hcall haccepted u hu
      rw [← hprincipal, ← hbody]
      rcases hv with hv | hv
      · exact (hbefore v hv).snoc
      · exact .last hv
    · rw [hsame] at hu
      exact (hbefore u hu).snoc

theorem buried_of_rejectedBody {principalId body : String} (h : rejectedBody s principalId body) :
    ∃ u, s.Buried u ∧ u.principalId = principalId ∧ u.body = body := by
  obtain ⟨u, hu, item, hitem, hnamed, hprincipal, _, hrejected, hstatus, hbody⟩ := h
  exact ⟨u, ⟨Table.get?_of_mem hu, hstatus, item, hitem, hnamed, hrejected⟩, hprincipal, hbody⟩

/-- In a run that never tombstones a head named by a rejected card, gives such a tombstone no
new text and denies no card on a tombstone: a text is refused as rejected only where the owner
denied a candidate of this principal that carried it, whoever saves it. -/
theorem rejected_bodies {calls : List Call} (hstart : (palace w).start p)
    (hspares : (palace w).Along (fun p call => Spares p call.action) p calls) (session : Session) :
    let s := ((palace w).run p calls).store.begin session
    (∀ command embedding,
      create w.env s command embedding = .error (.memoryValidation rejectedDetail) →
        DeniedAdmission w p calls command.principalId command.body) ∧
    (∀ command embedding embeddings,
      split w.env s command embedding embeddings = .error (.memoryValidation rejectedDetail) →
        ∃ body ∈ command.sourceBody :: command.children.map SplitChild.body,
          DeniedAdmission w p calls command.principalId body) ∧
    ∀ command replaces embedding s',
      createCandidate w.env s command replaces embedding = .ok (none, s') →
        DeniedAdmission w p calls command.principalId command.body ∨
          ∃ card ∈ dedupMatches w.env s command.principalId embedding [.active, .candidate],
            card.memoryId ∉ replaces ∧ w.env.dedupDup ≤ card.score := by
  intro s
  have hdenied {principalId body : String} (h : rejectedBody s principalId body) :
      DeniedAdmission w p calls principalId body := by
    obtain ⟨u, hu, rfl, rfl⟩ := buried_of_rejectedBody h
    exact denied_of_run hstart hspares u hu
  refine ⟨fun command embedding h => hdenied (create_rejected h), ?_, ?_⟩
  · intro command embedding embeddings h
    obtain ⟨body, hbody, hrejected⟩ := split_rejected h
    exact ⟨body, hbody, hdenied hrejected⟩
  · intro command replaces embedding s' h
    exact (createCandidate_turned h).imp hdenied id

/-- A candidate that its owner denies. -/
def deniedCalls : List Call :=
  [⟨⟨1, []⟩, .startExtract (offeredMemories [offeredCandidate "tea" "drinks tea"])⟩,
    ⟨⟨2, [7, 70]⟩, .ingest 0 [1]⟩,
    ⟨⟨3, [50]⟩, .ingest 0 []⟩,
    ⟨⟨4, []⟩, .startDecision 50 (explicitly .deny) [] []⟩,
    ⟨⟨5, [71, 60]⟩, .decide 1⟩]

theorem rejected_bodies_denied :
    DeniedAdmission default ⟨.deployed .empty, []⟩ deniedCalls "owner" "drinks tea" :=
  (rejected_bodies (w := default) ⟨_, rfl⟩ (by decide +kernel) ⟨6, [8]⟩).1
    (savedMemory "tea" "drinks tea") [1] (by decide +kernel)

/-- A head with no keywords: the curator asks to repair it, the owner denies that, and tombstones
the head later on. -/
def unrepairedCalls : List Call :=
  [⟨⟨1, [7, 70]⟩, .create (savedMemory "tea" "drinks tea") [1]⟩,
    ⟨⟨2, [30]⟩, .startPass "owner" "m"⟩,
    ⟨⟨3, [31]⟩, .advance 0 (some ⟨.act .keywordRepair,
      ⟨none, none, some ["tea", "drink"], none⟩⟩) []⟩,
    ⟨⟨4, []⟩, .advance 0 none []⟩,
    ⟨⟨5, [50]⟩, .advance 0 none []⟩,
    ⟨⟨6, []⟩, .startDecision 50 (explicitly .deny) [] []⟩,
    ⟨⟨7, [60]⟩, .decide 1⟩,
    ⟨⟨8, []⟩, .startPatch
      { memoryId := 7, expectedRevision := 1, status := some .tombstoned, editor := "user",
        reason := "forget", machineId := "m" } []⟩,
    ⟨⟨9, [71]⟩, .patch 2⟩]

theorem rejected_bodies_unrepaired :
    (palace default).start ⟨.deployed .empty, []⟩ ∧
    create (default : World).env
      (((palace default).run ⟨.deployed .empty, []⟩ unrepairedCalls).store.begin ⟨10, [8]⟩)
      (savedMemory "tea" "drinks tea") [1] = .error (.memoryValidation rejectedDetail) ∧
    ¬DeniedAdmission default ⟨.deployed .empty, []⟩ unrepairedCalls "owner" "drinks tea" := by
  refine ⟨⟨_, rfl⟩, ?_, ?_⟩
  · decide +kernel
  · unfold DeniedAdmission
    decide +kernel

end Runs

end Nocturne
