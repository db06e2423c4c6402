import Nocturne.Queue.Ledger

namespace Nocturne

open Nocturne.Lib Nocturne.Store Nocturne.Queue

/-- How a status may move: nothing becomes staged, and only an unadmitted head becomes a
candidate. -/
structure MemoryStatus.Follows (a b : MemoryStatus) : Prop where
  staged : b = .staged → a = .staged
  candidate : b = .candidate → a.Unadmitted

namespace MemoryStatus.Follows

variable {a b c : MemoryStatus}

theorem refl (a : MemoryStatus) : a.Follows a := ⟨id, by rintro rfl; trivial⟩

theorem trans (hab : a.Follows b) (hbc : b.Follows c) : a.Follows c where
  staged h := hab.staged (hbc.staged h)
  candidate h := by
    have hb := hbc.candidate h
    cases b with
    | candidate => exact hab.candidate rfl
    | staged =>
      rw [hab.staged rfl]
      trivial
    | active | quarantined | tombstoned => exact hb.elim

theorem of_admitted (h : ¬b.Unadmitted) : a.Follows b := by
  constructor <;> rintro rfl <;> exact absurd trivial h

theorem admitted (h : a.Follows b) (ha : ¬a.Unadmitted) : ¬b.Unadmitted := by
  cases b with
  | candidate => exact absurd (h.candidate rfl) ha
  | staged =>
    rw [h.staged rfl] at ha
    exact absurd trivial ha
  | active | quarantined | tombstoned => exact id

theorem was_candidate (h : a.Follows b) (hb : b = .candidate) (ha : a ≠ .staged) :
    a = .candidate := by
  have := h.candidate hb
  cases a <;> simp_all [Unadmitted]

end MemoryStatus.Follows

/-- An operation that leaves the status of a head as it is, or takes the head past admission. -/
def Footprint.Forward (φ : Footprint) : Prop :=
  ∀ u command, φ.head u command →
    command.changes.status.getD u.status = u.status ∨
      ¬(command.changes.status.getD u.status).Unadmitted

namespace Store

variable {φ : Footprint} {s s' t : Store}

/-- Every head is still there, further on if it moved at all. -/
def HeadsFollow (s s' : Store) : Prop :=
  ∀ {id u}, s.units.get? id = some u →
    ∃ u', s'.units.get? id = some u' ∧ u.status.Follows u'.status

theorem HeadsFollow.refl (s : Store) : HeadsFollow s s := fun hu => ⟨_, hu, .refl _⟩

theorem HeadsFollow.trans (hst : HeadsFollow s t) (htu : HeadsFollow t s') : HeadsFollow s s' := by
  intro id u hu
  obtain ⟨v, hv, huv⟩ := hst hu
  obtain ⟨w, hw, hvw⟩ := htu hv
  exact ⟨w, hw, huv.trans hvw⟩

theorem HeadsFollow.of_eq (h : s'.units = s.units) : HeadsFollow s s' := by
  intro id u hu
  exact ⟨u, h ▸ hu, .refl _⟩

theorem Writes.headsFollow (h : Writes φ s s') (hφ : φ.Forward) : HeadsFollow s s' := by
  intro id u hu
  apply h.head_keeps (P := fun v => u.status.Follows v.status) ?_ hu (.refl _)
  intro s v command hc _ _ hv
  rw [bumped_status]
  rcases hφ v command hc with hsame | hadmitted
  · rwa [hsame]
  · exact .of_admitted hadmitted

/-- Nothing but a new head comes to wait. -/
theorem Writes.candidates (h : Writes φ s s') (hφ : φ.Forward)
    (hroot : ∀ u, φ.root u → u.status ≠ .candidate) {id : Uuid} {u' : MemoryUnit}
    (hu' : s'.units.get? id = some u') (hcandidate : u'.status = .candidate) :
    ∃ u, s.units.get? id = some u ∧ u.status = .candidate := by
  refine h.rel (R := fun s s' => ∀ id u', s'.units.get? id = some u' → u'.status = .candidate →
    ∃ u, s.units.get? id = some u ∧ u.status = .candidate) ?_ ?_ ?_ id u' hu' hcandidate
  · exact fun _ id u hu hcandidate => ⟨u, hu, hcandidate⟩
  · intro s t w hst htw id u' hu' hcandidate
    obtain ⟨v, hv, hcandidate⟩ := htw id u' hu' hcandidate
    exact hst id v hv hcandidate
  · intro s t hw id u' hu' hcandidate
    rcases hw.units_cases with ⟨command, current, hc, hs⟩ | ⟨unit, row, hr, hs⟩ | ⟨heq, _⟩
    · rw [hs.get?_units] at hu'
      split at hu'
      · next hid =>
        obtain rfl := Option.some.inj hu'
        refine ⟨current, hid ▸ hs.found, ?_⟩
        rw [bumped_status] at hcandidate
        rcases hφ current command hc with hsame | hadmitted
        · rwa [hsame] at hcandidate
        · rw [hcandidate] at hadmitted
          exact absurd trivial hadmitted
      · exact ⟨u', hu', hcandidate⟩
    · rw [hs.get?_units] at hu'
      split at hu'
      · obtain rfl := Option.some.inj hu'
        exact absurd hcandidate (hroot _ hr)
      · exact ⟨u', hu', hcandidate⟩
    · exact ⟨u', heq ▸ hu', hcandidate⟩

/-- Every card names a head that is past staging; a head that still waits for consent has at
most one card, and that card is open; a surgical card names an admitted head. -/
structure Cards (s : Store) : Prop where
  carried : ∀ item ∈ s.items.rows, ∃ u, s.units.get? item.candidateMemoryId = some u ∧
    u.status ≠ .staged
  waiting : ∀ item ∈ s.items.rows, ∀ u, s.units.get? item.candidateMemoryId = some u →
    u.status = .candidate → item.state = .pending ∧
      ∀ other ∈ s.items.rows, other.candidateMemoryId = item.candidateMemoryId → other = item
  surgical : ∀ item ∈ s.items.rows, item.birthplace.IsCurator → ¬item.verdict.Replaces →
    ∀ u, s.units.get? item.candidateMemoryId = some u → ¬u.status.Unadmitted

theorem Cards.empty (h : s.items = .empty) : s.Cards := by
  constructor <;> intro item hitem <;> simp [h, Table.empty] at hitem

theorem Cards.congr (h : s.Cards) (hu : s'.units = s.units) (hi : s'.items = s.items) :
    s'.Cards := by
  obtain ⟨hcarried, hwaiting, hsurgical⟩ := h
  constructor <;> simpa only [hu, hi]

/-- Moving heads forward keeps the cards. -/
theorem Cards.move (h : s.Cards) (hheads : HeadsFollow s s') (hi : s'.items = s.items) :
    s'.Cards := by
  have hback : ∀ item ∈ s.items.rows, ∀ u', s'.units.get? item.candidateMemoryId = some u' →
      ∃ u, s.units.get? item.candidateMemoryId = some u ∧ u.status ≠ .staged ∧
        u.status.Follows u'.status := by
    intro item hitem u' hu'
    obtain ⟨u, hu, hstaged⟩ := h.carried item hitem
    obtain ⟨v, hv, hfollows⟩ := hheads hu
    obtain rfl := Option.some.inj (hu'.symm.trans hv)
    exact ⟨u, hu, hstaged, hfollows⟩
  constructor <;> rw [hi]
  · intro item hitem
    obtain ⟨u, hu, hstaged⟩ := h.carried item hitem
    obtain ⟨u', hu', hfollows⟩ := hheads hu
    exact ⟨u', hu', fun h => hstaged (hfollows.staged h)⟩
  · intro item hitem u' hu' hcandidate
    obtain ⟨u, hu, hstaged, hfollows⟩ := hback item hitem u' hu'
    exact h.waiting item hitem u hu (hfollows.was_candidate hcandidate hstaged)
  · intro item hitem hcurator hreplaces u' hu'
    obtain ⟨u, hu, _, hfollows⟩ := hback item hitem u' hu'
    exact hfollows.admitted (h.surgical item hitem hcurator hreplaces u hu)

/-- A new card on a head past staging; a head still waiting may have no other. -/
theorem Cards.card (h : s.Cards) {item : ApprovalQueueItem} {u : MemoryUnit}
    (hs : s.insertItem item = .ok s') (hu : s.units.get? item.candidateMemoryId = some u)
    (hstaged : u.status ≠ .staged) (hpending : item.state = .pending)
    (halone : u.status = .candidate →
      ∀ other ∈ s.items.rows, other.candidateMemoryId ≠ item.candidateMemoryId)
    (hsurgical : item.birthplace.IsCurator → ¬item.verdict.Replaces → ¬u.status.Unadmitted) :
    s'.Cards := by
  obtain ⟨_, _, _, items, hinsert, rfl⟩ := insertItem_eq_ok.mp hs
  obtain ⟨_, rfl⟩ := Table.insert?_eq_some.mp hinsert
  have hmem {P : ApprovalQueueItem → Prop} : (∀ row ∈ s.items.rows ++ [item], P row) ↔
      (∀ row ∈ s.items.rows, P row) ∧ P item := by
    simp only [List.mem_append, List.mem_singleton, or_imp, forall_and, forall_eq]
  constructor <;> dsimp only <;> rw [Table.rows_insert, hmem]
  · exact ⟨h.carried, u, hu, hstaged⟩
  · constructor
    · intro row hrow v hv hcandidate
      obtain ⟨hopen, hunique⟩ := h.waiting row hrow v hv hcandidate
      refine ⟨hopen, hmem.mpr ⟨hunique, fun heq => ?_⟩⟩
      rw [← heq, hu] at hv
      obtain rfl := Option.some.inj hv
      exact absurd heq.symm (halone hcandidate row hrow)
    · intro v hv hcandidate
      obtain rfl := Option.some.inj (hu.symm.trans hv)
      exact ⟨hpending, hmem.mpr
        ⟨fun other hother heq => absurd heq (halone hcandidate other hother), fun _ => rfl⟩⟩
  · refine ⟨h.surgical, fun hcurator hreplaces v hv => ?_⟩
    obtain rfl := Option.some.inj (hu.symm.trans hv)
    exact hsurgical hcurator hreplaces

end Store

namespace Queue

variable {s s' : Store} {item : ApprovalQueueItem} {plan : DecisionPlan}

theorem decisionHeads_forward
    (hamendment : ∀ changes ∈ plan.amendment, changes.status = some .active) :
    (decisionHeads item plan).Forward := by
  intro u command hc
  rcases hc with hreplaced | hon
  · rw [hreplaced.changes]
    exact .inr id
  · obtain ⟨_, _, hcarries⟩ := hon
    generalize command.changes = changes at hcarries ⊢
    cases hcarries with
    | approve | deny | retire | split => exact .inr id
    | repair => exact .inl rfl
    | activate =>
      cases hplan : plan.amendment with
      | none => exact .inr id
      | some changes =>
        rw [Option.getD_some, hamendment changes hplan]
        exact .inr id

/-- Deciding a card keeps the cards: the head it closes on no longer waits. -/
theorem Decided.cards (h : Decided s item plan s') (hs : s.Cards)
    (hitem : s.items.get? item.itemUid = some item)
    (hamendment : ∀ changes ∈ plan.amendment, changes.status = some .active) : s'.Cards := by
  have hheads : HeadsFollow s s' :=
    h.writes.headsFollow fun u c hc => decisionHeads_forward hamendment u c hc
  have hmem := Table.mem_of_get? hitem
  have hsettled : ∀ u', s'.units.get? item.candidateMemoryId = some u' →
      u'.status ≠ .candidate := by
    intro u' hu' hcandidate
    have hclosed : (∃ u, s'.units.get? item.candidateMemoryId = some u ∧
        u.status ≠ .candidate) → False := by
      rintro ⟨u, hu, hne⟩
      obtain rfl := Option.some.inj (hu'.symm.trans hu)
      exact hne hcandidate
    by_cases hcurator : item.birthplace.IsCurator
    · by_cases hreplaces : item.verdict.Replaces
      · exact hclosed (h.closed hamendment hcurator hreplaces)
      · obtain ⟨u, hu, _⟩ := hs.carried item hmem
        obtain ⟨v, hv, hfollows⟩ := hheads hu
        obtain rfl := Option.some.inj (hu'.symm.trans hv)
        exact hs.surgical item hmem hcurator hreplaces u hu (hfollows.candidate hcandidate)
    · obtain ⟨u, hu, hstatus⟩ := h.settled hcurator
      apply hclosed
      refine ⟨u, hu, ?_⟩
      rw [hstatus]
      split <;> simp
  have hkept : Cards { s' with items := s.items } := hs.move hheads rfl
  constructor
  · intro row hrow
    rcases h.mem_rows hitem hrow with ⟨hrow, _⟩ | ⟨_, rfl⟩
    · exact hkept.carried row hrow
    · exact hkept.carried item hmem
  · intro row hrow u' hu' hcandidate
    rcases h.mem_rows hitem hrow with ⟨hold, huid⟩ | ⟨_, rfl⟩
    · obtain ⟨hopen, hunique⟩ := hkept.waiting row hold u' hu' hcandidate
      refine ⟨hopen, fun other hother heq => ?_⟩
      rcases h.mem_rows hitem hother with ⟨hother, _⟩ | ⟨_, rfl⟩
      · exact hunique other hother heq
      · have := hunique item hmem heq
        exact absurd (congrArg ApprovalQueueItem.itemUid this).symm huid
    · exact absurd hcandidate (hsettled u' hu')
  · intro row hrow hcurator hreplaces u' hu'
    rcases h.mem_rows hitem hrow with ⟨hold, _⟩ | ⟨_, rfl⟩
    · exact hkept.surgical row hold hcurator hreplaces u' hu'
    · exact hkept.surgical item hmem hcurator hreplaces u' hu'

/-- Every card was there before, on the same candidate and of the same birth. -/
def NoNewCards (s s' : Store) : Prop :=
  ∀ item ∈ s'.items.rows, ∃ old ∈ s.items.rows,
    old.candidateMemoryId = item.candidateMemoryId ∧ old.birthplace = item.birthplace

theorem Decided.noNewCards (h : Decided s item plan s')
    (hitem : s.items.get? item.itemUid = some item) : NoNewCards s s' := by
  intro row hrow
  rcases h.mem_rows hitem hrow with ⟨hrow, _⟩ | ⟨_, rfl⟩
  · exact ⟨row, hrow, rfl, rfl⟩
  · exact ⟨item, Table.mem_of_get? hitem, rfl, rfl⟩

/-- Deciding a batch brings no head to wait. -/
theorem BatchSteps.candidates {request : QueueDecisionRequest} {rows : List ApprovalQueueItem}
    (h : BatchSteps request s rows s') {id : Uuid} {u' : MemoryUnit}
    (hu' : s'.units.get? id = some u') (hcandidate : u'.status = .candidate) :
    ∃ u, s.units.get? id = some u ∧ u.status = .candidate := by
  induction h generalizing u' with
  | nil => exact ⟨u', hu', hcandidate⟩
  | skip _ ih => exact ih hu' hcandidate
  | @decide s t s' item rest _ hdecided _ ih =>
    obtain ⟨v, hv, hwaiting⟩ := ih hu' hcandidate
    have hforward : (decisionFootprint item ⟨item.itemUid, request, none, none⟩).Forward :=
      fun u c hc => decisionHeads_forward (by simp) u c hc
    exact hdecided.writes.candidates hforward (fun u hu => by simp [hu.1]) hv hwaiting

/-- What each decision of a batch relates, the batch relates. -/
theorem BatchSteps.rel {R : Store → Store → Prop} (refl : ∀ s, R s s)
    (trans : ∀ {s t u}, R s t → R t u → R s u) {request : QueueDecisionRequest}
    (hdecide : ∀ {s t item}, s.Ledger → s.Cards → s.items.get? item.itemUid = some item →
      Decided s item ⟨item.itemUid, request, none, none⟩ t → R s t)
    {rows : List ApprovalQueueItem} (h : BatchSteps request s rows s') (hledger : s.Ledger)
    (hcards : s.Cards) (hrows : ∀ item ∈ rows, s.items.get? item.itemUid = some item)
    (hnodup : (rows.map (·.itemUid)).Nodup) : s'.Ledger ∧ s'.Cards ∧ R s s' := by
  induction h with
  | nil => exact ⟨hledger, hcards, refl _⟩
  | skip _ ih =>
    exact ih hledger hcards (fun item hitem => hrows item (List.mem_cons_of_mem _ hitem))
      (List.nodup_cons.mp hnodup).2
  | @decide s t s' item rest _ hdecided _ ih =>
    simp only [List.map_cons, List.nodup_cons] at hnodup
    have hitem := hrows item (by simp)
    have hcurrent : ∀ other ∈ rest, t.items.get? other.itemUid = some other := by
      intro other hother
      have hne : other.itemUid ≠ item.itemUid := fun heq =>
        hnodup.1 (heq ▸ List.mem_map_of_mem hother)
      rw [(hdecided.frame hne).1]
      exact hrows other (List.mem_cons_of_mem _ hother)
    obtain ⟨hledger', hcards', hrest⟩ := ih (hdecided.ledger hledger (by simp [hitem]))
      (hdecided.cards hcards hitem (by simp)) hcurrent hnodup.2
    exact ⟨hledger', hcards', trans (hdecide hledger hcards hitem hdecided) hrest⟩

theorem NoNewCards.trans {t : Store} (hst : NoNewCards s t) (htu : NoNewCards t s') :
    NoNewCards s s' := by
  intro row hrow
  obtain ⟨mid, hmid, hcandidate, hbirth⟩ := htu row hrow
  obtain ⟨old, hold, hcandidate', hbirth'⟩ := hst mid hmid
  exact ⟨old, hold, hcandidate'.trans hcandidate, hbirth'.trans hbirth⟩

/-- A batch of decisions keeps what each decision keeps. -/
theorem BatchSteps.keeps {request : QueueDecisionRequest} {rows : List ApprovalQueueItem}
    (h : BatchSteps request s rows s') (hledger : s.Ledger) (hcards : s.Cards)
    (hrows : ∀ item ∈ rows, s.items.get? item.itemUid = some item)
    (hnodup : (rows.map (·.itemUid)).Nodup) :
    s'.Ledger ∧ s'.Cards ∧ HeadsFollow s s' ∧ NoNewCards s s' := by
  apply h.rel (R := fun s t => HeadsFollow s t ∧ NoNewCards s t)
    ?_ ?_ ?_ hledger hcards hrows hnodup
  · exact fun s => ⟨HeadsFollow.refl _, fun item hitem => ⟨item, hitem, rfl, rfl⟩⟩
  · rintro s t u ⟨hst, hst'⟩ ⟨htu, htu'⟩
    exact ⟨HeadsFollow.trans hst htu, hst'.trans htu'⟩
  · intro s t item _ _ hitem hdecided
    have hheads : HeadsFollow s t :=
      hdecided.writes.headsFollow fun u c hc => decisionHeads_forward (by simp) u c hc
    exact ⟨hheads, hdecided.noNewCards hitem⟩

end Queue

end Nocturne
