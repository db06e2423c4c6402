import Nocturne.Palace.Enactment
import Nocturne.Store.Growth

namespace Nocturne

open Nocturne.Lib Nocturne.Store Nocturne.Memory Nocturne.Queue Nocturne.Curation
  Nocturne.Symphony Nocturne.Inject

variable {w : World} {p p' : Palace} {env : Env} {s s' t : Store}

section Decisions

/-- An approved replacement: a head that waited comes to succeed active heads of its principal. -/
structure Supplants (s : Store) (candidate : MemoryUnit) (ids : List Uuid) (s' : Store) :
    Prop where
  chronicled : s.Chronicled → s'.Chronicled
  waiting : ids ≠ [] → s.units.get? candidate.id = some candidate ∧ candidate.status = .candidate
  supplanted : ∀ id ∈ ids, ∃ u, s.units.get? id = some u ∧
    u.principalId = candidate.principalId ∧ u.status = .active
  succeeds : ∀ a b, s'.Succeeds a b ↔ s.Succeeds a b ∨ a = candidate.id ∧ b ∈ ids

variable {item : ApprovalQueueItem} {candidate : MemoryUnit} {ids : List Uuid}
  {plan : DecisionPlan}

theorem Supplants.of_grows (candidate : MemoryUnit) (h : Grows s s') :
    Supplants s candidate [] s' where
  chronicled := h.chronicled
  waiting h := absurd rfl h
  supplanted := by simp
  succeeds a b := by simp [h.succeeds]

theorem Supplants.grows (h : Supplants s candidate ids t) (ht : Grows t s') :
    Supplants s candidate ids s' where
  chronicled hs := ht.chronicled (h.chronicled hs)
  waiting := h.waiting
  supplanted := h.supplanted
  succeeds a b := (ht.succeeds a b).trans (h.succeeds a b)

theorem enactTarget_chronicled {machineId : String} {edge : EdgeType} {targetId : Uuid} :
    Meets (fun t => s.Chronicled → t.Chronicled) (fun _ => True)
      (enactTarget item candidate machineId edge s targetId) := by
  refine (meets_any _).bind fun target _ => (meets_any _).bind fun _ _ => ?_
  split
  · refine (cas_growing _).bind fun r hr => (meets_any _).mono fun t ht hs => ?_
    rw [Chronicled, (insertEdge_step ht).revisions]
    exact hr.chronicled hs
  · refine (meets_any _).mono fun t ht hs => ?_
    rwa [Chronicled, (insertEdge_step ht).revisions]

/-- The edge a verdict leaves is one of succession when the verdict replaces. -/
theorem edgeType_isSuccession {verdict : Verdict} {edge : EdgeType}
    (h : edgeType verdict = some edge) : edge.IsSuccession ↔ verdict.Replaces := by
  cases verdict <;> simp_all [edgeType, Verdict.Replaces] <;> subst h <;>
    simp [EdgeType.IsSuccession]

theorem Queue.Implicated.succeeds {edge : EdgeType} (h : Implicated item candidate edge s ids s')
    (a b : Uuid) :
    s'.Succeeds a b ↔ s.Succeeds a b ∨ a = candidate.id ∧ b ∈ ids ∧ edge.IsSuccession := by
  constructor
  · rintro ⟨kind, hkind, hlinked⟩
    rcases (h.linked a b kind).mp hlinked with hold | ⟨ha, hb, rfl⟩
    · exact .inl ⟨kind, hkind, hold⟩
    · exact .inr ⟨ha, hb, hkind⟩
  · rintro (⟨kind, hkind, hold⟩ | ⟨ha, hb, hkind⟩)
    · exact ⟨kind, hkind, (h.linked a b kind).mpr (.inl hold)⟩
    · exact ⟨edge, hkind, (h.linked a b edge).mpr (.inr ⟨ha, hb, rfl⟩)⟩

theorem enactTargets_supplants {machineId : String} (h : s.Lineage)
    (hcandidate : item.verdict.Replaces →
      s.units.get? candidate.id = some candidate ∧ candidate.status = .candidate) :
    Meets (fun t => ∃ ids, Supplants s candidate ids t) (fun _ => True)
      (enactTargets s item candidate machineId) := by
  unfold enactTargets
  split
  · exact .ok ⟨[], .of_grows candidate (.refl s)⟩
  · next edge hedge =>
    have hchronicled : Meets (fun t => s.Chronicled → t.Chronicled) (fun _ => True)
        (item.targetIds.foldlM (enactTarget item candidate machineId edge) s) :=
      Meets.foldlM (fun t ht id _ => enactTarget_chronicled.mono fun _ hu hs => hu (ht hs)) id
    refine hchronicled.self.mono fun t ht => ?_
    obtain ⟨hok, hkeeps⟩ := ht
    have himplicated := enactAll_implicated h hok
    by_cases hreplaces : item.verdict.Replaces
    · refine ⟨item.targetIds, hkeeps, fun _ => hcandidate hreplaces, fun id hid => ?_,
        fun a b => ?_⟩
      · obtain ⟨⟨u, hu, hprincipal, hactive⟩, _⟩ := himplicated.before id hid
        exact ⟨u, hu, hprincipal, hactive⟩
      · simp [himplicated.succeeds, edgeType_isSuccession hedge, hreplaces]
    · refine ⟨[], hkeeps, fun hnil => absurd rfl hnil, by simp, fun a b => ?_⟩
      simp [himplicated.succeeds, edgeType_isSuccession hedge, hreplaces]

theorem enactCurator_supplants {findingUid : Ulid} {payload : Proposal} (h : s.Lineage)
    (hfound : s.units.get? candidate.id = some candidate) :
    Meets (fun t => ∃ ids, Supplants s candidate ids t) (fun _ => True)
      (enactCurator env s item candidate findingUid payload plan) := by
  have hgrows {m : Except SpineError Store} (hm : GrowingTo s m) :
      Meets (fun t => ∃ ids, Supplants s candidate ids t) (fun _ => True) m :=
    hm.mono fun t ht => ⟨[], .of_grows candidate ht⟩
  have hreplace : Meets (fun t => ∃ ids, Supplants s candidate ids t) (fun _ => True) (do
      ensure (candidate.status = .candidate)
        (.queueConflict "curator replacement is no longer pending")
      let s ← enactTargets s item candidate plan.request.machineId
      curatorCas s candidate plan.request.machineId findingUid "activate"
        (plan.amendment.getD { status := some .active })) := by
    refine (Meets.ensure trivial).bind fun _ hstatus => ?_
    refine (enactTargets_supplants h fun _ => ⟨hfound, hstatus⟩).bind fun t ht => ?_
    obtain ⟨ids, ht⟩ := ht
    exact curatorCas_growing.mono fun u hu => ⟨ids, ht.grows hu⟩
  unfold enactCurator
  dsimp only
  split
  · exact hreplace
  · exact hreplace
  · next hverdict =>
    refine (meets_any _).bind fun _ _ => enactTargets_supplants h fun hreplaces => ?_
    rcases hreplaces with hreplaces | hreplaces
    · exact absurd (hverdict.symm.trans hreplaces) nofun
    · exact absurd (hverdict.symm.trans hreplaces) nofun
  · exact hgrows curatorCas_growing
  · exact (meets_any _).bind fun _ _ => hgrows curatorCas_growing
  · exact (meets_any _).bind fun _ _ => hgrows enactCuratorSplit_growing
  · exact .error trivial

theorem decideRow_supplants (h : s.Lineage) :
    Meets (fun r => r.2 = s ∨ ∃ candidate ids, Supplants s candidate ids r.2) (fun _ => True)
      (decideRow env s item plan) := by
  have hclose {t : Store} {candidate : MemoryUnit} {ids : List Uuid}
      (ht : Supplants s candidate ids t) : Meets
        (fun r : QueueDecisionResponse × Store =>
          r.2 = s ∨ ∃ candidate ids, Supplants s candidate ids r.2)
        (fun _ => True) (close env t item plan.request) :=
    close_growing.mono fun r hr => .inr ⟨candidate, ids, ht.grows hr⟩
  have hcandidate {candidate : MemoryUnit} (hfound : s.units.get? candidate.id = some candidate) :
      Meets (fun r => r.2 = s ∨ ∃ candidate ids, Supplants s candidate ids r.2) (fun _ => True)
        (decideCandidate env s item candidate plan.request) := by
    refine (Meets.ensure trivial).bind fun _ hstatus => ?_
    have henact : Meets (fun r : MemoryUnitChanges × Store => ∃ ids, Supplants s candidate ids r.2)
        (fun _ => True) (enactCandidate env s item candidate plan.request) := by
      unfold enactCandidate
      split
      · exact .ok ⟨[], .of_grows candidate (.refl s)⟩
      · refine (enactTargets_supplants h fun _ => ⟨hfound, hstatus⟩).bind fun t ht => ?_
        exact (meets_any _).bind fun _ _ => .pure ht
    refine henact.bind fun r hr => (cas_growing _).bind fun r' hr' => ?_
    obtain ⟨ids, hids⟩ := hr
    exact hclose (hids.grows hr')
  unfold decideRow
  split
  · exact (meets_any _).bind fun _ _ => .pure (.inl rfl)
  · refine (meets_any _).bind fun _ _ => lockedMemory_meets.weaken (fun _ _ => trivial) |>.bind
      fun candidate hlocked => ?_
    have hfound : s.units.get? candidate.id = some candidate := by
      rw [Table.key_of_get? hlocked, hlocked]
    split
    · refine (meets_any _).bind fun _ _ => (meets_any _).bind fun _ _ => ?_
      dsimp only
      split
      · split
        · exact curatorCas_growing.bind fun t ht => hclose (.of_grows candidate ht)
        · exact Meets.bind (.ok (.of_grows candidate (.refl s))) fun t ht => hclose ht
      · refine (enactCurator_supplants h hfound).bind fun t ht => ?_
        obtain ⟨ids, ht⟩ := ht
        exact hclose ht
    all_goals exact hcandidate hfound

end Decisions

section Order

/-- The palace's history has a direction: revision rows are written after the rows they name,
and replacing runs one way, from a head to admitted heads of its principal. -/
structure Ordered (s : Store) : Prop where
  chronicled : s.Chronicled
  acyclic : Acyclic s.Succeeds
  replaced : ∀ a b, s.Succeeds a b → ∃ u v, s.units.get? a = some u ∧
    s.units.get? b = some v ∧ v.principalId = u.principalId ∧ ¬v.status.Unadmitted

/-- Heads stay, under their owner, and none goes back to waiting. -/
def HeadsStay (s s' : Store) : Prop :=
  ∀ id u, s.units.get? id = some u → ∃ u', s'.units.get? id = some u' ∧
    u'.principalId = u.principalId ∧ u.status.Follows u'.status

theorem HeadsStay.of_heads {φ : Footprint} (h : Writes φ s s') (hheads : HeadsFollow s s') :
    HeadsStay s s' := by
  intro id u hu
  obtain ⟨u', hu', hdescends⟩ := h.descends hu
  obtain ⟨v, hv, hfollows⟩ := hheads hu
  obtain rfl := Option.some.inj (hu'.symm.trans hv)
  exact ⟨u', hu', hdescends.principalId, hfollows⟩

theorem HeadsStay.of_writes {φ : Footprint} (h : Writes φ s s') (hφ : φ.Forward) :
    HeadsStay s s' :=
  .of_heads h (h.headsFollow hφ)

theorem Ordered.empty (hrevisions : s.revisions = .empty) (hedges : s.edges = .empty) :
    Ordered s := by
  have hnone (a b : Uuid) : ¬s.Succeeds a b := by
    rintro ⟨_, _, e, he, _⟩
    rw [hedges] at he
    exact absurd he List.not_mem_nil
  refine ⟨?_, fun a ha => ?_, fun a b hab => absurd hab (hnone a b)⟩
  · rw [Chronicled, hrevisions]
    exact .nil
  · obtain ⟨b, hab, _⟩ := Relation.TransGen.head'_iff.mp ha
    exact hnone a b hab

theorem Ordered.replaced_stay (h : Ordered s) (hstay : HeadsStay s s') {a b : Uuid}
    (hab : s.Succeeds a b) : ∃ u v, s'.units.get? a = some u ∧ s'.units.get? b = some v ∧
      v.principalId = u.principalId ∧ ¬v.status.Unadmitted := by
  obtain ⟨u, v, hu, hv, howner, hadmitted⟩ := h.replaced a b hab
  obtain ⟨u', hu', hu, _⟩ := hstay a u hu
  obtain ⟨v', hv', hv, hfollows⟩ := hstay b v hv
  exact ⟨u', v', hu', hv', by rw [hv, howner, hu], hfollows.admitted hadmitted⟩

theorem Ordered.grow (h : Ordered s) (hgrows : Grows s s') (hstay : HeadsStay s s') :
    Ordered s' where
  chronicled := hgrows.chronicled h.chronicled
  acyclic := h.acyclic.congr hgrows.succeeds
  replaced a b hab := h.replaced_stay hstay ((hgrows.succeeds a b).mp hab)

/-- A head that still waits replaces nothing that leads back to it. -/
theorem Ordered.supplant {candidate : MemoryUnit} {ids : List Uuid} (h : Ordered s)
    (hnew : Supplants s candidate ids s') (hstay : HeadsStay s s') : Ordered s' := by
  have hchronicled := hnew.chronicled h.chronicled
  by_cases hids : ids = []
  · subst hids
    exact h.grow ⟨hnew.chronicled, fun a b => by simp [hnew.succeeds]⟩ hstay
  · obtain ⟨hfound, hwaiting⟩ := hnew.waiting hids
    have hlast : ∀ a, ¬s.Succeeds a candidate.id := by
      intro a ha
      obtain ⟨_, v, _, hv, _, hadmitted⟩ := h.replaced a _ ha
      obtain rfl := Option.some.inj (hfound.symm.trans hv)
      exact hadmitted (by simp [hwaiting, MemoryStatus.Unadmitted])
    have hself : candidate.id ∉ ids := by
      intro hmem
      obtain ⟨v, hv, _, hactive⟩ := hnew.supplanted _ hmem
      obtain rfl := Option.some.inj (hfound.symm.trans hv)
      simp [hwaiting] at hactive
    refine ⟨hchronicled, h.acyclic.fan hlast hself hnew.succeeds, fun a b hab => ?_⟩
    rcases (hnew.succeeds a b).mp hab with hold | ⟨rfl, hmem⟩
    · exact h.replaced_stay hstay hold
    · obtain ⟨v, hv, howner, hactive⟩ := hnew.supplanted b hmem
      obtain ⟨u', hu', hu, _⟩ := hstay _ _ hfound
      obtain ⟨v', hv', hv, hfollows⟩ := hstay b v hv
      refine ⟨u', v', hu', hv', by rw [hv, howner, hu], hfollows.admitted ?_⟩
      simp [hactive, MemoryStatus.Unadmitted]

end Order

section Steps

theorem Ordered.decided {item : ApprovalQueueItem} {plan : DecisionPlan}
    {r : QueueDecisionResponse × Store} (h : Ordered s) (hlineage : s.Lineage)
    (hamendment : ∀ changes ∈ plan.amendment, changes.status = some .active)
    (hok : decideRow env s item plan = .ok r) : Ordered r.2 := by
  rcases (decideRow_supplants hlineage).of_ok hok with heq | ⟨candidate, ids, hnew⟩
  · rwa [heq]
  · rcases (decideRow_meets hlineage).of_ok hok with heq | hdecided
    · rwa [heq]
    · exact h.supplant hnew (.of_writes hdecided.writes fun u c hc =>
        decisionHeads_forward hamendment u c hc)

theorem Ordered.decideBatchRow {request : QueueDecisionRequest} {item : ApprovalQueueItem}
    (h : Ordered s) (hlineage : s.Lineage) {r : QueueCard × Store}
    (hok : decideBatchRow env request item s = .ok r) : Ordered r.2 ∧ r.2.Lineage := by
  unfold Queue.decideBatchRow at hok
  split at hok
  · simp only [bind_eq_ok, pure_eq_ok] at hok
    obtain ⟨⟨_, t⟩, hdecide, rfl⟩ := hok
    refine ⟨h.decided hlineage (by simp) hdecide, ?_⟩
    rcases (decideRow_meets hlineage).of_ok hdecide with heq | hdecided
    · rwa [heq]
    · exact hdecided.writes.lineage hlineage
  · simp only [bind_eq_ok, pure_eq_ok] at hok
    obtain ⟨_, _, rfl⟩ := hok
    exact ⟨h, hlineage⟩

theorem Ordered.decideBatchRows {request : QueueDecisionRequest} {rows : List ApprovalQueueItem}
    (h : Ordered s) (hlineage : s.Lineage) {r : List QueueCard × Store}
    (hok : decideBatchRows env request s rows = .ok r) : Ordered r.2 := by
  induction rows generalizing s r with
  | nil =>
    obtain rfl := Except.ok.inj hok
    exact h
  | cons item rest ih =>
    simp only [Queue.decideBatchRows, bind_eq_ok, pure_eq_ok] at hok
    obtain ⟨⟨_, t⟩, hrow, ⟨_, u⟩, hrest, rfl⟩ := hok
    obtain ⟨ht, hlineage'⟩ := h.decideBatchRow hlineage hrow
    have hrest := ih ht hlineage' hrest
    exact hrest

theorem Ordered.transact {α : Type} {φ : Footprint} {m : Except SpineError (α × Store)}
    (h : Ordered s) (hgrows : Growing s m)
    (hw : Meets (fun r => Writes φ s r.2) SpineError.Lineaged m) (hφ : φ.Forward) :
    Meets (fun r => Ordered r.2) (fun _ => True) m :=
  (meets_any m).mono fun _ hr => h.grow (hgrows.of_ok hr) (.of_writes (hw.of_ok hr) hφ)

/-- A request in flight is one of those the palace holds. -/
theorem inFlight_found {α : Type} {k : Nat} {f : Operation → Option α} :
    Meets (fun a => ∃ op, p.ops[k]? = some op ∧ f op = some a) (fun _ => True)
      (p.inFlight k f) :=
  Palace.inFlight_meets.weaken fun _ _ => trivial

theorem Ordered.step {call : Call} (h : Ordered p.store) (hlineage : p.store.Lineage)
    (hconsented : Consented p) :
    Meets (fun q => Ordered q.store) (fun _ => True) (p.step w call) := by
  have hs : Ordered (p.store.begin call.session) :=
    h.grow (.of_eq rfl rfl) fun _ u hu => ⟨u, hu, rfl, .refl _⟩
  have hl : (p.store.begin call.session).Lineage := hlineage.congr rfl rfl
  obtain ⟨session, action⟩ := call
  cases action with
  | create =>
    exact (hs.transact create_growing create_meets (forward_of_none fun _ _ => id)).bind
      fun _ hr => .pure hr
  | split =>
    exact (hs.transact split_growing split_meets (forward_of_none fun _ _ => id)).bind
      fun _ hr => .pure hr
  | stage =>
    exact (hs.transact stageSymphony_growing stageSymphony_meets
      (forward_of_none fun _ _ => id)).bind fun _ hr => .pure hr
  | resolve runId request =>
    refine resolve_growing.self.bind fun t ht => .pure ?_
    refine hs.grow ht.2 ?_
    rcases (resolve_meets hl).of_ok ht.1 with ⟨heq, _⟩ | ⟨u, hresolves, hrouted⟩
    · rw [heq]
      exact fun _ u hu => ⟨u, hu, rfl, .refl _⟩
    · exact .of_heads (hrouted.resolve_writes hresolves)
        (hconsented.settles hresolves hrouted).heads
  | startPatch => exact (meets_any _).bind fun _ _ => .pure hs
  | patch k =>
    refine inFlight_found.bind fun plan hop => ?_
    obtain ⟨_, hop, hplan⟩ := hop
    obtain rfl := Operation.patching?_eq_some.mp hplan
    exact (hs.transact patch_growing (patch_meets hl)
      (patchFootprint_forward (hconsented.sound hop))).bind fun _ hr => .pure hr
  | startExtract => exact (meets_any _).bind fun _ _ => .pure hs
  | startSeed =>
    refine (meets_any _).bind fun _ _ => (meets_any _).bind fun batch _ => ?_
    split
    · exact .pure hs
    · exact .pure hs
  | seedSource k =>
    refine inFlight_found.bind fun _ _ => ?_
    exact (hs.transact seedSource_growing (seedSource_meets.mono fun _ hr => hr.1)
      (forward_of_none fun _ _ => id)).bind fun _ hr => .pure hr
  | ingest k =>
    refine inFlight_found.bind fun admission _ => ?_
    refine (hs.transact ingest_growing ((ingest_meets hl).mono fun _ hr => hr.writes) ?_).bind
      fun _ hr => .pure hr
    rintro u c ⟨_, hc⟩
    rw [hc]
    exact .inr id
  | startPass =>
    refine (meets_any _).bind fun _ _ => .pure ?_
    exact hs.grow (.of_eq rfl rfl) fun _ u hu => ⟨u, hu, rfl, .refl _⟩
  | advance k =>
    refine inFlight_found.bind fun pass _ => ?_
    exact (hs.transact advance_growing (advance_meets.mono fun _ hr => hr.writes)
      (forward_of_none fun _ _ => id)).bind fun _ hr => .pure hr
  | startDecision => exact (meets_any _).bind fun _ _ => .pure hs
  | decide k =>
    refine inFlight_found.bind fun plan hop => ?_
    obtain ⟨_, hop, hplan⟩ := hop
    obtain rfl := Operation.deciding?_eq_some.mp hplan
    refine Meets.bind (Q := fun r => Ordered r.2) ?_ fun _ hr => .pure hr
    refine (meets_any _).bind fun item _ => (meets_any _).mono fun r hr => ?_
    exact hs.decided hl (hconsented.sound hop) hr
  | decideBatch =>
    refine Meets.bind (Q := fun r => Ordered r.2) ?_ fun _ hr => .pure hr
    refine (meets_any _).bind fun _ _ => (meets_any _).bind fun _ _ => ?_
    refine (meets_any _).bind fun _ _ => (meets_any _).bind fun _ _ => ?_
    exact (meets_any _).mono fun r hr => hs.decideBatchRows hl hr
  | prepare => exact (meets_any _).bind fun _ _ => .pure hs
  | prepareWrite k =>
    refine inFlight_found.bind fun plan _ => ?_
    refine Meets.bind (Q := fun r => Ordered r.2) ((meets_any _).mono fun r hr => ?_)
      fun _ hr => .pure hr
    exact hs.grow (prepareWrite_growing.of_ok hr)
      (.of_writes ((prepareWrite_meets hl).of_ok hr) prepareFootprint_forward)
  | commit =>
    exact (hs.transact commit_growing (commit_meets hl) commitFootprint_forward).bind
      fun _ hr => .pure hr
  | feedback =>
    refine feedback_growing.self.bind fun t ht => .pure ?_
    exact hs.grow ht.2 (.of_writes ((feedback_meets hl).of_ok ht.1) feedbackFootprint_forward)
  | abandon => exact .ok hs

end Steps

theorem ordered_of_reachable (h : (palace w).Reachable p) : Ordered p.store := by
  refine (Machine.reachable_keeps
    (I := fun p : Palace => p.store.Lineage ∧ Consented p ∧ Ordered p.store) ?_ ?_ h).2.2
  · rintro _ ⟨configs, rfl⟩
    exact ⟨.empty rfl rfl, ⟨.empty rfl rfl, .empty rfl, nofun, nofun, nofun⟩, .empty rfl rfl⟩
  · rintro p call q ⟨hlineage, hconsented, hordered⟩ hstep
    exact ⟨(writes_of_step hlineage hstep).lineage hlineage,
      hconsented.stepped (stepped_of_step hlineage hstep),
      (hordered.step hlineage hconsented).of_ok hstep⟩

/-- The revision rows of a palace are a forest, children of a split hanging off the rows of
other memories: no row descends from itself, and every row descends, parent by parent, from
exactly one row without a parent, the first of its memory. -/
theorem revision_forest (h : (palace w).Reachable p) :
    Acyclic (Names MemoryRevision.revUid MemoryRevision.parentUid p.store.revisions.rows) ∧
    ∀ r ∈ p.store.revisions.rows, ∃! root, root ∈ p.store.revisions.rows ∧
      root.parentUid = none ∧ root.revision = 1 ∧
        Descent MemoryRevision.revUid MemoryRevision.parentUid p.store.revisions.rows r root := by
  have hchronicled := (ordered_of_reachable h).chronicled
  have hlineage := lineage_of_reachable h
  have hkeys := p.store.revisions.nodup
  refine ⟨hchronicled.acyclic hkeys, fun r hr => ?_⟩
  obtain ⟨root, ⟨hroot, hnone, hpath⟩, honly⟩ := hchronicled.root_unique hkeys hr
  have hfirst : root.revision = 1 := by
    obtain ⟨u, hu⟩ := Option.isSome_iff_exists.mp (hlineage.owned root hroot)
    have hchained := hlineage.chained (Table.mem_of_get? hu)
    have hmemory : root.memoryId = u.id := (Table.key_of_get? hu).symm
    have hpositive := (hchained.within root hroot hmemory).1
    by_contra hne
    obtain ⟨_, _, hparent, _⟩ := hchained.parent root hroot hmemory (by omega)
    exact absurd (hnone.symm.trans hparent) nofun
  refine ⟨root, ⟨hroot, hnone, hfirst, hpath⟩, ?_⟩
  rintro other ⟨hother, hnone', _, hpath'⟩
  exact honly other ⟨hother, hnone', hpath'⟩

/-- Following replacements never leads back to a head already replaced, and what a head
replaced is a head of the same principal that has been admitted. -/
theorem succession_acyclic (h : (palace w).Reachable p) :
    Acyclic p.store.Succeeds ∧
    ∀ a b, p.store.Succeeds a b → ∃ u v, p.store.units.get? a = some u ∧
      p.store.units.get? b = some v ∧ v.principalId = u.principalId ∧ ¬v.status.Unadmitted :=
  ⟨(ordered_of_reachable h).acyclic, (ordered_of_reachable h).replaced⟩

/-- The owner approves a replacement of a memory. -/
def supersededPalace : Palace :=
  (palace similarWorld).run ⟨.deployed .empty, []⟩
    (implicatedCalls .supersede ++ [⟨⟨7, [60, 61, 62, 63]⟩, .decide 1⟩])

theorem supersededPalace_reachable : (palace similarWorld).Reachable supersededPalace :=
  ⟨_, _, ⟨_, rfl⟩, rfl⟩

theorem succession_acyclic_superseded : supersededPalace.store.Succeeds 8 7 ∧
    ¬supersededPalace.store.Succeeds 7 8 := by
  have hacyclic := (succession_acyclic supersededPalace_reachable).1
  have hforward : supersededPalace.store.Succeeds 8 7 := ⟨.supersedes, trivial, by decide +kernel⟩
  exact ⟨hforward, fun hback => hacyclic 8 (.tail (.single hforward) hback)⟩

/-- A memory told apart into two. -/
def familyPalace : Palace :=
  (palace default).run ⟨.deployed .empty, []⟩
    [⟨⟨1, [7, 70, 8, 80, 9, 90]⟩, .split
      { principalId := "owner"
        sourceBody := "drinks tea and coffee"
        children := [⟨"tea", "drinks tea", ["drink", "tea"]⟩,
          ⟨"coffee", "drinks coffee", ["coffee", "drink"]⟩]
        editor := "user"
        machineId := "m" } [1] [[2], [3]]⟩]

theorem revision_forest_family : ∃ r ∈ familyPalace.store.revisions.rows,
    ∃ root ∈ familyPalace.store.revisions.rows, root.memoryId ≠ r.memoryId ∧
      root.revision = 1 ∧ Descent MemoryRevision.revUid MemoryRevision.parentUid
        familyPalace.store.revisions.rows r root := by
  have hchild : ∃ r ∈ familyPalace.store.revisions.rows, r.memoryId ≠ 7 ∧
      ∀ q ∈ familyPalace.store.revisions.rows, q.parentUid = none → q.memoryId = 7 := by
    decide +kernel
  obtain ⟨r, hr, hmemory, hroots⟩ := hchild
  obtain ⟨root, ⟨hroot, hnone, hfirst, hpath⟩, _⟩ :=
    (revision_forest (w := default) (p := familyPalace) ⟨_, _, ⟨_, rfl⟩, rfl⟩).2 r hr
  refine ⟨r, hr, root, hroot, ?_, hfirst, hpath⟩
  rw [hroots root hroot hnone]
  exact hmemory.symm

end Nocturne
