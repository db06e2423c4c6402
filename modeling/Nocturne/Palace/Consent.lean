import Nocturne.Palace.Lineage
import Nocturne.Symphony.Closure

namespace Nocturne

open Nocturne.Lib Nocturne.Store Nocturne.Memory Nocturne.Queue Nocturne.Curation
  Nocturne.Symphony Nocturne.Inject

/-- The replacement a verdict has put in the store and not filed yet. -/
def Curation.Filing.held : Filing → Option Uuid
  | .unread | .sourceRead _ => none
  | .created candidateId _ => some candidateId
  | .candidateRead candidate _ => some candidate.id

/-- The candidate a request has put in the store and not filed yet. -/
def Operation.held : Operation → Option Uuid
  | .admitting admission => admission.unfiled.map (·.memoryId)
  | .curating pass => pass.filing.held
  | _ => none

/-- What a pass holds of the heads it diagnosed: all of them admitted, the one it surgically
names too, and a replacement only for a verdict that replaces. -/
structure Curation.CuratorPass.Sound (pass : CuratorPass) (s : Store) : Prop where
  diagnosed : ∀ finding ∈ pass.unjudged ++ pass.judged.map (·.finding),
    ∀ id ∈ finding.memoryIds, ∃ u, s.units.get? id = some u ∧ ¬u.status.Unadmitted
  source : ∀ source, pass.filing = .sourceRead source →
    ∃ u, s.units.get? source.id = some u ∧ ¬u.status.Unadmitted
  replaces : ∀ id, pass.filing.held = some id → ∃ item rest action,
    pass.judged = item :: rest ∧ item.action = .act action ∧ action.Replaces

/-- What a request in flight may be trusted to carry. -/
def Operation.Sound (s : Store) : Operation → Prop
  | .patching plan => ∀ status ∈ plan.changes.status, ¬status.Unadmitted
  | .deciding plan => ∀ changes ∈ plan.amendment, changes.status = some .active
  | .curating pass => pass.Sound s
  | _ => True

variable {w : World} {p q : Palace} {call : Call} {s s' : Store}

theorem admitted_follows (h : HeadsFollow s s') {id : Uuid}
    (hu : ∃ u, s.units.get? id = some u ∧ ¬u.status.Unadmitted) :
    ∃ u, s'.units.get? id = some u ∧ ¬u.status.Unadmitted := by
  obtain ⟨u, hu, hadmitted⟩ := hu
  obtain ⟨u', hu', hfollows⟩ := h hu
  exact ⟨u', hu', hfollows.admitted hadmitted⟩

theorem Curation.CuratorPass.Sound.move {pass : CuratorPass} (h : pass.Sound s)
    (hheads : HeadsFollow s s') : pass.Sound s' where
  diagnosed finding hfinding id hid := admitted_follows hheads (h.diagnosed finding hfinding id hid)
  source source hsource := admitted_follows hheads (h.source source hsource)
  replaces := h.replaces

theorem Operation.Sound.move {op : Operation} (h : op.Sound s) (hheads : HeadsFollow s s') :
    op.Sound s' := by
  cases op with
  | curating pass => exact CuratorPass.Sound.move h hheads
  | _ => exact h

/-- A head past staging that no card names while it is still a candidate. -/
def Store.Waits (s : Store) (id : Uuid) : Prop :=
  ∃ u, s.units.get? id = some u ∧ u.status ≠ .staged ∧
    (u.status = .candidate → ∀ item ∈ s.items.rows, item.candidateMemoryId ≠ id)

/-- The queue, its decisions, the heads it names and the candidates not filed yet agree. -/
structure Consented (p : Palace) : Prop where
  ledger : p.store.Ledger
  cards : p.store.Cards
  sound : ∀ {k : Nat} {op : Operation}, p.ops[k]? = some op → op.Sound p.store
  held : ∀ {k : Nat} {op : Operation} {id : Uuid}, p.ops[k]? = some op → op.held = some id →
    p.store.Waits id
  apart : ∀ {j k : Nat} {op op' : Operation} {id : Uuid}, p.ops[j]? = some op →
    p.ops[k]? = some op' → op.held = some id → op'.held = some id → j = k

/-- What a transaction of the `k`-th request may do to the rest of the palace. -/
structure Moved (p q : Palace) (k : Nat) : Prop where
  ledger : q.store.Ledger
  cards : q.store.Cards
  heads : HeadsFollow p.store q.store
  ops : ∀ {j}, j ≠ k → q.ops[j]? = p.ops[j]?
  named : ∀ item ∈ q.store.items.rows,
    (∃ old ∈ p.store.items.rows, old.candidateMemoryId = item.candidateMemoryId) ∨
    (∃ op, p.ops[k]? = some op ∧ op.held = some item.candidateMemoryId) ∨
    (∃ u, p.store.units.get? item.candidateMemoryId = some u ∧ u.status = .staged) ∨
    ∃ u, p.store.units.get? item.candidateMemoryId = some u ∧ ¬u.status.Unadmitted

/-- What the `k`-th request may carry on with: a candidate it holds is its own or new. -/
structure Carries (p q : Palace) (k : Nat) (op : Operation) : Prop where
  sound : op.Sound q.store
  held : ∀ {id}, op.held = some id → q.store.Waits id ∧
    ((∃ old, p.ops[k]? = some old ∧ old.held = some id) ∨ p.store.units.get? id = none)

theorem Carries.idle {k : Nat} {op : Operation} (hsound : op.Sound q.store)
    (hheld : op.held = none) : Carries p q k op where
  sound := hsound
  held h := by simp [hheld] at h

theorem Consented.move {k : Nat} (h : Consented p) (hmoved : Moved p q k)
    (hnew : ∀ {op}, q.ops[k]? = some op → Carries p q k op) : Consented q where
  ledger := hmoved.ledger
  cards := hmoved.cards
  sound {j op} hop := by
    by_cases hj : j = k
    · exact (hnew (hj ▸ hop)).sound
    · exact (h.sound (hmoved.ops hj ▸ hop)).move hmoved.heads
  held {j op id} hop hid := by
    by_cases hj : j = k
    · exact ((hnew (hj ▸ hop)).held hid).1
    · have hold := hmoved.ops hj ▸ hop
      obtain ⟨u, hu, hstaged, hfree⟩ := h.held hold hid
      obtain ⟨u', hu', hfollows⟩ := hmoved.heads hu
      refine ⟨u', hu', fun h => hstaged (hfollows.staged h), fun hcandidate => ?_⟩
      have hwas := hfollows.was_candidate hcandidate hstaged
      rintro item hitem rfl
      rcases hmoved.named item hitem with
        ⟨old, hold, heq⟩ | ⟨op', hop', hid'⟩ | ⟨v, hv, hstaged'⟩ | ⟨v, hv, hadmitted⟩
      · exact hfree hwas old hold heq
      · exact hj (h.apart hold hop' hid hid')
      · obtain rfl := Option.some.inj (hu.symm.trans hv)
        exact hstaged hstaged'
      · obtain rfl := Option.some.inj (hu.symm.trans hv)
        simp [hwas, MemoryStatus.Unadmitted] at hadmitted
  apart {j j' op op' id} hop hop' hid hid' := by
    have hother {i i' : Nat} {o o' : Operation} (hi : i = k) (hi' : i' ≠ k)
        (ho : q.ops[i]? = some o) (ho' : q.ops[i']? = some o') (hid : o.held = some id)
        (hid' : o'.held = some id) : False := by
      have hold := hmoved.ops hi' ▸ ho'
      obtain ⟨_, ⟨before, hbefore, hheld⟩ | hfresh⟩ := (hnew (hi ▸ ho)).held hid
      · exact hi' (h.apart hold hbefore hid' hheld)
      · obtain ⟨u, hu, _⟩ := h.held hold hid'
        rw [hfresh] at hu
        cases hu
    by_cases hj : j = k <;> by_cases hj' : j' = k
    · rw [hj, hj']
    · exact (hother hj hj' hop hop' hid hid').elim
    · exact (hother hj' hj hop' hop hid' hid).elim
    · exact h.apart (hmoved.ops hj ▸ hop) (hmoved.ops hj' ▸ hop') hid hid'

section Shapes

/-- A transaction that files and decides nothing, and slips no head back. -/
theorem Moved.of_writes {φ : Footprint} {k : Nat} {session : Session} (h : Consented p)
    (hw : Writes φ (p.store.begin session) q.store) (hφ : φ.Forward) (hc : ∀ item, ¬φ.card item)
    (hd : ∀ d, ¬φ.decision d) (hops : ∀ {j}, j ≠ k → q.ops[j]? = p.ops[j]?) : Moved p q k := by
  have hheads : HeadsFollow p.store q.store := hw.headsFollow hφ
  obtain ⟨hitems, hdecisions⟩ := hw.items_eq hc hd
  refine ⟨h.ledger.congr hitems hdecisions, h.cards.move hheads hitems, hheads, hops, ?_⟩
  intro item hitem
  exact .inl ⟨item, hitems ▸ hitem, rfl⟩

/-- A transaction of no request in flight. -/
theorem Consented.alone (h : Consented p) (hmoved : Moved p ⟨s', p.ops⟩ p.ops.length) :
    Consented ⟨s', p.ops⟩ := by
  apply h.move hmoved
  intro op hop
  simp at hop

theorem Consented.launch {op : Operation} (h : Consented p)
    (hmoved : (∀ {j}, j ≠ p.ops.length → (p.launch s op).ops[j]? = p.ops[j]?) →
      Moved p (p.launch s op) p.ops.length)
    (hnew : Carries p (p.launch s op) p.ops.length op) : Consented (p.launch s op) := by
  apply h.move (hmoved ?_)
  · intro op' hop'
    rw [p.ops_launch] at hop'
    exact Option.some.inj hop' ▸ hnew
  · intro j hj
    simp only [Palace.launch, List.getElem?_append]
    split
    · rfl
    · rw [List.getElem?_eq_none (by simp; omega), List.getElem?_eq_none (by omega)]

theorem Consented.become {k : Nat} {op : Operation} (h : Consented p)
    (hmoved : (∀ {j}, j ≠ k → (p.become k s op).ops[j]? = p.ops[j]?) → Moved p (p.become k s op) k)
    (hnew : Moved p (p.become k s op) k → Carries p (p.become k s op) k op) :
    Consented (p.become k s op) := by
  have hmoved := hmoved fun {j} hj => List.getElem?_set_ne (Ne.symm hj)
  apply h.move hmoved
  intro op' hop'
  simp only [Palace.become, List.getElem?_set_self'] at hop'
  obtain ⟨_, _, rfl⟩ := Option.map_eq_some_iff.mp hop'
  exact hnew hmoved

/-- A request that answers carries nothing on. -/
theorem Consented.done {k : Nat} (h : Consented p)
    (hmoved : (∀ {j}, j ≠ k → (p.become k s .done).ops[j]? = p.ops[j]?) →
      Moved p (p.become k s .done) k) : Consented (p.become k s .done) :=
  h.become hmoved fun _ => .idle trivial rfl

end Shapes

section Forward

theorem forward_of_none {φ : Footprint} (h : ∀ u c, ¬φ.head u c) : φ.Forward :=
  fun u c hc => absurd hc (h u c)

theorem counts_forward {u : MemoryUnit} {changes : MemoryUnitChanges} (h : Counts u changes) :
    changes.status.getD u.status = u.status ∨
      ¬(changes.status.getD u.status).Unadmitted := by
  cases hstatus : changes.status with
  | none => exact .inl rfl
  | some status =>
    rcases h.status status hstatus with rfl | ⟨_, rfl⟩
    · exact .inl rfl
    · exact .inr id

theorem patchFootprint_forward {plan : PatchPlan}
    (h : ∀ status ∈ plan.changes.status, ¬status.Unadmitted) : (patchFootprint plan).Forward := by
  rintro u c ⟨_, _, hc⟩
  rw [hc]
  cases hstatus : plan.changes.status with
  | none => exact .inl rfl
  | some status => exact .inr (h status hstatus)

theorem prepareFootprint_forward {plan : PreparePlan} {injectionId : Uuid} :
    (prepareFootprint plan injectionId).Forward := by
  rintro u c ⟨_, _, _, hc⟩
  rw [hc]
  exact counts_forward (injectedChanges_counts u)

theorem commitFootprint_forward {command : CommitCommand} : (commitFootprint command).Forward :=
  fun _ _ hc => counts_forward hc.2

theorem feedbackFootprint_forward {command : FeedbackCommand} :
    (feedbackFootprint command).Forward :=
  fun _ _ hc => counts_forward hc.2.2

theorem discardFootprint_forward {memoryId : Uuid} : (discardFootprint memoryId).Forward := by
  rintro u c ⟨_, hc⟩
  rw [hc]
  exact .inr id

end Forward

section Steps

theorem Consented.root {φ : Footprint} {session : Session} (h : Consented p)
    (hw : Writes φ (p.store.begin session) s') (hhead : ∀ u c, ¬φ.head u c)
    (hc : ∀ item, ¬φ.card item) (hd : ∀ d, ¬φ.decision d) : Consented ⟨s', p.ops⟩ :=
  h.alone (.of_writes h hw (forward_of_none hhead) hc hd fun _ => rfl)

/-- A new card, on a head that no other card names while it waits. -/
theorem Moved.filed {k : Nat} {item : ApprovalQueueItem} {u : MemoryUnit} {session : Session}
    (h : Consented p) (hs : (p.store.begin session).drawn.insertItem item = .ok q.store)
    (hu : p.store.units.get? item.candidateMemoryId = some u) (hstaged : u.status ≠ .staged)
    (hpending : item.state = .pending)
    (halone : u.status = .candidate →
      ∀ other ∈ p.store.items.rows, other.candidateMemoryId ≠ item.candidateMemoryId)
    (hsurgical : item.birthplace.IsCurator → ¬item.verdict.Replaces → ¬u.status.Unadmitted)
    (hnamed : (∃ op, p.ops[k]? = some op ∧ op.held = some item.candidateMemoryId) ∨
      ¬u.status.Unadmitted)
    (hops : ∀ {j}, j ≠ k → q.ops[j]? = p.ops[j]?) : Moved p q k := by
  have hledger : ((p.store.begin session).drawn).Ledger := h.ledger.congr rfl rfl
  have hcards : ((p.store.begin session).drawn).Cards := h.cards.congr rfl rfl
  have hcards' := hcards.card hs hu hstaged hpending halone hsurgical
  have hledger' := hledger.card hpending hs
  obtain ⟨_, _, _, items, _, hstore⟩ := insertItem_eq_ok.mp hs
  refine ⟨hledger', hcards', HeadsFollow.of_eq (by rw [hstore]; rfl), hops, ?_⟩
  intro row hrow
  rcases (mem_of_insertItem hs).mp hrow with hrow | rfl
  · exact .inl ⟨row, hrow, rfl⟩
  · rcases hnamed with hheld | hadmitted
    · exact .inr (.inl hheld)
    · exact .inr (.inr (.inr ⟨u, hu, hadmitted⟩))

/-- A request that keeps the candidate it held, in a transaction that files nothing. -/
theorem Carries.kept {k : Nat} {old op : Operation} (h : Consented p) (hmoved : Moved p q k)
    (hop : p.ops[k]? = some old) (hsound : op.Sound q.store) (hheld : op.held = old.held)
    (hitems : q.store.items = p.store.items) : Carries p q k op where
  sound := hsound
  held {id} hid := by
    have hid' := hheld ▸ hid
    obtain ⟨u, hu, hstaged, hfree⟩ := h.held hop hid'
    obtain ⟨u', hu', hfollows⟩ := hmoved.heads hu
    refine ⟨⟨u', hu', fun h => hstaged (hfollows.staged h), fun hcandidate => ?_⟩,
      .inl ⟨old, hop, hid'⟩⟩
    rw [hitems]
    exact hfree (hfollows.was_candidate hcandidate hstaged)

/-- A request that has just put a candidate in the store. -/
theorem Carries.born {k : Nat} {op : Operation} {session : Session} {memory : MemoryUnit}
    {command : CreateMemoryCommand} (h : Consented p)
    (hnew : Inserted (p.store.begin session) .candidate command (memory, q.store))
    (hsound : op.Sound q.store) (hheld : op.held = some memory.id)
    (hitems : q.store.items = p.store.items) : Carries p q k op where
  sound := hsound
  held {id} hid := by
    obtain rfl := Option.some.inj (hheld.symm.trans hid)
    refine ⟨⟨memory, hnew.found, ?_, fun _ => ?_⟩, .inr hnew.fresh⟩
    · rw [hnew.status]
      exact nofun
    · rw [hitems]
      intro item hitem heq
      obtain ⟨u, hu, _⟩ := h.cards.carried item hitem
      have hfresh : p.store.units.get? memory.id = none := hnew.fresh
      rw [heq, hfresh] at hu
      cases hu

theorem Consented.ingest {k : Nat} {admission : Admission} {admission' : Option Admission}
    {session : Session} (h : Consented p) (hop : p.ops[k]? = some (.admitting admission))
    (hstep : IngestStep (p.store.begin session) admission admission' s') :
    Consented (p.become k s' (admission'.elim .done .admitting)) := by
  have hidle (op : Operation) : Moved p (p.become k (p.store.begin session) op) k :=
    .of_writes (φ := {}) h .refl (forward_of_none fun _ _ => id) (fun _ => id) (fun _ => id)
      fun hj => List.getElem?_set_ne (Ne.symm hj)
  cases hstep with
  | check hunfiled =>
    exact h.become (fun _ => hidle _) fun hmoved =>
      .kept h hmoved hop trivial (by simp [Operation.held, hunfiled]) rfl
  | discard _ _ _ hw _ =>
    exact h.done (.of_writes h hw discardFootprint_forward (fun _ => id) fun _ => id)
  | @file unfiled _ hunfiled _ _ hinsert =>
    have hheld : (Operation.admitting admission).held = some unfiled.memoryId := by
      simp [Operation.held, hunfiled]
    obtain ⟨u, hu, hstaged, hfree⟩ := h.held hop hheld
    apply h.become
    · apply Moved.filed h hinsert hu hstaged rfl hfree ?_ (.inl ⟨_, hop, hheld⟩)
      intro hcurator
      cases hsource : admission.source <;>
        simp [Admission.item, Source.birthplace, hsource, Birthplace.IsCurator] at hcurator
    · exact fun _ => .idle trivial rfl
  | duplicate hunfiled =>
    exact h.become (fun _ => hidle _) fun hmoved =>
      .kept h hmoved hop trivial (by simp [Operation.held, hunfiled]) rfl
  | created _ _ hw hinserted =>
    have hitems := (hw.items_eq (fun _ => id) fun _ => id).1
    exact h.become (.of_writes h hw (forward_of_none fun _ _ => id) (fun _ => id) fun _ => id)
      fun _ => .born h hinserted trivial rfl hitems
  | finish _ hquiet =>
    have hw : Writes {} (p.store.begin session) s' := hquiet.writes
    exact h.done (.of_writes h hw (forward_of_none fun _ _ => id) (fun _ => id) fun _ => id)

/-- What a pass carries on with is as sound as what it carried: its findings are among those
it had, the head it reads is one it diagnosed, and it creates for a replacing verdict only. -/
theorem Curation.AdvanceStep.sound {pass : CuratorPass} {next : Option CuratorPass}
    (h : AdvanceStep s pass next s') (hsound : pass.Sound s) : ∀ pass' ∈ next, pass'.Sound s' := by
  have hheads : HeadsFollow s s' := h.writes.headsFollow (forward_of_none fun _ _ => id)
  obtain ⟨hdiagnosed, hsource, hreplaces⟩ := hsound.move hheads
  have hfindings {findings : List HealthFinding}
      (hsub : ∀ finding ∈ findings, finding ∈ pass.unjudged ++ pass.judged.map (·.finding)) :
      ∀ finding ∈ findings, ∀ id ∈ finding.memoryIds,
        ∃ u, s'.units.get? id = some u ∧ ¬u.status.Unadmitted :=
    fun finding hfinding => hdiagnosed finding (hsub finding hfinding)
  intro pass' hpass'
  cases h with
  | skip hpass hunjudged =>
    obtain rfl := Option.mem_some_iff.mp hpass'
    refine ⟨hfindings fun finding hfinding => ?_, hsource, hreplaces⟩
    rw [List.mem_append] at hfinding ⊢
    apply hfinding.imp _ id
    rw [hpass]
    rcases hunjudged with rfl | rfl
    · exact List.mem_cons_of_mem _
    · exact nofun
  | judged hpass hjudged =>
    obtain rfl := Option.mem_some_iff.mp hpass'
    obtain ⟨_, _, item, _, _, _, _, _, _, _, _, hfinding, _, hwritten⟩ := hjudged.written
    rw [hwritten]
    refine ⟨hfindings fun finding hf => ?_, hsource, fun id hid => ?_⟩
    · simp only [List.mem_append, List.map_append, List.map_cons, List.map_nil,
        List.mem_singleton] at hf
      rw [hpass, List.mem_append]
      rcases hf with hf | hf | rfl
      · exact .inl (List.mem_cons_of_mem _ hf)
      · exact .inr hf
      · exact .inl (by simp [hfinding])
    · obtain ⟨first, others, action, hfirst, haction⟩ := hreplaces id hid
      exact ⟨first, others ++ [item], action, by simp [hfirst], haction⟩
  | routed | filed =>
    obtain rfl := Option.mem_some_iff.mp hpass'
    refine ⟨hfindings fun finding hfinding => ?_, by simp [CuratorPass.routed],
      by simp [CuratorPass.routed, Filing.held]⟩
    simp only [CuratorPass.routed, List.mem_append, List.mem_map] at hfinding ⊢
    rcases hfinding with hfinding | ⟨item, hitem, heq⟩
    · exact .inl hfinding
    · exact .inr ⟨item, List.mem_of_mem_tail hitem, heq⟩
  | sourceRead _ hjudged _ _ hhead =>
    obtain rfl := Option.mem_some_iff.mp hpass'
    refine ⟨hdiagnosed, fun source hsource => ?_, by simp [Filing.held]⟩
    obtain rfl : _ = source := Filing.sourceRead.inj hsource
    obtain ⟨id, hid, hget⟩ := hhead
    obtain rfl := Table.key_of_get? hget
    exact hdiagnosed _ (by simp [hjudged]) _ (List.mem_of_mem_head? hid)
  | created _ hjudged haction _ hacts =>
    obtain rfl := Option.mem_some_iff.mp hpass'
    exact ⟨hdiagnosed, by simp, fun _ _ => ⟨_, _, _, hjudged, haction, hacts⟩⟩
  | @candidateRead _ _ _ candidateId _ _ _ hjudged haction hfiling =>
    obtain rfl := Option.mem_some_iff.mp hpass'
    exact ⟨hdiagnosed, by simp, fun _ _ => hreplaces candidateId (by rw [hfiling]; rfl)⟩
  | persisted => cases hpass'

theorem Consented.advance {k : Nat} {pass : CuratorPass} {next : Option CuratorPass}
    {session : Session} (h : Consented p) (hop : p.ops[k]? = some (.curating pass))
    (hstep : AdvanceStep (p.store.begin session) pass next s') :
    Consented (p.become k s' (next.elim .done .curating)) := by
  have hsound : pass.Sound p.store := h.sound hop
  have hsound' := hstep.sound (hsound.move (HeadsFollow.of_eq rfl))
  have hquiet {t : Store} (hq : (p.store.begin session).Quiet t) (op : Operation) :
      Moved p (p.become k t op) k :=
    .of_writes (φ := {}) h hq.writes (forward_of_none fun _ _ => id) (fun _ => id) (fun _ => id)
      fun hj => List.getElem?_set_ne (Ne.symm hj)
  have hidle (op : Operation) := hquiet (.refl _) op
  cases hstep with
  | skip =>
    exact h.become (fun _ => hidle _) fun hmoved => .kept h hmoved hop (hsound' _ rfl) rfl rfl
  | judged _ hjudged =>
    obtain ⟨_, _, _, _, _, _, _, _, _, _, _, _, _, hpass'⟩ := hjudged.written
    apply h.become (fun _ => hquiet hjudged.quiet _)
    exact fun hmoved => .kept h hmoved hop (hsound' _ rfl) (by rw [hpass']; rfl) hjudged.quiet.items
  | routed => exact h.become (fun _ => hidle _) fun _ => .idle (hsound' _ rfl) rfl
  | sourceRead => exact h.become (fun _ => hidle _) fun _ => .idle (hsound' _ rfl) rfl
  | created _ _ _ _ _ hw hinserted =>
    have hitems := (hw.items_eq (fun _ => id) fun _ => id).1
    exact h.become (.of_writes h hw (forward_of_none fun _ _ => id) (fun _ => id) fun _ => id)
      fun _ => .born h hinserted (hsound' _ rfl) rfl hitems
  | candidateRead _ _ _ hfiling hget =>
    have hid := Table.key_of_get? hget
    exact h.become (fun _ => hidle _) fun hmoved =>
      .kept h hmoved hop (hsound' _ rfl) (by simp [Operation.held, Filing.held, hfiling, hid]) rfl
  | @filed item rest action row _ _ _ hjudged haction hfiling hinsert =>
    refine h.become (fun hops => ?_) fun _ => .idle (hsound' _ rfl) rfl
    rcases hfiling with ⟨hfiling, hsurgical⟩ | hfiling
    · obtain ⟨u, hu, hadmitted⟩ := hsound.source row hfiling
      apply Moved.filed h hinsert hu ?_ rfl ?_ (fun _ _ => hadmitted) (.inr hadmitted) hops
      · intro hstaged
        exact hadmitted (by simp [hstaged, MemoryStatus.Unadmitted])
      · intro hcandidate
        exact absurd (by simp [hcandidate, MemoryStatus.Unadmitted]) hadmitted
    · have hheld : (Operation.curating pass).held = some row.id := by
        simp [Operation.held, Filing.held, hfiling]
      obtain ⟨u, hu, hstaged, hfree⟩ := h.held hop hheld
      apply Moved.filed h hinsert hu hstaged rfl hfree ?_ (.inl ⟨_, hop, hheld⟩) hops
      intro _ hsurgical
      obtain ⟨_, _, _, hjudged', haction', hreplaces⟩ :=
        hsound.replaces row.id (by rw [hfiling]; rfl)
      rw [hjudged] at hjudged'
      obtain rfl := (List.cons.inj hjudged').1
      rw [haction] at haction'
      exact absurd (CuratorActionName.act.inj haction' ▸ hreplaces) hsurgical
  | persisted => exact h.done fun _ => hquiet persistRun_quiet _

theorem Consented.settles {runId : String} {request : ResolveRunRequest} {session : Session}
    {t : Store} (h : Consented p)
    (hresolves : (p.store.begin session).Resolves (request.resolution runId) t)
    (hrouted : Routed runId request t (lockedRunRows (p.store.begin session) runId) s') :
    Settles runId request p.store (lockedRunRows p.store runId) s' := by
  obtain ⟨_, _, rfl⟩ := hresolves
  obtain ⟨hledger, hcards, hheads, hothers, hsettled, hkept, hfiled⟩ :=
    hrouted.settles_locked (h.ledger.congr rfl rfl) (h.cards.congr rfl rfl)
  exact ⟨hledger, hcards, hheads, hothers, hsettled, hkept, hfiled⟩

theorem Consented.resolve {runId : String} {request : ResolveRunRequest} {session : Session}
    {t : Store} (h : Consented p)
    (hresolves : (p.store.begin session).Resolves (request.resolution runId) t)
    (hrouted : Routed runId request t (lockedRunRows (p.store.begin session) runId) s') :
    Consented ⟨s', p.ops⟩ := by
  have hsettles := h.settles hresolves hrouted
  apply h.alone
  refine ⟨hsettles.ledger, hsettles.cards, hsettles.heads, fun _ => rfl, fun item hitem => ?_⟩
  · rcases hsettles.filed item hitem with hold | ⟨row, hrow, _, hcard⟩
    · exact .inl ⟨item, hold, rfl⟩
    · obtain ⟨hrow, _, hstaged⟩ := mem_lockedRunRows.mp hrow
      have hget := Table.get?_of_mem hrow
      rw [← hcard.candidate] at hget
      exact .inr (.inr (.inl ⟨row, hget, hstaged⟩))

theorem Moved.decided {k : Nat} {item : ApprovalQueueItem} {plan : DecisionPlan}
    {session : Session} (h : Consented p)
    (hitem : (p.store.begin session).items.get? plan.itemUid = some item)
    (hamendment : ∀ changes ∈ plan.amendment, changes.status = some .active)
    (hdecided : Decided (p.store.begin session) item plan q.store)
    (hops : ∀ {j}, j ≠ k → q.ops[j]? = p.ops[j]?) : Moved p q k := by
  have huid := Table.key_of_get? hitem
  rw [← huid] at hitem
  have hledger : (p.store.begin session).Ledger := h.ledger.congr rfl rfl
  have hcards : (p.store.begin session).Cards := h.cards.congr rfl rfl
  have hheads : HeadsFollow p.store q.store :=
    hdecided.writes.headsFollow fun u c hc => decisionHeads_forward hamendment u c hc
  refine ⟨hdecided.ledger hledger (by simp [hitem]), hdecided.cards hcards hitem hamendment, hheads,
    hops, fun row hrow => .inl ?_⟩
  obtain ⟨old, hold, hcandidate, _⟩ := hdecided.noNewCards hitem row hrow
  exact ⟨old, hold, hcandidate⟩

theorem Consented.decide {k : Nat} {item : ApprovalQueueItem} {plan : DecisionPlan}
    {session : Session} (h : Consented p) (hop : p.ops[k]? = some (.deciding plan))
    (hitem : (p.store.begin session).items.get? plan.itemUid = some item)
    (hdecided : s' = p.store.begin session ∨ Decided (p.store.begin session) item plan s') :
    Consented (p.become k s' .done) := by
  apply h.done
  intro hops
  rcases hdecided with rfl | hdecided
  · exact .of_writes (φ := {}) h .refl (forward_of_none fun _ _ => id) (fun _ => id) (fun _ => id)
      hops
  · exact .decided h hitem (h.sound hop) hdecided hops

theorem batchRows_current (s : Store) (batchUid : Uuid) :
    (∀ item ∈ batchRows s batchUid, s.items.get? item.itemUid = some item) ∧
      ((batchRows s batchUid).map (·.itemUid)).Nodup := by
  have hperm := batchRows_perm s batchUid
  constructor
  · intro item hitem
    exact Table.get?_of_mem (List.mem_of_mem_filter (hperm.mem_iff.mp hitem))
  · rw [(hperm.map _).nodup_iff]
    exact s.items.nodup.sublist (List.filter_sublist.map _)

theorem Consented.decideBatch {batchUid : Uuid} {request : QueueDecisionRequest}
    {session : Session} (h : Consented p) (hsteps : BatchSteps request (p.store.begin session)
      (batchRows (p.store.begin session) batchUid) s') : Consented ⟨s', p.ops⟩ := by
  obtain ⟨hcurrent, hnodup⟩ := batchRows_current (p.store.begin session) batchUid
  obtain ⟨hledger, hcards, hheads, hnamed⟩ := hsteps.keeps (h.ledger.congr rfl rfl)
    (h.cards.congr rfl rfl) hcurrent hnodup
  apply h.alone
  refine ⟨hledger, hcards, hheads, fun _ => rfl, fun item hitem => .inl ?_⟩
  obtain ⟨old, hold, hcandidate, _⟩ := hnamed item hitem
  exact ⟨old, hold, hcandidate⟩

theorem Consented.idle {op : Operation} {session : Session} (h : Consented p)
    (hsound : op.Sound p.store) (hheld : op.held = none) :
    Consented (p.launch (p.store.begin session) op) := by
  have hquiet : Writes {} (p.store.begin session) (p.store.begin session) := .refl
  exact h.launch (.of_writes h hquiet (forward_of_none fun _ _ => id) (fun _ => id) fun _ => id)
    (.idle (hsound.move (HeadsFollow.of_eq rfl)) hheld)

/-- A pass begins with findings on active heads, and with no verdict. -/
theorem startPass_sound {s : Store} {principalId machineId : String} :
    (startPass w.env w.diagnosis s principalId machineId).1.Sound s := by
  refine ⟨fun finding hfinding id hid => ?_, by simp [startPass], by simp [startPass, Filing.held]⟩
  have hbuild : finding ∈ build w.env w.diagnosis s principalId := by
    simpa [startPass] using hfinding
  obtain ⟨entry, hentry, rfl⟩ := List.mem_map.mp hid
  obtain ⟨u, hu, _, hactive, heq⟩ := diagnosed_of_build hbuild hentry
  rw [heq]
  exact ⟨u, Table.get?_of_mem hu, by simp [hactive, MemoryStatus.Unadmitted]⟩

theorem Consented.stepped {session : Session} {action : Action} (h : Consented p)
    (hstep : Palace.Stepped w p (p.store.begin session) action q) : Consented q := by
  cases hstep with
  | create hw | split hw | stage hw =>
    exact h.root hw (fun _ _ => id) (fun _ => id) fun _ => id
  | resolve hr =>
    rcases hr with ⟨rfl, _⟩ | ⟨t, hresolves, hrouted⟩
    · exact h.root (φ := {}) .refl (fun _ _ => id) (fun _ => id) fun _ => id
    · exact h.resolve hresolves hrouted
  | startPatch _ hstatus =>
    apply h.idle ?_ rfl
    intro status hstatus'
    rw [hstatus] at hstatus'
    obtain ⟨named, _, rfl⟩ := Option.map_eq_some_iff.mp hstatus'
    cases named <;> exact id
  | patch hop hw =>
    exact h.done (.of_writes h hw (patchFootprint_forward (h.sound hop)) (fun _ => id) fun _ => id)
  | startExtract hunfiled => exact h.idle trivial (by simp [Operation.held, hunfiled])
  | seeded => exact h.root (φ := {}) .refl (fun _ _ => id) (fun _ => id) fun _ => id
  | startSeed => exact h.idle trivial rfl
  | seedSource _ hw hunfiled =>
    exact h.become (.of_writes h hw (forward_of_none fun _ _ => id) (fun _ => id) fun _ => id)
      fun _ => .idle trivial (by simp [Operation.held, hunfiled])
  | ingest hop hstep => exact h.ingest hop hstep
  | startPass =>
    have hquiet : Writes {} (p.store.begin session) (p.store.begin session).drawn :=
      drawn_quiet.writes
    exact h.launch (.of_writes h hquiet (forward_of_none fun _ _ => id) (fun _ => id) fun _ => id)
      (.idle (startPass_sound.move (HeadsFollow.of_eq rfl)) rfl)
  | advance hop hstep => exact h.advance hop hstep
  | startDecision _ _ _ hamendment => exact h.idle hamendment rfl
  | decide hop hitem hr => exact h.decide hop hitem hr
  | decideBatch hr => exact h.decideBatch hr
  | prepare => exact h.idle trivial rfl
  | prepareWrite _ _ hw =>
    exact h.done (.of_writes h hw prepareFootprint_forward (fun _ => id) fun _ => id)
  | commit _ hw =>
    exact h.alone (.of_writes h hw commitFootprint_forward (fun _ => id) (fun _ => id) fun _ => rfl)
  | feedback _ hw =>
    exact h.alone
      (.of_writes h hw feedbackFootprint_forward (fun _ => id) (fun _ => id) fun _ => rfl)
  | abandon =>
    have hquiet : Writes {} (p.store.begin session) (p.store.begin session) := .refl
    exact h.done (.of_writes h hquiet (forward_of_none fun _ _ => id) (fun _ => id) fun _ => id)

end Steps

theorem consented_of_reachable (h : (palace w).Reachable p) : Consented p := by
  refine (Machine.reachable_keeps (I := fun p : Palace => p.store.Lineage ∧ Consented p) ?_ ?_ h).2
  · rintro _ ⟨configs, rfl⟩
    exact ⟨.empty rfl rfl, .empty rfl rfl, .empty rfl, nofun, nofun, nofun⟩
  · rintro p call q ⟨hlineage, hp⟩ hstep
    exact ⟨(writes_of_step hlineage hstep).lineage hlineage,
      hp.stepped (stepped_of_step hlineage hstep)⟩

end Nocturne
