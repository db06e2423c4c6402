import Nocturne.Palace.Lineage
import Nocturne.Queue.Ledger

namespace Nocturne

open Nocturne.Lib Nocturne.Store Nocturne.Memory Nocturne.Queue Nocturne.Curation
  Nocturne.Symphony

variable {w : World} {p q : Palace} {s s' : Store}

/-- Born of a draft that a conversation or a seed document offered. -/
def Birthplace.IsOffered (birthplace : Birthplace) : Prop :=
  ¬birthplace.IsCurator ∧ ¬birthplace.IsSymphony

instance : DecidablePred Birthplace.IsOffered := fun _ => inferInstanceAs (Decidable (_ ∧ _))

/-- What the contracts leave of a card's verdict and targets. -/
structure ApprovalQueueItem.Shaped (item : ApprovalQueueItem) : Prop where
  nodup : ¬item.birthplace.IsSymphony → item.targetIds.Nodup
  offered : item.birthplace.IsOffered → (item.verdict = .new ↔ item.targetIds = [])
  symphony : item.birthplace.IsSymphony → item.verdict = .new
  curated : item.birthplace.IsCurator → item.verdict ≠ .new

theorem ApprovalQueueItem.Shaped.closed {item : ApprovalQueueItem} (h : item.Shaped)
    (state : ItemState) (decidedAt : Option Time) : Shaped { item with state, decidedAt } := by
  obtain ⟨hnodup, hoffered, hsymphony, hcurated⟩ := h
  exact ⟨hnodup, hoffered, hsymphony, hcurated⟩

structure Queue.Admission.Shaped (admission : Admission) : Prop where
  remaining : ∀ draft ∈ admission.remaining, draft.Shape
  unfiled : ∀ unfiled ∈ admission.unfiled, unfiled.draft.Shape

/-- A finding names each head once, and no verdict is a plain admission. -/
structure Curation.CuratorPass.Shaped (pass : CuratorPass) : Prop where
  findings : ∀ finding ∈ pass.unjudged ++ pass.judged.map (·.finding), finding.memoryIds.Nodup
  verdicts : ∀ item ∈ pass.judged, item.action ≠ .act .new

/-- What a request in flight carries of cards to come. -/
def Operation.Shaped : Operation → Prop
  | .seeding request => ∀ draft ∈ request.candidates, draft.Shape
  | .admitting admission => admission.Shaped
  | .curating pass => pass.Shaped
  | _ => True

structure Shaped (p : Palace) : Prop where
  cards : ∀ item ∈ p.store.items.rows, item.Shaped
  ops : ∀ {k : Nat} {op : Operation}, p.ops[k]? = some op → op.Shaped

theorem not_new_of_allowed {kind : FindingKind} {action : CuratorActionName}
    (h : action ∈ allowed kind) : action ≠ .act .new := by
  rintro rfl
  revert h
  cases kind <;> simp [allowed]

section Steps

theorem Shaped.move {φ : Footprint} (h : Shaped p) (hw : Writes φ p.store q.store)
    (hcard : ∀ item, φ.card item → item.Shaped)
    (hops : ∀ {k : Nat} {op : Operation}, q.ops[k]? = some op → p.ops[k]? = some op ∨ op.Shaped) :
    Shaped q where
  cards row hrow := by
    obtain ⟨item, state, decidedAt, rfl, hitem⟩ := hw.card_cases hrow
    exact (hitem.elim (h.cards item) (hcard item)).closed state decidedAt
  ops hop := (hops hop).elim h.ops id

theorem shaped_launch {op new : Operation} {k : Nat} (hnew : new.Shaped)
    (hop : (p.launch s new).ops[k]? = some op) : p.ops[k]? = some op ∨ op.Shaped := by
  rw [Palace.get?_launch] at hop
  split at hop
  · exact .inr (Option.some.inj hop ▸ hnew)
  · exact .inl hop

theorem shaped_become {op new : Operation} {j k : Nat} (hnew : new.Shaped)
    (hop : (p.become j s new).ops[k]? = some op) : p.ops[k]? = some op ∨ op.Shaped := by
  rw [Palace.get?_become] at hop
  split at hop
  · obtain ⟨_, _, rfl⟩ := Option.map_eq_some_iff.mp hop
    exact .inr hnew
  · exact .inl hop

theorem Queue.Admission.Shaped.item {admission : Admission} {unfiled : Unfiled}
    (h : admission.Shaped) (hunfiled : admission.unfiled = some unfiled) :
    (admission.item s unfiled).Shaped := by
  obtain ⟨_, _, _, _, _, _, _, hnodup, hnew⟩ := h.unfiled unfiled hunfiled
  refine ⟨fun _ => hnodup, fun _ => hnew, ?_, ?_⟩
  · cases hsource : admission.source <;>
      simp [Admission.item, Source.birthplace, hsource, Birthplace.IsSymphony]
  · cases hsource : admission.source <;>
      simp [Admission.item, Source.birthplace, hsource, Birthplace.IsCurator]

theorem Queue.IngestStep.shaped {admission : Admission} {next : Option Admission}
    (h : IngestStep s admission next s') (hadmission : admission.Shaped) :
    (next.elim Operation.done .admitting).Shaped ∧
      Writes { Footprint.any with card := ApprovalQueueItem.Shaped } s s' := by
  have hany {φ : Footprint} (hw : Writes φ s s') (hc : ∀ item, ¬φ.card item) :
      Writes { Footprint.any with card := ApprovalQueueItem.Shaped } s s' :=
    hw.mono ⟨fun _ => trivial, fun _ => trivial, fun hitem => absurd hitem (hc _),
      fun _ => trivial, fun _ => trivial, fun _ => trivial, fun _ => trivial⟩
  cases h with
  | @check unfiled _ _ hunfiled =>
    refine ⟨⟨hadmission.remaining, ?_⟩, .refl⟩
    rintro _ ⟨⟩
    exact hadmission.unfiled unfiled hunfiled
  | discard _ _ _ hw => exact ⟨trivial, hany hw fun _ => id⟩
  | file hunfiled _ _ hinsert =>
    refine ⟨⟨hadmission.remaining, by simp⟩, ?_⟩
    exact drawn_quiet.writes.tail (.card (hadmission.item hunfiled) hinsert)
  | duplicate hunfiled hremaining =>
    refine ⟨⟨fun draft hdraft => ?_, by simp [hunfiled]⟩, .refl⟩
    exact hadmission.remaining draft (hremaining ▸ List.mem_cons_of_mem _ hdraft)
  | created hunfiled hremaining hw =>
    refine ⟨⟨fun draft hdraft => ?_, ?_⟩, hany hw fun _ => id⟩
    · exact hadmission.remaining draft (hremaining ▸ List.mem_cons_of_mem _ hdraft)
    · rintro _ ⟨⟩
      exact hadmission.remaining _ (by simp [hremaining])
  | finish _ hquiet => exact ⟨trivial, hquiet.writes⟩

theorem Curation.CuratorPass.Shaped.routed {pass : CuratorPass} (h : pass.Shaped) :
    pass.routed.Shaped where
  findings finding hfinding := by
    apply h.findings finding
    simp only [CuratorPass.routed, List.mem_append, List.mem_map] at hfinding ⊢
    exact hfinding.imp id fun ⟨item, hitem, heq⟩ => ⟨item, List.mem_of_mem_tail hitem, heq⟩
  verdicts item hitem := h.verdicts item (List.mem_of_mem_tail hitem)

theorem Curation.CuratorPass.Shaped.item {pass : CuratorPass} {judged : JudgedFinding}
    {rest : List JudgedFinding} {action : Verdict} {row : MemoryUnit} {neighbors : List Uuid}
    (h : pass.Shaped) (hjudged : pass.judged = judged :: rest)
    (haction : judged.action = .act action) :
    ((enqueueOf pass judged action).item s row neighbors).Shaped := by
  have hnodup : judged.finding.memoryIds.Nodup := h.findings judged.finding (by simp [hjudged])
  refine ⟨fun _ => ?_, by simp [CuratorEnqueue.item, Birthplace.IsOffered, Birthplace.IsCurator],
    by simp [CuratorEnqueue.item, Birthplace.IsSymphony], fun _ hnew => ?_⟩
  · have htargets : (enqueueOf pass judged action).targetIds.Nodup := by
      unfold CuratorEnqueue.targetIds
      split
      · exact hnodup
      · split
        · exact hnodup.sublist (List.tail_sublist _)
        · exact List.nodup_nil
    exact htargets
  · obtain rfl : action = .new := hnew
    exact h.verdicts judged (by simp [hjudged]) haction

theorem Curation.AdvanceStep.shaped {pass : CuratorPass} {next : Option CuratorPass}
    (h : AdvanceStep s pass next s') (hpass : pass.Shaped) :
    (next.elim Operation.done .curating).Shaped ∧
      Writes { Footprint.any with card := ApprovalQueueItem.Shaped } s s' := by
  cases h with
  | skip hunjudged hrest =>
    refine ⟨⟨fun finding hfinding => hpass.findings finding ?_, hpass.verdicts⟩, .refl⟩
    rw [List.mem_append] at hfinding ⊢
    apply hfinding.imp _ id
    rw [hunjudged]
    rcases hrest with rfl | rfl
    · exact List.mem_cons_of_mem _
    · exact nofun
  | judged hunjudged hjudged =>
    have hquiet := hjudged.quiet
    obtain ⟨row, _, item, _, _, _, _, _, hallowed, _, _, hfinding, haction, hpass'⟩ :=
      hjudged.written
    refine ⟨?_, hquiet.writes⟩
    rw [hpass']
    constructor
    · intro finding hf
      simp only [List.mem_append, List.map_append, List.map_cons, List.map_nil,
        List.mem_singleton] at hf
      apply hpass.findings
      rw [hunjudged, List.mem_append]
      rcases hf with hf | hf | rfl
      · exact .inl (List.mem_cons_of_mem _ hf)
      · exact .inr hf
      · exact .inl (by simp [hfinding])
    · intro judged hjudged
      rcases List.mem_append.mp hjudged with hold | hnew
      · exact hpass.verdicts judged hold
      · rw [List.mem_singleton.mp hnew, haction]
        exact not_new_of_allowed hallowed
  | routed => exact ⟨hpass.routed, .refl⟩
  | sourceRead => exact ⟨⟨hpass.findings, hpass.verdicts⟩, .refl⟩
  | candidateRead => exact ⟨⟨hpass.findings, hpass.verdicts⟩, .refl⟩
  | created _ _ _ _ _ hw =>
    refine ⟨⟨hpass.findings, hpass.verdicts⟩, hw.mono ?_⟩
    exact ⟨fun _ => trivial, fun _ => trivial, False.elim, fun _ => trivial, fun _ => trivial,
      fun _ => trivial, fun _ => trivial⟩
  | filed _ hjudged haction _ hinsert =>
    exact ⟨hpass.routed, drawn_quiet.writes.tail (.card (hpass.item hjudged haction) hinsert)⟩
  | persisted => exact ⟨trivial, persistRun_quiet.writes⟩

theorem startExtract_shaped {request : ExtractionRequest} {admission : Admission}
    (h : startExtract request = .ok admission) : admission.Shaped := by
  simp only [startExtract, bind_eq_ok, ensure_eq_ok, pure_eq_ok] at h
  obtain ⟨_, hshape, rfl⟩ := h
  exact ⟨hshape, by simp⟩

theorem validateSeed_shapes {env : Env} {request : SeedRequest} {u : PUnit}
    (h : validateSeed env request = .ok u) : ∀ draft ∈ request.candidates, draft.Shape := by
  simp only [validateSeed, bind_eq_ok, ensure_eq_ok] at h
  obtain ⟨_, hcandidates, _⟩ := h
  exact hcandidates.2.2

theorem seedSource_shaped {env : Env} {request : SeedRequest} {embedding : Embedding}
    {r : Admission × Store} (h : seedSource env s request embedding = .ok r)
    (hrequest : ∀ draft ∈ request.candidates, draft.Shape) : r.1.Shaped := by
  simp only [seedSource, bind_eq_ok, pure_eq_ok] at h
  obtain ⟨_, _, rfl⟩ := h
  exact ⟨hrequest, by simp⟩

theorem Shaped.launched {session : Session} {op : Operation} {t : Store} (h : Shaped p)
    (hquiet : (p.store.begin session).Quiet t) (hop : op.Shaped) : Shaped (p.launch t op) := by
  have hw : Writes {} p.store t := (begin_quiet session).writes.trans hquiet.writes
  exact h.move (q := p.launch t op) hw (fun _ => False.elim) (shaped_launch hop)

theorem Shaped.became {φ : Footprint} {session : Session} {op : Operation} {t : Store} {k : Nat}
    (h : Shaped p) (hw : Writes φ (p.store.begin session) t)
    (hc : ∀ item, φ.card item → item.Shaped) (hop : op.Shaped) : Shaped (p.become k t op) :=
  h.move (q := p.become k t op) ((begin_quiet session).writes.trans hw) hc (shaped_become hop)

theorem Shaped.alone {φ : Footprint} {session : Session} {t : Store} (h : Shaped p)
    (hw : Writes φ (p.store.begin session) t) (hc : ∀ item, φ.card item → item.Shaped) :
    Shaped ⟨t, p.ops⟩ :=
  h.move (q := ⟨t, p.ops⟩) ((begin_quiet session).writes.trans hw) hc .inl

theorem Shaped.startExtract {session : Session} {request : ExtractionRequest} (h : Shaped p)
    (haccepted : (palace w).step p ⟨session, .startExtract request⟩ = .ok q) : Shaped q := by
  simp only [palace, Palace.step, bind_eq_ok, pure_eq_ok] at haccepted
  obtain ⟨admission, hadmission, rfl⟩ := haccepted
  exact h.launched (.refl _) (startExtract_shaped hadmission)

theorem Shaped.startSeed {session : Session} {request : SeedRequest} (h : Shaped p)
    (haccepted : (palace w).step p ⟨session, .startSeed request⟩ = .ok q) : Shaped q := by
  simp only [palace, Palace.step, bind_eq_ok] at haccepted
  obtain ⟨_, hvalid, batch, _, hq⟩ := haccepted
  cases batch with
  | some _ =>
    obtain rfl := pure_eq_ok.mp hq
    have hw : Writes {} (p.store.begin session) (p.store.begin session) := .refl
    exact h.alone hw fun _ => False.elim
  | none =>
    obtain rfl := pure_eq_ok.mp hq
    exact h.launched (.refl _) (validateSeed_shapes hvalid)

theorem Shaped.seedSource {session : Session} {k : Nat} {embedding : Embedding} (h : Shaped p)
    (haccepted : (palace w).step p ⟨session, .seedSource k embedding⟩ = .ok q) : Shaped q := by
  simp only [palace, Palace.step, Palace.inFlight, bind_eq_ok, require_eq_ok, pure_eq_ok,
    Option.bind_eq_some_iff, Operation.seeding?_eq_some] at haccepted
  obtain ⟨request, ⟨_, hop, rfl⟩, ⟨admission, t⟩, hr, rfl⟩ := haccepted
  have hw := (seedSource_meets.of_ok hr).1
  exact h.became hw (fun _ => False.elim) (seedSource_shaped hr (h.ops hop))

/-- Every request begins within its contract, and files cards within it. -/
theorem Shaped.stepped {session : Session} {action : Action} (h : Shaped p)
    (hlineage : p.store.Lineage) (haccepted : (palace w).step p ⟨session, action⟩ = .ok q) :
    Shaped q := by
  have hsame : Writes {} (p.store.begin session) (p.store.begin session) := .refl
  cases stepped_of_step hlineage haccepted with
  | create hw | split hw | stage hw => exact h.alone hw fun _ => False.elim
  | commit _ hw | feedback _ hw => exact h.alone hw fun _ => False.elim
  | resolve hr =>
    rcases hr with ⟨rfl, _⟩ | ⟨t, hresolves, hrouted⟩
    · exact h.alone hsame fun _ => False.elim
    · apply h.alone (hrouted.resolve_writes hresolves)
      rintro item ⟨_, _, hcard⟩
      refine ⟨?_, ?_, fun _ => hcard.verdict, ?_⟩ <;>
        simp [hcard.birthplace, Birthplace.IsSymphony, Birthplace.IsOffered, Birthplace.IsCurator]
  | startExtract => exact h.startExtract haccepted
  | seeded | startSeed => exact h.startSeed haccepted
  | seedSource => exact h.seedSource haccepted
  | startPatch | startDecision | prepare => exact h.launched (.refl _) trivial
  | @startPass principalId =>
    refine h.launched drawn_quiet ⟨fun finding hfinding => ?_, by simp [startPass]⟩
    have hbuild : finding ∈ build w.env w.diagnosis (p.store.begin session) principalId := by
      simpa [startPass] using hfinding
    exact nodup_of_build hbuild
  | patch _ hw | prepareWrite _ _ hw => exact h.became hw (fun _ => False.elim) trivial
  | ingest hop hstep =>
    obtain ⟨hnext, hw⟩ := hstep.shaped (h.ops hop)
    exact h.became hw (fun _ => id) hnext
  | advance hop hstep =>
    obtain ⟨hnext, hw⟩ := hstep.shaped (h.ops hop)
    exact h.became hw (fun _ => id) hnext
  | decide _ _ hr =>
    rcases hr with rfl | hdecided
    · exact h.became hsame (fun _ => False.elim) trivial
    · exact h.became hdecided.writes (fun _ => False.elim) trivial
  | decideBatch hr => exact h.alone hr.files_none fun _ => False.elim
  | abandon => exact h.became hsame (fun _ => False.elim) trivial

theorem shaped_of_reachable (h : (palace w).Reachable p) : Shaped p := by
  refine (Machine.reachable_keeps (I := fun p : Palace => p.store.Lineage ∧ Shaped p) ?_ ?_ h).2
  · rintro _ ⟨configs, rfl⟩
    exact ⟨.empty rfl rfl, fun item hitem => by simp [Store.deployed, Table.empty] at hitem,
      fun hop => by simp at hop⟩
  · rintro p call q ⟨hlineage, hp⟩ hstep
    exact ⟨(writes_of_step hlineage hstep).lineage hlineage, hp.stepped hlineage hstep⟩

end Steps

end Nocturne
