import Nocturne.Curation.Review
import Nocturne.Palace.Orphans

namespace Nocturne

open Nocturne.Lib Nocturne.Store Nocturne.Memory Nocturne.Queue Nocturne.Curation
  Nocturne.Symphony

variable {w : World} {p q : Palace} {s s' : Store}

section Steps

/-- The card a pass files on the verdict in hand. -/
structure Files (s : Store) (pass : CuratorPass) (item : JudgedFinding) (row : ApprovalQueueItem) :
    Prop where
  unjudged : pass.unjudged = []
  judged : ∃ rest, pass.judged = item :: rest
  written : ∃ verdict source neighbors, item.action = .act verdict ∧
    (pass.filing = .sourceRead source ∧ ¬verdict.Replaces ∨
      pass.filing = .candidateRead source neighbors) ∧
    row = (enqueueOf pass item verdict).item s source neighbors

/-- The card was there before, and as it is now if it still waits. -/
def Store.Had (s : Store) (row : ApprovalQueueItem) : Prop :=
  ∃ old ∈ s.items.rows, (∃ state decidedAt, row = { old with state, decidedAt }) ∧
    (row.state = .pending → row = old)

theorem Store.Writes.had {φ : Footprint} (h : Writes φ s s')
    (hc : ∀ item, φ.card item → ¬item.birthplace.IsCurator) {row : ApprovalQueueItem}
    (hrow : row ∈ s'.items.rows) (hcurator : row.birthplace.IsCurator) : s.Had row := by
  by_cases hopen : row.state = .pending
  · have hold := (h.pending_cases hrow hopen).resolve_right fun hnew => hc row hnew hcurator
    exact ⟨row, hold, ⟨row.state, row.decidedAt, rfl⟩, fun _ => rfl⟩
  · obtain ⟨old, state, decidedAt, rfl, hold | hnew⟩ := h.card_cases hrow
    · exact ⟨old, hold, ⟨state, decidedAt, rfl⟩, fun hpending => absurd hpending hopen⟩
    · exact absurd hcurator (hc old hnew)

/-- A curator card was there before, or a pass has just filed it. -/
theorem Palace.Stepped.filed {action : Action} (h : Palace.Stepped w p s action q)
    {row : ApprovalQueueItem} (hrow : row ∈ q.store.items.rows)
    (hcurator : row.birthplace.IsCurator) : s.Had row ∨
      ∃ k draft embedding pass item, action = .advance k draft embedding ∧
        p.ops[k]? = some (.curating pass) ∧ q.ops[k]? = some (.curating pass.routed) ∧
        Files s pass item row := by
  have hidle (hrow : row ∈ s.items.rows) : s.Had row :=
    ⟨row, hrow, ⟨row.state, row.decidedAt, rfl⟩, fun _ => rfl⟩
  cases h with
  | create hw | split hw | stage hw | patch _ hw | seedSource _ hw | prepareWrite _ _ hw
    | commit _ hw | feedback _ hw =>
    exact .inl (hw.had (fun _ => False.elim) hrow hcurator)
  | startPatch | startExtract | seeded | startSeed | startPass | startDecision | prepare
    | abandon => exact .inl (hidle hrow)
  | resolve hr =>
    rcases hr with ⟨rfl, _⟩ | ⟨t, hresolves, hrouted⟩
    · exact .inl (hidle hrow)
    · refine .inl ((hrouted.resolve_writes hresolves).had ?_ hrow hcurator)
      rintro item ⟨_, _, hcard⟩ hborn
      simp [hcard.birthplace, Birthplace.IsCurator] at hborn
  | ingest _ hstep =>
    refine .inl (hstep.writes.had ?_ hrow hcurator)
    rintro item ⟨_, _, _, hbirth, _⟩ hborn
    rw [hbirth] at hborn
    unfold Source.birthplace at hborn
    split at hborn <;> exact hborn
  | decide _ _ hr =>
    rcases hr with rfl | hdecided
    · exact .inl (hidle hrow)
    · exact .inl (hdecided.writes.had (fun _ => False.elim) hrow hcurator)
  | decideBatch hr => exact .inl (hr.files_none.had (fun _ => False.elim) hrow hcurator)
  | @advance k draft embedding pass next t hop hstep =>
    cases hstep with
    | skip | routed | sourceRead | candidateRead => exact .inl (hidle hrow)
    | judged _ hjudged =>
      exact .inl ((hjudged.quiet.writes (φ := {})).had (fun _ => False.elim) hrow hcurator)
    | created _ _ _ _ _ hw => exact .inl (hw.had (fun _ => False.elim) hrow hcurator)
    | persisted =>
      exact .inl ((persistRun_quiet.writes (φ := {})).had (fun _ => False.elim) hrow hcurator)
    | @filed item rest verdict source neighbors _ hunjudged hjudged haction hfiling hinsert =>
      refine ((mem_of_insertItem hinsert).mp hrow).imp hidle fun hnew => ?_
      exact ⟨k, draft, embedding, pass, item, rfl, hop, ops_become_self hop, hunjudged,
        ⟨rest, hjudged⟩, verdict, source, neighbors, haction, hfiling, hnew⟩

/-- A pass stays in flight until it is abandoned or moves on. -/
theorem Palace.Stepped.survives {action : Action} (h : Palace.Stepped w p s action q) {k : Nat}
    {pass : CuratorPass} (hop : p.ops[k]? = some (.curating pass)) :
    q.ops[k]? = some (.curating pass) ∨ action = .abandon k ∨
      ∃ draft embedding next, action = .advance k draft embedding ∧
        AdvanceStep s pass next q.store ∧ q.ops[k]? = some (next.elim .done .curating) := by
  have hbecome {j : Nat} {t : Store} {old new : Operation} (hj : p.ops[j]? = some old)
      (hold : ∀ pass, old ≠ .curating pass) :
      (p.become j t new).ops[k]? = some (.curating pass) := by
    rw [Palace.get?_become, if_neg, hop]
    rintro rfl
    exact hold pass (Option.some.inj (hj.symm.trans hop))
  cases h with
  | create | split | stage | resolve | seeded | decideBatch | commit | feedback => exact .inl hop
  | startPatch | startExtract | startSeed | startPass | startDecision | prepare =>
    exact .inl (ops_launch_kept hop)
  | patch hj | seedSource hj | ingest hj | decide hj | prepareWrite hj =>
    exact .inl (hbecome hj (by simp))
  | @advance j draft embedding old next _ hj hstep =>
    by_cases hk : k = j
    · subst hk
      obtain rfl := Operation.curating.inj (Option.some.inj (hop.symm.trans hj))
      exact .inr (.inr ⟨draft, embedding, next, rfl, hstep, ops_become_self hop⟩)
    · exact .inl (by rw [Palace.get?_become, if_neg hk, hop])
  | @abandon j =>
    by_cases hk : k = j
    · exact .inr (.inl (hk ▸ rfl))
    · exact .inl (by rw [Palace.get?_become, if_neg hk, hop])

end Steps

section Cards

/-- A curator card is what the verdict on its finding asked for. -/
structure CardOn (item : ApprovalQueueItem) (f : CuratorFinding) : Prop where
  action : f.action = .act item.verdict
  targets : item.targetIds =
    if item.verdict.Replaces then f.finding.memoryIds
    else if item.verdict = .contradict then f.finding.memoryIds.tail else []
  head : ¬item.verdict.Replaces → f.finding.memoryIds.head? = some item.candidateMemoryId

/-- What the passes in flight and the curator's cards rest on: one pass for each principal at a
time, its reviews on record, and every card on a finding on record. -/
structure Recorded (p : Palace) : Prop where
  locked : ∀ {j k : Nat} {pass pass' : CuratorPass}, p.ops[j]? = some (.curating pass) →
    p.ops[k]? = some (.curating pass') → pass.principalId = pass'.principalId → j = k
  reviewed : ∀ {k : Nat} {pass : CuratorPass}, p.ops[k]? = some (.curating pass) →
    pass.Reviewed p.store
  source : ∀ {k : Nat} {pass : CuratorPass} {row : MemoryUnit},
    p.ops[k]? = some (.curating pass) → pass.filing = .sourceRead row →
      ∃ item rest, pass.judged = item :: rest ∧ item.finding.memoryIds.head? = some row.id
  cards : ∀ item ∈ p.store.items.rows, ∀ uid ∈ item.birthplace.findingUid,
    ∃ f, p.store.findings.get? uid = some f ∧ CardOn item f

theorem CardOn.congr {item item' : ApprovalQueueItem} {f f' : CuratorFinding} (h : CardOn item f)
    (hitem : item'.verdict = item.verdict ∧ item'.targetIds = item.targetIds ∧
      item'.candidateMemoryId = item.candidateMemoryId)
    (hf : f'.finding = f.finding ∧ f'.action = f.action) : CardOn item' f' := by
  obtain ⟨hverdict, htargets, hcandidate⟩ := hitem
  obtain ⟨hfinding, haction⟩ := hf
  constructor
  · rw [haction, hverdict, h.action]
  · rw [htargets, hverdict, hfinding, h.targets]
  · rw [hverdict, hfinding, hcandidate]
    exact h.head

theorem Curation.AdvanceStep.source {pass pass' : CuratorPass} {row : MemoryUnit}
    (h : AdvanceStep s pass (some pass') s')
    (hpass : ∀ row, pass.filing = .sourceRead row →
      ∃ item rest, pass.judged = item :: rest ∧ item.finding.memoryIds.head? = some row.id)
    (hfiling : pass'.filing = .sourceRead row) :
    ∃ item rest, pass'.judged = item :: rest ∧ item.finding.memoryIds.head? = some row.id := by
  cases h with
  | skip => exact hpass row hfiling
  | judged _ hjudged =>
    obtain ⟨_, _, item, _, _, _, _, _, _, _, _, _, _, hpass'⟩ := hjudged.written
    rw [hpass'] at hfiling ⊢
    obtain ⟨first, rest, hfirst, hhead⟩ := hpass row hfiling
    exact ⟨first, rest ++ [item], by simp [hfirst], hhead⟩
  | routed | filed | created | candidateRead => simp [CuratorPass.routed] at hfiling
  | @sourceRead item rest _ source _ hjudged _ _ hhead =>
    obtain rfl := Filing.sourceRead.inj hfiling
    obtain ⟨id, hid, hget⟩ := hhead
    exact ⟨item, rest, hjudged, Table.key_of_get? hget ▸ hid⟩

theorem Files.cardOn {pass : CuratorPass} {item : JudgedFinding} {row : ApprovalQueueItem}
    (h : Files s pass item row) (hreviewed : pass.Reviewed s)
    (hsource : ∀ row, pass.filing = .sourceRead row →
      ∃ item rest, pass.judged = item :: rest ∧ item.finding.memoryIds.head? = some row.id)
    (hsound : ∀ id, pass.filing.held = some id → ∃ item rest action,
      pass.judged = item :: rest ∧ item.action = .act action ∧ action.Replaces) :
    row.birthplace.findingUid = some item.findingUid ∧
      ∃ f, s.findings.get? item.findingUid = some f ∧ f.finding = item.finding ∧ CardOn row f := by
  obtain ⟨rest, hjudged⟩ := h.judged
  obtain ⟨verdict, source, neighbors, haction, hfiling, rfl⟩ := h.written
  obtain ⟨_, f, hf, hfinding, hrecorded⟩ := hreviewed.judged item (by simp [hjudged])
  refine ⟨rfl, f, hf, hfinding, hrecorded.trans haction, ?_, fun hsurgical => ?_⟩
  · rw [hfinding]
    rfl
  · have hsurgical : ¬verdict.Replaces := hsurgical
    rcases hfiling with ⟨hfiling, _⟩ | hfiling
    · obtain ⟨first, others, hfirst, hhead⟩ := hsource source hfiling
      rw [hjudged] at hfirst
      rw [hfinding, (List.cons.inj hfirst).1, hhead]
      rfl
    · obtain ⟨first, others, action, hfirst, hact, hreplaces⟩ :=
        hsound source.id (by rw [hfiling]; rfl)
      rw [hjudged] at hfirst
      rw [← (List.cons.inj hfirst).1, haction] at hact
      exact absurd (CuratorActionName.act.inj hact ▸ hreplaces) hsurgical

/-- The principal of a pass is that of the pass it was, or of none that was in flight. -/
theorem Palace.Stepped.principal {action : Action} (h : Palace.Stepped w p s action q) {k : Nat}
    {pass' : CuratorPass} (hget : q.ops[k]? = some (.curating pass')) :
    (∃ pass, p.ops[k]? = some (.curating pass) ∧ pass.principalId = pass'.principalId) ∨
      k = p.ops.length ∧ ∀ (j : Nat) (pass : CuratorPass), p.ops[j]? = some (.curating pass) →
        pass.principalId ≠ pass'.principalId := by
  rcases h.curating hget with hold | ⟨hk, _, principalId, machineId, hlock, rfl⟩ |
    ⟨pass, _, _, hop, _, hstep⟩
  · exact .inl ⟨pass', hold, rfl⟩
  · refine .inr ⟨hk, fun j pass hop hsame => ?_⟩
    exact hlock _ (List.mem_of_getElem? hop) (congrArg some hsame)
  · exact .inl ⟨pass, hop, hstep.keeps.1.symm⟩

theorem Recorded.stepped {session : Session} {action : Action} (h : Recorded p)
    (hconsented : Consented p)
    (hstep : Palace.Stepped w p (p.store.begin session) action q) : Recorded q where
  locked {j k pass pass'} hget hget' hsame := by
    rcases hstep.principal hget with ⟨old, hold, hkept⟩ | ⟨hj, hnone⟩ <;>
      rcases hstep.principal hget' with ⟨old', hold', hkept'⟩ | ⟨hk, hnone'⟩
    · exact h.locked hold hold' (hkept.trans (hsame.trans hkept'.symm))
    · exact absurd (hkept.trans hsame) (hnone' j old hold)
    · exact absurd (hkept'.trans hsame.symm) (hnone k old' hold')
    · rw [hj, hk]
  reviewed {k pass'} hget := by
    have hbegun {pass : CuratorPass} (hpass : pass.Reviewed p.store) :
        pass.Reviewed (p.store.begin session) :=
      hpass.move (begin_quiet session).writes (φ := {})
    rcases hstep.curating hget with hold | ⟨_, hstore, principalId, machineId, _, rfl⟩ |
      ⟨pass, _, _, hop, _, hadvance⟩
    · exact (hbegun (h.reviewed hold)).move hstep.writes
    · rw [hstore]
      exact reviewed_startPass (drawn_quiet.writes (φ := {}))
    · exact hadvance.reviewed (hbegun (h.reviewed hop))
  source {k pass' row} hget hfiling := by
    rcases hstep.curating hget with hold | ⟨_, _, _, _, _, rfl⟩ | ⟨pass, _, _, hop, _, hadvance⟩
    · exact h.source hold hfiling
    · cases hfiling
    · exact hadvance.source (fun row => h.source hop) hfiling
  cards row hrow uid huid := by
    have hcurator : row.birthplace.IsCurator := by
      cases hbirth : row.birthplace <;> simp [hbirth, Birthplace.findingUid] at huid
      trivial
    rcases hstep.filed hrow hcurator with ⟨old, hold, ⟨state, decidedAt, rfl⟩, _⟩ |
      ⟨k, draft, embedding, pass, item, _, hop, _, hfiles⟩
    · obtain ⟨f, hf, hcard⟩ := h.cards old hold uid huid
      obtain ⟨persisted, hf', _⟩ := Writes.finding hstep.writes hf
      exact ⟨_, hf', hcard.congr ⟨rfl, rfl, rfl⟩ ⟨rfl, rfl⟩⟩
    · have hbegun : pass.Reviewed (p.store.begin session) :=
        (h.reviewed hop).move (begin_quiet session).writes (φ := {})
      obtain ⟨hnamed, f, hf, hfinding, hcard⟩ := hfiles.cardOn hbegun
        (fun row => h.source hop) (hconsented.sound hop).replaces
      obtain rfl : item.findingUid = uid := Option.some.inj (hnamed.symm.trans huid)
      obtain ⟨persisted, hf', _⟩ := Writes.finding hstep.writes hf
      exact ⟨_, hf', hcard.congr ⟨rfl, rfl, rfl⟩ ⟨rfl, rfl⟩⟩

theorem recorded_of_reachable (h : (palace w).Reachable p) : Recorded p := by
  refine (Machine.reachable_keeps
    (I := fun p : Palace => (palace w).Reachable p ∧ Recorded p) ?_ ?_ h).2
  · rintro _ ⟨configs, rfl⟩
    refine ⟨⟨_, [], ⟨configs, rfl⟩, rfl⟩, nofun, nofun, nofun, fun row hrow => ?_⟩
    simp [Store.deployed, Table.empty] at hrow
  · rintro p call q ⟨hreach, hp⟩ hstep
    exact ⟨hreach.step hstep, hp.stepped (consented_of_reachable hreach)
      (stepped_of_step (lineage_of_reachable hreach) hstep)⟩

end Cards

end Nocturne
