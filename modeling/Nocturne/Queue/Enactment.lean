import Nocturne.Memory.Families
import Nocturne.Queue.Laws

namespace Nocturne.Queue

open Nocturne.Lib Nocturne.Store Nocturne.Memory

variable {env : Env} {s s' t : Store} {item : ApprovalQueueItem} {candidate : MemoryUnit}
  {machineId : String} {edge : EdgeType} {ids : List Uuid}

section Targets

/-- A head an approval may implicate: active, of the candidate's principal, and not linked to
the candidate yet. -/
def Implicable (s : Store) (candidate : MemoryUnit) (edge : EdgeType) (id : Uuid) : Prop :=
  (∃ u ∈ s.units.get? id, u.principalId = candidate.principalId ∧ u.status = .active) ∧
    ¬s.Linked candidate.id id edge

instance (s : Store) (candidate : MemoryUnit) (edge : EdgeType) (id : Uuid) :
    Decidable (Implicable s candidate edge id) :=
  inferInstanceAs (Decidable ((∃ u ∈ s.units.get? id, _) ∧ _))

/-- What carrying a verdict to its targets comes to: each is linked to the candidate, and a
replacement leaves it a tombstone. -/
structure Implicated (item : ApprovalQueueItem) (candidate : MemoryUnit) (edge : EdgeType)
    (s : Store) (ids : List Uuid) (s' : Store) : Prop where
  nodup : ids.Nodup
  before : ∀ id ∈ ids, Implicable s candidate edge id
  others : ∀ id, id ∉ ids → s'.units.get? id = s.units.get? id
  after : ∀ id ∈ ids, ∀ u, s.units.get? id = some u →
    ∃ u', s'.units.get? id = some u' ∧ u'.status = (if item.verdict.Replaces then .tombstoned else
      u.status) ∧ (¬item.verdict.Replaces → u' = u)
  linked : ∀ a b t, s'.Linked a b t ↔ s.Linked a b t ∨ a = candidate.id ∧ b ∈ ids ∧ t = edge
  lineage : s'.Lineage

theorem enactTarget_implicated {id : Uuid} (h : s.Lineage)
    (hok : enactTarget item candidate machineId edge s id = .ok s') :
    Implicated item candidate edge s [id] s' := by
  simp only [enactTarget, lockedMemory, bind_eq_ok, require_eq_ok, ensure_eq_ok] at hok
  obtain ⟨target, hfound, _, hactive, hok⟩ := hok
  split at hok
  · next hreplaces =>
    simp only [bind_eq_ok] at hok
    obtain ⟨⟨u, t⟩, hcas, hedge⟩ := hok
    obtain ⟨current, hstep, _⟩ := casUpdate_eq_ok.mp hcas
    obtain ⟨hunlinked, hunits, hrevisions, hlinked⟩ := insertEdge_step hedge
    have hget (other : Uuid) := hstep.get?_units other
    dsimp only at hunlinked hunits hrevisions hlinked hget
    refine ⟨List.nodup_singleton id, ?_, ?_, ?_, ?_, ?_⟩
    · rintro _ hid
      obtain rfl := List.mem_singleton.mp hid
      exact ⟨⟨target, hfound, hactive⟩, fun hold => hunlinked (hstep.linked.mpr hold)⟩
    · intro other hother
      rw [hunits, hget, if_neg (by simpa using hother)]
      rfl
    · rintro _ hid v hv
      obtain rfl := List.mem_singleton.mp hid
      rw [hunits, hget, if_pos rfl]
      exact ⟨_, rfl, by simp [hreplaces], fun hnot => absurd hreplaces hnot⟩
    · intro x y k
      rw [hlinked, hstep.linked, List.mem_singleton]
      rfl
    · have hdrawn : s.drawn.Lineage := h.congr rfl rfl
      exact (hdrawn.cas hstep).congr hunits hrevisions
  · next hreplaces =>
    obtain ⟨hunlinked, hunits, hrevisions, hlinked⟩ := insertEdge_step hok
    refine ⟨List.nodup_singleton id, ?_, ?_, ?_, ?_, h.congr hunits hrevisions⟩
    · rintro _ hid
      obtain rfl := List.mem_singleton.mp hid
      exact ⟨⟨target, hfound, hactive⟩, hunlinked⟩
    · exact fun other _ => by rw [hunits]
    · rintro _ _ v hv
      exact ⟨v, by rw [hunits, hv], by simp [hreplaces], fun _ => rfl⟩
    · intro x y k
      rw [hlinked, List.mem_singleton]

theorem enactTarget_ok {id : Uuid} (item : ApprovalQueueItem) (machineId : String) (h : s.Lineage)
    (hid : Implicable s candidate edge id) :
    ∃ s', enactTarget item candidate machineId edge s id = .ok s' := by
  obtain ⟨⟨target, hfound, hactive⟩, hunlinked⟩ := hid
  rw [Option.mem_def] at hfound
  simp only [enactTarget, lockedMemory, hfound, require_some, ok_bind, ensure_pos hactive]
  split
  · obtain ⟨t, hstep, ht⟩ := cas_ok (fun revUid =>
      { memoryId := id
        expectedRevision := target.revision
        revUid
        editor := "maintenance"
        originMachineId := machineId
        reason := targetReason item (if item.verdict = .merge then "merge" else "supersede")
        changes := { status := some .tombstoned } }) h hfound rfl rfl (by simp)
      (by simp [ActiveLabelFree])
    simp only [ht, ok_bind]
    have hstill : ¬t.Linked candidate.id id edge := fun hold => hunlinked (hstep.linked.mp hold)
    exact ⟨_, insertEdge_eq_ok.mpr ⟨hstill, rfl⟩⟩
  · exact ⟨_, insertEdge_eq_ok.mpr ⟨hunlinked, rfl⟩⟩

theorem Implicated.cons {id : Uuid} (hfirst : Implicated item candidate edge s [id] t)
    (hrest : Implicated item candidate edge t ids s') :
    Implicated item candidate edge s (id :: ids) s' := by
  have hlinked : t.Linked candidate.id id edge :=
    (hfirst.linked _ _ _).mpr (.inr ⟨rfl, by simp, rfl⟩)
  have hfresh : id ∉ ids := fun hid => (hrest.before id hid).2 hlinked
  have hother {other : Uuid} (hne : other ≠ id) :
      t.units.get? other = s.units.get? other := hfirst.others other (by simpa using hne)
  refine ⟨List.nodup_cons.mpr ⟨hfresh, hrest.nodup⟩, ?_, ?_, ?_, ?_, hrest.lineage⟩
  · intro other hin
    rcases List.mem_cons.mp hin with rfl | hin
    · exact hfirst.before _ (by simp)
    · obtain ⟨hactive, hunlinked⟩ := hrest.before other hin
      have hne : other ≠ id := fun heq => hfresh (heq ▸ hin)
      rw [hother hne] at hactive
      exact ⟨hactive, fun hold => hunlinked ((hfirst.linked _ _ _).mpr (.inl hold))⟩
  · intro other hnot
    simp only [List.mem_cons, not_or] at hnot
    rw [hrest.others other hnot.2, hother hnot.1]
  · intro other hin u hu
    rcases List.mem_cons.mp hin with rfl | hin
    · rw [hrest.others _ hfresh]
      exact hfirst.after _ (by simp) u hu
    · exact hrest.after other hin u (by rwa [hother fun heq => hfresh (heq ▸ hin)])
  · intro a b k
    rw [hrest.linked, hfirst.linked, List.mem_singleton, List.mem_cons]
    tauto

theorem enactAll_implicated (h : s.Lineage)
    (hok : ids.foldlM (enactTarget item candidate machineId edge) s = .ok s') :
    Implicated item candidate edge s ids s' := by
  induction ids generalizing s with
  | nil =>
    simp only [List.foldlM_nil, pure_eq_ok] at hok
    subst hok
    exact ⟨List.nodup_nil, by simp, fun _ _ => rfl, by simp, by simp, h⟩
  | cons id ids ih =>
    simp only [List.foldlM_cons, bind_eq_ok] at hok
    obtain ⟨t, hfirst, hrest⟩ := hok
    have hfirst := enactTarget_implicated h hfirst
    exact hfirst.cons (ih hfirst.lineage hrest)

theorem enactAll_ok (h : s.Lineage) (hnodup : ids.Nodup)
    (hids : ∀ id ∈ ids, Implicable s candidate edge id) :
    ∃ s', ids.foldlM (enactTarget item candidate machineId edge) s = .ok s' := by
  have hpass : ∃ s', ids.foldlM (enactTarget item candidate machineId edge) s = .ok s' ∧ _ :=
    foldlM_total (I := fun ids s => s.Lineage ∧ ids.Nodup ∧
      ∀ id ∈ ids, Implicable s candidate edge id) ?_ ⟨h, hnodup, hids⟩
  · obtain ⟨s', hs', _⟩ := hpass
    exact ⟨s', hs'⟩
  · rintro s id ids ⟨h, hnodup, hids⟩
    obtain ⟨t, ht⟩ := enactTarget_ok item machineId h (hids id (by simp))
    have himplicated := enactTarget_implicated h ht
    obtain ⟨hfresh, hnodup⟩ := List.nodup_cons.mp hnodup
    refine ⟨t, ht, himplicated.lineage, hnodup, fun other hother => ?_⟩
    have hne : other ≠ id := fun heq => hfresh (heq ▸ hother)
    obtain ⟨hactive, hunlinked⟩ := hids other (List.mem_cons_of_mem _ hother)
    rw [← himplicated.others other (by simpa using hne)] at hactive
    refine ⟨hactive, fun hnew => ?_⟩
    rcases (himplicated.linked _ _ _).mp hnew with hold | ⟨_, hsame, _⟩
    · exact hunlinked hold
    · exact hne (List.mem_singleton.mp hsame)

/-- The targets an approval of this verdict could still reach. -/
def TargetsOpen (s : Store) (item : ApprovalQueueItem) (candidate : MemoryUnit) : Prop :=
  ∀ edge ∈ edgeType item.verdict, ∀ id ∈ item.targetIds, Implicable s candidate edge id

instance (s : Store) (item : ApprovalQueueItem) (candidate : MemoryUnit) :
    Decidable (TargetsOpen s item candidate) :=
  inferInstanceAs (Decidable (∀ edge ∈ edgeType item.verdict, _))

theorem enactTargets_ok (machineId : String) (h : s.Lineage)
    (hnodup : edgeType item.verdict ≠ none → item.targetIds.Nodup)
    (hopen : TargetsOpen s item candidate) :
    ∃ s', enactTargets s item candidate machineId = .ok s' := by
  unfold enactTargets
  split
  · exact ⟨s, rfl⟩
  · next edge hedge => exact enactAll_ok h (hnodup (by simp [hedge])) (hopen edge hedge)

theorem enactTargets_implicated (h : s.Lineage)
    (hok : enactTargets s item candidate machineId = .ok s') :
    (∀ edge ∈ edgeType item.verdict, Implicated item candidate edge s item.targetIds s') ∧
      (edgeType item.verdict = none → s' = s) := by
  unfold enactTargets at hok
  split at hok
  · next hnone =>
    simp only [Except.ok.injEq] at hok
    exact ⟨by simp [hnone], fun _ => hok.symm⟩
  · next edge hedge =>
    refine ⟨fun edge' hedge' => ?_, by simp [hedge]⟩
    obtain rfl := Option.some.inj (hedge.symm.trans hedge')
    exact enactAll_implicated h hok

end Targets

section Approval

variable {plan : DecisionPlan}

/-- Outside curation a decision on an open card is about its candidate. -/
theorem decideRow_candidate (h : ∀ d ∈ s.decisions.rows, d.itemUid ≠ item.itemUid)
    (hcurator : ¬item.birthplace.IsCurator) : decideRow env s item plan = (do
      ensure (¬(item.verdict = .contradict ∧ plan.request.approvalMode = .passive))
        (.queueValidation "contradictions require explicit approval")
      let candidate ← lockedMemory s item.candidateMemoryId
      decideCandidate env s item candidate plan.request) := by
  have hnone : s.decisions.rows.find? (·.itemUid = item.itemUid) = none := by
    simpa [List.find?_eq_none] using h
  simp only [decideRow, hnone]
  cases hbirth : item.birthplace with
  | curator => simp [hbirth, Birthplace.IsCurator] at hcurator
  | thread | seed | symphony => rfl

theorem decideRow_curator {runUid findingUid : Ulid} {candidateRevision : Nat}
    {payload : Proposal} (h : ∀ d ∈ s.decisions.rows, d.itemUid ≠ item.itemUid)
    (hbirth : item.birthplace = .curator runUid findingUid candidateRevision payload) :
    decideRow env s item plan = (do
      ensure (¬(item.verdict = .contradict ∧ plan.request.approvalMode = .passive))
        (.queueValidation "contradictions require explicit approval")
      let candidate ← lockedMemory s item.candidateMemoryId
      decideCuratorRow env s item candidate findingUid candidateRevision payload plan) := by
  have hnone : s.decisions.rows.find? (·.itemUid = item.itemUid) = none := by
    simpa [List.find?_eq_none] using h
  simp only [decideRow, hnone, hbirth]

theorem Closed.linked {request : QueueDecisionRequest} {a b : Uuid}
    (h : Closed s item request s') : s'.Linked a b edge ↔ s.Linked a b edge := by
  obtain ⟨d, t, _, _, ht, rfl⟩ := h.written
  obtain ⟨_, _, _, rfl⟩ := insertDecision_eq_ok.mp ht
  exact Iff.rfl

/-- What approving a candidate leaves: its targets as its verdict carried out left them, and
the candidate an active memory of the same keywords. -/
structure Admitted (item : ApprovalQueueItem) (s s' : Store) : Prop where
  enacted : ∃ candidate machineId t, s.units.get? item.candidateMemoryId = some candidate ∧
    candidate.status = .candidate ∧ enactTargets s item candidate machineId = .ok t ∧
    (∀ a b edge, s'.Linked a b edge ↔ t.Linked a b edge) ∧
    (∀ id, id ≠ item.candidateMemoryId → s'.units.get? id = t.units.get? id) ∧
    ∃ u, s'.units.get? item.candidateMemoryId = some u ∧ u.status = .active ∧
      u.keywords = candidate.keywords

theorem decideCandidate_admits {request : QueueDecisionRequest}
    {r : QueueDecisionResponse × Store} (h : s.Lineage) (happrove : request.decision = .approve)
    (hfound : s.units.get? item.candidateMemoryId = some candidate)
    (hok : decideCandidate env s item candidate request = .ok r) : Admitted item s r.2 := by
  simp only [decideCandidate, enactCandidate, happrove, bind_eq_ok, ensure_eq_ok,
    pure_eq_ok] at hok
  obtain ⟨_, hstatus, _, ⟨t, ht, label, _, rfl⟩, ⟨u, v⟩, hcas, hclose⟩ := hok
  have hid := Table.key_of_get? hfound
  have hclosed := close_meets.of_ok hclose
  obtain ⟨current, hstep, _⟩ := casUpdate_eq_ok.mp hcas
  have hget (id : Uuid) := hid ▸ hstep.get?_units id
  have hcurrent : current = candidate := by
    have hwrites : Writes (decisionHeads item ⟨0, request, none, none⟩) s t :=
      (enactTargets_meets h happrove).of_ok ht
    obtain ⟨u', hu', hdescends⟩ := hwrites.descends hfound
    have hfound' : t.units.get? item.candidateMemoryId = some current := hid ▸ hstep.found
    obtain rfl := Option.some.inj (hfound'.symm.trans hu')
    exact hdescends.same hstep.expected
  refine ⟨candidate, request.machineId, t, hfound, hstatus, ht, ?_, ?_, ?_⟩
  · intro a b edge
    rw [hclosed.linked, hstep.linked]
    rfl
  · intro id hne
    rw [hclosed.units_eq, hget, if_neg hne]
    rfl
  · refine ⟨_, by rw [hclosed.units_eq, hget, if_pos rfl], rfl, ?_⟩
    rw [hcurrent]
    rfl

end Approval

end Nocturne.Queue
