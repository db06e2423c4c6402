import Nocturne.Memory.Laws
import Nocturne.Queue.Service

namespace Nocturne.Queue

open Nocturne.Lib Nocturne.Store Nocturne.Memory

variable {env : Env} {s : Store}

section Reads

theorem lockedMemory_meets {memoryId : Uuid} :
    Meets (fun u => s.units.get? memoryId = some u) SpineError.Lineaged
      (lockedMemory s memoryId) :=
  Meets.require trivial

theorem card_meets {item : ApprovalQueueItem} :
    Meets (fun c => c.item = item ∧ s.units.get? item.candidateMemoryId = some c.candidate ∧
      c.candidate.status ≠ .staged) SpineError.Lineaged (card env s item) := by
  refine (Meets.require trivial).bind fun row hrow => ?_
  refine contractMemory_meets.bind fun candidate hcandidate => Meets.pure ?_
  obtain ⟨rfl, hstatus⟩ := hcandidate
  exact ⟨rfl, hrow, hstatus⟩

theorem proposalText_meets {value : Option String} {key : String} :
    Meets (fun text => value = some text) SpineError.Lineaged (proposalText value key) :=
  (Meets.require trivial).bind fun _ h => (Meets.ensure trivial).bind fun _ _ => Meets.pure h

theorem proposalKeywords_meets {value : Option (List String)} :
    Meets (fun keywords => value = some keywords) SpineError.Lineaged
      (proposalKeywords env value) := by
  refine (Meets.require trivial).bind fun _ h => ?_
  refine (Meets.ensure trivial).bind fun _ _ => ?_
  exact (Meets.ensure trivial).bind fun _ _ => Meets.pure h

theorem memoryRow_meets {memoryId : Uuid} {principalId : String} :
    Meets (fun u => s.units.get? memoryId = some u ∧ u.principalId = principalId)
      SpineError.Lineaged (memoryRow s memoryId principalId) :=
  (Meets.require trivial).bind fun _ h => (Meets.ensure trivial).bind fun _ hp => Meets.pure ⟨h, hp⟩

end Reads

section Ingest

theorem startExtract_meets {request : ExtractionRequest} :
    Meets (fun admission => admission.unfiled = none) SpineError.Lineaged
      (startExtract request) :=
  (Meets.ensure trivial).bind fun _ _ => Meets.pure rfl

theorem validateSeed_checks {request : SeedRequest} : Checks True (validateSeed env request) := by
  unfold validateSeed
  refine (Meets.ensure trivial).bind fun _ _ => ?_
  refine (Meets.ensure trivial).bind fun _ _ => ?_
  refine (Meets.ensure trivial).bind fun _ _ => ?_
  refine (Meets.ensure trivial).bind fun _ _ => ?_
  exact (Meets.ensure trivial).mono fun _ _ => trivial

theorem seedBatch_meets {request : SeedRequest} :
    Meets (fun _ => True) SpineError.Lineaged (seedBatch env s request) := by
  unfold seedBatch
  dsimp only
  split
  · exact (Meets.ensure trivial).bind fun _ _ => .pure trivial
  · split
    · exact .pure trivial
    · split
      · exact .pure trivial
      · exact (Meets.ensure trivial).bind fun _ _ => .pure trivial

theorem seedSource_meets {request : SeedRequest} {embedding : Embedding} :
    Meets (fun r => Writes { root := (·.status = .tombstoned) } s r.2 ∧ r.1.unfiled = none)
      SpineError.Lineaged (seedSource env s request embedding) :=
  createSplitSource_meets.bind fun _ hr => Meets.pure ⟨hr, rfl⟩

def discardFootprint (memoryId : Uuid) : Footprint :=
  { head := fun _ c => c.memoryId = memoryId ∧ c.changes = { status := some .tombstoned } }

theorem discardCandidate_meets {memoryId : Uuid} {machineId : String} (h : s.Lineage) :
    Meets (fun s' => Writes (discardFootprint memoryId) s s' ∧
        ∃ u, s'.units.get? memoryId = some u ∧ u.status = .tombstoned) SpineError.Lineaged
      (discardCandidate s memoryId machineId) := by
  refine lockedMemory_meets.bind fun candidate _ => ?_
  refine (cas_meets (discardFootprint memoryId) h fun _ _ _ => ⟨rfl, rfl⟩).bind
    fun r hr => Meets.pure ?_
  obtain ⟨hw, current, hstep, _⟩ := hr
  exact ⟨hw, _, (hstep.get?_units memoryId).trans (if_pos rfl), rfl⟩

/-- What the next transaction of an admission can do. -/
inductive IngestStep (s : Store) (admission : Admission) : Option Admission → Store → Prop
  | check {unfiled : Unfiled} {unchecked activeNeighbors : List Uuid} :
    admission.unfiled = some unfiled →
      IngestStep s admission
        (some { admission with unfiled := some { unfiled with unchecked, activeNeighbors } }) s
  | discard {unfiled : Unfiled} {s' : Store} : admission.unfiled = some unfiled →
      unfiled.unchecked = [] → (∃ id ∈ unfiled.draft.targetIds, id ∉ unfiled.activeNeighbors) →
      Writes (discardFootprint unfiled.memoryId) s s' →
      (∃ u, s'.units.get? unfiled.memoryId = some u ∧ u.status = .tombstoned) →
      IngestStep s admission none s'
  | file {unfiled : Unfiled} {s' : Store} : admission.unfiled = some unfiled →
      unfiled.unchecked = [] → (∀ id ∈ unfiled.draft.targetIds, id ∈ unfiled.activeNeighbors) →
      s.drawn.insertItem (admission.item s unfiled) = .ok s' →
      IngestStep s admission
        (some { admission with
          unfiled := none
          cards := admission.cards ++ [unfiled.memoryId] }) s'
  | duplicate {draft : ExtractionCandidate} {remaining : List ExtractionCandidate} :
    admission.unfiled = none → admission.remaining = draft :: remaining →
      IngestStep s admission
        (some { admission with remaining, duplicates := admission.duplicates + 1 }) s
  | created {draft : ExtractionCandidate} {remaining : List ExtractionCandidate}
    {memory : MemoryUnit} {neighbors : List Uuid} {s' : Store} :
    admission.unfiled = none → admission.remaining = draft :: remaining →
      Writes { root := (·.status = .candidate) } s s' →
      Inserted s .candidate (admission.source.command draft) (memory, s') →
      IngestStep s admission
        (some { admission with remaining, unfiled := some ⟨draft, memory.id, neighbors, []⟩ }) s'
  | finish {s' : Store} : admission.unfiled = none → s.Quiet s' → IngestStep s admission none s'

/-- Everything an admission may write: a candidate, its card, or its own discard. -/
def ingestFootprint (admission : Admission) : Footprint :=
  { head := fun _ c => (∃ unfiled ∈ admission.unfiled, c.memoryId = unfiled.memoryId) ∧
      c.changes = { status := some .tombstoned }
    root := (·.status = .candidate)
    card := fun item => ∃ unfiled ∈ admission.unfiled, item.candidateMemoryId = unfiled.memoryId ∧
      item.birthplace = admission.source.birthplace ∧ item.state = .pending }

theorem IngestStep.writes {admission : Admission} {admission' : Option Admission} {s' : Store}
    (h : IngestStep s admission admission' s') : Writes (ingestFootprint admission) s s' := by
  cases h with
  | check => exact .refl
  | discard hunfiled _ _ hwrites _ =>
    exact hwrites.mono ⟨fun hc => ⟨⟨_, hunfiled, hc.1⟩, hc.2⟩, False.elim, False.elim, id, id, id,
      id⟩
  | file hunfiled _ _ hinsert =>
    exact drawn_quiet.writes.tail (.card ⟨_, hunfiled, rfl, rfl, rfl⟩ hinsert)
  | duplicate => exact .refl
  | created _ _ hwrites => exact hwrites.mono ⟨False.elim, id, False.elim, id, id, id, id⟩
  | finish _ hquiet => exact hquiet.writes

theorem enqueue_meets {admission : Admission} {unfiled : Unfiled} (h : s.Lineage)
    (hunfiled : admission.unfiled = some unfiled) (hchecked : unfiled.unchecked = []) :
    Meets (fun r => IngestStep s admission r.1 r.2) SpineError.Lineaged
      (enqueue s admission unfiled) := by
  unfold enqueue
  split
  · next htargets =>
    exact (discardCandidate_meets h).bind fun _ hw =>
      Meets.pure (.discard hunfiled hchecked htargets hw.1 hw.2)
  · next htargets =>
    push Not at htargets
    exact (insertItem_meets .any trivial).bind fun _ hs =>
      Meets.pure (.file hunfiled hchecked htargets hs.2)

theorem ingest_meets {admission : Admission} {embedding : Embedding} (h : s.Lineage) :
    Meets (fun r => IngestStep s admission r.1 r.2) SpineError.Lineaged
      (ingest env s admission embedding) := by
  unfold ingest
  split
  · next unfiled hunfiled =>
    split
    · exact .ok (.check hunfiled)
    · next hchecked => exact enqueue_meets h hunfiled hchecked
  · next draft remaining hunfiled hremaining =>
    refine createCandidate_meets.bind fun r hr => ?_
    obtain ⟨created, s'⟩ := r
    obtain ⟨hwrites, hnone, hcreated⟩ := hr
    cases created with
    | none =>
      obtain rfl := hnone rfl
      exact .pure (.duplicate hunfiled hremaining)
    | some created =>
      exact .pure (.created hunfiled hremaining hwrites (hcreated created rfl))
  · next hunfiled hremaining =>
    split
    · exact .pure (.finish hunfiled (.refl s))
    · exact relateSiblings_meets.bind fun _ hq => Meets.pure (.finish hunfiled hq)

end Ingest

section Decide

/-- The one update by which a decision carries its card out on the candidate. -/
inductive CarriesOut (item : ApprovalQueueItem) (plan : DecisionPlan) (u : MemoryUnit) :
    MemoryUnitChanges → Prop
  | approve {label : String} : plan.request.decision = .approve → ¬item.birthplace.IsCurator →
      u.status = .candidate → CarriesOut item plan u { status := some .active, label := some label }
  | deny : plan.request.decision = .deny → u.status = .candidate →
      CarriesOut item plan u { status := some .tombstoned }
  | activate : plan.request.decision = .approve → item.birthplace.IsCurator →
      item.verdict.Replaces → u.status = .candidate →
      CarriesOut item plan u (plan.amendment.getD { status := some .active })
  | retire : plan.request.decision = .approve → item.birthplace.IsCurator →
      item.verdict = .retire → CarriesOut item plan u { status := some .tombstoned }
  | repair {keywords : List String} : plan.request.decision = .approve →
      item.birthplace.IsCurator → item.verdict = .keywordRepair →
      CarriesOut item plan u { keywords := some keywords }
  | split : plan.request.decision = .approve → item.birthplace.IsCurator →
      item.verdict = .split → u.status = .active →
      CarriesOut item plan u { status := some .tombstoned }

/-- An implicated head, tombstoned by an approved replacement while still active. -/
structure Replaced (item : ApprovalQueueItem) (plan : DecisionPlan) (u : MemoryUnit)
    (command : CasUpdate) : Prop where
  target : command.memoryId ∈ item.targetIds
  replaces : item.verdict.Replaces
  approve : plan.request.decision = .approve
  active : u.status = .active
  changes : command.changes = { status := some .tombstoned }

/-- The candidate, at the revision a curator card was filed on. -/
structure OnCandidate (item : ApprovalQueueItem) (plan : DecisionPlan) (u : MemoryUnit)
    (command : CasUpdate) : Prop where
  candidate : command.memoryId = item.candidateMemoryId
  revision : ∀ revision ∈ item.birthplace.candidateRevision, u.revision = revision
  carriesOut : CarriesOut item plan u command.changes

/-- The heads one decision may write. -/
def decisionHeads (item : ApprovalQueueItem) (plan : DecisionPlan) : Footprint :=
  { head := fun u c => Replaced item plan u c ∨ OnCandidate item plan u c
    root := fun u => u.status = .active ∧ plan.request.decision = .approve ∧
      item.birthplace.IsCurator }

variable {item : ApprovalQueueItem} {plan : DecisionPlan} {candidate : MemoryUnit}

theorem enactTarget_meets {machineId : String} {edge : EdgeType} {targetId : Uuid}
    (h : s.Lineage) (htarget : targetId ∈ item.targetIds)
    (happrove : plan.request.decision = .approve) :
    Meets (Writes (decisionHeads item plan) s ·) SpineError.Lineaged
      (enactTarget item candidate machineId edge s targetId) := by
  refine lockedMemory_meets.bind fun target hlocked => ?_
  refine (Meets.ensure trivial).bind fun _ hactive => ?_
  split
  · next hreplaces =>
    refine (cas_meets (decisionHeads item plan) h fun u hu _ => .inl ?_).bind fun r hr => ?_
    · obtain rfl := Option.some.inj (hu.symm.trans hlocked)
      exact ⟨htarget, hreplaces, happrove, hactive.2, rfl⟩
    · exact insertEdge_meets.mono fun _ hq => hr.1.trans hq.writes
  · exact insertEdge_meets.mono fun _ hq => hq.writes

theorem enactTargets_meets {machineId : String} (h : s.Lineage)
    (happrove : plan.request.decision = .approve) :
    Meets (Writes (decisionHeads item plan) s ·) SpineError.Lineaged
      (enactTargets s item candidate machineId) := by
  unfold enactTargets
  split
  · exact .ok .refl
  · refine Meets.foldlM (I := Writes (decisionHeads item plan) s) (fun t ht id hid => ?_) .refl
    exact (enactTarget_meets (ht.lineage h) hid happrove).mono fun _ hw => ht.trans hw

/-- The candidate is written as it was read: an equal revision is an equal row. -/
theorem candidate_cas_meets {t : Store} {id : Uuid} {command : Ulid → CasUpdate}
    (h : s.Lineage) (hfound : s.units.get? id = some candidate)
    (hwrites : Writes (decisionHeads item plan) s t) (hid : id = item.candidateMemoryId)
    (hcommand : (command t.freshUlid).memoryId = id ∧
      (command t.freshUlid).expectedRevision = candidate.revision)
    (hrevision : ∀ revision ∈ item.birthplace.candidateRevision, candidate.revision = revision)
    (hcarries : CarriesOut item plan candidate (command t.freshUlid).changes) :
    Meets (fun r => Writes (decisionHeads item plan) s r.2 ∧
        ∃ u, r.2.units.get? id = some u ∧
          u.status = (command t.freshUlid).changes.status.getD candidate.status)
      SpineError.Lineaged (t.cas command) := by
  have hsame : ∀ u, t.units.get? id = some u → u.revision = candidate.revision →
      u = candidate := by
    intro u hu hrev
    obtain ⟨u', hu', hdesc⟩ := hwrites.descends hfound
    obtain rfl := Option.some.inj (hu.symm.trans hu')
    exact hdesc.same hrev
  refine (cas_meets (decisionHeads item plan) (hwrites.lineage h) fun u hu hrev => .inr ?_).mono
    fun r hr => ?_
  · rw [hcommand.1] at hu
    rw [hcommand.2] at hrev
    obtain rfl := hsame u hu hrev
    exact ⟨hcommand.1.trans hid, hrevision, hcarries⟩
  · obtain ⟨hw, current, hstep, _⟩ := hr
    refine ⟨hwrites.trans hw, _, by rw [hstep.get?_units, if_pos hcommand.1.symm], ?_⟩
    have hcurrent := hsame current (hcommand.1 ▸ hstep.found)
      (hstep.expected.trans hcommand.2)
    rw [bumped_status, hcurrent]

/-- What closing a card writes. -/
structure Closed (s : Store) (item : ApprovalQueueItem) (request : QueueDecisionRequest)
    (s' : Store) : Prop where
  written : ∃ d t, d.itemUid = item.itemUid ∧ d.decision = request.decision ∧
    s.drawn.insertDecision d = .ok t ∧ s' = t.setItemState d.itemUid d.decision.itemState

theorem close_meets {request : QueueDecisionRequest} :
    Meets (fun r => Closed s item request r.2) SpineError.Lineaged (close env s item request) := by
  unfold close
  refine insertDecision_meets.bind fun t ht => ?_
  refine card_meets.bind fun _ _ => Meets.pure ⟨_, t, rfl, rfl, ht, rfl⟩

theorem curatorCas_meets {t : Store} {machineId : String} {findingUid : Ulid} {suffix : String}
    {changes : MemoryUnitChanges} (h : s.Lineage)
    (hfound : s.units.get? item.candidateMemoryId = some candidate)
    (hwrites : Writes (decisionHeads item plan) s t)
    (hrevision : ∀ revision ∈ item.birthplace.candidateRevision, candidate.revision = revision)
    (hcarries : CarriesOut item plan candidate changes) :
    Meets (fun s' => Writes (decisionHeads item plan) s s' ∧
        ∃ u, s'.units.get? item.candidateMemoryId = some u ∧
          u.status = changes.status.getD candidate.status)
      SpineError.Lineaged (curatorCas t candidate machineId findingUid suffix changes) := by
  have hid := Table.key_of_get? hfound
  exact (candidate_cas_meets h hfound hwrites rfl ⟨hid, rfl⟩ hrevision hcarries).bind
    fun _ hr => Meets.pure hr

/-- An approved replacement leaves its candidate active. -/
def Activated (item : ApprovalQueueItem) (plan : DecisionPlan) (s' : Store) : Prop :=
  item.verdict.Replaces → (∀ changes ∈ plan.amendment, changes.status = some .active) →
    ∃ u, s'.units.get? item.candidateMemoryId = some u ∧ u.status = .active

theorem enactCurator_meets {findingUid : Ulid} {payload : Proposal} (h : s.Lineage)
    (hfound : s.units.get? item.candidateMemoryId = some candidate)
    (hcurator : item.birthplace.IsCurator) (happrove : plan.request.decision = .approve)
    (hrevision : ∀ revision ∈ item.birthplace.candidateRevision, candidate.revision = revision) :
    Meets (fun s' => Writes (decisionHeads item plan) s s' ∧ Activated item plan s')
      SpineError.Lineaged (enactCurator env s item candidate findingUid payload plan) := by
  have hreplace (hreplaces : item.verdict.Replaces) :
      Meets (fun s' => Writes (decisionHeads item plan) s s' ∧ Activated item plan s')
        SpineError.Lineaged (do
        ensure (candidate.status = .candidate)
          (.queueConflict "curator replacement is no longer pending")
        let s ← enactTargets s item candidate plan.request.machineId
        curatorCas s candidate plan.request.machineId findingUid "activate"
          (plan.amendment.getD { status := some .active })) := by
    refine (Meets.ensure trivial).bind fun _ hstatus => ?_
    refine (enactTargets_meets h happrove).bind fun t ht => ?_
    refine (curatorCas_meets h hfound ht hrevision
      (.activate happrove hcurator hreplaces hstatus)).mono fun s' hs' => ⟨hs'.1, ?_⟩
    intro _ hamendment
    obtain ⟨u, hu, hstatus⟩ := hs'.2
    refine ⟨u, hu, ?_⟩
    rw [hstatus]
    cases hplan : plan.amendment with
    | none => rfl
    | some changes => simp [hamendment changes hplan]
  have hother (hreplaces : ¬item.verdict.Replaces) {s' : Store}
      (hw : Writes (decisionHeads item plan) s s') :
      Writes (decisionHeads item plan) s s' ∧ Activated item plan s' :=
    ⟨hw, fun h => absurd h hreplaces⟩
  unfold enactCurator
  dsimp only
  split
  · next hverdict => exact hreplace (.inl hverdict)
  · next hverdict => exact hreplace (.inr hverdict)
  · next hverdict =>
    refine (Meets.ensure trivial).bind fun _ _ =>
      (enactTargets_meets h happrove).mono fun _ hw => ?_
    exact hother (by simp [Verdict.Replaces, hverdict]) hw
  · next hverdict =>
    refine (curatorCas_meets h hfound .refl hrevision (.retire happrove hcurator hverdict)).mono
      fun _ hw => ?_
    exact hother (by simp [Verdict.Replaces, hverdict]) hw.1
  · next hverdict =>
    refine proposalKeywords_meets.bind fun _ _ => (curatorCas_meets h hfound .refl hrevision
      (.repair happrove hcurator hverdict)).mono fun _ hw => ?_
    exact hother (by simp [Verdict.Replaces, hverdict]) hw.1
  · next hverdict =>
    refine (Meets.require trivial).bind fun children _ => ?_
    have hid := Table.key_of_get? hfound
    refine (enactCuratorSplit_meets h (hid ▸ hfound)).mono fun t ht =>
      hother (by simp [Verdict.Replaces, hverdict]) (ht.mono ?_)
    refine ⟨?_, fun hu => ⟨hu, happrove, hcurator⟩, id, id, id, id, id⟩
    rintro u c ⟨rfl, hactive, hmemory, _, hchanges⟩
    exact .inr ⟨hmemory.trans hid, hrevision,
      hchanges ▸ .split happrove hcurator hverdict hactive⟩
  · exact .error trivial

/-- What deciding an open card writes: its heads, then its decision and its state. -/
structure Decided (s : Store) (item : ApprovalQueueItem) (plan : DecisionPlan) (s' : Store) :
    Prop where
  undecided : ∀ d ∈ s.decisions.rows, d.itemUid ≠ item.itemUid
  candidate : ∃ candidate, s.units.get? item.candidateMemoryId = some candidate ∧
    (∀ revision ∈ item.birthplace.candidateRevision, candidate.revision = revision) ∧
    (¬item.birthplace.IsCurator → candidate.status = .candidate)
  written : ∃ t, Writes (decisionHeads item plan) s t ∧ Closed t item plan.request s'
  settled : ¬item.birthplace.IsCurator → ∃ u, s'.units.get? item.candidateMemoryId = some u ∧
    u.status = if plan.request.decision = .approve then .active else .tombstoned
  closed : (∀ changes ∈ plan.amendment, changes.status = some .active) →
    item.birthplace.IsCurator → item.verdict.Replaces →
      ∃ u, s'.units.get? item.candidateMemoryId = some u ∧ u.status ≠ .candidate

theorem Closed.units_eq {s' : Store} {request : QueueDecisionRequest}
    (h : Closed s item request s') : s'.units = s.units := by
  obtain ⟨d, t, _, _, ht, rfl⟩ := h.written
  obtain ⟨_, _, _, rfl⟩ := insertDecision_eq_ok.mp ht
  rfl

theorem decideCandidate_meets (h : s.Lineage)
    (hundecided : ∀ d ∈ s.decisions.rows, d.itemUid ≠ item.itemUid)
    (hfound : s.units.get? item.candidateMemoryId = some candidate)
    (hcurator : ¬item.birthplace.IsCurator) (hrevision : item.birthplace.candidateRevision = none) :
    Meets (fun r => Decided s item plan r.2) SpineError.Lineaged
      (decideCandidate env s item candidate plan.request) := by
  have hid := Table.key_of_get? hfound
  have hrev : ∀ revision ∈ item.birthplace.candidateRevision, candidate.revision = revision := by
    simp [hrevision]
  refine (Meets.ensure trivial).bind fun _ hstatus => ?_
  have henact : Meets (fun r => Writes (decisionHeads item plan) s r.2 ∧
      CarriesOut item plan candidate r.1 ∧
      r.1.status = some (if plan.request.decision = .approve then .active else .tombstoned))
      SpineError.Lineaged (enactCandidate env s item candidate plan.request) := by
    unfold enactCandidate
    cases hdecision : plan.request.decision with
    | deny => exact .ok ⟨.refl, .deny hdecision hstatus, rfl⟩
    | approve =>
      refine (enactTargets_meets h hdecision).bind fun t ht => ?_
      refine Meets.bind (Meets.require trivial) fun label _ => Meets.pure ?_
      exact ⟨ht, .approve hdecision hcurator hstatus, rfl⟩
  refine henact.bind fun r hr => ?_
  refine (candidate_cas_meets h hfound hr.1 rfl ⟨hid, rfl⟩ hrev hr.2.1).bind fun r' hr' => ?_
  refine Meets.mono close_meets fun r'' hclosed => ?_
  refine ⟨hundecided, ⟨candidate, hfound, hrev, fun _ => hstatus⟩, ⟨_, hr'.1, hclosed⟩,
    fun _ => ?_, fun _ hc => absurd hc hcurator⟩
  obtain ⟨u, hu, hu'⟩ := hr'.2
  refine ⟨u, hclosed.units_eq ▸ hu, ?_⟩
  rw [hu', hr.2.2]
  rfl

theorem decideCuratorRow_meets {findingUid : Ulid} {candidateRevision : Nat} {payload : Proposal}
    (h : s.Lineage) (hundecided : ∀ d ∈ s.decisions.rows, d.itemUid ≠ item.itemUid)
    (hfound : s.units.get? item.candidateMemoryId = some candidate)
    (hcurator : item.birthplace.IsCurator)
    (hrevision : item.birthplace.candidateRevision = some candidateRevision) :
    Meets (fun r => Decided s item plan r.2) SpineError.Lineaged
      (decideCuratorRow env s item candidate findingUid candidateRevision payload plan) := by
  refine (Meets.ensure trivial).bind fun _ _ => ?_
  refine (Meets.ensure trivial).bind fun _ hcurrent => ?_
  have hrev : ∀ revision ∈ item.birthplace.candidateRevision, candidate.revision = revision := by
    intro revision hr
    rw [hrevision] at hr
    exact hcurrent.trans (Option.some.inj hr)
  have hclose (t : Store) (ht : Writes (decisionHeads item plan) s t)
      (hdone : (∀ changes ∈ plan.amendment, changes.status = some .active) →
        item.verdict.Replaces →
        ∃ u, t.units.get? item.candidateMemoryId = some u ∧ u.status ≠ .candidate) :
      Meets (fun r => Decided s item plan r.2) SpineError.Lineaged
        (close env t item plan.request) := by
    refine Meets.mono close_meets fun _ hclosed => ?_
    refine ⟨hundecided, ⟨candidate, hfound, hrev, fun hn => absurd hcurator hn⟩,
      ⟨t, ht, hclosed⟩, fun hn => absurd hcurator hn, fun hamendment _ hreplaces => ?_⟩
    rw [hclosed.units_eq]
    exact hdone hamendment hreplaces
  dsimp only
  split
  · next hdeny =>
    split
    · next hstatus =>
      refine (curatorCas_meets h hfound .refl hrev (.deny hdeny hstatus)).bind fun t ht => ?_
      apply hclose t ht.1
      intro _ _
      obtain ⟨u, hu, htombstoned⟩ := ht.2
      exact ⟨u, hu, by simp [htombstoned]⟩
    · next hstatus =>
      refine Meets.bind (Q := fun t => t = s) (.ok rfl) fun t ht => ?_
      subst ht
      exact hclose t .refl fun _ _ => ⟨candidate, hfound, hstatus⟩
  · next happrove =>
    refine (enactCurator_meets h hfound hcurator happrove hrev).bind fun t ht => ?_
    apply hclose t ht.1
    intro hamendment hreplaces
    obtain ⟨u, hu, hactive⟩ := ht.2 hreplaces hamendment
    exact ⟨u, hu, by simp [hactive]⟩

theorem replayDecision_meets {prior : ApprovalDecision} {request : QueueDecisionRequest} :
    Meets (fun _ => True) SpineError.Lineaged (replayDecision env s item prior request) := by
  unfold replayDecision
  refine Meets.bind (Q := fun _ => True) ?_ fun _ _ => ?_
  · cases request.amendedBody with
    | none => exact .pure trivial
    | some body =>
      refine lockedMemory_meets.bind fun _ _ => ?_
      exact (Meets.ensure trivial).mono fun _ _ => trivial
  · refine (Meets.ensure trivial).bind fun _ _ => ?_
    exact card_meets.bind fun _ _ => .pure trivial

/-- Deciding a card no decision names decides it. -/
theorem decideRow_open_meets (h : s.Lineage)
    (hnone : s.decisions.rows.find? (·.itemUid = item.itemUid) = none) :
    Meets (fun r => Decided s item plan r.2) SpineError.Lineaged (decideRow env s item plan) := by
  have hundecided : ∀ d ∈ s.decisions.rows, d.itemUid ≠ item.itemUid := by
    simpa [List.find?_eq_none] using hnone
  unfold decideRow
  simp only [hnone]
  refine (Meets.ensure trivial).bind fun _ _ => ?_
  refine lockedMemory_meets.bind fun candidate hfound => ?_
  split
  · next hbirth =>
    refine decideCuratorRow_meets h hundecided hfound ?_ ?_
    · simp [hbirth, Birthplace.IsCurator]
    · simp [hbirth, Birthplace.candidateRevision]
  all_goals
    next hbirth =>
    refine decideCandidate_meets h hundecided hfound ?_ ?_
    · simp [hbirth, Birthplace.IsCurator]
    · simp [hbirth, Birthplace.candidateRevision]

/-- Deciding a card answers an earlier decision again, or decides an open card. -/
theorem decideRow_meets (h : s.Lineage) :
    Meets (fun r => r.2 = s ∨ Decided s item plan r.2) SpineError.Lineaged
      (decideRow env s item plan) := by
  cases hprior : s.decisions.rows.find? (·.itemUid = item.itemUid) with
  | none => exact (decideRow_open_meets h hprior).mono fun _ => .inr
  | some prior =>
    unfold decideRow
    simp only [hprior]
    exact Meets.bind replayDecision_meets fun _ _ => .pure (.inl rfl)

/-- Everything a decision on one card may write. -/
def decisionFootprint (item : ApprovalQueueItem) (plan : DecisionPlan) : Footprint :=
  { decisionHeads item plan with
    decision := fun d => d.itemUid = item.itemUid ∧ d.decision = plan.request.decision }

theorem Decided.writes {s' : Store} (h : Decided s item plan s') :
    Writes (decisionFootprint item plan) s s' := by
  obtain ⟨t, ht, hclosed⟩ := h.written
  obtain ⟨d, w, hitem, hdecision, hw, rfl⟩ := hclosed.written
  have hheads : Writes (decisionFootprint item plan) s t :=
    ht.mono ⟨id, id, id, False.elim, id, id, id⟩
  exact (hheads.trans drawn_quiet.writes).tail (.decision ⟨hitem, hdecision⟩ hw)

theorem amendmentOf_meets {item : Option ApprovalQueueItem} {request : QueueDecisionRequest}
    {embedding : Embedding} :
    Meets (fun amendment => ∀ changes ∈ amendment, changes.status = some .active)
      SpineError.Lineaged (amendmentOf env item request embedding) := by
  unfold amendmentOf
  split
  · exact .ok (by simp)
  · refine (Meets.require trivial).bind fun _ _ => ?_
    refine (Meets.ensure trivial).bind fun _ _ => ?_
    refine Meets.bind (Q := fun changes => changes.status = some .active) ?_
      fun changes hchanges => Meets.pure fun c hc => ?_
    · exact validateBody_checks.bind fun _ _ => .pure rfl
    · obtain rfl := Option.mem_some_iff.mp hc
      exact hchanges

theorem proposalChildren_meets {proposal : Proposal} :
    Meets (fun _ => True) SpineError.Lineaged (proposalChildren env proposal) := by
  refine (Meets.require trivial).bind fun children hchildren => ?_
  clear hchildren
  induction children with
  | nil => exact .pure trivial
  | cons child rest ih =>
    rw [List.mapM_cons]
    refine Meets.bind (Q := fun _ => True) ?_ fun _ _ => ih.bind fun _ _ => .pure trivial
    refine proposalText_meets.bind fun _ _ => ?_
    refine proposalText_meets.bind fun _ _ => ?_
    exact proposalKeywords_meets.bind fun _ _ => .pure trivial

theorem preparedSplitOf_meets {item : Option ApprovalQueueItem} {embeddings : List Embedding} :
    Meets (fun _ => True) SpineError.Lineaged (preparedSplitOf env item embeddings) := by
  unfold preparedSplitOf
  split
  · exact .ok trivial
  · split
    · refine Meets.bind proposalChildren_meets fun _ _ => ?_
      exact prepareCuratorSplit_meets.bind fun _ _ => .pure trivial
    · exact .ok trivial

theorem decidePreflight_meets {itemUid : Ulid} {request : QueueDecisionRequest}
    {embedding : Embedding} {embeddings : List Embedding} :
    Meets (fun plan => plan.itemUid = itemUid ∧ plan.request = request ∧ request.SignalPair ∧
        ∀ changes ∈ plan.amendment, changes.status = some .active)
      SpineError.Lineaged (decidePreflight env s itemUid request embedding embeddings) := by
  refine (Meets.ensure trivial).bind fun _ hsignal => ?_
  refine Meets.bind amendmentOf_meets fun amendment hamendment => ?_
  exact Meets.bind preparedSplitOf_meets fun _ _ => .pure ⟨rfl, rfl, hsignal, hamendment⟩

theorem decide_meets {plan : DecisionPlan} (h : s.Lineage) :
    Meets (fun r => ∃ item, s.items.get? plan.itemUid = some item ∧
        (r.2 = s ∨ Decided s item plan r.2)) SpineError.Lineaged (decide env s plan) :=
  (Meets.require trivial).bind fun item hitem => (decideRow_meets h).mono fun _ hr =>
    ⟨item, hitem, hr⟩

/-- One decision carried through the cards of a batch, each either left alone or decided. -/
inductive BatchSteps (request : QueueDecisionRequest) :
    Store → List ApprovalQueueItem → Store → Prop
  | nil {s : Store} : BatchSteps request s [] s
  | skip {s s' : Store} {item : ApprovalQueueItem} {rest : List ApprovalQueueItem} :
    BatchSteps request s rest s' → BatchSteps request s (item :: rest) s'
  | decide {s t s' : Store} {item : ApprovalQueueItem} {rest : List ApprovalQueueItem} :
    item.state = .pending → Decided s item ⟨item.itemUid, request, none, none⟩ t →
      BatchSteps request t rest s' → BatchSteps request s (item :: rest) s'

/-- A batch decides cards, and files none. -/
theorem BatchSteps.files_none {request : QueueDecisionRequest} {rows : List ApprovalQueueItem}
    {s' : Store} (h : BatchSteps request s rows s') :
    Writes { Footprint.unlogged with card := fun _ => False } s s' := by
  induction h with
  | nil => exact .refl
  | skip _ ih => exact ih
  | decide _ hdecided _ ih =>
    have hw : Writes { Footprint.unlogged with card := fun _ => False } _ _ :=
      hdecided.writes.mono ⟨fun _ => trivial, fun _ => trivial, id, fun _ => trivial, id, id,
        fun _ => trivial⟩
    exact hw.trans ih

theorem BatchSteps.writes {request : QueueDecisionRequest} {rows : List ApprovalQueueItem}
    {s' : Store} (h : BatchSteps request s rows s') : Writes .unlogged s s' :=
  h.files_none.mono ⟨id, id, False.elim, id, id, id, id⟩

theorem decideBatchRows_meets {request : QueueDecisionRequest} {rows : List ApprovalQueueItem}
    (h : s.Lineage) :
    Meets (fun r => BatchSteps request s rows r.2) SpineError.Lineaged
      (decideBatchRows env request s rows) := by
  induction rows generalizing s with
  | nil => exact .ok .nil
  | cons item rest ih =>
    have hrow : Meets (fun r => r.2 = s ∨ item.state = .pending ∧
        Decided s item ⟨item.itemUid, request, none, none⟩ r.2) SpineError.Lineaged
        (decideBatchRow env request item s) := by
      unfold decideBatchRow
      split
      · next hpending =>
        refine (decideRow_meets h).bind fun r hr => Meets.pure ?_
        exact hr.imp id fun hr => ⟨hpending, hr⟩
      · exact card_meets.bind fun _ _ => .pure (.inl rfl)
    refine hrow.bind fun r hr => ?_
    obtain ⟨card, t⟩ := r
    rcases hr with rfl | ⟨hpending, hdecided⟩
    · exact (ih h).bind fun _ hr => .pure (.skip hr)
    · exact (ih (hdecided.writes.lineage h)).bind fun _ hr =>
        .pure (.decide hpending hdecided hr)

theorem decideBatch_meets {batchUid : Uuid} {request : QueueDecisionRequest} (h : s.Lineage) :
    Meets (fun r => BatchSteps request s (batchRows s batchUid) r.2) SpineError.Lineaged
      (decideBatch env s batchUid request) := by
  refine (Meets.ensure trivial).bind fun _ _ => ?_
  refine (Meets.ensure trivial).bind fun _ _ => ?_
  refine (Meets.ensure trivial).bind fun _ _ => ?_
  refine (Meets.ensure trivial).bind fun _ _ => ?_
  exact decideBatchRows_meets h

end Decide

end Nocturne.Queue
