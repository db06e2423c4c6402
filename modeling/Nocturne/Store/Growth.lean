import Nocturne.Lib.Ancestry
import Nocturne.Curation.Laws
import Nocturne.Inject.Laws
import Nocturne.Queue.Enactment
import Nocturne.Store.Edges
import Nocturne.Symphony.Laws

namespace Nocturne

open Nocturne.Lib Nocturne.Memory Nocturne.Queue Nocturne.Curation Nocturne.Symphony
  Nocturne.Inject

/-- Edges a replacement leaves from the new head to the one it replaces. -/
def EdgeType.IsSuccession : EdgeType → Prop
  | .mergedFrom | .supersedes => True
  | .contradicts | .relatesTo => False

namespace Store

variable {s s' t : Store}

/-- The revision rows, each written after the row it names as its parent. -/
abbrev Chronicled (s : Store) : Prop :=
  Chronicle MemoryRevision.revUid MemoryRevision.parentUid s.revisions.rows

/-- The first head replaced the second. -/
def Succeeds (s : Store) (a b : Uuid) : Prop :=
  ∃ edge : EdgeType, edge.IsSuccession ∧ s.Linked a b edge

/-- New revision rows name rows already there, and no head replaces another. -/
structure Grows (s s' : Store) : Prop where
  chronicled : s.Chronicled → s'.Chronicled
  succeeds : ∀ a b, s'.Succeeds a b ↔ s.Succeeds a b

theorem Grows.refl (s : Store) : Grows s s := ⟨id, fun _ _ => Iff.rfl⟩

theorem Grows.trans (hst : Grows s t) (htu : Grows t s') : Grows s s' where
  chronicled h := htu.chronicled (hst.chronicled h)
  succeeds a b := (htu.succeeds a b).trans (hst.succeeds a b)

theorem Grows.of_eq (hrevisions : s'.revisions = s.revisions) (hedges : s'.edges = s.edges) :
    Grows s s' where
  chronicled h := by rwa [Chronicled, hrevisions]
  succeeds a b := by simp only [Succeeds, Linked, hedges]

section Rows

theorem Chronicled.insert {row : MemoryRevision}
    {revisions : Table Ulid MemoryRevision (·.revUid)} (h : s.Chronicled)
    (hparent : ∀ uid ∈ row.parentUid, (s.revisions.get? uid).isSome)
    (hinsert : s.revisions.insert? row = some revisions) :
    Chronicle MemoryRevision.revUid MemoryRevision.parentUid revisions.rows := by
  obtain ⟨_, rfl⟩ := Table.insert?_eq_some.mp hinsert
  rw [Table.rows_insert]
  refine .write h fun uid huid => ?_
  obtain ⟨parent, hfound⟩ := Option.isSome_iff_exists.mp (hparent uid huid)
  exact ⟨parent, Table.mem_of_get? hfound, Table.key_of_get? hfound⟩

theorem parentUids_found {memoryId : Uuid} {revision : Nat} {parentUid : Ulid}
    (h : s.parentUids memoryId revision = [parentUid]) :
    (s.revisions.get? parentUid).isSome := by
  have hmem : parentUid ∈ s.parentUids memoryId revision := by simp [h]
  obtain ⟨row, hrow, rfl⟩ := List.mem_map.mp hmem
  rw [Table.get?_of_mem (List.mem_of_mem_filter hrow)]
  rfl

theorem CasStep.grows {command : CasUpdate} {current : MemoryUnit}
    (h : s.CasStep command current s') : Grows s s' := by
  obtain ⟨parentUid, revisions, hparent, hinsert, rfl⟩ := h.written
  refine ⟨fun hs => hs.insert (fun uid huid => ?_) hinsert, fun _ _ => Iff.rfl⟩
  obtain rfl : parentUid = uid := by simpa [revisionOf] using huid
  exact parentUids_found hparent

theorem insertRevision_grows {row : MemoryRevision} (h : s.insertRevision row = .ok s') :
    Grows s s' := by
  simp only [insertRevision, bind_eq_ok, ensure_eq_ok, require_eq_ok, pure_eq_ok] at h
  obtain ⟨_, hparent, _, hinsert, rfl⟩ := h
  exact ⟨fun hs => hs.insert hparent hinsert, fun _ _ => Iff.rfl⟩

theorem EdgeStep.succeeds {a b : Uuid} {edge : EdgeType} (h : s.EdgeStep a b edge s')
    (x y : Uuid) :
    s'.Succeeds x y ↔ s.Succeeds x y ∨ x = a ∧ y = b ∧ edge.IsSuccession := by
  constructor
  · rintro ⟨kind, hkind, hlinked⟩
    rcases (h.linked x y kind).mp hlinked with hold | ⟨hx, hy, rfl⟩
    · exact .inl ⟨kind, hkind, hold⟩
    · exact .inr ⟨hx, hy, hkind⟩
  · rintro (⟨kind, hkind, hold⟩ | ⟨hx, hy, hkind⟩)
    · exact ⟨kind, hkind, (h.linked x y kind).mpr (.inl hold)⟩
    · exact ⟨edge, hkind, (h.linked x y edge).mpr (.inr ⟨hx, hy, rfl⟩)⟩

theorem insertEdge_grows {a b : Uuid} {edge : EdgeType} (hedge : ¬edge.IsSuccession)
    (h : s.insertEdge a b edge = .ok s') : Grows s s' := by
  have hstep := insertEdge_step h
  refine ⟨fun hs => ?_, fun x y => ?_⟩
  · rwa [Chronicled, hstep.revisions]
  · rw [hstep.succeeds]
    exact or_iff_left fun hnew => hedge hnew.2.2

end Rows

section Transactions

/-- Whatever it answers, it grew the store. -/
abbrev Growing {α : Type} (s : Store) (m : Except SpineError (α × Store)) : Prop :=
  Meets (fun r => Grows s r.2) (fun _ => True) m

abbrev GrowingTo (s : Store) (m : Except SpineError Store) : Prop :=
  Meets (Grows s ·) (fun _ => True) m

theorem meets_any {α : Type} (m : Except SpineError α) :
    Meets (fun a => m = .ok a) (fun _ => True) m := by
  have h : Meets (fun _ => True) (fun _ => True) m := by
    unfold Meets
    split <;> trivial
  exact h.self.mono fun _ ha => ha.1

theorem cas_growing (command : Ulid → CasUpdate) : Growing s (s.cas command) := by
  refine (meets_any _).mono fun r hr => ?_
  obtain ⟨current, hstep, _⟩ := casUpdate_eq_ok.mp hr
  have hdrawn : Grows s s.drawn := .of_eq rfl rfl
  exact hdrawn.trans hstep.grows

theorem insertItem_growing (item : ApprovalQueueItem) : GrowingTo s (s.insertItem item) := by
  refine (meets_any _).mono fun t ht => ?_
  obtain ⟨_, _, _, _, _, rfl⟩ := insertItem_eq_ok.mp ht
  exact .of_eq rfl rfl

theorem replaceOutcome_growing (event : InjectionEvent) (expected : Option Outcome)
    (desired : Outcome) : GrowingTo s (replaceOutcome s event expected desired) := by
  refine (meets_any _).mono fun t ht => ?_
  obtain ⟨_, _, _, rfl⟩ := replaceOutcome_eq_ok.mp ht
  exact .of_eq rfl rfl

theorem insertRoot_growing {env : Env} {command : CreateMemoryCommand} {embedding : Embedding}
    {status : MemoryStatus} {memoryId : Option Uuid} {runId originAgent : Option String} :
    Growing s (insertRoot env s command embedding status memoryId runId originAgent) := by
  refine (meets_any _).mono fun r hr => ?_
  simp only [insertRoot, insertUnit, bind_eq_ok, ensure_eq_ok, require_eq_ok, pure_eq_ok] at hr
  obtain ⟨t, ⟨_, _, _, _, _, _, units, _, rfl⟩, u, hrevision, rfl⟩ := hr
  have hunits : Grows s (drawn { s.drawn with units }) := .of_eq rfl rfl
  exact hunits.trans (insertRevision_grows hrevision)

theorem insertChildren_growing {env : Env} {command : SplitChild → CreateMemoryCommand}
    {children : List (SplitChild × Embedding)} :
    Growing s (insertChildren env command s children) := by
  induction children generalizing s with
  | nil => exact .ok (.refl s)
  | cons child rest ih =>
    refine Meets.bind insertRoot_growing fun r hr => ?_
    exact ih.bind fun r' hr' => .pure (hr.trans hr')

theorem relateSiblings_growing {ids : List Uuid} : GrowingTo s (relateSiblings s ids) := by
  refine Meets.foldlM (I := (Grows s ·)) (fun t ht left _ => ?_) (.refl s)
  refine Meets.foldlM (I := (Grows s ·)) (fun u hu right _ => ?_) ht
  split
  · exact .ok hu
  · exact (meets_any _).mono fun v hv => hu.trans (insertEdge_grows id hv)

end Transactions

section Memory

variable {env : Env}

theorem create_growing {command : CreateMemoryCommand} {embedding : Embedding} :
    Growing s (create env s command embedding) := by
  refine (meets_any _).bind fun _ _ => (meets_any _).bind fun _ _ => ?_
  refine (meets_any _).bind fun _ _ => (meets_any _).bind fun _ _ => ?_
  split
  · exact .error trivial
  · split
    · exact .pure (.refl s)
    · exact Meets.bind insertRoot_growing fun r hr => (meets_any _).bind fun _ _ => .pure hr

theorem createCandidate_growing {command : CreateMemoryCommand} {replaces : List Uuid}
    {embedding : Embedding} : Growing s (createCandidate env s command replaces embedding) := by
  refine (meets_any _).bind fun _ _ => (meets_any _).bind fun _ _ => ?_
  dsimp only
  split
  · exact .pure (.refl s)
  · split
    · exact .pure (.refl s)
    · exact Meets.bind insertRoot_growing fun _ hr => .pure hr

theorem createCuratorCandidate_growing {command : CreateMemoryCommand} {excluded : List Uuid}
    {embedding : Embedding} :
    Growing s (createCuratorCandidate env s command excluded embedding) := by
  refine (meets_any _).bind fun _ _ => (meets_any _).bind fun _ _ => ?_
  dsimp only
  split
  · exact .pure (.refl s)
  · exact Meets.bind insertRoot_growing fun _ hr => .pure hr

theorem createSplitSource_growing {command : CreateMemoryCommand} {embedding : Embedding} :
    Growing s (createSplitSource env s command embedding) := by
  refine (meets_any _).bind fun _ _ => Meets.bind insertRoot_growing fun r hr => ?_
  dsimp only
  split
  · exact .pure hr
  · exact .error trivial

theorem split_growing {command : SplitMemoryCommand} {sourceEmbedding : Embedding}
    {childEmbeddings : List Embedding} :
    Growing s (split env s command sourceEmbedding childEmbeddings) := by
  refine (meets_any _).bind fun _ _ => (meets_any _).bind fun _ _ => ?_
  refine (meets_any _).bind fun _ _ => (meets_any _).bind fun refusal _ => ?_
  split
  · exact .pure (.refl s)
  · refine Meets.bind insertRoot_growing fun r hr => ?_
    dsimp only
    split
    · exact .error trivial
    · refine Meets.bind insertChildren_growing fun r' hr' => ?_
      exact Meets.bind relateSiblings_growing fun t ht => .pure ((hr.trans hr').trans ht)

theorem stageSymphony_growing {request : StageMemoryRequest} {embedding : Embedding} :
    Growing s (stageSymphony env s request embedding) := by
  refine (meets_any _).bind fun _ _ => (meets_any _).bind fun _ _ => ?_
  refine (meets_any _).bind fun _ _ => (meets_any _).bind fun row _ => ?_
  split
  · exact (meets_any _).bind fun _ _ => .pure (.refl s)
  · exact insertRoot_growing

theorem patch_growing {plan : PatchPlan} : Growing s (patch s plan) := by
  unfold patch
  dsimp only
  split
  · next hcas =>
    have hgrows := (cas_growing _).of_ok hcas
    exact (meets_any _).bind fun _ _ => .pure hgrows
  · exact (meets_any _).bind fun _ _ => .error trivial
  · split
    · exact .error trivial
    · split
      · split <;> exact .error trivial
      · exact .error trivial
  · exact .error trivial

end Memory

section Queue

variable {env : Env}

theorem seedSource_growing {request : SeedRequest} {embedding : Embedding} :
    Growing s (seedSource env s request embedding) :=
  Meets.bind createSplitSource_growing fun _ hr => .pure hr

theorem discardCandidate_growing {memoryId : Uuid} {machineId : String} :
    GrowingTo s (discardCandidate s memoryId machineId) :=
  (meets_any _).bind fun _ _ => (cas_growing _).bind fun _ hr => .pure hr

theorem enqueue_growing {admission : Admission} {unfiled : Unfiled} :
    Growing s (enqueue s admission unfiled) := by
  unfold enqueue
  split
  · exact Meets.bind discardCandidate_growing fun _ ht => .pure ht
  · have hdrawn : Grows s s.drawn := .of_eq rfl rfl
    exact (insertItem_growing _).bind fun _ ht => .pure (hdrawn.trans ht)

theorem ingest_growing {admission : Admission} {embedding : Embedding} :
    Growing s (ingest env s admission embedding) := by
  unfold ingest
  split
  · split
    · exact .ok (.refl s)
    · exact enqueue_growing
  · refine Meets.bind createCandidate_growing fun r hr => ?_
    dsimp only
    split
    · exact .pure hr
    · exact .pure hr
  · split
    · exact .pure (.refl s)
    · exact Meets.bind relateSiblings_growing fun _ ht => .pure ht

theorem insertCuratorItem_growing {request : CuratorEnqueue} {row : MemoryUnit}
    {neighbors : List Uuid} : GrowingTo s (insertCuratorItem env s request row neighbors) := by
  have hdrawn : Grows s s.drawn := .of_eq rfl rfl
  exact (insertItem_growing _).bind fun _ ht => (meets_any _).bind fun _ _ =>
    .pure (hdrawn.trans ht)

theorem close_growing {item : ApprovalQueueItem} {request : QueueDecisionRequest} :
    Growing s (close env s item request) := by
  refine (meets_any _).bind fun t ht => (meets_any _).bind fun _ _ => .pure ?_
  obtain ⟨_, _, _, rfl⟩ := insertDecision_eq_ok.mp ht
  exact .of_eq rfl rfl

theorem curatorCas_growing {candidate : MemoryUnit} {machineId : String} {findingUid : Ulid}
    {suffix : String} {changes : MemoryUnitChanges} :
    GrowingTo s (curatorCas s candidate machineId findingUid suffix changes) :=
  (cas_growing _).bind fun _ hr => .pure hr

theorem enactCuratorSplit_growing {source : MemoryUnit}
    {children : List (SplitChild × Embedding)} {machineId : String} {findingUid : Ulid} :
    GrowingTo s (enactCuratorSplit env s source children machineId findingUid) := by
  refine (meets_any _).bind fun _ _ => (cas_growing _).bind fun r hr => ?_
  refine Meets.bind insertChildren_growing fun r' hr' => ?_
  exact Meets.mono relateSiblings_growing fun _ ht => (hr.trans hr').trans ht

end Queue

section Curation

variable {env : Env}

theorem judge_growing {pass : CuratorPass} {finding : HealthFinding}
    {unjudged : List HealthFinding} {draft : Option CuratorVerdictDraft} :
    Growing s (judge s pass finding unjudged draft) := by
  unfold judge
  split
  · exact .ok (.refl s)
  · dsimp only
    split
    · exact .ok (.refl s)
    · exact (meets_any _).bind fun _ _ => .pure (.of_eq rfl rfl)

theorem enqueueCurator_growing {pass : CuratorPass} {request : CuratorEnqueue}
    {embedding : Embedding} : Growing s (enqueueCurator env s pass request embedding) := by
  unfold enqueueCurator
  split
  · exact (meets_any _).bind fun _ _ => (meets_any _).bind fun _ _ => .pure (.refl s)
  · split
    · refine (meets_any _).bind fun _ _ => Meets.bind createCuratorCandidate_growing fun r hr => ?_
      dsimp only
      split
      · exact .pure hr
      · exact .pure hr
    · exact Meets.bind insertCuratorItem_growing fun _ ht => .pure ht
  · exact (meets_any _).bind fun _ _ => .pure (.refl s)
  · exact Meets.bind insertCuratorItem_growing fun _ ht => .pure ht

theorem route_grows {pass : CuratorPass} {item : JudgedFinding} {embedding : Embedding} :
    Grows s (route env s pass item embedding).2 := by
  unfold route
  split
  · exact .refl s
  · split
    · exact .refl s
    · split
      · next hok => exact enqueueCurator_growing.of_ok hok
      · exact .refl s

theorem advance_growing {pass : CuratorPass} {draft : Option CuratorVerdictDraft}
    {embedding : Embedding} : Growing s (advance env s pass draft embedding) := by
  unfold advance
  split
  · exact Meets.bind judge_growing fun _ hr => .pure hr
  · exact .ok route_grows
  · exact .ok (.of_eq rfl rfl)

end Curation

section Runs

theorem routeRow_growing {runId : String} {request : ResolveRunRequest} {row : MemoryUnit} :
    GrowingTo s (routeRow runId request s row) := by
  refine (cas_growing _).bind fun r hr => ?_
  dsimp only
  split
  · have hdrawn : Grows s r.2.drawn := hr.trans (.of_eq rfl rfl)
    exact (insertItem_growing _).mono fun _ ht => hdrawn.trans ht
  · exact .pure hr

theorem resolve_growing {runId : String} {request : ResolveRunRequest} :
    GrowingTo s (resolve s runId request) := by
  refine (meets_any _).bind fun _ _ => ?_
  split
  · exact (meets_any _).bind fun _ _ => .pure (.refl s)
  · refine (meets_any _).bind fun _ _ => (meets_any _).bind fun _ _ => ?_
    refine (meets_any _).bind fun _ _ => (meets_any _).bind fun _ _ => ?_
    refine (meets_any _).bind fun _ _ => ?_
    exact Meets.foldlM (I := (Grows s ·))
      (fun t ht row _ => Meets.mono routeRow_growing fun _ hu => ht.trans hu) (.of_eq rfl rfl)

end Runs

section Injection

variable {env : Env}

theorem stampThread_growing {plan : PreparePlan} : GrowingTo s (stampThread s plan) := by
  unfold stampThread
  dsimp only
  split
  · exact (meets_any _).bind fun _ _ => .pure (.of_eq rfl rfl)
  · exact .ok (.of_eq rfl rfl)

theorem incrementInjectionStats_growing {command : PrepareCommand} {snapshotTs : Time}
    {injected : List Candidate} :
    GrowingTo s (incrementInjectionStats s command snapshotTs injected) := by
  refine Meets.foldlM (I := (Grows s ·)) (fun t ht item _ => ?_) (.refl s)
  exact (meets_any _).bind fun _ _ => (cas_growing _).bind fun _ hr => .pure (ht.trans hr)

theorem insertEvents_growing {plan : PreparePlan} {allocation : MemoryAllocation}
    {injectionId : Uuid} {drafts : List EventDraft} :
    Growing s (insertEvents env plan allocation injectionId s drafts) := by
  induction drafts generalizing s with
  | nil => exact .ok (.refl s)
  | cons draft rest ih =>
    refine (meets_any _).bind fun events _ => ih.bind fun r hr => .pure ?_
    have hrow : Grows s { s.drawn with events } := .of_eq rfl rfl
    exact hrow.trans hr

theorem prepareWrite_growing {plan : PreparePlan} : Growing s (prepareWrite env s plan) := by
  refine (meets_any _).bind fun _ _ => Meets.bind stampThread_growing fun t ht => ?_
  refine Meets.bind incrementInjectionStats_growing fun u hu => ?_
  refine Meets.bind insertEvents_growing fun r hr => .pure ?_
  have hdrawn : Grows s t.drawn := ht.trans (.of_eq rfl rfl)
  exact (hdrawn.trans hu).trans hr

theorem commitHead_growing {item : PlannedOutcome} : GrowingTo s (commitHead s item) := by
  refine (meets_any _).bind fun _ _ => (meets_any _).bind fun _ _ => ?_
  refine (meets_any _).bind fun _ _ => (meets_any _).bind fun _ _ => ?_
  exact (cas_growing _).bind fun _ hr => .pure hr

theorem writeNewOutcome_growing {item : PlannedOutcome} :
    GrowingTo s (writeNewOutcome s item) :=
  (meets_any _).bind fun _ _ => replaceOutcome_growing _ _ _

theorem commit_growing {command : CommitCommand} : Growing s (commit s command) := by
  unfold commit
  dsimp only
  split
  · exact (meets_any _).bind fun _ _ => .pure (.refl s)
  · refine (meets_any _).bind fun planned _ => ?_
    refine (Meets.foldlM (I := (Grows s ·))
      (fun t ht _ _ => Meets.mono commitHead_growing fun _ hu => ht.trans hu) (.refl s)).bind
      fun t ht => ?_
    refine (Meets.foldlM (I := (Grows s ·))
      (fun t ht _ _ => Meets.mono writeNewOutcome_growing fun _ hu => ht.trans hu) ht).bind
      fun u hu => ?_
    exact (meets_any _).bind fun _ _ => .pure hu

theorem feedbackHead_growing {event : InjectionEvent} {signal : FeedbackSignal} :
    GrowingTo s (feedbackHead s event signal) := by
  unfold feedbackHead
  split
  · exact .ok (.refl s)
  · exact (meets_any _).bind fun _ _ => (cas_growing _).bind fun _ hr => .pure hr

theorem feedback_growing {command : FeedbackCommand} : GrowingTo s (feedback s command) := by
  refine (meets_any _).bind fun event _ => ?_
  split
  · exact .pure (.refl s)
  · refine (meets_any _).bind fun _ _ => Meets.bind feedbackHead_growing fun t ht => ?_
    exact (replaceOutcome_growing _ _ _).mono fun _ hu => ht.trans hu

end Injection

end Store

end Nocturne
