import Nocturne.Memory.Patch
import Nocturne.Memory.Staging
import Nocturne.Store.Footprint

namespace Nocturne.Memory

open Nocturne.Lib Nocturne.Store

variable {env : Env} {s : Store}

section Checks

/-- A check that answers nothing refuses only for its own reasons. -/
abbrev Checks (p : Prop) (m : Except SpineError PUnit) : Prop :=
  Meets (fun _ => p) SpineError.Lineaged m

theorem validateLabel_checks {label : String} :
    Checks (label.length ≤ env.labelMax) (validateLabel env label) :=
  Meets.ensure trivial

theorem validateBody_checks {body : String} :
    Checks (env.cl100kTokenCount body ≤ env.memoryMaxTokens) (validateBody env body) :=
  Meets.ensure trivial

theorem validateSplitKeywordsFrom_checks {seen keywords : List String} :
    Checks True (validateSplitKeywordsFrom env seen keywords) := by
  induction keywords generalizing seen with
  | nil => exact .ok trivial
  | cons keyword rest ih =>
    refine (Meets.ensure trivial).bind fun _ _ => ?_
    exact (Meets.ensure trivial).bind fun _ _ => ih

theorem validateSplitKeywords_checks {keywords : List String} :
    Checks True (validateSplitKeywords env keywords) :=
  (Meets.ensure trivial).bind fun _ _ => validateSplitKeywordsFrom_checks

theorem validateSplitChildren_checks {labels bodies : List String} {children : List SplitChild} :
    Checks True (validateSplitChildren env labels bodies children) := by
  induction children generalizing labels bodies with
  | nil => exact .ok trivial
  | cons child rest ih =>
    refine (Meets.ensure trivial).bind fun _ _ => ?_
    refine Meets.bind validateLabel_checks fun _ _ => ?_
    refine (Meets.ensure trivial).bind fun _ _ => ?_
    refine (Meets.ensure trivial).bind fun _ _ => ?_
    refine Meets.bind validateBody_checks fun _ _ => ?_
    refine (Meets.ensure trivial).bind fun _ _ => ?_
    exact Meets.bind validateSplitKeywords_checks fun _ _ => ih

theorem validateSplit_checks {command : SplitMemoryCommand} :
    Checks True (validateSplit env command) := by
  refine (Meets.ensure trivial).bind fun _ _ => ?_
  refine (Meets.ensure trivial).bind fun _ _ => ?_
  exact Meets.bind validateLabel_checks fun _ _ => validateSplitChildren_checks

theorem prepareSplitChildren_checks {labels bodies : List String} {children : List SplitChild} :
    Checks True (prepareSplitChildren env labels bodies children) := by
  induction children generalizing labels bodies with
  | nil => exact .ok trivial
  | cons child rest ih =>
    refine Meets.bind validateLabel_checks fun _ _ => ?_
    refine Meets.bind validateBody_checks fun _ _ => ?_
    refine Meets.bind validateSplitKeywords_checks fun _ _ => ?_
    exact (Meets.ensure trivial).bind fun _ _ => ih

theorem contractMemory_meets {unit : MemoryUnit} :
    Meets (fun u => u = unit ∧ unit.status ≠ .staged) SpineError.Lineaged
      (contractMemory unit) :=
  (Meets.ensure trivial).bind fun _ h => Meets.pure ⟨rfl, h⟩

theorem prepareCuratorSplit_meets {children : List SplitChild} {embeddings : List Embedding} :
    Meets (fun _ => True) SpineError.Lineaged (prepareCuratorSplit env children embeddings) := by
  refine (Meets.ensure trivial).bind fun _ _ => ?_
  refine Meets.bind prepareSplitChildren_checks fun _ _ => ?_
  exact (Meets.ensure trivial).bind fun _ _ => .pure trivial

theorem splitRefusal_meets {principalId : String} {children : List (SplitChild × Embedding)} :
    Meets (fun _ => True) SpineError.Lineaged (splitRefusal env s principalId children) := by
  induction children with
  | nil => exact .ok trivial
  | cons child rest ih =>
    unfold splitRefusal
    split
    · exact .error trivial
    · dsimp only
      split
      · exact .error trivial
      · exact .pure trivial
      · exact ih

end Checks

section Roots

/-- A new head is the row inserted, at revision 1 and in the status asked for. -/
structure Inserted (s : Store) (status : MemoryStatus) (command : CreateMemoryCommand)
    (r : MemoryUnit × Store) : Prop where
  fresh : s.units.get? r.1.id = none
  found : r.2.units.get? r.1.id = some r.1
  status : r.1.status = status
  revision : r.1.revision = 1
  principalId : r.1.principalId = command.principalId
  others : ∀ id, id ≠ r.1.id → r.2.units.get? id = s.units.get? id

theorem insertRoot_meets (φ : Footprint) {command : CreateMemoryCommand} {embedding : Embedding}
    {status : MemoryStatus} {memoryId : Option Uuid} {runId originAgent : Option String}
    (hφ : ∀ u : MemoryUnit, u.status = status → φ.root u) :
    Meets (fun r => Writes φ s r.2 ∧ Inserted s status command r) SpineError.Lineaged
      (insertRoot env s command embedding status memoryId runId originAgent) := by
  have hmeets : Meets (fun _ => True) SpineError.Lineaged
      (insertRoot env s command embedding status memoryId runId originAgent) := by
    refine Meets.bind (Q := fun _ => True) ?_ fun _ _ => Meets.bind (Q := fun _ => True) ?_
      fun _ _ => .pure trivial
    · refine (Meets.ensure trivial).bind fun _ _ => ?_
      refine (Meets.ensure trivial).bind fun _ _ => ?_
      refine (Meets.ensure trivial).bind fun _ _ => ?_
      exact (Meets.require trivial).bind fun _ _ => .pure trivial
    · refine (Meets.ensure trivial).bind fun _ _ => ?_
      exact (Meets.require trivial).bind fun _ _ => .pure trivial
  refine hmeets.self.mono fun r hr => ?_
  have h := hr.1
  simp only [insertRoot, insertUnit, insertRevision, bind_eq_ok, ensure_eq_ok, require_eq_ok,
    pure_eq_ok] at h
  obtain ⟨t, ⟨_, _, _, hstaged, _, hlabel, units, hunits, rfl⟩, w, ⟨_, _, revisions, hrevisions,
    rfl⟩, rfl⟩ := h
  have hstep : RootStep s.drawn _ _ _ :=
    ⟨hstaged, hlabel, ⟨rfl, rfl, rfl, rfl, rfl⟩, units, revisions, hunits, hrevisions, rfl⟩
  refine ⟨((drawn_quiet.writes).tail (.root (hφ _ rfl) hstep)).trans (drawn_quiet.writes), ?_⟩
  refine ⟨hstep.fresh, by simp [hstep.get?_units], rfl, rfl, rfl, fun id hid => ?_⟩
  exact (hstep.get?_units id).trans (if_neg hid)

theorem create_meets {command : CreateMemoryCommand} {embedding : Embedding} :
    Meets (fun r => Writes { root := (·.status = .active) } s r.2) SpineError.Lineaged
      (create env s command embedding) := by
  refine validateLabel_checks.bind fun _ _ => ?_
  refine validateBody_checks.bind fun _ _ => ?_
  refine (Meets.ensure trivial).bind fun _ _ => ?_
  refine (Meets.ensure trivial).bind fun _ _ => ?_
  split
  · exact .error trivial
  · split
    · exact .pure .refl
    · refine (insertRoot_meets { root := (·.status = .active) } fun u hu => hu).bind fun r hr => ?_
      exact Meets.bind contractMemory_meets fun _ _ => Meets.pure hr.1

theorem createCandidate_meets {command : CreateMemoryCommand} {replaces : List Uuid}
    {embedding : Embedding} :
    Meets (fun r => Writes { root := (·.status = .candidate) } s r.2 ∧ (r.1 = none → r.2 = s) ∧
        ∀ created ∈ r.1, Inserted s .candidate command (created.memory, r.2))
      SpineError.Lineaged (createCandidate env s command replaces embedding) := by
  refine validateLabel_checks.bind fun _ _ => ?_
  refine validateBody_checks.bind fun _ _ => ?_
  dsimp only
  split
  · exact .pure ⟨.refl, fun _ => rfl, by simp⟩
  · split
    · exact .pure ⟨.refl, fun _ => rfl, by simp⟩
    · refine (insertRoot_meets { root := (·.status = .candidate) }
        fun u hu => hu).bind fun r hr => ?_
      refine Meets.pure ⟨hr.1, nofun, fun created hcreated => ?_⟩
      obtain rfl := Option.mem_some_iff.mp hcreated
      exact hr.2

theorem createCuratorCandidate_meets {command : CreateMemoryCommand} {excluded : List Uuid}
    {embedding : Embedding} :
    Meets (fun r => Writes { root := (·.status = .candidate) } s r.2 ∧ (r.1 = none → r.2 = s) ∧
        ∀ created ∈ r.1, Inserted s .candidate command (created.memory, r.2))
      SpineError.Lineaged (createCuratorCandidate env s command excluded embedding) := by
  refine validateLabel_checks.bind fun _ _ => ?_
  refine validateBody_checks.bind fun _ _ => ?_
  dsimp only
  split
  · exact .pure ⟨.refl, fun _ => rfl, by simp⟩
  · refine (insertRoot_meets { root := (·.status = .candidate) } fun u hu => hu).bind fun r hr => ?_
    refine Meets.pure ⟨hr.1, nofun, fun created hcreated => ?_⟩
    obtain rfl := Option.mem_some_iff.mp hcreated
    exact hr.2

theorem createSplitSource_meets {command : CreateMemoryCommand} {embedding : Embedding} :
    Meets (fun r => Writes { root := (·.status = .tombstoned) } s r.2) SpineError.Lineaged
      (createSplitSource env s command embedding) := by
  refine validateLabel_checks.bind fun _ _ => ?_
  refine (insertRoot_meets { root := (·.status = .tombstoned) } fun u hu => hu).bind fun r hr => ?_
  dsimp only
  split
  · exact Meets.pure hr.1
  · exact .error trivial

theorem stagedReplayRow_meets {memoryId : Uuid} {command : CreateMemoryCommand} :
    Meets (fun row => ∀ u ∈ row, s.units.get? memoryId = some u) SpineError.Lineaged
      (stagedReplayRow s memoryId command) := by
  unfold stagedReplayRow
  split
  · simp [Meets]
  · next row hrow =>
    refine (Meets.ensure trivial).bind fun _ _ => ?_
    refine (Meets.ensure trivial).bind fun _ _ => ?_
    refine Meets.pure fun u hu => ?_
    obtain rfl := Option.mem_some_iff.mp hu
    exact hrow

theorem stageSymphony_meets {request : StageMemoryRequest} {embedding : Embedding} :
    Meets (fun r => Writes { root := (·.status = .staged) } s r.2) SpineError.Lineaged
      (stageSymphony env s request embedding) := by
  refine (Meets.ensure trivial).bind fun _ _ => ?_
  refine validateLabel_checks.bind fun _ _ => ?_
  refine validateBody_checks.bind fun _ _ => ?_
  refine Meets.bind stagedReplayRow_meets fun row _ => ?_
  split
  · exact (Meets.ensure trivial).bind fun _ _ => Meets.pure .refl
  · exact (insertRoot_meets { root := (·.status = .staged) } fun u hu => hu).mono fun _ hr => hr.1

end Roots

section Families

theorem relateSiblings_meets {ids : List Uuid} :
    Meets (s.Quiet ·) SpineError.Lineaged (relateSiblings s ids) := by
  refine Meets.foldlM (I := (s.Quiet ·)) (fun t ht left _ => ?_) (.refl s)
  refine Meets.foldlM (I := (s.Quiet ·)) (fun u hu right _ => ?_) ht
  split
  · exact .ok hu
  · exact insertEdge_meets.mono fun _ h => hu.trans h

theorem insertChildren_meets {command : SplitChild → CreateMemoryCommand}
    {children : List (SplitChild × Embedding)} :
    Meets (fun r => Writes { root := (·.status = .active) } s r.2) SpineError.Lineaged
      (insertChildren env command s children) := by
  induction children generalizing s with
  | nil => exact .ok .refl
  | cons child rest ih =>
    refine (insertRoot_meets { root := (·.status = .active) } fun u hu => hu).bind fun r hr => ?_
    exact ih.bind fun r' hr' => Meets.pure (hr.1.trans hr')

theorem split_meets {command : SplitMemoryCommand} {sourceEmbedding : Embedding}
    {childEmbeddings : List Embedding} :
    Meets (fun r => Writes { root := fun u => u.status = .active ∨ u.status = .tombstoned } s r.2)
      SpineError.Lineaged (split env s command sourceEmbedding childEmbeddings) := by
  refine validateSplit_checks.bind fun _ _ => ?_
  refine (Meets.ensure trivial).bind fun _ _ => ?_
  refine (Meets.ensure trivial).bind fun _ _ => ?_
  refine splitRefusal_meets.bind fun refusal _ => ?_
  split
  · exact Meets.pure .refl
  · refine (insertRoot_meets
      { root := fun u => u.status = .active ∨ u.status = .tombstoned }
      fun u hu => .inr hu).bind fun r hr => ?_
    dsimp only
    split
    · exact .error trivial
    · refine Meets.bind insertChildren_meets fun r' hr' => ?_
      refine Meets.bind relateSiblings_meets fun t ht => Meets.pure ?_
      exact (hr.1.trans (hr'.mono ⟨id, .inl, id, id, id, id, id⟩)).trans ht.writes

/-- What an approved split writes: its source, as it was read, and new heads. -/
def curatorSplitFootprint (source : MemoryUnit) : Footprint :=
  { head := fun u c => u = source ∧ source.status = .active ∧
      c.At source.id source.revision { status := some .tombstoned }
    root := (·.status = .active) }

theorem enactCuratorSplit_meets {source : MemoryUnit} {children : List (SplitChild × Embedding)}
    {machineId : String} {findingUid : Ulid} (h : s.Lineage)
    (hsource : s.units.get? source.id = some source) :
    Meets (Writes (curatorSplitFootprint source) s ·)
      SpineError.Lineaged (enactCuratorSplit env s source children machineId findingUid) := by
  refine (Meets.ensure trivial).bind fun _ hactive => ?_
  refine (cas_meets (curatorSplitFootprint source) h
    fun u hu _ => ⟨?_, hactive, rfl, rfl, rfl⟩).bind fun r hr => ?_
  · exact Option.some.inj (hu.symm.trans hsource)
  · refine Meets.bind insertChildren_meets fun r' hr' => ?_
    refine Meets.mono relateSiblings_meets fun t ht => ?_
    exact (hr.1.trans (hr'.mono ⟨False.elim, id, id, id, id, id, id⟩)).trans ht.writes

end Families

section Patch

theorem patchPreflight_meets {request : PatchMemoryRequest} {embedding : Embedding} :
    Meets (fun plan => plan.request = request ∧
        plan.changes.status = request.status.map (·.toStatus)) SpineError.Lineaged
      (patchPreflight env s request embedding) := by
  refine (Meets.ensure trivial).bind fun _ _ => ?_
  refine (Meets.ensure trivial).bind fun _ _ => ?_
  refine (Meets.require trivial).bind fun _ _ => ?_
  refine (Meets.ensure trivial).bind fun _ _ => ?_
  have hbody : Checks True (request.body.forM (validateBody env)) := by
    cases request.body with
    | none => exact .pure trivial
    | some body => exact validateBody_checks.mono fun _ _ => trivial
  have hlabel : Checks True (request.label.forM (validateLabel env)) := by
    cases request.label with
    | none => exact .pure trivial
    | some label => exact validateLabel_checks.mono fun _ _ => trivial
  refine hbody.bind fun _ _ => ?_
  exact hlabel.bind fun _ _ => Meets.pure ⟨rfl, rfl⟩

/-- What a PATCH writes: its own head, once, at the revision its caller expects. -/
def patchFootprint (plan : PatchPlan) : Footprint :=
  { head := fun _ c =>
      c.At plan.request.memoryId plan.request.expectedRevision plan.changes }

theorem patch_meets {plan : PatchPlan} (h : s.Lineage) :
    Meets (fun r => Writes (patchFootprint plan) s r.2) SpineError.Lineaged (patch s plan) := by
  have hcas : Meets (fun r : MemoryUnit × Store => Writes (patchFootprint plan) s r.2)
      SpineError.Lineaged (s.cas fun revUid =>
        { memoryId := plan.request.memoryId
          expectedRevision := plan.request.expectedRevision
          revUid
          editor := plan.request.editor
          originMachineId := plan.request.machineId
          reason := plan.request.reason
          changes := plan.changes }) :=
    (cas_meets (patchFootprint plan) h fun u _ _ => ⟨rfl, rfl, rfl⟩).mono fun _ hr => hr.1
  unfold patch
  dsimp only
  split
  · next hr =>
    have hwrites := hcas.of_ok hr
    exact contractMemory_meets.bind fun _ _ => Meets.pure hwrites
  · exact contractMemory_meets.bind fun _ _ => .error trivial
  · split
    · exact .error trivial
    · split
      · split <;> exact .error trivial
      · exact .error trivial
  · next hr => exact .error (hcas.of_error hr)

end Patch

end Nocturne.Memory
