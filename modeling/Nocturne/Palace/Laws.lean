import Nocturne.Curation.Laws
import Nocturne.Inject.Laws
import Nocturne.Palace.Machine
import Nocturne.Symphony.Laws

namespace Nocturne

open Nocturne.Lib Nocturne.Store Nocturne.Memory Nocturne.Queue Nocturne.Curation
  Nocturne.Symphony Nocturne.Inject

namespace Palace

/-- What each transaction can do to the palace; `s` is the store as the transaction began. -/
inductive Stepped (w : World) (p : Palace) (s : Store) : Action → Palace → Prop
  | create {command : CreateMemoryCommand} {embedding : Embedding} {s' : Store} :
    Writes { root := (·.status = .active) } s s' →
      Stepped w p s (.create command embedding) ⟨s', p.ops⟩
  | split {command : SplitMemoryCommand} {embedding : Embedding} {embeddings : List Embedding}
    {s' : Store} : Writes { root := fun u => u.status = .active ∨ u.status = .tombstoned } s s' →
      Stepped w p s (.split command embedding embeddings) ⟨s', p.ops⟩
  | stage {request : StageMemoryRequest} {embedding : Embedding} {s' : Store} :
    Writes { root := (·.status = .staged) } s s' →
      Stepped w p s (.stage request embedding) ⟨s', p.ops⟩
  | resolve {runId : String} {request : ResolveRunRequest} {s' : Store} :
    (s' = s ∧ (s.resolutions.get? runId).isSome ∨ ∃ t,
      s.Resolves (request.resolution runId) t ∧
        Routed runId request t (lockedRunRows s runId) s') →
      Stepped w p s (.resolve runId request) ⟨s', p.ops⟩
  | startPatch {request : PatchMemoryRequest} {embedding : Embedding} {plan : PatchPlan} :
    plan.request = request → plan.changes.status = request.status.map (·.toStatus) →
      Stepped w p s (.startPatch request embedding) (p.launch s (.patching plan))
  | patch {k : Nat} {plan : PatchPlan} {s' : Store} : p.ops[k]? = some (.patching plan) →
      Writes (patchFootprint plan) s s' → Stepped w p s (.patch k) (p.become k s' .done)
  | startExtract {request : ExtractionRequest} {admission : Admission} :
    admission.unfiled = none →
      Stepped w p s (.startExtract request) (p.launch s (.admitting admission))
  | seeded {request : SeedRequest} : Stepped w p s (.startSeed request) ⟨s, p.ops⟩
  | startSeed {request : SeedRequest} :
    Stepped w p s (.startSeed request) (p.launch s (.seeding request))
  | seedSource {k : Nat} {embedding : Embedding} {request : SeedRequest} {admission : Admission}
    {s' : Store} : p.ops[k]? = some (.seeding request) →
      Writes { root := (·.status = .tombstoned) } s s' → admission.unfiled = none →
      Stepped w p s (.seedSource k embedding) (p.become k s' (.admitting admission))
  | ingest {k : Nat} {embedding : Embedding} {admission : Admission}
    {admission' : Option Admission} {s' : Store} : p.ops[k]? = some (.admitting admission) →
      IngestStep s admission admission' s' →
      Stepped w p s (.ingest k embedding) (p.become k s' (admission'.elim .done .admitting))
  | startPass {principalId machineId : String} :
    (∀ op ∈ p.ops, op.curates ≠ some principalId) →
      Stepped w p s (.startPass principalId machineId)
        (p.launch s.drawn
          (.curating (startPass w.env w.diagnosis s principalId machineId).1))
  | advance {k : Nat} {draft : Option CuratorVerdictDraft} {embedding : Embedding}
    {pass : CuratorPass} {pass' : Option CuratorPass} {s' : Store} :
    p.ops[k]? = some (.curating pass) → AdvanceStep s pass pass' s' →
      Stepped w p s (.advance k draft embedding) (p.become k s' (pass'.elim .done .curating))
  | startDecision {itemUid : Ulid} {request : QueueDecisionRequest} {embedding : Embedding}
    {embeddings : List Embedding} {plan : DecisionPlan} :
    plan.itemUid = itemUid → plan.request = request → request.SignalPair →
      (∀ changes ∈ plan.amendment, changes.status = some .active) →
      Stepped w p s (.startDecision itemUid request embedding embeddings)
        (p.launch s (.deciding plan))
  | decide {k : Nat} {plan : DecisionPlan} {item : ApprovalQueueItem} {s' : Store} :
    p.ops[k]? = some (.deciding plan) → s.items.get? plan.itemUid = some item →
      (s' = s ∨ Decided s item plan s') → Stepped w p s (.decide k) (p.become k s' .done)
  | decideBatch {batchUid : Uuid} {request : QueueDecisionRequest} {s' : Store} :
    BatchSteps request s (batchRows s batchUid) s' →
      Stepped w p s (.decideBatch batchUid request) ⟨s', p.ops⟩
  | prepare {command : PrepareCommand} {query : Embedding} {plan : PreparePlan} :
    prepareRead w.env w.scoring s command query = .ok plan →
      Stepped w p s (.prepare command query) (p.launch s (.preparing plan))
  | prepareWrite {k : Nat} {plan : PreparePlan} {r : PrepareResponse × Store} :
    p.ops[k]? = some (.preparing plan) → prepareWrite w.env s plan = .ok r →
      Writes (prepareFootprint plan r.1.injectionId) s r.2 →
      Stepped w p s (.prepareWrite k) (p.become k r.2 .done)
  | commit {command : CommitCommand} {r : CommitResponse × Store} :
    commit s command = .ok r → Writes (commitFootprint command) s r.2 →
      Stepped w p s (.commit command) ⟨r.2, p.ops⟩
  | feedback {command : FeedbackCommand} {s' : Store} : feedback s command = .ok s' →
      Writes (feedbackFootprint command) s s' → Stepped w p s (.feedback command) ⟨s', p.ops⟩
  | abandon {k : Nat} : Stepped w p s (.abandon k) (p.become k s .done)

variable {w : World} {p p' : Palace} {call : Call}

theorem inFlight_meets {α : Type} {k : Nat} {f : Operation → Option α} :
    Meets (fun a => ∃ op, p.ops[k]? = some op ∧ f op = some a) SpineError.Lineaged
      (p.inFlight k f) :=
  (Meets.require trivial).mono fun _ h => Option.bind_eq_some_iff.mp h

theorem step_meets (h : p.store.Lineage) :
    Meets (Stepped w p (p.store.begin call.session) call.action) SpineError.Lineaged
      (p.step w call) := by
  have hs : (p.store.begin call.session).Lineage := h.congr rfl rfl
  obtain ⟨session, action⟩ := call
  cases action with
  | create => exact create_meets.bind fun _ hw => .pure (.create hw)
  | split => exact split_meets.bind fun _ hw => .pure (.split hw)
  | stage => exact stageSymphony_meets.bind fun _ hw => .pure (.stage hw)
  | resolve => exact (resolve_meets hs).bind fun _ hr => .pure (.resolve hr)
  | startPatch =>
    exact patchPreflight_meets.bind fun _ hplan => .pure (.startPatch hplan.1 hplan.2)
  | patch k =>
    refine inFlight_meets.bind fun plan hop => ?_
    obtain ⟨_, hop, hplan⟩ := hop
    obtain rfl := Operation.patching?_eq_some.mp hplan
    exact (patch_meets hs).bind fun _ hw => .pure (.patch hop hw)
  | startExtract => exact startExtract_meets.bind fun _ hfiled => .pure (.startExtract hfiled)
  | startSeed =>
    refine validateSeed_checks.bind fun _ _ => seedBatch_meets.bind fun batch _ => ?_
    cases batch with
    | some _ => exact .pure .seeded
    | none => exact .pure .startSeed
  | seedSource k =>
    refine inFlight_meets.bind fun request hop => ?_
    obtain ⟨_, hop, hrequest⟩ := hop
    obtain rfl := Operation.seeding?_eq_some.mp hrequest
    exact seedSource_meets.bind fun _ hw => .pure (.seedSource hop hw.1 hw.2)
  | ingest k =>
    refine inFlight_meets.bind fun admission hop => ?_
    obtain ⟨_, hop, hadmission⟩ := hop
    obtain rfl := Operation.admitting?_eq_some.mp hadmission
    exact (ingest_meets hs).bind fun _ hstep => .pure (.ingest hop hstep)
  | startPass => exact (Meets.ensure trivial).bind fun _ hlock => .pure (.startPass hlock)
  | advance k =>
    refine inFlight_meets.bind fun pass hop => ?_
    obtain ⟨_, hop, hpass⟩ := hop
    obtain rfl := Operation.curating?_eq_some.mp hpass
    exact advance_meets.bind fun _ hstep => .pure (.advance hop hstep)
  | startDecision =>
    exact decidePreflight_meets.bind fun _ hplan =>
      .pure (.startDecision hplan.1 hplan.2.1 hplan.2.2.1 hplan.2.2.2)
  | decide k =>
    refine inFlight_meets.bind fun plan hop => ?_
    obtain ⟨_, hop, hplan⟩ := hop
    obtain rfl := Operation.deciding?_eq_some.mp hplan
    refine (decide_meets hs).bind fun r hr => ?_
    obtain ⟨item, hitem, hr⟩ := hr
    exact .pure (.decide hop hitem hr)
  | decideBatch => exact (decideBatch_meets hs).bind fun _ hr => .pure (.decideBatch hr)
  | prepare => exact prepareRead_meets.self.bind fun _ hplan => .pure (.prepare hplan.1)
  | prepareWrite k =>
    refine inFlight_meets.bind fun plan hop => ?_
    obtain ⟨_, hop, hplan⟩ := hop
    obtain rfl := Operation.preparing?_eq_some.mp hplan
    exact (prepareWrite_meets hs).self.bind fun _ hr => .pure (.prepareWrite hop hr.1 hr.2)
  | commit => exact (commit_meets hs).self.bind fun _ hr => .pure (.commit hr.1 hr.2)
  | feedback => exact (feedback_meets hs).self.bind fun _ hr => .pure (.feedback hr.1 hr.2)
  | abandon => exact .ok .abandon

end Palace

end Nocturne
