import Nocturne.Palace.Closure
import Nocturne.Symphony.Retries

namespace Nocturne

open Nocturne.Lib Nocturne.Store Nocturne.Memory Nocturne.Queue Nocturne.Curation
  Nocturne.Symphony Nocturne.Inject

variable {w : World} {p q : Palace} {s s' : Store}

section Staged

theorem staysStaged_of_step {call : Call} (hlineage : p.store.Lineage) (h : Consented p)
    (haccepted : (palace w).step p call = .ok q) {id : Uuid}
    (hknown : (p.store.units.get? id).isSome) : StaysStaged p.store q.store id := by
  obtain ⟨session, action⟩ := call
  have hstages := stages_of_step hlineage h haccepted
  generalize q.store = s' at hstages ⊢
  cases hstages with
  | offstage hoff => exact hoff.staged id
  | @stage request _ _ hstaged =>
    apply StaysStaged.of_eq
    rw [hstaged.units, if_neg]
    · rfl
    · rintro rfl
      have hfresh : p.store.units.get? request.memoryId = none := hstaged.fresh
      simp [hfresh] at hknown
  | settle hresolves hrouted =>
    intro u' hu' hstaged
    obtain ⟨hu, _⟩ := (h.settles hresolves hrouted).closes.staged hu' hstaged
    exact ⟨u', hu, hstaged, .refl u'⟩

/-- A head that is still staged was staged all along, and at most counted. -/
theorem staysStaged_of_run (h : (palace w).Reachable p) (calls : List Call) {id : Uuid}
    (hknown : (p.store.units.get? id).isSome) :
    StaysStaged p.store ((palace w).run p calls).store id := by
  refine (Machine.run_keeps (M := palace w) (I := fun q => (palace w).Reachable q ∧
    (q.store.units.get? id).isSome ∧ StaysStaged p.store q.store id) ?_ calls
    ⟨h, hknown, .of_eq rfl⟩).2.2
  rintro q call q' ⟨hq, hfound, hstays⟩ haccepted
  have hlineage := lineage_of_reachable hq
  obtain ⟨u, hu⟩ := Option.isSome_iff_exists.mp hfound
  obtain ⟨u', hu', _⟩ := (writes_of_step hlineage haccepted).descends hu
  exact ⟨hq.step haccepted, Option.isSome_iff_exists.mpr ⟨u', hu'⟩,
    hstays.trans (staysStaged_of_step hlineage (consented_of_reachable hq) haccepted hfound)⟩

/-- The head of a request answers it for as long as it is staged. -/
theorem Symphony.Replays.later {request : StageMemoryRequest} {u v : MemoryUnit}
    (h : Replays s request u) (hstays : StaysStaged s s' request.memoryId)
    (hrows : s.revisions.rows <+: s'.revisions.rows)
    (hv : s'.units.get? request.memoryId = some v) (hstaged : v.status = .staged) :
    Replays s' request v := by
  obtain ⟨u', hu', _, hcounted⟩ := hstays v hv hstaged
  obtain rfl := Option.some.inj (h.found.symm.trans hu')
  obtain ⟨row, hrow, hprovenance⟩ := h.provenance
  refine ⟨hv, hstaged, ?_, ?_, ?_, row, ?_, hprovenance⟩
  · rw [hcounted]
    exact h.text
  · rw [hcounted]
    exact h.origin
  · rw [hcounted]
    exact h.attempt
  · obtain ⟨later, hlater⟩ := hrows
    rw [← hlater, List.find?_append, Option.mem_def.mp hrow]
    rfl

end Staged

section Batches

/-- Every symphony card was there before, on the same candidate and of the same birth. -/
def NoSymphonyCards (s s' : Store) : Prop :=
  ∀ item ∈ s'.items.rows, item.birthplace.IsSymphony → ∃ old ∈ s.items.rows,
    old.candidateMemoryId = item.candidateMemoryId ∧ old.birthplace = item.birthplace

theorem NoSymphonyCards.of_writes {φ : Footprint} (h : Writes φ s s')
    (hcard : ∀ item, φ.card item → ¬item.birthplace.IsSymphony) : NoSymphonyCards s s' := by
  intro row hrow hsymphony
  obtain ⟨item, _, _, rfl, hold | hnew⟩ := Writes.card_cases h hrow
  · exact ⟨item, hold, rfl, rfl⟩
  · exact absurd hsymphony (hcard item hnew)

/-- Only settling a run files a symphony card, and it files it in its own batch. -/
theorem symphony_of_step {session : Session} {action : Action} (hlineage : p.store.Lineage)
    (h : Consented p) (haccepted : (palace w).step p ⟨session, action⟩ = .ok q) :
    NoSymphonyCards p.store q.store ∨
    ∃ runId request, action = .resolve runId request ∧
      p.store.resolutions.get? runId = none ∧ Closes runId request p.store q.store := by
  have hnone {φ : Footprint} {t : Store} (hw : Writes φ (p.store.begin session) t)
      (hcard : ∀ item, ¬φ.card item) : NoSymphonyCards p.store t :=
    NoSymphonyCards.of_writes (s := p.store.begin session) hw fun item hitem =>
      absurd hitem (hcard item)
  have hsame : NoSymphonyCards p.store (p.store.begin session) :=
    fun item hitem _ => ⟨item, hitem, rfl, rfl⟩
  cases stepped_of_step hlineage haccepted with
  | create hw | split hw | stage hw | patch _ hw | seedSource _ hw | prepareWrite _ _ hw
  | commit _ hw | feedback _ hw => exact .inl (hnone hw fun _ => id)
  | startPatch | startExtract | seeded | startSeed | startDecision | prepare | abandon =>
    exact .inl hsame
  | startPass => exact .inl hsame
  | @resolve runId request _ hr =>
    rcases hr with ⟨rfl, _⟩ | ⟨t, hresolves, hrouted⟩
    · exact .inl hsame
    · right
      refine ⟨runId, request, rfl, ?_, (h.settles hresolves hrouted).closes⟩
      obtain ⟨_, hinsert, _⟩ := hresolves
      exact (Table.insert?_eq_some.mp hinsert).1
  | @ingest _ _ admission _ _ _ hstep =>
    left
    apply NoSymphonyCards.of_writes (s := p.store.begin session) hstep.writes
    rintro item ⟨_, _, _, hbirth, _⟩
    cases hsource : admission.source <;>
      simp [hbirth, Source.birthplace, hsource, Birthplace.IsSymphony]
  | advance _ hstep =>
    left
    apply NoSymphonyCards.of_writes (s := p.store.begin session) hstep.writes
    intro item hcard
    obtain ⟨_, _, _, _, _, _, _, hbirth, _⟩ := hcard.filed
    simp [hbirth, Birthplace.IsSymphony]
  | decide _ _ hr =>
    rcases hr with rfl | hdecided
    · exact .inl hsame
    · exact .inl (hnone hdecided.writes fun _ => id)
  | decideBatch hr =>
    exact .inl (hnone (BatchSteps.files_none hr) fun _ => id)

/-- Every symphony card belongs to the batch of a settled run. -/
def Store.Batched (s : Store) : Prop :=
  ∀ item ∈ s.items.rows, item.birthplace.IsSymphony → ∀ batchUid ∈ item.birthplace.batchUid,
    ∃ resolution ∈ s.resolutions.rows, resolution.batchUid = batchUid

theorem resolved_of_step {session : Session} {runId : String} {request : ResolveRunRequest}
    (haccepted : (palace w).step p ⟨session, .resolve runId request⟩ = .ok q) :
    resolve (p.store.begin session) runId request = .ok q.store ∧ q.ops = p.ops := by
  simp only [palace, Palace.step, bind_eq_ok, pure_eq_ok] at haccepted
  obtain ⟨s, hs, rfl⟩ := haccepted
  exact ⟨hs, rfl⟩

theorem batched_of_reachable (h : (palace w).Reachable p) : p.store.Batched := by
  refine (Machine.reachable_keeps
    (I := fun p : Palace => (palace w).Reachable p ∧ p.store.Batched) ?_ ?_ h).2
  · rintro _ ⟨configs, rfl⟩
    exact ⟨⟨_, [], ⟨configs, rfl⟩, rfl⟩,
      fun item hitem => by simp [Store.deployed, Table.empty] at hitem⟩
  · rintro p ⟨session, action⟩ q ⟨hp, hbatched⟩ haccepted
    refine ⟨hp.step haccepted, fun item hitem hsymphony batchUid hbatch => ?_⟩
    have hlineage := lineage_of_reachable hp
    have hkept := writes_of_step hlineage haccepted
    have hold (hold : ∃ old ∈ p.store.items.rows, old.birthplace = item.birthplace) :
        ∃ resolution ∈ q.store.resolutions.rows, resolution.batchUid = batchUid := by
      obtain ⟨old, hold, hbirth⟩ := hold
      obtain ⟨resolution, hresolution, rfl⟩ :=
        hbatched old hold (hbirth ▸ hsymphony) batchUid (hbirth ▸ hbatch)
      exact ⟨resolution,
        Table.mem_of_get? (hkept.resolution_kept (Table.get?_of_mem hresolution)), rfl⟩
    rcases symphony_of_step hlineage (consented_of_reachable hp) haccepted with
      hnone | ⟨runId, request, rfl, _, hcloses⟩
    · obtain ⟨old, hmem, _, hbirth⟩ := hnone item hitem hsymphony
      exact hold ⟨old, hmem, hbirth⟩
    · rcases hcloses.filed item hitem with hmem | ⟨u, _, _, _, _, hcard⟩
      · exact hold ⟨item, hmem, rfl⟩
      · obtain ⟨hresolve, _⟩ := resolved_of_step haccepted
        have hlineage' : (p.store.begin session).Lineage := hlineage.congr rfl rfl
        obtain ⟨_, hrecorded⟩ := resolve_records hlineage' hresolve
        refine ⟨_, Table.mem_of_get? hrecorded, ?_⟩
        rw [hcard.birthplace] at hbatch
        exact Option.some.inj hbatch

/-- The batch of a settled run keeps its candidates. -/
theorem inBatch_of_step {call : Call} (hlineage : p.store.Lineage) (h : Consented p)
    (haccepted : (palace w).step p call = .ok q) {runId : String}
    {resolution : SymphonyRunResolution}
    (hsettled : p.store.resolutions.get? runId = some resolution) (id : Uuid) :
    q.store.InBatch resolution.batchUid id ↔ p.store.InBatch resolution.batchUid id := by
  obtain ⟨session, action⟩ := call
  constructor
  · rintro ⟨item, hitem, hsymphony, hbatch, rfl⟩
    rcases symphony_of_step hlineage h haccepted with hnone | ⟨other, request, rfl, hfresh, hcloses⟩
    · obtain ⟨old, hold, hcandidate, hbirth⟩ := hnone item hitem hsymphony
      exact ⟨old, hold, hbirth ▸ hsymphony, hbirth ▸ hbatch, hcandidate⟩
    · rcases hcloses.filed item hitem with hold | ⟨u, _, _, _, _, hcard⟩
      · exact ⟨item, hold, hsymphony, hbatch, rfl⟩
      · -- no other run settles under this batch
        rw [hcard.birthplace] at hbatch
        have hother := resolve_batch (resolved_of_step haccepted).1 hfresh resolution
          (Table.mem_of_get? hsettled)
        exact absurd (Option.some.inj hbatch).symm hother
  · rintro ⟨item, hitem, hsymphony, hbatch, rfl⟩
    obtain ⟨state, decidedAt, hitem'⟩ :=
      (writes_of_step hlineage haccepted).item (Table.get?_of_mem hitem)
    exact ⟨_, Table.mem_of_get? hitem', hsymphony, hbatch, rfl⟩

theorem inBatch_of_run (h : (palace w).Reachable p) (calls : List Call) {runId : String}
    {resolution : SymphonyRunResolution}
    (hsettled : p.store.resolutions.get? runId = some resolution) :
    ((palace w).run p calls).store.resolutions.get? runId = some resolution ∧
    ∀ id, ((palace w).run p calls).store.InBatch resolution.batchUid id ↔
      p.store.InBatch resolution.batchUid id := by
  refine (Machine.run_keeps (M := palace w) (I := fun q => (palace w).Reachable q ∧
    q.store.resolutions.get? runId = some resolution ∧
    ∀ id, q.store.InBatch resolution.batchUid id ↔ p.store.InBatch resolution.batchUid id) ?_ calls
    ⟨h, hsettled, fun _ => Iff.rfl⟩).2
  rintro q call q' ⟨hq, hkept, hsame⟩ haccepted
  have hlineage := lineage_of_reachable hq
  refine ⟨hq.step haccepted, (writes_of_step hlineage haccepted).resolution_kept hkept,
    fun id => ?_⟩
  exact (inBatch_of_step hlineage (consented_of_reachable hq) haccepted hkept id).trans (hsame id)

end Batches

section Retries

theorem stage_retries {session : Session} {request : StageMemoryRequest} {embedding : Embedding}
    {r : MemoryUnit × Store} (h : (palace w).Reachable p)
    (haccepted : stageSymphony w.env (p.store.begin session) request embedding = .ok r)
    (calls : List Call) (session' : Session) (embedding' : Embedding) :
    let s := ((palace w).run ⟨r.2, p.ops⟩ calls).store.begin session'
    r.1.id = request.memoryId ∧
    ((∃ u ∈ s.units.get? request.memoryId, u.status = .staged) ↔
      ∃ again, stageSymphony w.env s request embedding' = .ok again) ∧
    ∀ again, stageSymphony w.env s request embedding' = .ok again →
      again.1.id = request.memoryId ∧ again.2 = s := by
  intro s
  have hlineage : (p.store.begin session).Lineage := (lineage_of_reachable h).congr rfl rfl
  have hreplays := stageSymphony_replays hlineage haccepted
  obtain ⟨hadmissible, _⟩ := stageSymphony_cases haccepted
  have hstep : (palace w).step p ⟨session, .stage request embedding⟩ = .ok ⟨r.2, p.ops⟩ := by
    simp only [palace, Palace.step, haccepted, ok_bind]
    rfl
  have hreach := h.step hstep
  have hknown : (r.2.units.get? request.memoryId).isSome := by
    simp [hreplays.found]
  have hstays : StaysStaged r.2 s request.memoryId :=
    staysStaged_of_run (p := ⟨r.2, p.ops⟩) hreach calls hknown
  have hrows := Writes.revisions_prefix (writes_of_run hreach calls)
  obtain ⟨v, hv, _⟩ := descends_of_run hreach calls hreplays.found
  have hv' : s.units.get? request.memoryId = some v := hv
  refine ⟨Table.key_of_get? hreplays.found, ?_, fun again hagain => ?_⟩
  · constructor
    · rintro ⟨u, hu, hstaged⟩
      have hlater := hreplays.later hstays hrows hu hstaged
      exact ⟨_, (stageSymphony_replays_iff hu).mpr ⟨hadmissible, hlater, rfl⟩⟩
    · rintro ⟨again, hagain⟩
      obtain ⟨_, hlater, _⟩ := (stageSymphony_replays_iff hv').mp hagain
      exact ⟨v, hv', hlater.staged⟩
  · obtain ⟨_, _, rfl⟩ := (stageSymphony_replays_iff hv').mp hagain
    exact ⟨Table.key_of_get? hv', rfl⟩

theorem resolve_retries {session : Session} {runId : String} {request : ResolveRunRequest}
    (h : (palace w).Reachable p)
    (haccepted : (palace w).step p ⟨session, .resolve runId request⟩ = .ok q) :
    ∃ first, resolutionResponse q.store w.env runId request = .ok first ∧
      (p.store.resolutions.get? runId = none → first.candidateIds.Disjoint first.loserIds) ∧
      ∀ calls session', let q' := (palace w).run q calls
        (palace w).step q' ⟨session', .resolve runId request⟩ =
          .ok ⟨q'.store.begin session', q'.ops⟩ ∧
        ∃ again, resolutionResponse (q'.store.begin session') w.env runId request = .ok again ∧
          (∀ id, id ∈ again.candidateIds ↔ id ∈ first.candidateIds) ∧
          ∀ id, (q'.store.Fallen runId id ↔ q.store.Fallen runId id) →
            (id ∈ again.loserIds ↔ id ∈ first.loserIds) := by
  have hlineage : (p.store.begin session).Lineage := (lineage_of_reachable h).congr rfl rfl
  have hconsented := consented_of_reachable h
  have hreach := h.step haccepted
  obtain ⟨hresolve, _⟩ := resolved_of_step haccepted
  obtain ⟨horigin, hrecorded⟩ := resolve_records hlineage hresolve
  obtain ⟨first, hfirst, hcandidates, hlosers⟩ :=
    resolutionResponse_ok w.env runId request (consented_of_reachable hreach).cards
  refine ⟨first, hfirst, ?_, ?_⟩
  · intro hnone id hcandidate hloser
    obtain ⟨u, hu, _, _, htombstoned⟩ := (hlosers id).mp hloser
    obtain ⟨item, hitem, hsymphony, hbatch, rfl⟩ := (hcandidates id).mp hcandidate
    have hfresh := resolve_batch hresolve hnone
    -- the batch is new: each of its cards is a winner's
    have hold {old : ApprovalQueueItem} (hmem : old ∈ p.store.items.rows)
        (hbirth : old.birthplace = item.birthplace) : False := by
      obtain ⟨resolution, hresolution, hsame⟩ := batched_of_reachable h old hmem
        (hbirth ▸ hsymphony) _ (hbirth ▸ hbatch)
      exact hfresh resolution hresolution hsame
    rcases symphony_of_step (lineage_of_reachable h) hconsented haccepted with
      hcards | ⟨_, _, heq, _, hcloses⟩
    · obtain ⟨old, hmem, _, hbirth⟩ := hcards item hitem hsymphony
      exact hold hmem hbirth
    · obtain ⟨rfl, rfl⟩ := Action.resolve.inj heq
      rcases hcloses.filed item hitem with hmem | ⟨v, hv, hrun, hstaged, hwinner, hcard⟩
      · exact hold hmem rfl
      · obtain ⟨⟨u', hu', hstatus⟩, _⟩ := hcloses.winners v hv hrun hstaged hwinner
        rw [hcard.candidate] at hu
        obtain rfl := Option.some.inj (hu.symm.trans hu')
        rw [htombstoned] at hstatus
        cases hstatus
  · intro calls session' q'
    have hreach' : (palace w).Reachable q' := hreach.run calls
    obtain ⟨hkept, hsame⟩ := inBatch_of_run hreach calls hrecorded
    have hagain : resolve (q'.store.begin session') runId request =
        .ok (q'.store.begin session') := resolve_again horigin hkept
    have hcards : (q'.store.begin session').Cards :=
      (consented_of_reachable hreach').cards.congr rfl rfl
    obtain ⟨again, hanswer, hcandidates', hlosers'⟩ :=
      resolutionResponse_ok w.env runId request hcards
    refine ⟨?_, again, hanswer, fun id => ?_, fun id hfallen => ?_⟩
    · simp only [palace, Palace.step, hagain, ok_bind]
      rfl
    · exact (hcandidates' id).trans ((hsame id).trans (hcandidates id).symm)
    · rw [hlosers', hlosers]
      constructor
      · rintro ⟨u', hu', hrun, hprincipal, htombstoned⟩
        obtain ⟨u, hu, hurun, hutombstoned⟩ := hfallen.mp ⟨u', hu', hrun, htombstoned⟩
        obtain ⟨v, hv, hdescends⟩ := descends_of_run hreach calls hu
        have hv' : (q'.store.begin session').units.get? id = some v := hv
        obtain rfl := Option.some.inj (hv'.symm.trans hu')
        exact ⟨u, hu, hurun, hdescends.principalId.symm.trans hprincipal, hutombstoned⟩
      · rintro ⟨u, hu, hrun, hprincipal, htombstoned⟩
        obtain ⟨v, hv, hvrun, hvtombstoned⟩ := hfallen.mpr ⟨u, hu, hrun, htombstoned⟩
        obtain ⟨v', hv', hdescends⟩ := descends_of_run hreach calls hu
        obtain rfl := Option.some.inj (hv'.symm.trans hv)
        exact ⟨_, hv, hvrun, hdescends.principalId.trans hprincipal, hvtombstoned⟩

/-- Sending a symphony request again. A stage request accepted once is accepted again exactly
while its head is still staged, and then answers that head. A resolve request accepted once is
accepted in every later state, changes nothing, and answers the same candidates; a head is in
the one set of losers as in the other unless it was tombstoned or revived in between. The
answer that settles the run names no head in both sets. -/
theorem symphony_retries (h : (palace w).Reachable p) :
    (∀ session request embedding r,
      stageSymphony w.env (p.store.begin session) request embedding = .ok r →
      ∀ calls session' embedding',
        let s := ((palace w).run ⟨r.2, p.ops⟩ calls).store.begin session'
        r.1.id = request.memoryId ∧
        ((∃ u ∈ s.units.get? request.memoryId, u.status = .staged) ↔
          ∃ again, stageSymphony w.env s request embedding' = .ok again) ∧
        ∀ again, stageSymphony w.env s request embedding' = .ok again →
          again.1.id = request.memoryId ∧ again.2 = s) ∧
    ∀ session runId request q,
      (palace w).step p ⟨session, .resolve runId request⟩ = .ok q →
      ∃ first, resolutionResponse q.store w.env runId request = .ok first ∧
        (p.store.resolutions.get? runId = none → first.candidateIds.Disjoint first.loserIds) ∧
        ∀ calls session', let q' := (palace w).run q calls
          (palace w).step q' ⟨session', .resolve runId request⟩ =
            .ok ⟨q'.store.begin session', q'.ops⟩ ∧
          ∃ again, resolutionResponse (q'.store.begin session') w.env runId request = .ok again ∧
            (∀ id, id ∈ again.candidateIds ↔ id ∈ first.candidateIds) ∧
            ∀ id, (q'.store.Fallen runId id ↔ q.store.Fallen runId id) →
              (id ∈ again.loserIds ↔ id ∈ first.loserIds) :=
  ⟨fun _ _ _ _ haccepted calls session' embedding' =>
    stage_retries h haccepted calls session' embedding',
    fun _ _ _ _ haccepted => resolve_retries h haccepted⟩

-- Decided together, the three share the run they are about.
theorem settledCalls_answer :
    Answers ((palace default).step
      ((palace default).run ⟨.deployed .empty, []⟩ (settledCalls.take 3))
      ⟨⟨4, [73, 50, 74, 51, 75]⟩, .resolve symphonyRun firstWins⟩) (fun _ =>
      ((palace default).run ⟨.deployed .empty, []⟩ (settledCalls.take 3)).store.resolutions.get?
        symphonyRun = none) ∧
    Answers (stageSymphony (default : World).env
      ((⟨.deployed .empty, []⟩ : Palace).store.begin ⟨1, [70]⟩)
      (stagedAttempt 7 "root.1" "steep it long") [1]) (fun _ => True) ∧
    stageSymphony (default : World).env
      (((palace default).run ⟨.deployed .empty, []⟩ settledCalls).store.begin ⟨5, [76]⟩)
      (stagedAttempt 7 "root.1" "steep it long") [1] =
        .error (.stagedMemoryConflict "memory_id already names a different memory") := by
  decide +kernel

/-- The run settled for its first attempt, and the verdict sent again. -/
theorem symphony_retries_settled : ∃ q,
    (palace default).step
      ((palace default).run ⟨.deployed .empty, []⟩ (settledCalls.take 3))
      ⟨⟨4, [73, 50, 74, 51, 75]⟩, .resolve symphonyRun firstWins⟩ = .ok q ∧
    (palace default).step q ⟨⟨5, []⟩, .resolve symphonyRun firstWins⟩ =
      .ok ⟨q.store.begin ⟨5, []⟩, q.ops⟩ ∧
    ∃ first, resolutionResponse q.store (default : World).env symphonyRun firstWins = .ok first ∧
      first.candidateIds.Disjoint first.loserIds := by
  have hreach : (palace default).Reachable
      ((palace default).run ⟨.deployed .empty, []⟩ (settledCalls.take 3)) :=
    ⟨_, _, ⟨_, rfl⟩, rfl⟩
  have haccepted := settledCalls_answer.1
  generalize (palace default).run ⟨.deployed .empty, []⟩ (settledCalls.take 3) = p
    at hreach haccepted ⊢
  obtain ⟨q, hq, hopen⟩ := answers_iff.mp haccepted
  obtain ⟨first, hfirst, hdisjoint, hagain⟩ := (symphony_retries hreach).2 _ _ _ q hq
  exact ⟨q, hq, (hagain [] ⟨5, []⟩).1, first, hfirst, hdisjoint hopen⟩

/-- Once the verdict has fallen, the request that staged the winner is refused. -/
theorem symphony_retries_stale :
    (∃ r, stageSymphony (default : World).env
      ((⟨.deployed .empty, []⟩ : Palace).store.begin ⟨1, [70]⟩)
      (stagedAttempt 7 "root.1" "steep it long") [1] = .ok r) ∧
    stageSymphony (default : World).env
      (((palace default).run ⟨.deployed .empty, []⟩ settledCalls).store.begin ⟨5, [76]⟩)
      (stagedAttempt 7 "root.1" "steep it long") [1] =
        .error (.stagedMemoryConflict "memory_id already names a different memory") := by
  obtain ⟨_, hfirst, hstale⟩ := settledCalls_answer
  obtain ⟨r, hr, _⟩ := answers_iff.mp hfirst
  exact ⟨⟨r, hr⟩, hstale⟩

end Retries

end Nocturne
