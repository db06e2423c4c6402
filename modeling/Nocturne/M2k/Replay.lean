import Nocturne.M2k.Serving

namespace Nocturne.M2k

open Nocturne.Learner Nocturne.Lib

variable {w : Deployment} {c c' : Console} {a : Action} {ts : Time}
  {view : ScorerConfigurationView}

section Kept

/-- Versions change in nothing but the active flag, and lines not at all. -/
structure Kept (c c' : Console) : Prop where
  configs : ∀ row ∈ c.configs.rows, ∃ row' ∈ c'.configs.rows, row'.deactivated = row.deactivated
  activations : ∀ line ∈ c.activations.rows, line ∈ c'.activations.rows

theorem Kept.refl (c : Console) : Kept c c := ⟨fun row hrow => ⟨row, hrow, rfl⟩, fun _ h => h⟩

theorem Kept.trans {c c' c'' : Console} (h : Kept c c') (h' : Kept c' c'') : Kept c c'' := by
  constructor
  · intro row hrow
    obtain ⟨row', hrow', hsame⟩ := h.configs row hrow
    obtain ⟨row'', hrow'', hsame'⟩ := h'.configs row' hrow'
    exact ⟨row'', hrow'', hsame'.trans hsame⟩
  · exact fun line hline => h'.activations line (h.activations line hline)

theorem Stepped.kept (h : Stepped w c a c') : Kept c c' := by
  cases h with
  | idle _ hconfigs hactivations _ =>
    exact ⟨fun row hrow => ⟨row, hconfigs ▸ hrow, rfl⟩, fun _ hline => hactivations ▸ hline⟩
  | @switched _ _ _ target line hswitched _ _ _ =>
    constructor
    · intro row hrow
      by_cases hsame : row.version = target.version
      · exact ⟨target, (hswitched.configs target).mpr (.inl rfl), hswitched.same row hrow hsame⟩
      · exact ⟨row.deactivated, (hswitched.configs _).mpr (.inr ⟨row, hrow, hsame, rfl⟩), rfl⟩
    · intro old hold
      rw [hswitched.activations]
      exact List.mem_append_left _ hold
  | proposed _ _ hconfigs hactivations _ =>
    constructor
    · intro row hrow
      refine ⟨row, ?_, rfl⟩
      rw [hconfigs]
      exact List.mem_append_left _ hrow
    · exact fun _ hline => hactivations ▸ hline

theorem kept_of_run (w : Deployment) (c : Console) (as : List Action) :
    Kept c ((console w).run c as) :=
  Machine.run_rel Kept.refl Kept.trans (fun h => (stepped_of_step h).kept) c as

theorem Kept.get?_activations (h : Kept c c') {uid : String} {line : ScorerActivation}
    (hline : c.activations.get? uid = some line) : c'.activations.get? uid = some line := by
  rw [← Table.key_of_get? hline]
  exact Table.get?_of_mem (h.activations line (Table.mem_of_get? hline))

theorem Kept.get?_configs (h : Kept c c') {version : String} {row : ConfigRow}
    (hrow : c.configs.get? version = some row) :
    ∃ row', c'.configs.get? version = some row' ∧ row'.values? = row.values? := by
  obtain ⟨row', hrow', hsame⟩ := h.configs row (Table.mem_of_get? hrow)
  have hversion : row'.version = row.version := by
    simpa using congrArg ConfigRow.version hsame
  have hvalues : row'.values? = row.values? := by
    simpa using congrArg ConfigRow.values? hsame
  refine ⟨row', ?_, hvalues⟩
  have hkey : row.version = version := Table.key_of_get? hrow
  rw [← hkey, ← hversion]
  exact Table.get?_of_mem hrow'

end Kept

section Replays

/-- What `_validate_control_replay` asks is on record for the request. -/
def CreateRecorded (c : Console) (body : CreateScorerConfigRequest) : Prop :=
  ∃ line target, c.activations.get? body.eventUid = some line ∧
    c.configs.get? ("m2k-" ++ body.eventUid) = some target ∧
    target.values? = some body.values ∧
    (line.version = "m2k-" ++ body.eventUid ∧ line.previousVersion = body.baseVersion ∧
      line.actorClass = .human ∧ line.machineId = body.machineId ∧ line.reason = .humanControl) ∧
    line.force.map (·.simulationDigest) = some body.simulationDigest

def ActivateRecorded (c : Console) (version : String) (body : ActivateScorerConfigRequest) : Prop :=
  ∃ line target, c.activations.get? body.eventUid = some line ∧
    c.configs.get? version = some target ∧ target.values?.isSome ∧
    line.version = version ∧ line.actorClass = .human ∧ line.machineId = body.machineId ∧
      line.reason = .learnerProposal

theorem view?_isSome {row : ConfigRow} : row.view?.isSome = row.values?.isSome := by
  simp only [ConfigRow.view?]
  cases row.values? <;> rfl

/-- A request on record is answered, and leaves everything as it was. -/
theorem CreateRecorded.replayed {body : CreateScorerConfigRequest} (h : CreateRecorded c body)
    (ts : Time) (receipt : Option SimulationReceipt) :
    ∃ view, createInSnapshot c ts body receipt = .ok (view, c) := by
  obtain ⟨line, target, hline, htarget, hvalues, hmatches, hforce⟩ := h
  obtain ⟨view, hview⟩ : ∃ view, target.view? = some view := by
    rw [← Option.isSome_iff_exists, view?_isSome, hvalues]
    rfl
  refine ⟨view, ?_⟩
  simp only [createInSnapshot, hline, validateControlReplay, htarget, require_some, ok_bind,
    ensure_pos hmatches, valuesOf, hvalues, ensure_pos (And.intro trivial hforce), configView,
    hview]
  rfl

theorem ActivateRecorded.replayed {version : String} {body : ActivateScorerConfigRequest}
    (h : ActivateRecorded c version body) (ts : Time) :
    ∃ view, activateProposal c ts version body = .ok (view, c) := by
  obtain ⟨line, target, hline, htarget, hvalues, hmatches⟩ := h
  obtain ⟨view, hview⟩ : ∃ view, target.view? = some view := by
    rw [← Option.isSome_iff_exists, view?_isSome]
    exact hvalues
  refine ⟨view, ?_⟩
  simp only [activateProposal, hline, ensure_pos hmatches, htarget, require_some, ok_bind,
    configView, hview]
  rfl

theorem CreateRecorded.kept {body : CreateScorerConfigRequest} (h : CreateRecorded c body)
    (hkept : Kept c c') : CreateRecorded c' body := by
  obtain ⟨line, target, hline, htarget, hvalues, hmatches⟩ := h
  obtain ⟨target', htarget', hsame⟩ := hkept.get?_configs htarget
  exact ⟨line, target', hkept.get?_activations hline, htarget', hsame.trans hvalues, hmatches⟩

theorem ActivateRecorded.kept {version : String} {body : ActivateScorerConfigRequest}
    (h : ActivateRecorded c version body) (hkept : Kept c c') :
    ActivateRecorded c' version body := by
  obtain ⟨line, target, hline, htarget, hvalues, hmatches⟩ := h
  obtain ⟨target', htarget', hsame⟩ := hkept.get?_configs htarget
  exact ⟨line, target', hkept.get?_activations hline, htarget', hsame ▸ hvalues, hmatches⟩

/-- What a creation answers, it has on record. -/
theorem createRecorded_of_create {body : CreateScorerConfigRequest}
    {receipt : Option SimulationReceipt}
    (h : createInSnapshot c ts body receipt = .ok (view, c')) : CreateRecorded c' body := by
  simp only [createInSnapshot] at h
  split at h
  case h_1 line hline =>
    simp only [validateControlReplay, bind_eq_ok, ensure_eq_ok, require_eq_ok, pure_eq_ok,
      valuesOf, Prod.mk.injEq] at h
    obtain ⟨_, ⟨target, htarget, _, hmatches, _, hvalues, _, ⟨rfl, hforce⟩, _⟩, _, rfl⟩ := h
    exact ⟨line, target, hline, htarget, hvalues, hmatches, hforce⟩
  case h_2 =>
    simp only [bind_eq_ok, ensure_eq_ok, require_eq_ok, pure_eq_ok, Prod.mk.injEq] at h
    obtain ⟨active, _, _, hbase, receipt, _, _, hdigest, _, _, values, _, _, _, configs,
      hconfigs, _, _, activations, hactivations, _, _, _, rfl⟩ := h
    obtain ⟨hfree, rfl⟩ := Table.insert?_eq_some.mp hconfigs
    obtain ⟨hfresh, rfl⟩ := Table.insert?_eq_some.mp hactivations
    exact ⟨_, _, Table.get?_insert_self (h := hfresh), Table.get?_insert_self (h := hfree),
      values?_controlRow, ⟨rfl, hbase, rfl, rfl, rfl⟩, congrArg some hdigest⟩

theorem activateRecorded_of_activate {version : String} {body : ActivateScorerConfigRequest}
    (h : activateProposal c ts version body = .ok (view, c')) :
    ActivateRecorded c' version body := by
  simp only [activateProposal] at h
  split at h
  case h_1 line hline =>
    simp only [bind_eq_ok, ensure_eq_ok, require_eq_ok, pure_eq_ok, configView,
      Prod.mk.injEq] at h
    obtain ⟨_, hmatches, target, htarget, view', hview, _, rfl⟩ := h
    refine ⟨line, target, hline, htarget, ?_, hmatches⟩
    rw [← view?_isSome, hview]
    rfl
  case h_2 =>
    simp only [bind_eq_ok, ensure_eq_ok, require_eq_ok, pure_eq_ok, valuesOf, Prod.mk.injEq] at h
    obtain ⟨active, _, target, htarget, _, _, _, _, values, hvalues, _, _, activations,
      hactivations, _, _, _, rfl⟩ := h
    obtain ⟨hfresh, rfl⟩ := Table.insert?_eq_some.mp hactivations
    obtain rfl : target.version = version := Table.key_of_get? htarget
    have hactive : ∃ row, (c.configs.modify active.version ConfigRow.deactivated
        ConfigRow.version_deactivated).get? target.version = some row ∧
        row.values? = some values := by
      rw [Table.get?_modify, htarget]
      split
      · exact ⟨target.deactivated, rfl, hvalues⟩
      · exact ⟨target, rfl, hvalues⟩
    obtain ⟨row, hrow, hshown⟩ := hactive
    refine ⟨_, row.activated, Table.get?_insert_self (h := hfresh), ?_, ?_, rfl, rfl, rfl, rfl⟩
    · rw [flipped, Table.get?_modify_self, hrow]
      rfl
    · rw [values?_activated, hshown]
      rfl

end Replays

/-- However creations, activations and retrainings of any number of requests interleave: one
version is active, every version serves every project, and a request that was answered is answered
again whenever it comes, with nothing changed. -/
theorem exactly_one_active_scorer (h : (console w).Reachable c) :
    (c.configs.rows.filter (·.active)).length = 1 ∧
    (∀ row ∈ c.configs.rows, row.Serves) ∧
    (∀ k body receipt c', step w c (.create k body receipt) = .ok c' →
      ∀ as k' receipt' ts,
        ((console w).run c' as).requests[k']? = some (.creating ts) →
        ∃ c'', step w ((console w).run c' as) (.create k' body receipt') = .ok c'' ∧
          c''.configs = ((console w).run c' as).configs ∧
          c''.activations = ((console w).run c' as).activations) ∧
    ∀ k version body c', step w c (.activate k version body) = .ok c' →
      ∀ as k' ts,
        ((console w).run c' as).requests[k']? = some (.activating ts) →
        ∃ c'', step w ((console w).run c' as) (.activate k' version body) = .ok c'' ∧
          c''.configs = ((console w).run c' as).configs ∧
          c''.activations = ((console w).run c' as).activations := by
  have hsettled := settled_of_reachable h
  refine ⟨?_, ?_, ?_, ?_⟩
  · obtain ⟨active, hactive⟩ := hsettled.active
    simp [hactive]
  · exact fun row hrow => serves_of_runtime (hsettled.sound row hrow).loads
  · intro k body receipt c' hstep as k' receipt' ts hrequest
    simp only [step, bind_eq_ok, pure_eq_ok] at hstep
    obtain ⟨_, _, ⟨_, c₁⟩, hcreate, rfl⟩ := hstep
    have hanswered := createRecorded_of_create hcreate
    have hrecorded : CreateRecorded (c₁.finish k) body := hanswered
    obtain ⟨view, hview⟩ := (hrecorded.kept (kept_of_run w _ as)).replayed ts receipt'
    refine ⟨((console w).run (c₁.finish k) as).finish k', ?_, rfl, rfl⟩
    simp only [step, hrequest, Option.bind_some, Request.creating?, require_some, ok_bind, hview]
    rfl
  · intro k version body c' hstep as k' ts hrequest
    simp only [step, bind_eq_ok, pure_eq_ok] at hstep
    obtain ⟨_, _, ⟨_, c₁⟩, hactivate, rfl⟩ := hstep
    have hanswered := activateRecorded_of_activate hactivate
    have hrecorded : ActivateRecorded (c₁.finish k) version body := hanswered
    obtain ⟨view, hview⟩ := (hrecorded.kept (kept_of_run w _ as)).replayed ts
    refine ⟨((console w).run (c₁.finish k) as).finish k', ?_, rfl, rfl⟩
    simp only [step, hrequest, Option.bind_some, Request.activating?, require_some, ok_bind, hview]
    rfl

/-- One version is active after a creation. -/
theorem exactly_one_active_scorer_created :
    (((console idleDeployment).run firstConsole
      [.lockCreate, .create 0 (createsFrom "v1" "a") (some someReceipt)]).configs.rows.filter
        (·.active)).length = 1 :=
  (exactly_one_active_scorer ⟨firstConsole, _, start_firstConsole, rfl⟩).1

end Nocturne.M2k
