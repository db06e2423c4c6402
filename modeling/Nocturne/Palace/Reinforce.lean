import Nocturne.Palace.Lineage

namespace Nocturne

open Nocturne.Lib Nocturne.Store Nocturne.Memory

/-- One more reinforcement, and every other counter as it was. -/
def Stats.reinforced (stats : Stats) : Stats :=
  { stats with reinforcements := stats.reinforcements + 1 }

theorem Stats.reinforced_injective : Function.Injective Stats.reinforced := by
  intro stats stats' h
  cases stats
  cases stats'
  simpa [Stats.reinforced] using h

def MemoryUnit.Reinforces (written replaced : MemoryUnit) : Prop :=
  written.stats = replaced.stats.reinforced

instance (written replaced : MemoryUnit) : Decidable (written.Reinforces replaced) :=
  inferInstanceAs (Decidable (_ = _))

variable {w : World} {p p₁ p₂ : Palace}

namespace Memory

variable {env : Env} {s s' : Store} {request : PatchMemoryRequest} {embedding : Embedding}
  {plan : PatchPlan} {row : MemoryUnit}

/-- A reinforcing PATCH carries the counters of the head its preflight read, one more. -/
theorem patchPreflight_stats (hreason : request.reason = "remember/reinforce")
    (h : patchPreflight env s request embedding = .ok plan) :
    ∃ read, s.units.get? request.memoryId = some read ∧ plan.request = request ∧
      plan.changes.stats = some read.stats.reinforced := by
  simp only [patchPreflight, bind_eq_ok, require_eq_ok, pure_eq_ok] at h
  obtain ⟨_, _, _, _, read, hread, _, _, _, _, _, _, rfl⟩ := h
  exact ⟨read, hread, rfl, by simp [hreason, Stats.reinforced]⟩

/-- An accepted PATCH replaced the head at the revision its caller named. -/
theorem patch_replaces (h : patch s plan = .ok (row, s')) :
    ∃ replaced, s.units.get? plan.request.memoryId = some replaced ∧
      replaced.revision = plan.request.expectedRevision ∧
      s'.units.get? plan.request.memoryId = some (s.drawn.bumped plan.changes replaced) := by
  simp only [patch] at h
  split at h
  · next u t hcas =>
    obtain ⟨replaced, hstep, _⟩ := casUpdate_eq_ok.mp hcas
    simp only [bind_eq_ok, pure_eq_ok, Prod.mk.injEq] at h
    obtain ⟨_, _, _, rfl⟩ := h
    refine ⟨replaced, hstep.found, hstep.expected, ?_⟩
    rw [hstep.get?_units, if_pos rfl]
  · simp only [bind_eq_ok] at h
    obtain ⟨_, _, h⟩ := h
    cases h
  · split at h
    · cases h
    · split at h
      · split at h <;> cases h
      · cases h
  · cases h

end Memory

section InFlight

variable {k : Nat} {plan : PatchPlan}

/-- A PATCH in flight is there unchanged until it is over. -/
def Palace.Carrying (p : Palace) (k : Nat) (plan : PatchPlan) : Prop :=
  p.ops[k]? = some (.patching plan) ∨ p.ops[k]? = some .done

theorem Palace.Carrying.launch {s : Store} {op : Operation} (h : p.Carrying k plan) :
    (p.launch s op).Carrying k plan := by
  have hlt : k < p.ops.length := by
    by_contra hge
    rcases h with h | h <;> simp [List.getElem?_eq_none (not_lt.mp hge)] at h
  rw [Palace.Carrying, Palace.get?_launch, if_neg hlt.ne]
  exact h

/-- A request of another kind moves on. -/
theorem Palace.Carrying.other {s : Store} {j : Nat} {old op : Operation} (h : p.Carrying k plan)
    (hop : p.ops[j]? = some old) (hpatch : old ≠ .patching plan) (hdone : old ≠ .done) :
    (p.become j s op).Carrying k plan := by
  have hne : k ≠ j := by
    rintro rfl
    rcases h with h | h
    · exact hpatch (Option.some.inj (hop.symm.trans h))
    · exact hdone (Option.some.inj (hop.symm.trans h))
  rw [Palace.Carrying, Palace.get?_become, if_neg hne]
  exact h

theorem Palace.Carrying.done {s : Store} {j : Nat} (h : p.Carrying k plan) :
    (p.become j s .done).Carrying k plan := by
  rw [Palace.Carrying, Palace.get?_become]
  split
  · next hj =>
    rw [← hj]
    rcases h with h | h
    · simp [h]
    · simp [h]
  · exact h

theorem Palace.Stepped.carrying {s : Store} {action : Action} {p' : Palace}
    (h : p.Carrying k plan) (hstep : Palace.Stepped w p s action p') : p'.Carrying k plan := by
  cases hstep with
  | create | split | stage | resolve | seeded | decideBatch | commit | feedback => exact h
  | startPatch | startExtract | startSeed | startPass | startDecision | prepare => exact h.launch
  | patch hop hw => exact h.done
  | seedSource hop => exact h.other hop (by simp) (by simp)
  | ingest hop => exact h.other hop (by simp) (by simp)
  | advance hop => exact h.other hop (by simp) (by simp)
  | decide hop => exact h.done
  | prepareWrite hop => exact h.done
  | abandon => exact h.done

theorem carrying_run (h : (palace w).Reachable p) (hcarrying : p.Carrying k plan)
    (calls : List Call) : ((palace w).run p calls).Carrying k plan := by
  refine (Machine.run_keeps (I := fun q : Palace => q.store.Lineage ∧ q.Carrying k plan) ?_ calls
    ⟨lineage_of_reachable h, hcarrying⟩).2
  rintro q call q' ⟨hlineage, hcarrying⟩ hstep
  exact ⟨(writes_of_step hlineage hstep).lineage hlineage,
    Palace.Stepped.carrying hcarrying (stepped_of_step hlineage hstep)⟩

end InFlight

section Reinforcement

variable {request : PatchMemoryRequest} {embedding : Embedding} {session session' : Session}

theorem startPatch_launches
    (h : (palace w).step p ⟨session, .startPatch request embedding⟩ = .ok p₁) :
    ∃ plan, patchPreflight w.env (p.store.begin session) request embedding = .ok plan ∧
      p₁ = p.launch (p.store.begin session) (.patching plan) := by
  simp only [palace, Palace.step, bind_eq_ok, pure_eq_ok] at h
  obtain ⟨plan, hpreflight, rfl⟩ := h
  exact ⟨plan, hpreflight, rfl⟩

theorem patch_applies {k : Nat} (h : (palace w).step p ⟨session, .patch k⟩ = .ok p₁) :
    ∃ plan row s', p.ops[k]? = some (.patching plan) ∧
      Memory.patch (p.store.begin session) plan = .ok (row, s') ∧ p₁ = p.become k s' .done := by
  simp only [palace, Palace.step, Palace.inFlight, bind_eq_ok, require_eq_ok, pure_eq_ok,
    Option.bind_eq_some_iff, Operation.patching?_eq_some] at h
  obtain ⟨plan, ⟨_, hop, rfl⟩, ⟨row, s'⟩, hpatch, rfl⟩ := h
  exact ⟨plan, row, s', hop, hpatch, rfl⟩

/-- A reinforcing PATCH adds one reinforcement and keeps every other counter exactly where the
head it replaces has the counters that its preflight read, as it has wherever the caller named
the revision read there. -/
theorem reinforcement_exact_iff (h : (palace w).Reachable p)
    (hreason : request.reason = "remember/reinforce")
    (hstart : (palace w).step p ⟨session, .startPatch request embedding⟩ = .ok p₁)
    (calls : List Call)
    (hpatch : (palace w).step ((palace w).run p₁ calls) ⟨session', .patch p.ops.length⟩ = .ok p₂) :
    ∃ read replaced written, p.store.units.get? request.memoryId = some read ∧
      ((palace w).run p₁ calls).store.units.get? request.memoryId = some replaced ∧
      p₂.store.units.get? request.memoryId = some written ∧
      (written.Reinforces replaced ↔ replaced.stats = read.stats) ∧
      (request.expectedRevision = read.revision → written.Reinforces replaced) := by
  have hreach : (palace w).Reachable p₁ := h.step hstart
  obtain ⟨plan, hpreflight, rfl⟩ := startPatch_launches hstart
  obtain ⟨read, hread, hrequest, hstats⟩ := patchPreflight_stats hreason hpreflight
  have hlaunched : (p.launch (p.store.begin session) (.patching plan)).Carrying p.ops.length plan :=
    .inl (p.ops_launch _ _)
  have hcarrying := carrying_run hreach hlaunched calls
  have hstill : (p.launch (p.store.begin session) (.patching plan)).store.units.get?
      request.memoryId = some read := hread
  obtain ⟨replaced', hreplaced', hdescends⟩ := descends_of_run hreach calls hstill
  obtain ⟨plan', row, s', hop, happlied, rfl⟩ := patch_applies hpatch
  -- the plan that is applied is the one that was launched
  have hplan : plan' = plan := by
    rcases hcarrying with hsame | hdone
    · simpa using hop.symm.trans hsame
    · simp [hdone] at hop
  subst hplan
  obtain ⟨replaced, hreplaced, hexpected, hwritten⟩ := patch_replaces happlied
  rw [hrequest] at hreplaced hexpected hwritten
  have hsame : replaced' = replaced := Option.some.inj (hreplaced'.symm.trans hreplaced)
  have hiff : ∀ s : Store, (s.bumped plan'.changes replaced).Reinforces replaced ↔
      replaced.stats = read.stats := by
    intro s
    rw [MemoryUnit.Reinforces, Store.bumped, MemoryUnitChanges.apply, hstats, Option.getD_some,
      Stats.reinforced_injective.eq_iff, eq_comm]
  refine ⟨read, replaced, _, hread, hreplaced, hwritten, hiff _, fun hrevision => ?_⟩
  rw [hiff, ← hsame, hdescends.same]
  rw [hsame, hexpected, hrevision]

/-- "Remember" of the body that the memory has. -/
def reinforcesTea (expectedRevision : Nat) : PatchMemoryRequest :=
  { memoryId := 7, expectedRevision, body := some "drinks tea", editor := "user",
    reason := "remember/reinforce", machineId := "m" }

def teaPalace : Palace :=
  (palace default).run ⟨.deployed .empty, []⟩
    [⟨⟨1, [7, 70]⟩, .create (savedMemory "tea" "drinks tea") [1]⟩]

theorem teaPalace_reachable : (palace default).Reachable teaPalace := ⟨_, _, ⟨_, rfl⟩, rfl⟩

theorem reinforcement_exact_once :
    ∃ p₁ p₂, (palace default).step teaPalace ⟨⟨2, []⟩, .startPatch (reinforcesTea 1) [1]⟩ =
        .ok p₁ ∧
      (palace default).step p₁ ⟨⟨3, [71]⟩, .patch 0⟩ = .ok p₂ ∧
      ∃ replaced written, p₁.store.units.get? 7 = some replaced ∧
        p₂.store.units.get? 7 = some written ∧ written.Reinforces replaced := by
  obtain ⟨p₁, hstart, _⟩ : ∃ p₁, (palace default).step teaPalace
      ⟨⟨2, []⟩, .startPatch (reinforcesTea 1) [1]⟩ = .ok p₁ ∧ True :=
    answers_iff.mp (by decide +kernel)
  have hnext := Machine.next_of_ok hstart
  obtain ⟨p₂, hpatch, _⟩ : ∃ p₂, (palace default).step
      ((palace default).next teaPalace ⟨⟨2, []⟩, .startPatch (reinforcesTea 1) [1]⟩)
      ⟨⟨3, [71]⟩, .patch 0⟩ = .ok p₂ ∧ True :=
    answers_iff.mp (by decide +kernel)
  rw [hnext] at hpatch
  obtain ⟨read, replaced, written, hread, hreplaced, hwritten, _, hexact⟩ :=
    reinforcement_exact_iff teaPalace_reachable rfl hstart [] hpatch
  refine ⟨p₁, p₂, hstart, hpatch, replaced, written, hreplaced, hwritten, hexact ?_⟩
  have hrevision : ∀ read ∈ teaPalace.store.units.get? 7, read.revision = 1 := by decide +kernel
  exact (hrevision read hread).symm

/-- Two reinforcements of a memory are accepted, and it counts one. -/
theorem reinforcement_lost : (palace default).Reachable teaPalace ∧
    Answers (do
      let p ← (palace default).step teaPalace ⟨⟨2, []⟩, .startPatch (reinforcesTea 2) [1]⟩
      let p ← (palace default).step p ⟨⟨3, []⟩, .startPatch (reinforcesTea 1) [1]⟩
      let before ← (palace default).step p ⟨⟨4, [71]⟩, .patch 1⟩
      let after ← (palace default).step before ⟨⟨5, [72]⟩, .patch 0⟩
      return (before, after)) fun r =>
      ∃ replaced ∈ r.1.store.units.rows, ∃ written ∈ r.2.store.units.rows,
        replaced.id = 7 ∧ written.id = 7 ∧ replaced.revision = 2 ∧ written.revision = 3 ∧
          replaced.stats.reinforcements = 1 ∧ written.stats.reinforcements = 1 ∧
          ¬written.Reinforces replaced :=
  ⟨teaPalace_reachable, by decide +kernel⟩

end Reinforcement

end Nocturne
