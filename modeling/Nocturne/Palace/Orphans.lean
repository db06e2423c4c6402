import Nocturne.Palace.Findings

namespace Nocturne

open Nocturne.Lib Nocturne.Store Nocturne.Memory Nocturne.Queue Nocturne.Curation
  Nocturne.Symphony

variable {w : World} {p q : Palace} {s s' : Store}

section Passes

/-- What a pass knows of the replacement it has put in the store and not filed yet. -/
structure Curation.CuratorPass.Holds (pass : CuratorPass) (s : Store) (id : Uuid) : Prop where
  head : ∃ u, s.units.get? id = some u ∧ u.principalId = pass.principalId
  unjudged : pass.unjudged = []
  verdict : ∃ item rest action, pass.judged = item :: rest ∧ item.action = .act action ∧
    item.suppressed = false

def Holding (p : Palace) : Prop :=
  ∀ {k : Nat} {pass : CuratorPass} {id : Uuid}, p.ops[k]? = some (.curating pass) →
    pass.filing.held = some id → pass.Holds p.store id

/-- A pass in flight was in flight, or begins, or has just moved on. -/
theorem Palace.Stepped.curating {action : Action} (h : Palace.Stepped w p s action q) {k : Nat}
    {pass' : CuratorPass} (hget : q.ops[k]? = some (.curating pass')) :
    p.ops[k]? = some (.curating pass') ∨
      (k = p.ops.length ∧ q.store = s.drawn ∧ ∃ principalId machineId,
        (∀ op ∈ p.ops, op.curates ≠ some principalId) ∧
        pass' = (Curation.startPass w.env w.diagnosis s principalId machineId).1) ∨
      ∃ pass draft embedding, p.ops[k]? = some (.curating pass) ∧
        action = .advance k draft embedding ∧ AdvanceStep s pass (some pass') q.store := by
  have hlaunch {t : Store} {op : Operation} (hop : ∀ pass, op ≠ .curating pass)
      (hget : (p.launch t op).ops[k]? = some (.curating pass')) :
      p.ops[k]? = some (.curating pass') := by
    rw [Palace.get?_launch] at hget
    split at hget
    · exact absurd (Option.some.inj hget) (hop pass')
    · exact hget
  have hbecome {j : Nat} {t : Store} {op : Operation} (hop : ∀ pass, op ≠ .curating pass)
      (hget : (p.become j t op).ops[k]? = some (.curating pass')) :
      p.ops[k]? = some (.curating pass') := by
    rw [Palace.get?_become] at hget
    split at hget
    · obtain ⟨_, _, heq⟩ := Option.map_eq_some_iff.mp hget
      exact absurd heq (hop pass')
    · exact hget
  cases h with
  | create | split | stage | resolve | seeded | decideBatch | commit | feedback => exact .inl hget
  | startPatch | startExtract | startSeed | startDecision | prepare =>
    exact .inl (hlaunch (by simp) hget)
  | patch | seedSource | decide | prepareWrite | abandon => exact .inl (hbecome (by simp) hget)
  | @ingest _ _ _ next =>
    refine .inl (hbecome ?_ hget)
    cases next <;> simp
  | @startPass principalId machineId hlock =>
    rw [Palace.get?_launch] at hget
    split at hget
    · next hk =>
      obtain rfl := Operation.curating.inj (Option.some.inj hget)
      exact .inr (.inl ⟨hk, rfl, principalId, machineId, hlock, rfl⟩)
    · exact .inl hget
  | @advance j draft embedding pass next _ hop hstep =>
    rw [Palace.get?_become] at hget
    split at hget
    · next hj =>
      obtain ⟨_, _, heq⟩ := Option.map_eq_some_iff.mp hget
      cases next with
      | none => cases heq
      | some _ =>
        obtain rfl := Operation.curating.inj heq
        exact .inr (.inr ⟨pass, draft, embedding, hj ▸ hop, hj ▸ rfl, hstep⟩)
    · exact .inl hget

theorem Curation.CuratorPass.Holds.move {pass : CuratorPass} {id : Uuid} {φ : Footprint}
    (h : pass.Holds s id) (hw : Writes φ s s') : pass.Holds s' id := by
  obtain ⟨⟨u, hu, hprincipal⟩, hunjudged, hverdict⟩ := h
  obtain ⟨u', hu', hdescends⟩ := hw.descends hu
  exact ⟨⟨u', hu', hdescends.principalId.trans hprincipal⟩, hunjudged, hverdict⟩

theorem Curation.AdvanceStep.holds {pass pass' : CuratorPass} {id : Uuid}
    (h : AdvanceStep s pass (some pass') s')
    (hpass : ∀ {id}, pass.filing.held = some id → pass.Holds s id)
    (hheld : pass'.filing.held = some id) : pass'.Holds s' id := by
  cases h with
  | skip hunjudged =>
    have := (hpass hheld).unjudged
    rw [hunjudged] at this
    cases this
  | judged hunjudged hjudged =>
    obtain ⟨_, _, _, _, _, _, _, _, _, _, _, _, _, hpass'⟩ := hjudged.written
    rw [hpass'] at hheld
    have := (hpass hheld).unjudged
    rw [hunjudged] at this
    cases this
  | routed | filed | sourceRead => simp [CuratorPass.routed, Filing.held] at hheld
  | created hunjudged hjudged haction _ _ _ hinserted hnew hprincipal =>
    obtain rfl := Option.some.inj hheld
    exact ⟨⟨_, hinserted.found, hinserted.principalId.trans hprincipal⟩, hunjudged, _, _, _,
      hjudged, haction, hnew⟩
  | candidateRead hunjudged _ _ hfiling hget =>
    obtain rfl := Option.some.inj hheld
    have hid := Table.key_of_get? hget
    obtain ⟨hhead, _, hverdict⟩ := hpass (by rw [hfiling]; exact congrArg some hid.symm)
    exact ⟨hhead, hunjudged, hverdict⟩

theorem holding_of_reachable (h : (palace w).Reachable p) : Holding p := by
  refine (Machine.reachable_keeps
    (I := fun p : Palace => p.store.Lineage ∧ Holding p) ?_ ?_ h).2
  · rintro _ ⟨configs, rfl⟩
    exact ⟨.empty rfl rfl, nofun⟩
  · rintro p call q ⟨hlineage, hp⟩ hstep
    have hstepped := stepped_of_step hlineage hstep
    have hbegin {pass : CuratorPass} {id : Uuid} (hpass : pass.Holds p.store id) :
        pass.Holds (p.store.begin call.session) id :=
      hpass.move (begin_quiet call.session).writes (φ := {})
    refine ⟨(writes_of_step hlineage hstep).lineage hlineage, fun {k pass' id} hget hheld => ?_⟩
    rcases hstepped.curating hget with
      hold | ⟨_, _, _, _, _, rfl⟩ | ⟨pass, _, _, hop, _, hadvance⟩
    · exact (hp hold hheld).move (writes_of_step hlineage hstep)
    · cases hheld
    · exact hadvance.holds (fun hheld => hbegin (hp hop hheld)) hheld

theorem insertCuratorItem_ok (env : Env) (request : CuratorEnqueue) {row u : MemoryUnit}
    (neighbors : List Uuid) (hu : s.units.get? row.id = some u) (hstaged : u.status ≠ .staged)
    (hfree : ∀ other ∈ s.items.rows, other.birthplace.findingUid ≠ some request.findingUid) :
    ∃ s', insertCuratorItem env s request row neighbors = .ok s' ∧
      ∃ item ∈ s'.items.rows, item.candidateMemoryId = row.id := by
  have hfresh : s.drawn.items.get? (request.item s row neighbors).itemUid = none :=
    get?_freshUlid_items
  have hinsert : ∃ t, s.drawn.insertItem (request.item s row neighbors) = .ok t ∧
      t.units = s.units ∧ request.item s row neighbors ∈ t.items.rows := by
    refine ⟨_, insertItem_eq_ok.mpr ⟨by simp [CuratorEnqueue.item, hu], ?_, ?_, _,
      Table.insert?_of_get?_none hfresh, rfl⟩, rfl, by simp⟩
    · exact fun hcurator => absurd trivial hcurator
    · intro uid huid other hother
      obtain rfl := Option.mem_some_iff.mp huid
      exact hfree other hother
  obtain ⟨t, ht, hunits, hitem⟩ := hinsert
  obtain ⟨c, hc⟩ : ∃ c, card env t (request.item s row neighbors) = .ok c :=
    card_ok (hunits ▸ hu) hstaged
  refine ⟨t, ?_, _, hitem, rfl⟩
  simp only [insertCuratorItem, ht, ok_bind, hc]
  rfl

theorem memoryRow_ok {id : Uuid} {principalId : String} {u : MemoryUnit}
    (hu : s.units.get? id = some u) (hprincipal : u.principalId = principalId) :
    memoryRow s id principalId = .ok u := by
  simp [memoryRow, hu, hprincipal, ensure]

/-- A pass that holds a replacement goes on holding it, or files it. -/
theorem advance_held {k : Nat} {pass : CuratorPass} {id : Uuid} {session : Session}
    {draft : Option CuratorVerdictDraft} {embedding : Embedding} {next : Option CuratorPass}
    (hconsented : Consented p) (htraced : Traced p) (hholding : Holding p)
    (hop : p.ops[k]? = some (.curating pass)) (hheld : pass.filing.held = some id)
    (h : advance w.env (p.store.begin session) pass draft embedding = .ok (next, s')) :
    (∃ pass' ∈ next, pass'.filing.held = some id) ∨
      ∃ item ∈ s'.items.rows, item.candidateMemoryId = id := by
  obtain ⟨⟨u, hu, hprincipal⟩, hunjudged, item, rest, action, hjudged, haction, hnew⟩ :=
    hholding hop hheld
  have hu' : (p.store.begin session).units.get? id = some u := hu
  have hfree : ∀ other ∈ (p.store.begin session).items.rows,
      other.birthplace.findingUid ≠ some item.findingUid :=
    htraced.unfiled hop item.findingUid (by simp [CuratorPass.awaiting, hjudged])
  obtain ⟨v, hv, hstaged, _⟩ := hconsented.held hop hheld
  obtain rfl := Option.some.inj (hu.symm.trans hv)
  simp only [advance, hunjudged, hjudged, route, haction, hnew, Bool.false_eq_true, ↓reduceIte,
    Except.ok.injEq, Prod.mk.injEq] at h
  obtain ⟨rfl, rfl⟩ := h
  cases hfiling : pass.filing with
  | unread | sourceRead => simp [hfiling, Filing.held] at hheld
  | created candidateId neighbors =>
    obtain rfl : candidateId = id := by simpa [hfiling, Filing.held] using hheld
    have hid := Table.key_of_get? hu
    left
    simp only [enqueueCurator, hfiling, enqueueOf, memoryRow_ok hu' hprincipal, ok_bind]
    exact ⟨_, rfl, congrArg some hid⟩
  | candidateRead candidate neighbors =>
    obtain rfl : candidate.id = id := by simpa [hfiling, Filing.held] using hheld
    obtain ⟨t, ht, hcard⟩ := insertCuratorItem_ok w.env (enqueueOf pass item action) neighbors hu'
      hstaged hfree
    right
    simp only [enqueueCurator, hfiling, ht, ok_bind]
    exact hcard

end Passes

section Coverage

/-- A request in flight still holds the head, or a card names it. -/
def Palace.Keeps (p : Palace) (id : Uuid) : Prop :=
  (∃ (k : Nat) (op : Operation), p.ops[k]? = some op ∧ op.held = some id) ∨
    ∃ item ∈ p.store.items.rows, item.candidateMemoryId = id

/-- No waiting head is lost: each is held by a request in flight or named by a card. -/
def Covered (p : Palace) : Prop :=
  ∀ id u, p.store.units.get? id = some u → u.status = .candidate → p.Keeps id

theorem Covered.move {φ : Footprint} (h : Covered p) (hw : Writes φ p.store q.store)
    (hheads : ∀ {id u'}, q.store.units.get? id = some u' → u'.status = .candidate →
      q.Keeps id ∨ ∃ u, p.store.units.get? id = some u ∧ u.status = .candidate)
    (hops : ∀ {k : Nat} {op : Operation} {id u'}, p.ops[k]? = some op → op.held = some id →
      q.store.units.get? id = some u' → u'.status = .candidate →
        (∃ op', q.ops[k]? = some op' ∧ op'.held = some id) ∨
          ∃ item ∈ q.store.items.rows, item.candidateMemoryId = id) : Covered q := by
  intro id u' hu' hcandidate
  rcases hheads hu' hcandidate with hkept | ⟨u, hu, hwaiting⟩
  · exact hkept
  · rcases h id u hu hwaiting with ⟨k, op, hop, hheld⟩ | ⟨item, hitem, hnamed⟩
    · rcases hops hop hheld hu' hcandidate with ⟨op', hop', hheld'⟩ | hcard
      · exact .inl ⟨k, op', hop', hheld'⟩
      · exact .inr hcard
    · obtain ⟨_, _, hitem'⟩ := hw.item (Table.get?_of_mem hitem)
      exact .inr ⟨_, Table.mem_of_get? hitem', hnamed⟩

/-- Requests that held nothing may end, and new ones that hold nothing begin. -/
theorem Covered.stay {φ : Footprint} (h : Covered p) (hw : Writes φ p.store q.store)
    (hφ : φ.Forward) (hroot : ∀ u, φ.root u → u.status ≠ .candidate)
    (hops : ∀ {k : Nat} {op : Operation} {id}, p.ops[k]? = some op → op.held = some id →
      q.ops[k]? = some op) :
    Covered q := by
  apply h.move hw
  · exact fun hu' hcandidate => .inr (hw.candidates hφ hroot hu' hcandidate)
  · exact fun hop hheld _ _ => .inl ⟨_, hops hop hheld, hheld⟩

theorem ops_launch_kept {op new : Operation} {k : Nat} (hop : p.ops[k]? = some op) :
    (p.launch s new).ops[k]? = some op := by
  rw [Palace.get?_launch, if_neg, hop]
  rintro rfl
  simp at hop

theorem ops_become_kept {op old new : Operation} {j k : Nat} {id : Uuid}
    (hop : p.ops[k]? = some op) (hheld : op.held = some id) (hj : p.ops[j]? = some old)
    (hidle : old.held = none) : (p.become j s new).ops[k]? = some op := by
  rw [Palace.get?_become, if_neg, hop]
  rintro rfl
  obtain rfl := Option.some.inj (hop.symm.trans hj)
  rw [hidle] at hheld
  cases hheld

theorem ops_become_self {old new : Operation} {k : Nat} (hop : p.ops[k]? = some old) :
    (p.become k s new).ops[k]? = some new := by
  rw [Palace.get?_become, if_pos rfl, hop]
  rfl

/-- Only an abandoned request that holds a candidate still waiting leaves it behind. -/
def Completes (p : Palace) : Action → Prop
  | .abandon k => ∀ op ∈ p.ops[k]?, ∀ id ∈ op.held, ∀ u ∈ p.store.units.get? id,
      u.status ≠ .candidate
  | _ => True

instance (p : Palace) : DecidablePred (Completes p)
  | .abandon k => inferInstanceAs (Decidable (∀ op ∈ p.ops[k]?, _))
  | .create .. | .split .. | .stage .. | .resolve .. | .startPatch .. | .patch ..
   | .startExtract .. | .startSeed .. | .seedSource .. | .ingest .. | .startPass ..
   | .advance .. | .startDecision .. | .decide .. | .decideBatch .. | .prepare ..
   | .prepareWrite .. | .commit .. | .feedback .. => isTrue trivial

theorem Covered.born {k : Nat} {old op : Operation} {memory : MemoryUnit}
    {command : CreateMemoryCommand} {session : Session} (h : Covered p)
    (hw : Writes { root := (·.status = .candidate) } (p.store.begin session) s')
    (hinserted : Inserted (p.store.begin session) .candidate command (memory, s'))
    (hop : p.ops[k]? = some old) (hidle : old.held = none) (hheld : op.held = some memory.id) :
    Covered (p.become k s' op) := by
  have hw' : Writes { root := (·.status = .candidate) } p.store (p.become k s' op).store :=
    (begin_quiet session).writes.trans hw
  apply h.move hw'
  · intro id u' hu' hcandidate
    by_cases hid : id = memory.id
    · exact .inl (.inl ⟨k, op, ops_become_self hop, hid ▸ hheld⟩)
    · have hu : s'.units.get? id = some u' := hu'
      rw [hinserted.others id hid] at hu
      exact .inr ⟨u', hu, hcandidate⟩
  · intro j other id _ hother hid _ _
    exact .inl ⟨other, ops_become_kept hother hid hop hidle, hid⟩

theorem Covered.ingest {k : Nat} {admission : Admission} {next : Option Admission}
    {session : Session} (h : Covered p) (hop : p.ops[k]? = some (.admitting admission))
    (hstep : IngestStep (p.store.begin session) admission next s') :
    Covered (p.become k s' (next.elim .done .admitting)) := by
  have hquiet {t : Store} (hq : (p.store.begin session).Quiet t) : Writes {} p.store t :=
    (begin_quiet session).writes.trans hq.writes
  have hnone : (({} : Footprint)).Forward := forward_of_none fun _ _ => id
  cases hstep with
  | @check unfiled unchecked activeNeighbors hunfiled =>
    apply h.move (hquiet (.refl _))
    · exact fun hu' hcandidate => .inr ⟨_, hu', hcandidate⟩
    · intro j op id u' hother hheld _ _
      apply Or.inl
      by_cases hj : j = k
      · subst hj
        obtain rfl := Option.some.inj (hop.symm.trans hother)
        refine ⟨_, ops_become_self hop, ?_⟩
        rw [← hheld]
        simp [Operation.held, hunfiled]
      · exact ⟨op, by rw [Palace.get?_become, if_neg hj, hother], hheld⟩
  | @discard unfiled _ hunfiled _ _ hw htombstoned =>
    have hw' : Writes (discardFootprint unfiled.memoryId) p.store s' :=
      (begin_quiet session).writes.trans hw
    apply h.move (q := p.become k s' .done) hw'
    · exact fun hu' hcandidate =>
        .inr (hw'.candidates discardFootprint_forward (fun _ => False.elim) hu' hcandidate)
    · intro j op id u' hother hheld hu' hcandidate
      by_cases hj : j = k
      · subst hj
        obtain rfl := Option.some.inj (hop.symm.trans hother)
        obtain rfl : unfiled.memoryId = id := by simpa [Operation.held, hunfiled] using hheld
        obtain ⟨u, hu, hstatus⟩ := htombstoned
        have hu' : s'.units.get? unfiled.memoryId = some u' := hu'
        obtain rfl := Option.some.inj (hu.symm.trans hu')
        rw [hcandidate] at hstatus
        cases hstatus
      · exact .inl ⟨op, by rw [Palace.get?_become, if_neg hj, hother], hheld⟩
  | @file unfiled _ hunfiled _ _ hinsert =>
    have hw' : Writes .any p.store s' :=
      (begin_quiet session).writes.trans (drawn_quiet.writes.tail (.card trivial hinsert))
    obtain ⟨_, _, _, items, hrow, rfl⟩ := insertItem_eq_ok.mp hinsert
    obtain ⟨_, rfl⟩ := Table.insert?_eq_some.mp hrow
    apply h.move (q := p.become k _ _) hw'
    · exact fun hu' hcandidate => .inr ⟨_, hu', hcandidate⟩
    · intro j op id u' hother hheld _ _
      by_cases hj : j = k
      · subst hj
        obtain rfl := Option.some.inj (hop.symm.trans hother)
        obtain rfl : unfiled.memoryId = id := by simpa [Operation.held, hunfiled] using hheld
        exact .inr ⟨_, List.mem_append_right _ (List.mem_singleton_self _), rfl⟩
      · exact .inl ⟨op, by rw [Palace.get?_become, if_neg hj, hother], hheld⟩
  | duplicate hunfiled =>
    exact h.stay (hquiet (.refl _)) hnone (fun _ => False.elim)
      fun hother hheld => ops_become_kept hother hheld hop (by simp [Operation.held, hunfiled])
  | created hunfiled _ hw hinserted =>
    exact h.born hw hinserted hop (by simp [Operation.held, hunfiled]) rfl
  | finish hunfiled hq =>
    exact h.stay (hquiet hq) hnone (fun _ => False.elim)
      fun hother hheld => ops_become_kept hother hheld hop (by simp [Operation.held, hunfiled])

theorem step_advance_eq_ok {k : Nat} {draft : Option CuratorVerdictDraft} {embedding : Embedding}
    {session : Session} (h : (palace w).step p ⟨session, .advance k draft embedding⟩ = .ok q) :
    ∃ pass next s', p.ops[k]? = some (.curating pass) ∧
      advance w.env (p.store.begin session) pass draft embedding = .ok (next, s') ∧
      q = p.become k s' (next.elim .done .curating) := by
  simp only [palace, Palace.step, Palace.inFlight, bind_eq_ok, require_eq_ok, pure_eq_ok,
    Option.bind_eq_some_iff, Operation.curating?_eq_some] at h
  obtain ⟨pass, ⟨_, hop, rfl⟩, ⟨next, s'⟩, hadvance, rfl⟩ := h
  exact ⟨pass, next, s', hop, hadvance, rfl⟩

theorem Covered.advance {k : Nat} {pass : CuratorPass} {next : Option CuratorPass}
    {draft : Option CuratorVerdictDraft} {embedding : Embedding} {session : Session}
    (h : Covered p) (hreach : (palace w).Reachable p) (hop : p.ops[k]? = some (.curating pass))
    (hadvance : advance w.env (p.store.begin session) pass draft embedding = .ok (next, s'))
    (hstep : AdvanceStep (p.store.begin session) pass next s') :
    Covered (p.become k s' (next.elim .done .curating)) := by
  have hidle (hunits : s'.units = p.store.units) :
      Covered (p.become k s' (next.elim .done .curating)) := by
    have hw : Writes (advanceFootprint pass) p.store s' :=
      (begin_quiet session).writes.trans hstep.writes
    apply h.move (q := p.become k s' _) hw
    · intro id u' hu' hcandidate
      have hu : s'.units.get? id = some u' := hu'
      exact .inr ⟨u', hunits ▸ hu, hcandidate⟩
    · intro j op id _ hother hheld _ _
      by_cases hj : j = k
      · subst hj
        obtain rfl := Option.some.inj (hop.symm.trans hother)
        rcases advance_held (consented_of_reachable hreach) (traced_of_reachable hreach)
          (holding_of_reachable hreach) hop hheld hadvance with ⟨pass', hpass', hheld'⟩ | hcard
        · rw [Option.mem_def] at hpass'
          subst hpass'
          exact .inl ⟨_, ops_become_self hop, hheld'⟩
        · exact .inr hcard
      · exact .inl ⟨op, by rw [Palace.get?_become, if_neg hj, hother], hheld⟩
  cases hstep with
  | skip | routed | sourceRead | candidateRead => exact hidle rfl
  | judged _ hjudged => exact hidle hjudged.quiet.units
  | persisted => exact hidle rfl
  | created _ _ _ hfiling _ hw hinserted =>
    exact h.born hw hinserted hop (by simp [Operation.held, hfiling, Filing.held]) rfl
  | filed _ _ _ _ hinsert =>
    obtain ⟨_, _, _, _, _, hs'⟩ := insertItem_eq_ok.mp hinsert
    exact hidle (by rw [hs']; rfl)

theorem Covered.resolve {runId : String} {request : ResolveRunRequest} {session : Session}
    {t : Store} (h : Covered p) (hconsented : Consented p)
    (hresolves : (p.store.begin session).Resolves (request.resolution runId) t)
    (hrouted : Routed runId request t (lockedRunRows (p.store.begin session) runId) s') :
    Covered ⟨s', p.ops⟩ := by
  have hw : Writes (resolveFootprint (p.store.begin session) runId request) p.store s' :=
    (begin_quiet session).writes.trans (hrouted.resolve_writes hresolves)
  have hsettles := hconsented.settles hresolves hrouted
  apply h.move (q := ⟨s', p.ops⟩) hw
  · intro id u' hu' hcandidate
    by_cases hid : id ∈ (lockedRunRows p.store runId).map (·.id)
    · obtain ⟨row, hrow, rfl⟩ := List.mem_map.mp hid
      obtain ⟨u, hu, _, hstatus, hcard⟩ := hsettles.settled row hrow
      obtain rfl := Option.some.inj (hu.symm.trans hu')
      split at hstatus
      · next hwinner =>
        obtain ⟨item, hitem, hcard⟩ := hcard hwinner
        exact .inl (.inr ⟨item, hitem, hcard.candidate⟩)
      · rw [hcandidate] at hstatus
        cases hstatus
    · have hu : s'.units.get? id = some u' := hu'
      rw [hsettles.others id hid] at hu
      exact .inr ⟨u', hu, hcandidate⟩
  · exact fun hop hheld _ _ => .inl ⟨_, hop, hheld⟩

theorem Covered.stepped {session : Session} {action : Action} (h : Covered p)
    (hreach : (palace w).Reachable p) (hcompletes : Completes p action)
    (haccepted : (palace w).step p ⟨session, action⟩ = .ok q) : Covered q := by
  have hconsented := consented_of_reachable hreach
  have hlineage := lineage_of_reachable hreach
  have hwrites := writes_of_step hlineage haccepted
  have hbegin {φ : Footprint} {t : Store} (hw : Writes φ (p.store.begin session) t) :
      Writes φ p.store t := (begin_quiet session).writes.trans hw
  have hnone : (({} : Footprint)).Forward := forward_of_none fun _ _ => id
  have hquiet {t : Store} (hq : (p.store.begin session).Quiet t) : Writes {} p.store t :=
    hbegin hq.writes
  cases stepped_of_step hlineage haccepted with
  | create hw | stage hw =>
    exact h.stay (hbegin hw) (forward_of_none fun _ _ => id) (by simp_all) fun hop _ => hop
  | split hw =>
    have hroot (u : MemoryUnit) (hu : u.status = .active ∨ u.status = .tombstoned) :
        u.status ≠ .candidate := by
      rcases hu with hu | hu <;> simp [hu]
    exact h.stay (hbegin hw) (forward_of_none fun _ _ => id) hroot fun hop _ => hop
  | resolve hr =>
    rcases hr with ⟨rfl, _⟩ | ⟨t, hresolves, hrouted⟩
    · exact h.stay (hquiet (.refl _)) hnone (fun _ => False.elim) fun hop _ => hop
    · exact h.resolve hconsented hresolves hrouted
  | startPatch | startExtract | startSeed | startDecision | prepare =>
    exact h.stay (hquiet (.refl _)) hnone (fun _ => False.elim) fun hop _ => ops_launch_kept hop
  | seeded =>
    exact h.stay (hquiet (.refl _)) hnone (fun _ => False.elim) fun hop _ => hop
  | startPass =>
    exact h.stay (hquiet drawn_quiet) hnone (fun _ => False.elim) fun hop _ => ops_launch_kept hop
  | patch hop hw =>
    exact h.stay (hbegin hw) (patchFootprint_forward (hconsented.sound hop)) (fun _ => False.elim)
      fun hother hheld => ops_become_kept hother hheld hop rfl
  | seedSource hop hw =>
    exact h.stay (hbegin hw) (forward_of_none fun _ _ => id) (by simp_all)
      fun hother hheld => ops_become_kept hother hheld hop rfl
  | ingest hop hstep => exact h.ingest hop hstep
  | advance =>
    obtain ⟨_, _, _, hop, hadvance, hq⟩ := step_advance_eq_ok haccepted
    rw [hq]
    exact h.advance hreach hop hadvance (advance_meets.of_ok hadvance)
  | @decide k plan item _ hop hitem hr =>
    rcases hr with rfl | hdecided
    · exact h.stay (hquiet (.refl _)) hnone (fun _ => False.elim)
        fun hother hheld => ops_become_kept hother hheld hop rfl
    · have hforward : (decisionFootprint item plan).Forward :=
        fun u c hc => decisionHeads_forward (hconsented.sound hop) u c hc
      exact h.stay (hbegin hdecided.writes) hforward (fun u hu => by simp [hu.1])
        fun hother hheld => ops_become_kept hother hheld hop rfl
  | decideBatch hr =>
    apply h.move (hbegin hr.writes)
    · exact fun hu' hcandidate => .inr (hr.candidates hu' hcandidate)
    · exact fun hop hheld _ _ => .inl ⟨_, hop, hheld⟩
  | prepareWrite hop _ hw =>
    exact h.stay (hbegin hw) prepareFootprint_forward (fun _ => False.elim)
      fun hother hheld => ops_become_kept hother hheld hop rfl
  | commit _ hw =>
    exact h.stay (hbegin hw) commitFootprint_forward (fun _ => False.elim) fun hop _ => hop
  | feedback _ hw =>
    exact h.stay (hbegin hw) feedbackFootprint_forward (fun _ => False.elim) fun hop _ => hop
  | @abandon k =>
    apply h.move (hquiet (.refl _))
    · exact fun hu' hcandidate => .inr ⟨_, hu', hcandidate⟩
    · intro j op id u' hop hheld hu' hcandidate
      by_cases hj : j = k
      · subst hj
        exact absurd hcandidate (hcompletes op hop id hheld u' hu')
      · exact .inl ⟨op, by rw [Palace.get?_become, if_neg hj, hop], hheld⟩

theorem covered_of_run (h : (palace w).ReachableBy (fun p call => Completes p call.action) p) :
    Covered p := by
  refine (Machine.reachableBy_keeps
    (I := fun p : Palace => (palace w).Reachable p ∧ Covered p) ?_ ?_ h).2
  · rintro _ ⟨configs, rfl⟩
    refine ⟨⟨_, [], ⟨configs, rfl⟩, rfl⟩, fun id u hu => ?_⟩
    simp [Store.deployed] at hu
  · rintro p call q ⟨hreach, hp⟩ hcompletes hstep
    exact ⟨hreach.step hstep, hp.stepped hreach hcompletes hstep⟩

end Coverage

section Runs

/-- A request of the palace has put the head in the store, and its next transaction is accepted
whatever it draws. -/
def Palace.Underway (w : World) (p : Palace) (id : Uuid) : Prop :=
  ∃ (k : Nat) (op : Operation), p.ops[k]? = some op ∧ op.held = some id ∧
    ((∀ session embedding, ∃ q, (palace w).step p ⟨session, .ingest k embedding⟩ = .ok q) ∨
      ∀ session draft embedding, ∃ q,
        (palace w).step p ⟨session, .advance k draft embedding⟩ = .ok q)

theorem discardCandidate_ok {memoryId : Uuid} (machineId : String) {u : MemoryUnit}
    (h : s.Lineage) (hu : s.units.get? memoryId = some u) :
    ∃ s', discardCandidate s memoryId machineId = .ok s' := by
  obtain ⟨s', _, hs'⟩ := cas_ok (fun revUid =>
    { memoryId
      expectedRevision := u.revision
      revUid
      editor := "extraction"
      originMachineId := machineId
      reason := "invalid_queue_target"
      changes := { status := some .tombstoned } }) h hu rfl rfl (by simp)
        (by simp [ActiveLabelFree])
  refine ⟨s', ?_⟩
  simp only [discardCandidate, lockedMemory, hu, require_some, ok_bind, hs']
  rfl

/-- A candidate that waits for its card gets past every check of the transaction that files or
discards it. -/
theorem ingest_held {admission : Admission} {unfiled : Unfiled} {u : MemoryUnit}
    {embedding : Embedding} (h : s.Lineage) (hunfiled : admission.unfiled = some unfiled)
    (hu : s.units.get? unfiled.memoryId = some u)
    (hfree : ∀ item ∈ s.items.rows, item.candidateMemoryId ≠ unfiled.memoryId) :
    ∃ r, ingest w.env s admission embedding = .ok r := by
  simp only [ingest, hunfiled]
  split
  · exact ⟨_, rfl⟩
  · unfold enqueue
    split
    · obtain ⟨s', hs'⟩ := discardCandidate_ok admission.source.machineId h hu
      simp only [hs', ok_bind]
      exact ⟨_, rfl⟩
    · have hfresh : s.drawn.items.get? (admission.item s unfiled).itemUid = none :=
        get?_freshUlid_items
      have hinsert : ∃ s', s.drawn.insertItem (admission.item s unfiled) = .ok s' := by
        refine ⟨_, insertItem_eq_ok.mpr ⟨by simp [Admission.item, hu], ?_, ?_, _,
          Table.insert?_of_get?_none hfresh, rfl⟩⟩
        · exact fun _ other hother hnamed => absurd hnamed (hfree other hother)
        · intro uid huid
          cases hsource : admission.source <;>
            simp [Admission.item, Source.birthplace, hsource, Birthplace.findingUid] at huid
      obtain ⟨s', hs'⟩ := hinsert
      simp only [hs', ok_bind]
      exact ⟨_, rfl⟩

theorem underway_of_held {k : Nat} {op : Operation} {u : MemoryUnit}
    (h : (palace w).Reachable p) (hop : p.ops[k]? = some op) (hheld : op.held = some u.id)
    (hu : u ∈ p.store.units.rows) (hcandidate : u.status = .candidate) : p.Underway w u.id := by
  have hget := Table.get?_of_mem hu
  obtain ⟨v, hv, _, hfree⟩ := (consented_of_reachable h).held hop hheld
  obtain rfl := Option.some.inj (hget.symm.trans hv)
  refine ⟨k, op, hop, hheld, ?_⟩
  cases op with
  | admitting admission =>
    left
    intro session embedding
    obtain ⟨unfiled, hunfiled, hid⟩ := Option.map_eq_some_iff.mp hheld
    obtain ⟨r, hr⟩ : ∃ r, ingest w.env (p.store.begin session) admission embedding = .ok r :=
      ingest_held ((lineage_of_reachable h).congr rfl rfl) hunfiled (hid ▸ hget)
        (hid ▸ hfree hcandidate)
    simp only [palace, Palace.step, Palace.inFlight, hop, Option.bind_some, Operation.admitting?,
      require_some, ok_bind, hr]
    exact ⟨_, rfl⟩
  | curating pass =>
    right
    intro session draft embedding
    obtain ⟨_, hunjudged, item, rest, _, hjudged, _⟩ := holding_of_reachable h hop hheld
    simp only [palace, Palace.step, Palace.inFlight, hop, Option.bind_some, Operation.curating?,
      require_some, ok_bind, advance, hunjudged, hjudged]
    exact ⟨_, rfl⟩
  | patching | seeding | deciding | preparing | done => cases hheld

/-- Unless a request is abandoned between the transaction that creates a candidate and the one
that files it, every candidate has its one open card, or a request that is bound to reach it. -/
theorem no_orphans (h : (palace w).ReachableBy (fun p call => Completes p call.action) p)
    {u : MemoryUnit} (hu : u ∈ p.store.units.rows) (hcandidate : u.status = .candidate) :
    p.Underway w u.id ∨ ∃ item, p.store.items.rows.filter
      (fun item => item.candidateMemoryId = u.id ∧ item.state = .pending) = [item] := by
  have hget := Table.get?_of_mem hu
  rcases covered_of_run h u.id u hget hcandidate with ⟨k, op, hop, hheld⟩ | ⟨item, hitem, hnamed⟩
  · exact .inl (underway_of_held h.reachable hop hheld hu hcandidate)
  · obtain ⟨hpending, hunique⟩ := (consented_of_reachable h.reachable).cards.waiting item hitem u
      (hnamed ▸ hget) hcandidate
    exact .inr ⟨item, Table.filter_eq_singleton hitem ⟨hnamed, hpending⟩
      fun other hother hsame => hunique other hother (hsame.1.trans hnamed.symm)⟩

/-- One conversation offers a memory, and stops once its candidate is in the store; it then
offers the same memory again. -/
def orphanedCalls : List Call :=
  [⟨⟨1, []⟩, .startExtract (offeredMemories [offeredCandidate "tea" "drinks tea"])⟩,
    ⟨⟨2, [7, 70]⟩, .ingest 0 [1]⟩,
    ⟨⟨3, []⟩, .abandon 0⟩,
    ⟨⟨4, []⟩, .startExtract (offeredMemories [offeredCandidate "tea" "drinks tea"])⟩,
    ⟨⟨5, [8, 71]⟩, .ingest 1 [1]⟩,
    ⟨⟨6, []⟩, .ingest 1 []⟩]

theorem no_orphans_orphaned :
    (palace default).Reachable ((palace default).run ⟨.deployed .empty, []⟩ orphanedCalls) ∧
    let p := (palace default).run ⟨.deployed .empty, []⟩ orphanedCalls
    (∀ op ∈ p.ops, op matches .done) ∧ p.store.items.rows = [] ∧
      p.store.units.rows.map (fun u => (u.id, u.status)) = [(7, .candidate)] := by
  refine ⟨⟨_, _, ⟨_, rfl⟩, rfl⟩, ?_⟩
  decide +kernel

/-- The same offer, carried through to its card. -/
def offeredPalace : Palace :=
  (palace default).run ⟨.deployed .empty, []⟩
    [⟨⟨1, []⟩, .startExtract (offeredMemories [offeredCandidate "tea" "drinks tea"])⟩,
      ⟨⟨2, [7, 70]⟩, .ingest 0 [1]⟩,
      ⟨⟨3, [50]⟩, .ingest 0 []⟩]

theorem no_orphans_offered : ∃ u ∈ offeredPalace.store.units.rows, u.status = .candidate ∧
    (offeredPalace.Underway default u.id ∨ ∃ item, offeredPalace.store.items.rows.filter
      (fun item => item.candidateMemoryId = u.id ∧ item.state = .pending) = [item]) := by
  have hrun : (palace default).ReachableBy (fun p call => Completes p call.action) offeredPalace :=
    ⟨_, _, ⟨_, rfl⟩, by decide +kernel, rfl⟩
  have hwaits : ∃ u ∈ offeredPalace.store.units.rows, u.status = .candidate := by decide +kernel
  obtain ⟨u, hu, hcandidate⟩ := hwaits
  exact ⟨u, hu, hcandidate, no_orphans hrun hu hcandidate⟩

end Runs

end Nocturne
