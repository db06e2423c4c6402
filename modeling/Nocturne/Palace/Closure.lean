import Nocturne.Palace.Rejection
import Nocturne.Symphony.Attempts

namespace Nocturne

open Nocturne.Lib Nocturne.Store Nocturne.Memory Nocturne.Queue Nocturne.Curation
  Nocturne.Symphony Nocturne.Inject

variable {w : World} {p q : Palace} {φ : Footprint} {s s' t : Store}

section Backstage

/-- The later version has at most been counted. -/
def OnlyCounted (u u' : MemoryUnit) : Prop :=
  u' = { u with
    stats := u'.stats, bias := u'.bias, revision := u'.revision, updatedAt := u'.updatedAt }

theorem OnlyCounted.refl (u : MemoryUnit) : OnlyCounted u u := rfl

theorem OnlyCounted.trans {u v x : MemoryUnit} (huv : OnlyCounted u v) (hvx : OnlyCounted v x) :
    OnlyCounted u x := by
  rw [OnlyCounted, hvx, huv]

/-- A head staged at the end was staged all along. -/
def StaysStaged (s s' : Store) (id : Uuid) : Prop :=
  ∀ u', s'.units.get? id = some u' → u'.status = .staged →
    ∃ u, s.units.get? id = some u ∧ u.status = .staged ∧ OnlyCounted u u'

theorem StaysStaged.of_eq {id : Uuid} (h : s'.units.get? id = s.units.get? id) :
    StaysStaged s s' id :=
  fun u' hu' hstaged => ⟨u', h ▸ hu', hstaged, .refl u'⟩

theorem StaysStaged.trans {id : Uuid} (hst : StaysStaged s t id) (htu : StaysStaged t s' id) :
    StaysStaged s s' id := by
  intro u' hu' hstaged
  obtain ⟨v, hv, hvstaged, hvu'⟩ := htu u' hu' hstaged
  obtain ⟨u, hu, hustaged, huv⟩ := hst v hv hvstaged
  exact ⟨u, hu, hustaged, huv.trans hvu'⟩

theorem Store.Writes.staysStaged {id : Uuid} (h : Writes φ s s')
    (hroot : ∀ u, φ.root u → u.status ≠ .staged)
    (hhead : ∀ s u c, φ.head u c → c.memoryId = id →
      (Store.bumped s c.changes u).status = .staged →
        u.status = .staged ∧ OnlyCounted u (Store.bumped s c.changes u)) :
    StaysStaged s s' id := by
  apply h.rel (R := fun s s' => StaysStaged s s' id) (fun _ => .of_eq rfl) .trans
  intro s s' hw
  rcases hw.units_cases with ⟨command, current, hc, hs⟩ | ⟨unit, row, hr, hs⟩ | ⟨heq, _⟩
  · intro u' hu' hstaged
    rw [hs.get?_units] at hu'
    split at hu'
    · next hid =>
      obtain rfl := Option.some.inj hu'
      obtain ⟨hcurrent, hcounted⟩ := hhead s current command hc hid.symm hstaged
      exact ⟨current, hid ▸ hs.found, hcurrent, hcounted⟩
    · exact ⟨u', hu', hstaged, .refl u'⟩
  · intro u' hu' hstaged
    rw [hs.get?_units] at hu'
    split at hu'
    · obtain rfl := Option.some.inj hu'
      exact absurd hstaged (hroot _ hr)
    · exact ⟨u', hu', hstaged, .refl u'⟩
  · exact .of_eq (by rw [heq])

theorem Inject.Counts.staysStaged {u : MemoryUnit} {changes : MemoryUnitChanges}
    (h : Counts u changes) (hstaged : (Store.bumped s changes u).status = .staged) :
    u.status = .staged ∧ OnlyCounted u (Store.bumped s changes u) := by
  obtain ⟨honly, hstatus⟩ := h
  have hsame : changes.status.getD u.status = u.status := by
    rw [bumped_status] at hstaged
    cases hchanged : changes.status with
    | none => rfl
    | some status =>
      rw [hchanged, Option.getD_some] at hstaged
      rcases hstatus status hchanged with hsame | ⟨_, rfl⟩
      · exact hsame
      · cases hstaged
  rw [bumped_status, hsame] at hstaged
  refine ⟨hstaged, ?_⟩
  rw [honly]
  simp only [OnlyCounted, bumped, MemoryUnitChanges.apply, Option.getD_none, hsame]

theorem Queue.Decided.staysStaged {item : ApprovalQueueItem} {plan : DecisionPlan}
    (h : Decided s item plan s') (hcards : s.Cards) (hitem : item ∈ s.items.rows)
    (hamendment : ∀ changes ∈ plan.amendment, changes.status = some .active) (id : Uuid) :
    StaysStaged s s' id := by
  by_cases hid : id = item.candidateMemoryId
  · -- a card names no staged head
    intro u' hu' hstaged
    have hheads : HeadsFollow s s' :=
      h.writes.headsFollow fun u c hc => decisionHeads_forward hamendment u c hc
    obtain ⟨u, hu, hne⟩ := hcards.carried item hitem
    obtain ⟨v, hv, hfollows⟩ := hheads hu
    obtain rfl := Option.some.inj ((hid ▸ hu').symm.trans hv)
    exact absurd (hfollows.staged hstaged) hne
  · obtain ⟨t, hw, hclosed⟩ := h.written
    have ht : StaysStaged s t id := by
      apply hw.staysStaged
      · rintro u ⟨hactive, _⟩
        simp [hactive]
      · rintro s u c (hreplaced | hon) hc hstaged
        · simp [bumped_status, hreplaced.changes] at hstaged
        · exact absurd (hc.symm.trans hon.candidate) hid
    exact ht.trans (.of_eq (by rw [hclosed.units_eq]))

end Backstage

section Offstage

/-- A transaction that neither stages nor settles. -/
structure Offstage (s s' : Store) : Prop where
  resolutions : s'.resolutions = s.resolutions
  staged : ∀ id, StaysStaged s s' id

theorem Offstage.refl (s : Store) : Offstage s s := ⟨rfl, fun _ => .of_eq rfl⟩

theorem Offstage.trans (hst : Offstage s t) (htu : Offstage t s') : Offstage s s' where
  resolutions := htu.resolutions.trans hst.resolutions
  staged id := (hst.staged id).trans (htu.staged id)

theorem Offstage.of_writes (h : Writes φ s s') (hresolution : ∀ r, ¬φ.resolution r)
    (hroot : ∀ u, φ.root u → u.status ≠ .staged)
    (hhead : ∀ s u c, φ.head u c → (Store.bumped s c.changes u).status = .staged →
      u.status = .staged ∧ OnlyCounted u (Store.bumped s c.changes u)) : Offstage s s' where
  resolutions := h.resolutions_eq hresolution
  staged _ := h.staysStaged hroot fun s u c hc _ => hhead s u c hc

theorem Offstage.of_counts (h : Writes φ s s') (hresolution : ∀ r, ¬φ.resolution r)
    (hroot : ∀ u, φ.root u → u.status ≠ .staged)
    (hhead : ∀ u c, φ.head u c → Counts u c.changes) : Offstage s s' :=
  .of_writes h hresolution hroot fun _ u c hc hstaged => (hhead u c hc).staysStaged hstaged

theorem Queue.Decided.offstage {item : ApprovalQueueItem} {plan : DecisionPlan}
    (h : Decided s item plan s') (hcards : s.Cards) (hitem : item ∈ s.items.rows)
    (hamendment : ∀ changes ∈ plan.amendment, changes.status = some .active) : Offstage s s' where
  resolutions := h.writes.resolutions_eq fun _ => id
  staged := h.staysStaged hcards hitem hamendment

/-- What a transaction means to the runs still on stage. -/
inductive Stages (s : Store) : Action → Store → Prop
  | offstage {action : Action} {s' : Store} : Offstage s s' → Stages s action s'
  | stage {request : StageMemoryRequest} {embedding : Embedding} {r : MemoryUnit × Store} :
    Staged s request r → Stages s (.stage request embedding) r.2
  | settle {runId : String} {request : ResolveRunRequest} {t s' : Store} :
    s.Resolves (request.resolution runId) t →
      Routed runId request t (lockedRunRows s runId) s' → Stages s (.resolve runId request) s'

theorem stages_of_step {session : Session} {action : Action} (hlineage : p.store.Lineage)
    (h : Consented p) (haccepted : (palace w).step p ⟨session, action⟩ = .ok q) :
    Stages (p.store.begin session) action q.store := by
  have hcards : (p.store.begin session).Cards := h.cards.congr rfl rfl
  have hledger : (p.store.begin session).Ledger := h.ledger.congr rfl rfl
  have hheadless {φ : Footprint} {t : Store} (hw : Writes φ (p.store.begin session) t)
      (hresolution : ∀ r, ¬φ.resolution r) (hroot : ∀ u, φ.root u → u.status ≠ .staged)
      (hhead : ∀ u c, ¬φ.head u c) : Stages (p.store.begin session) action t :=
    .offstage (.of_counts hw hresolution hroot fun u c hc => absurd hc (hhead u c))
  have hcounted {φ : Footprint} {t : Store} (hw : Writes φ (p.store.begin session) t)
      (hresolution : ∀ r, ¬φ.resolution r) (hroot : ∀ u, ¬φ.root u)
      (hhead : ∀ u c, φ.head u c → Counts u c.changes) :
      Stages (p.store.begin session) action t :=
    .offstage (.of_counts hw hresolution (fun u hu => absurd hu (hroot u)) hhead)
  have hsame : Stages (p.store.begin session) action (p.store.begin session) :=
    .offstage (.refl _)
  cases stepped_of_step hlineage haccepted with
  | create hw =>
    exact hheadless hw (fun _ => id) (fun u (hu : u.status = _) => by simp [hu]) fun _ _ => id
  | split hw =>
    apply hheadless hw (fun _ => id) _ fun _ _ => id
    rintro u (hu | hu) <;> simp [hu]
  | seedSource _ hw =>
    exact hheadless hw (fun _ => id) (fun u (hu : u.status = _) => by simp [hu]) fun _ _ => id
  | @stage request embedding _ _ =>
    simp only [palace, Palace.step, bind_eq_ok, pure_eq_ok] at haccepted
    obtain ⟨r, hr, heq⟩ := haccepted
    obtain rfl : r.2 = _ := congrArg Palace.store heq
    obtain ⟨_, ⟨hreplayed, _⟩ | hstaged⟩ := stageSymphony_cases hr
    · rw [hreplayed]
      exact hsame
    · exact .stage hstaged
  | resolve hr =>
    rcases hr with ⟨rfl, _⟩ | ⟨t, hresolves, hrouted⟩
    · exact hsame
    · exact .settle hresolves hrouted
  | startPatch | startExtract | seeded | startSeed | startDecision | prepare | abandon =>
    exact hsame
  | startPass =>
    exact hheadless (φ := {}) drawn_quiet.writes (fun _ => id) (fun _ => False.elim) fun _ _ => id
  | patch hop hw =>
    have hkept := hw.resolutions_eq fun _ => id
    simp only [palace, Palace.step, Palace.inFlight, hop, Option.bind_some, Operation.patching?,
      require_some, ok_bind, bind_eq_ok, pure_eq_ok] at haccepted
    obtain ⟨r, hr, heq⟩ := haccepted
    obtain ⟨command, current, hcas, _, _, hstatus⟩ := patch_cas hr
    have hstore : r.2 = _ := congrArg Palace.store heq
    refine .offstage ⟨hkept, fun id => ?_⟩
    rw [← hstore]
    intro u' hu' hstaged
    rw [hcas.get?_units] at hu'
    split at hu'
    · obtain rfl := Option.some.inj hu'
      exact absurd hstaged hstatus
    · exact ⟨u', hu', hstaged, .refl u'⟩
  | ingest _ hstep =>
    apply Stages.offstage
    apply Offstage.of_writes hstep.writes (fun _ => id)
    · intro u (hu : u.status = _)
      simp [hu]
    · rintro s u c ⟨_, hchanges⟩ hstaged
      simp [bumped_status, hchanges] at hstaged
  | advance _ hstep =>
    exact hheadless hstep.writes (fun _ => id) (fun u (hu : u.status = _) => by simp [hu])
      fun _ _ => id
  | decide hop hitem hr =>
    rcases hr with rfl | hdecided
    · exact hsame
    · exact .offstage (hdecided.offstage hcards (Table.mem_of_get? hitem) (h.sound hop))
  | decideBatch hr =>
    obtain ⟨hcurrent, hnodup⟩ := batchRows_current (p.store.begin session) _
    refine .offstage (hr.rel (R := Offstage) .refl .trans ?_ hledger hcards hcurrent hnodup).2.2
    intro s t item _ hcards hitem hdecided
    exact hdecided.offstage hcards (Table.mem_of_get? hitem) (by simp)
  | prepareWrite _ _ hw =>
    apply hcounted hw (fun _ => id) fun _ => id
    rintro u c ⟨_, _, _, hc⟩
    exact hc ▸ injectedChanges_counts u
  | commit _ hw => exact hcounted hw (fun _ => id) (fun _ => id) fun _ _ hc => hc.2
  | feedback _ hw => exact hcounted hw (fun _ => id) (fun _ => id) fun _ _ hc => hc.2.2

end Offstage

section Closure

/-- No head of a settled run is staged. -/
def Store.Sealed (s : Store) : Prop :=
  ∀ runId, (s.resolutions.get? runId).isSome → ∀ u ∈ s.units.rows, u.runId = some runId →
    u.status ≠ .staged

/-- The staged heads of a run part: those at or below the winner's attempt wait, each on a card
of the batch, the others are tombstones; every other head and card is as it was. -/
structure Closes (runId : String) (request : ResolveRunRequest) (s s' : Store) : Prop where
  winners : ∀ u ∈ s.units.rows, u.runId = some runId → u.status = .staged →
    (∃ originAgent ∈ u.originAgent, address request.winnerOriginAgent <+: address originAgent) →
      (∃ u', s'.units.get? u.id = some u' ∧ u'.status = .candidate) ∧
        ∃ item ∈ s'.items.rows, WinnerCard runId request u item
  losers : ∀ u ∈ s.units.rows, u.runId = some runId → u.status = .staged →
    ¬(∃ originAgent ∈ u.originAgent, address request.winnerOriginAgent <+: address originAgent) →
      ∃ u', s'.units.get? u.id = some u' ∧ u'.status = .tombstoned
  others : ∀ id, (∀ u ∈ s.units.get? id, u.runId = some runId → u.status ≠ .staged) →
    s'.units.get? id = s.units.get? id
  kept : ∀ item ∈ s.items.rows, item ∈ s'.items.rows
  filed : ∀ item ∈ s'.items.rows, item ∈ s.items.rows ∨
    ∃ u ∈ s.units.rows, u.runId = some runId ∧ u.status = .staged ∧
      (∃ originAgent ∈ u.originAgent, address request.winnerOriginAgent <+: address originAgent) ∧
      WinnerCard runId request u item

/-- The call stages no new head of a settled run. -/
def Seals (w : World) (p : Palace) : Action → Prop
  | .stage request _ => (p.store.resolutions.get? request.runId).isSome →
      (p.store.units.get? request.memoryId).isSome ∨
        ¬StageMemoryRequest.Admissible w.env request
  | _ => True

instance (w : World) (p : Palace) : DecidablePred (Seals w p)
  | .stage request _ =>
    inferInstanceAs (Decidable ((p.store.resolutions.get? request.runId).isSome → _ ∨ _))
  | .create .. | .split .. | .resolve .. | .startPatch .. | .patch .. | .startExtract ..
   | .startSeed .. | .seedSource .. | .ingest .. | .startPass .. | .advance .. | .startDecision ..
   | .decide .. | .decideBatch .. | .prepare .. | .prepareWrite .. | .commit .. | .feedback ..
   | .abandon .. => isTrue trivial

variable {runId : String} {request : ResolveRunRequest} {session : Session}

theorem Symphony.Settles.closes
    (h : Settles runId request s (lockedRunRows s runId) s') : Closes runId request s s' where
  winners u hu hrun hstaged hwinner := by
    obtain ⟨u', hfound, _, hstatus, hcard⟩ :=
      h.settled u (mem_lockedRunRows.mpr ⟨hu, hrun, hstaged⟩)
    rw [if_pos (isOriginPrefix_iff.mpr hwinner)] at hstatus
    exact ⟨⟨u', hfound, hstatus⟩, hcard (isOriginPrefix_iff.mpr hwinner)⟩
  losers u hu hrun hstaged hloser := by
    obtain ⟨u', hfound, _, hstatus, _⟩ := h.settled u (mem_lockedRunRows.mpr ⟨hu, hrun, hstaged⟩)
    rw [if_neg fun hprefix => hloser (isOriginPrefix_iff.mp hprefix)] at hstatus
    exact ⟨u', hfound, hstatus⟩
  others id hother := by
    apply h.others
    intro hid
    obtain ⟨u, hu, rfl⟩ := List.mem_map.mp hid
    obtain ⟨hu, hrun, hstaged⟩ := mem_lockedRunRows.mp hu
    exact hother u (Table.get?_of_mem hu) hrun hstaged
  kept := h.kept
  filed item hitem := by
    apply (h.filed item hitem).imp_right
    rintro ⟨u, hu, hwinner, hcard⟩
    obtain ⟨hu, hrun, hstaged⟩ := mem_lockedRunRows.mp hu
    exact ⟨u, hu, hrun, hstaged, isOriginPrefix_iff.mp hwinner, hcard⟩

/-- Whatever is still staged was so before, and belongs to another run. -/
theorem Closes.staged (h : Closes runId request s s') {id : Uuid} {u : MemoryUnit}
    (hu : s'.units.get? id = some u) (hstaged : u.status = .staged) :
    s.units.get? id = some u ∧ u.runId ≠ some runId := by
  have hbefore : ∀ v ∈ s.units.get? id, v.runId = some runId → v.status ≠ .staged := by
    intro v hv hrun hvstaged
    have hid := Table.key_of_get? hv
    have hmem := Table.mem_of_get? hv
    by_cases hwinner : ∃ originAgent ∈ v.originAgent,
        address request.winnerOriginAgent <+: address originAgent
    · obtain ⟨⟨u', hu', hcandidate⟩, _⟩ := h.winners v hmem hrun hvstaged hwinner
      obtain rfl := Option.some.inj (hu.symm.trans (hid ▸ hu'))
      rw [hstaged] at hcandidate
      cases hcandidate
    · obtain ⟨u', hu', htombstoned⟩ := h.losers v hmem hrun hvstaged hwinner
      obtain rfl := Option.some.inj (hu.symm.trans (hid ▸ hu'))
      rw [hstaged] at htombstoned
      cases htombstoned
  rw [h.others id hbefore] at hu
  exact ⟨hu, fun hrun => hbefore u hu hrun hstaged⟩

/-- Settling a run seals it: whatever was staged for it has been settled. -/
theorem Store.Sealed.settle (h : s.Sealed) (hresolves : s.Resolves (request.resolution runId) t)
    (hrouted : Routed runId request t (lockedRunRows s runId) s')
    (hcloses : Closes runId request s s') : s'.Sealed := by
  obtain ⟨resolutions, hinsert, rfl⟩ := hresolves
  obtain ⟨hfresh, rfl⟩ := Table.insert?_eq_some.mp hinsert
  intro other hother u hu hrun hstaged
  rw [hrouted.resolutions_eq, Table.get?_insert] at hother
  obtain ⟨hfound, hne⟩ := hcloses.staged (Table.get?_of_mem hu) hstaged
  split at hother
  · next heq => exact hne (by rw [hrun, heq]; rfl)
  · exact h other hother u (Table.mem_of_get? hfound) hrun hstaged

theorem Store.Sealed.offstage (h : s.Sealed) (hoff : Offstage s s') : s'.Sealed := by
  intro runId hresolved u' hu' hrun hstaged
  rw [hoff.resolutions] at hresolved
  obtain ⟨u, hu, hstaged', hcounted⟩ := hoff.staged u'.id u' (Table.get?_of_mem hu') hstaged
  have hrun' : u.runId = some runId := by
    rw [← hrun, hcounted]
  exact h runId hresolved u (Table.mem_of_get? hu) hrun' hstaged'

theorem Symphony.Staged.sealed_iff {request : StageMemoryRequest} {r : MemoryUnit × Store}
    (h : Staged s request r) (hs : s.Sealed) :
    r.2.Sealed ↔ s.resolutions.get? request.runId = none := by
  obtain ⟨hid, hrun, hstaged⟩ := h.head
  have hfound : r.2.units.get? request.memoryId = some r.1 := by
    rw [h.units, if_pos rfl]
  constructor
  · intro hsealed
    by_contra hresolved
    apply hsealed request.runId _ r.1 (Table.mem_of_get? hfound) hrun hstaged
    rw [h.resolutions]
    exact Option.isSome_iff_ne_none.mpr hresolved
  · intro hnone runId hresolved u hu hurun
    rw [h.resolutions] at hresolved
    have hget := h.units u.id
    rw [Table.get?_of_mem hu] at hget
    split at hget
    · obtain rfl := Option.some.inj hget
      obtain rfl := Option.some.inj (hrun.symm.trans hurun)
      simp [hnone] at hresolved
    · exact hs runId hresolved u (Table.mem_of_get? hget.symm) hurun

theorem sealed_of_step {call : Call} (hlineage : p.store.Lineage) (h : Consented p)
    (hs : p.store.Sealed) (hseals : Seals w p call.action)
    (haccepted : (palace w).step p call = .ok q) : q.store.Sealed := by
  obtain ⟨session, action⟩ := call
  have hs' : (p.store.begin session).Sealed := hs
  have hstages := stages_of_step hlineage h haccepted
  generalize hstore : q.store = s' at hstages ⊢
  cases hstages with
  | offstage hoff => exact hs'.offstage hoff
  | @stage request embedding r hstaged =>
    apply (hstaged.sealed_iff hs').mpr
    by_contra hresolved
    rcases hseals (Option.isSome_iff_ne_none.mpr hresolved) with hknown | hinadmissible
    · have hfresh : p.store.units.get? request.memoryId = none := hstaged.fresh
      simp [hfresh] at hknown
    · simp only [palace, Palace.step, bind_eq_ok] at haccepted
      obtain ⟨_, hr, _⟩ := haccepted
      exact hinadmissible (stageSymphony_cases hr).1
  | settle hresolves hrouted =>
    obtain ⟨hwinners, hlosers, hothers, hkept, hfiled⟩ := (h.settles hresolves hrouted).closes
    exact hs'.settle hresolves hrouted ⟨hwinners, hlosers, hothers, hkept, hfiled⟩

/-- In a run that stages nothing new for a settled run: no settled run has a staged head, and
settling one parts its staged heads by the winner's subtree. The first call to do otherwise
leaves a settled run with a staged head. -/
theorem run_closure (hreach : (palace w).ReachableBy (fun p call => Seals w p call.action) p) :
    p.store.Sealed ∧
    (∀ session runId request q,
      (palace w).step p ⟨session, .resolve runId request⟩ = .ok q →
        (p.store.resolutions.get? runId = none → Closes runId request p.store q.store) ∧
        ((p.store.resolutions.get? runId).isSome → q.store.units = p.store.units)) ∧
    ∀ call, ¬Seals w p call.action → ¬((palace w).next p call).store.Sealed := by
  have hsealed : p.store.Sealed := by
    refine (Machine.reachableBy_keeps
      (I := fun p : Palace => (palace w).Reachable p ∧ p.store.Sealed) ?_ ?_ hreach).2
    · rintro _ ⟨configs, rfl⟩
      exact ⟨⟨_, [], ⟨configs, rfl⟩, rfl⟩,
        fun _ _ u hu => by simp [Store.deployed, Table.empty] at hu⟩
    · rintro p call q ⟨hp, hs⟩ hseals haccepted
      exact ⟨hp.step haccepted, sealed_of_step (lineage_of_reachable hp) (consented_of_reachable hp)
        hs hseals haccepted⟩
  have hlineage := lineage_of_reachable hreach.reachable
  have hconsented := consented_of_reachable hreach.reachable
  refine ⟨hsealed, ?_, ?_⟩
  · intro session runId request q haccepted
    cases stepped_of_step hlineage haccepted with
    | resolve hr =>
      rcases hr with ⟨rfl, hresolved⟩ | ⟨t, hresolves, hrouted⟩
      · refine ⟨fun hnone => ?_, fun _ => rfl⟩
        have hnone' : (p.store.begin session).resolutions.get? runId = none := hnone
        simp [hnone'] at hresolved
      · refine ⟨fun _ => (hconsented.settles hresolves hrouted).closes, fun hresolved => ?_⟩
        obtain ⟨_, hinsert, _⟩ := hresolves
        obtain ⟨hfresh, _⟩ := Table.insert?_eq_some.mp hinsert
        have hnone : p.store.resolutions.get? runId = none := hfresh
        simp [hnone] at hresolved
  · rintro ⟨session, action⟩ hbreaks
    cases action with
    | stage request embedding =>
      simp only [Seals, Classical.not_imp, not_or, not_not] at hbreaks
      obtain ⟨hresolved, hknown, hadmissible⟩ := hbreaks
      have hfresh : p.store.units.get? request.memoryId = none := by
        simpa using hknown
      obtain ⟨r, hr, hstaged⟩ :=
        stageSymphony_fresh (s := p.store.begin session) embedding hadmissible hfresh
      have hstep : (palace w).step p ⟨session, .stage request embedding⟩ = .ok ⟨r.2, p.ops⟩ := by
        simp only [palace, Palace.step, hr, ok_bind]
        rfl
      rw [Machine.next_of_ok hstep]
      intro hafter
      have hnone := (hstaged.sealed_iff (s := p.store.begin session) hsealed).mp hafter
      have hnone' : p.store.resolutions.get? request.runId = none := hnone
      simp [hnone'] at hresolved
    | _ => exact absurd trivial hbreaks

def symphonyRun : String := "01ARZ3NDEKTSV4RRFFQ69G5FAV"

/-- An attempt saves what it learnt. -/
def stagedAttempt (memoryId : Uuid) (attempt body : String) : StageMemoryRequest :=
  { memoryId
    principalId := "owner"
    label := body
    body
    kind := .fact
    originThreadId := 1
    machineId := "m"
    runId := symphonyRun
    originAgent := symphonyRun ++ "/" ++ attempt }

/-- The first attempt wins the run. -/
def firstWins : ResolveRunRequest :=
  { principalId := "owner"
    batchUid := 9
    winnerOriginAgent := symphonyRun ++ "/root.1"
    machineId := "m"
    judgedContext := "shorter" }

/-- A winner with a ballot below it, a loser, and the verdict. -/
def settledCalls : List Call :=
  [⟨⟨1, [70]⟩, .stage (stagedAttempt 7 "root.1" "steep it long") [1]⟩,
    ⟨⟨2, [71]⟩, .stage (stagedAttempt 8 "root.1.1" "warm the pot") [2]⟩,
    ⟨⟨3, [72]⟩, .stage (stagedAttempt 9 "root.2" "boil it twice") [3]⟩,
    ⟨⟨4, [73, 50, 74, 51, 75]⟩, .resolve symphonyRun firstWins⟩]

/-- One more ballot comes in after the verdict, and stays staged. -/
def lateCalls : List Call :=
  settledCalls ++ [⟨⟨5, [76]⟩, .stage (stagedAttempt 10 "root.1.2" "stir it") [4]⟩]

-- Decided together, the three share the run up to the verdict.
theorem lateCalls_hold :
    (palace default).Along (fun p call => Seals default p call.action) ⟨.deployed .empty, []⟩
      settledCalls ∧
    (((palace default).run ⟨.deployed .empty, []⟩ settledCalls).store.resolutions.get?
      symphonyRun).isSome ∧
    ∃ u ∈ ((palace default).run ⟨.deployed .empty, []⟩ lateCalls).store.units.rows,
      u.runId = some symphonyRun ∧ u.status = .staged := by
  decide +kernel

theorem run_closure_settled :
    ((palace default).run ⟨.deployed .empty, []⟩ settledCalls).store.Sealed :=
  (run_closure (w := default) ⟨_, settledCalls, ⟨_, rfl⟩, lateCalls_hold.1, rfl⟩).1

theorem run_closure_late :
    (palace default).start ⟨.deployed .empty, []⟩ ∧
    (((palace default).run ⟨.deployed .empty, []⟩ settledCalls).store.resolutions.get?
      symphonyRun).isSome ∧
    ∃ u ∈ ((palace default).run ⟨.deployed .empty, []⟩ lateCalls).store.units.rows,
      u.runId = some symphonyRun ∧ u.status = .staged :=
  ⟨⟨_, rfl⟩, lateCalls_hold.2⟩

end Closure

end Nocturne
