import Nocturne.Curation.Laws

namespace Nocturne.Curation

open Nocturne.Lib Nocturne.Store Nocturne.Memory Nocturne.Queue

variable {env : Env} {diagnosis : Diagnosis} {s s' : Store} {pass : CuratorPass}

section Report

theorem nodup_pairs {rows : List MemoryUnit} (h : (rows.map (·.id)).Nodup) :
    ((pairs rows).map fun pair => [pair.1.id, pair.2.id]).Nodup := by
  induction rows with
  | nil => exact List.nodup_nil
  | cons row rows ih =>
    simp only [List.map_cons, List.nodup_cons] at h
    obtain ⟨hrow, hrows⟩ := h
    simp only [pairs, List.map_append, List.map_map, List.nodup_append]
    refine ⟨?_, ih hrows, ?_⟩
    · have hsecond : (rows.map fun other => [row.id, other.id]).Nodup := by
        have hinj : Function.Injective fun id : Uuid => [row.id, id] := by
          intro a b hab
          simpa using hab
        simpa [Function.comp_def] using hrows.map hinj
      exact hsecond
    · intro ids hids other hother heq
      obtain ⟨_, _, rfl⟩ := List.mem_map.mp hids
      obtain ⟨pair, hpair, rfl⟩ := List.mem_map.mp hother
      have hfirst : row.id = pair.1.id := (List.cons.inj heq).1
      exact hrow (List.mem_map.mpr ⟨pair.1, (mem_pairs hpair).1, hfirst.symm⟩)

/-- What tells two findings of one report apart. -/
def key (nomination : Nomination) : FindingKind × List Uuid :=
  (nomination.finding.kind, nomination.finding.memoryIds)

theorem nodup_pair_keys {kind : FindingKind} {cosine : MemoryUnit × MemoryUnit → ℚ}
    {rows : List MemoryUnit} {keep : MemoryUnit × MemoryUnit → Bool}
    (h : (rows.map (·.id)).Nodup) :
    ((((pairs rows).filter keep).map fun pair : MemoryUnit × MemoryUnit =>
      (⟨⟨kind, evidence [pair.1, pair.2]⟩, cosine pair⟩ : Nomination)).map key).Nodup := by
  have hids := (nodup_pairs h).sublist ((List.filter_sublist (p := keep)).map _)
  have hinj : Function.Injective fun ids : List Uuid => (kind, ids) := by
    intro a b hab
    simpa using hab
  simpa [Function.comp_def, key, HealthFinding.memoryIds, evidence] using hids.map hinj

theorem key_singles {row : MemoryUnit} {nomination : Nomination}
    (h : nomination ∈ singles env diagnosis s row) :
    nomination.finding.memoryIds = [row.id] ∧ nomination.finding.kind ≠ .duplicate ∧
      nomination.finding.kind ≠ .contradiction := by
  simp only [singles, List.mem_append] at h
  rcases h with (h | h) | h <;> split at h <;>
    simp_all [HealthFinding.memoryIds, evidence]

theorem nodup_singles (row : MemoryUnit) : ((singles env diagnosis s row).map key).Nodup := by
  unfold singles
  split <;> split <;> split <;> simp [key]

theorem nodup_singles_keys {rows : List MemoryUnit} (h : (rows.map (·.id)).Nodup) :
    ((rows.flatMap (singles env diagnosis s)).map key).Nodup := by
  rw [List.map_flatMap, List.nodup_flatMap]
  constructor
  · exact fun row _ => nodup_singles row
  · apply (List.pairwise_map.mp h).imp
    intro row other hne k hrow hother
    obtain ⟨first, hfirst, rfl⟩ := List.mem_map.mp hrow
    obtain ⟨second, hsecond, heq⟩ := List.mem_map.mp hother
    have hids : second.finding.memoryIds = first.finding.memoryIds := congrArg Prod.snd heq
    rw [(key_singles hfirst).1, (key_singles hsecond).1] at hids
    exact hne (List.cons.inj hids).1.symm

/-- No fingerprint comes up twice in one report. -/
theorem nodup_build {principalId : String} : (build env diagnosis s principalId).Nodup := by
  have hrows : ((activeRows s principalId).map (·.id)).Nodup := nodup_activeRows
  have hkeys : ((duplicates diagnosis (activeRows s principalId) ++
      contradictions s (activeRows s principalId) ++
      (activeRows s principalId).flatMap (singles env diagnosis s)).map key).Nodup := by
    have hpair {kind : FindingKind} {nomination : Nomination}
        (h : key nomination ∈ ((activeRows s principalId).flatMap
          (singles env diagnosis s)).map key) (hkind : nomination.finding.kind = kind) :
        kind ≠ .duplicate ∧ kind ≠ .contradiction := by
      obtain ⟨single, hsingle, heq⟩ := List.mem_map.mp h
      obtain ⟨row, _, hrow⟩ := List.mem_flatMap.mp hsingle
      have hsame : single.finding.kind = nomination.finding.kind := congrArg Prod.fst heq
      rw [← hkind, ← hsame]
      exact (key_singles hrow).2
    simp only [List.map_append, List.nodup_append]
    refine ⟨⟨nodup_pair_keys hrows, nodup_pair_keys hrows, ?_⟩, nodup_singles_keys hrows, ?_⟩
    · intro k hk other hother heq
      simp only [duplicates, contradictions, List.map_map, List.mem_map] at hk hother
      obtain ⟨_, _, rfl⟩ := hk
      obtain ⟨_, _, rfl⟩ := hother
      simp [key] at heq
    · intro k hk other hother heq
      subst heq
      rcases List.mem_append.mp hk with hk | hk <;>
        obtain ⟨nomination, hnomination, rfl⟩ := List.mem_map.mp hk
      · obtain ⟨_, _, rfl⟩ := List.mem_map.mp hnomination
        exact (hpair hother rfl).1 rfl
      · obtain ⟨_, _, rfl⟩ := List.mem_map.mp hnomination
        exact (hpair hother rfl).2 rfl
  have hsorted := (((List.perm_insertionSort reviewBefore _).trans
    (List.perm_insertionSort ordinalBefore _)).map key).nodup_iff.mpr hkeys
  unfold build
  apply List.Nodup.of_map fun finding : HealthFinding => (finding.kind, finding.memoryIds)
  rw [List.map_map]
  exact hsorted

/-- A finding is on a head of this principal. -/
def Owned (s : Store) (principalId : String) (finding : HealthFinding) : Prop :=
  ∃ id ∈ finding.memoryIds.head?, ∃ u, s.units.get? id = some u ∧ u.principalId = principalId

theorem owned_of_build {principalId : String} {finding : HealthFinding}
    (h : finding ∈ build env diagnosis s principalId) : Owned s principalId finding := by
  obtain ⟨rows, hne, _, hrows, hevidence⟩ := evidence_of_build h
  obtain ⟨u, rest, rfl⟩ := List.exists_cons_of_ne_nil hne
  obtain ⟨hmem, hprincipal, _⟩ := mem_activeRows.mp (hrows u (by simp))
  exact ⟨u.id, by simp [HealthFinding.memoryIds, hevidence, evidence], u, Table.get?_of_mem hmem,
    hprincipal⟩

theorem Owned.unique {first second : String} {finding : HealthFinding}
    (h : Owned s first finding) (h' : Owned s second finding) : first = second := by
  obtain ⟨id, hid, u, hu, rfl⟩ := h
  obtain ⟨id', hid', v, hv, rfl⟩ := h'
  obtain rfl := Option.some.inj (Eq.trans hid.symm hid')
  obtain rfl := Option.some.inj (hu.symm.trans hv)
  rfl

theorem Owned.move {φ : Footprint} {principalId : String} {finding : HealthFinding}
    (h : Owned s principalId finding) (hw : Writes φ s s') : Owned s' principalId finding := by
  obtain ⟨id, hid, u, hu, hprincipal⟩ := h
  obtain ⟨u', hu', hdescends⟩ := hw.descends hu
  exact ⟨id, hid, u', hu', hdescends.principalId.trans hprincipal⟩

end Report

section Review

/-- What a pass has put on record of the findings it reviewed, and what it has still to review:
its principal's own findings, no fingerprint among them twice. -/
structure CuratorPass.Reviewed (pass : CuratorPass) (s : Store) : Prop where
  nodup : pass.unjudged.Nodup
  owned : ∀ finding ∈ pass.unjudged, Owned s pass.principalId finding
  recorded : ∀ uid ∈ pass.findingUids, ∃ f, s.findings.get? uid = some f ∧
    Owned s pass.principalId f.finding ∧ f.finding ∉ pass.unjudged ∧
    ∀ item ∈ pass.judged, item.finding = f.finding → item.findingUid = uid
  judged : ∀ item ∈ pass.judged, item.findingUid ∈ pass.findingUids ∧
    ∃ f, s.findings.get? item.findingUid = some f ∧ f.finding = item.finding ∧
      f.action = item.action

theorem reviewed_startPass {principalId machineId : String} {φ : Footprint}
    (hw : Writes φ s s') :
    (startPass env diagnosis s principalId machineId).1.Reviewed s' where
  nodup := nodup_build
  owned _ hfinding := (owned_of_build hfinding).move hw
  recorded _ huid := absurd huid (by simp [startPass])
  judged _ hitem := absurd hitem (by simp [startPass])

theorem CuratorPass.Reviewed.move {φ : Footprint} (h : pass.Reviewed s) (hw : Writes φ s s') :
    pass.Reviewed s' where
  nodup := h.nodup
  owned finding hfinding := (h.owned finding hfinding).move hw
  recorded uid huid := by
    obtain ⟨f, hf, howned, hunjudged, hjudged⟩ := h.recorded uid huid
    obtain ⟨persisted, hf', _⟩ := hw.finding hf
    exact ⟨_, hf', howned.move hw, hunjudged, hjudged⟩
  judged item hitem := by
    obtain ⟨huid, f, hf, hfinding, haction⟩ := h.judged item hitem
    obtain ⟨persisted, hf', _⟩ := hw.finding hf
    exact ⟨huid, _, hf', hfinding, haction⟩

/-- A pass that has fewer findings to review, and fewer verdicts to route. -/
theorem CuratorPass.Reviewed.fewer {pass' : CuratorPass} (h : pass.Reviewed s)
    (hunjudged : pass'.unjudged.Sublist pass.unjudged)
    (hjudged : ∀ item ∈ pass'.judged, item ∈ pass.judged)
    (hprincipal : pass'.principalId = pass.principalId)
    (huids : pass'.findingUids = pass.findingUids) : pass'.Reviewed s where
  nodup := h.nodup.sublist hunjudged
  owned finding hfinding := hprincipal ▸ h.owned finding (hunjudged.subset hfinding)
  recorded uid huid := by
    obtain ⟨f, hf, howned, hreviewed, hone⟩ := h.recorded uid (huids ▸ huid)
    exact ⟨f, hf, hprincipal ▸ howned, fun hin => hreviewed (hunjudged.subset hin),
      fun item hitem => hone item (hjudged item hitem)⟩
  judged item hitem := by
    obtain ⟨huid, hf⟩ := h.judged item (hjudged item hitem)
    exact ⟨huids ▸ huid, hf⟩

/-- A verdict goes on record: no verdict before it was on the same fingerprint. -/
theorem CuratorPass.Reviewed.judge {finding : HealthFinding} {rest : List HealthFinding}
    {pass' : CuratorPass} (h : pass.Reviewed s) (hunjudged : pass.unjudged = finding :: rest)
    (hjudged : Judged s pass finding rest pass' s') : pass'.Reviewed s' := by
  have hmoved := h.move (hjudged.quiet.writes (φ := {}))
  obtain ⟨row, findings, item, hinsert, rfl, _, hrow, _, _, _, huid, hfinding, haction, hpass'⟩ :=
    hjudged.written
  obtain ⟨hfresh, rfl⟩ := Table.insert?_eq_some.mp hinsert
  have hself := Table.get?_insert_self (h := hfresh)
  have hmem : finding ∈ pass.unjudged := by simp [hunjudged]
  have hnodup := hunjudged ▸ h.nodup
  rw [List.nodup_cons] at hnodup
  rw [hpass']
  refine ⟨hnodup.2, fun other hother => ?_, fun uid hin => ?_, fun other hother => ?_⟩
  · exact hmoved.owned other (by simp [hunjudged, hother])
  · rcases List.mem_cons.mp hin with rfl | hin
    · refine ⟨row, hself, hrow ▸ hmoved.owned finding hmem, hrow ▸ hnodup.1, ?_⟩
      intro other hother hsame
      rcases List.mem_append.mp hother with hother | hother
      · -- an earlier verdict was on a finding no longer to be reviewed
        obtain ⟨hold, f, hf, hof, _⟩ := hmoved.judged other hother
        obtain ⟨f', hf', _, hreviewed, _⟩ := hmoved.recorded _ hold
        obtain rfl := Option.some.inj (hf.symm.trans hf')
        exact absurd (hof.trans (hsame.trans hrow) ▸ hmem) hreviewed
      · rw [List.mem_singleton.mp hother, huid]
    · obtain ⟨f, hf, howned, hreviewed, hone⟩ := hmoved.recorded uid hin
      refine ⟨f, hf, howned, fun hin => hreviewed (by simp [hunjudged, hin]), ?_⟩
      intro other hother hsame
      rcases List.mem_append.mp hother with hother | hother
      · exact hone other hother hsame
      · rw [List.mem_singleton.mp hother, hfinding] at hsame
        exact absurd (hsame ▸ hmem) hreviewed
  · rcases List.mem_append.mp hother with hother | hother
    · obtain ⟨hold, hf⟩ := hmoved.judged other hother
      exact ⟨List.mem_cons_of_mem _ hold, hf⟩
    · obtain rfl := List.mem_singleton.mp hother
      exact ⟨by simp [huid], row, huid ▸ hself, hrow.trans hfinding.symm, haction.symm⟩

/-- What a pass carries on with is as well recorded as what it carried. -/
theorem AdvanceStep.reviewed {pass' : CuratorPass} (h : AdvanceStep s pass (some pass') s')
    (hpass : pass.Reviewed s) : pass'.Reviewed s' := by
  have hmoved := hpass.move h.writes
  cases h with
  | skip hunjudged hleft =>
    refine hmoved.fewer ?_ (fun _ => id) rfl rfl
    rw [hunjudged]
    rcases hleft with rfl | rfl
    · exact List.sublist_cons_self _ _
    · exact List.nil_sublist _
  | judged hunjudged hjudged => exact hpass.judge hunjudged hjudged
  | routed | filed =>
    exact hmoved.fewer (.refl _) (fun _ => List.mem_of_mem_tail) rfl rfl
  | sourceRead | created | candidateRead => exact hmoved.fewer (.refl _) (fun _ => id) rfl rfl

/-- A pass works for one principal, and never takes a finding off its record. -/
theorem AdvanceStep.keeps {pass' : CuratorPass} (h : AdvanceStep s pass (some pass') s') :
    pass'.principalId = pass.principalId ∧ pass.findingUids ⊆ pass'.findingUids := by
  cases h with
  | judged _ hjudged =>
    obtain ⟨row, _, _, _, _, _, _, _, _, _, _, _, _, hpass'⟩ := hjudged.written
    rw [hpass']
    exact ⟨rfl, List.subset_cons_self _ _⟩
  | skip | routed | sourceRead | created | candidateRead | filed => exact ⟨rfl, fun _ => id⟩

/-- What a pass found is on record for good once it is persisted. -/
theorem persisted_of_persistRun {uid : Ulid} {f : CuratorFinding}
    (hf : s.findings.get? uid = some f) (huid : uid ∈ pass.findingUids) :
    (persistRun s pass).findings.get? uid = some { f with persisted := true } := by
  obtain ⟨persisted, hf', hpersisted⟩ := get?_foldl_persisted hf
  obtain rfl := hpersisted (.inr huid)
  exact hf'

/-- A new verdict is suppressed where the same one on the same fingerprint was seen. -/
theorem judged_of_advance {draft : Option CuratorVerdictDraft} {embedding : Embedding}
    {pass' : CuratorPass} (h : advance env s pass draft embedding = .ok (some pass', s')) :
    ∀ item ∈ pass'.judged, item ∈ pass.judged ∨
      item.finding ∈ pass.unjudged ∧
        item.suppressed = wasSeenUnchanged s item.finding item.action := by
  intro item hitem
  unfold advance at h
  split at h
  · next finding rest hunjudged =>
    simp only [bind_eq_ok, pure_eq_ok] at h
    obtain ⟨⟨judged, t⟩, hr, heq⟩ := h
    obtain ⟨rfl, rfl⟩ : judged = pass' ∧ t = s' := by simpa using heq
    unfold judge at hr
    split at hr
    · obtain ⟨rfl, -⟩ := Prod.mk.inj (Except.ok.inj hr)
      exact .inl hitem
    · dsimp only at hr
      split at hr
      · obtain ⟨rfl, -⟩ := Prod.mk.inj (Except.ok.inj hr)
        exact .inl hitem
      · simp only [bind_eq_ok, pure_eq_ok, Prod.mk.injEq] at hr
        obtain ⟨_, _, rfl, _⟩ := hr
        refine (List.mem_append.mp hitem).imp_right fun hnew => ?_
        obtain rfl := List.mem_singleton.mp hnew
        exact ⟨by simp [hunjudged], rfl⟩
  · next first rest hunjudged hjudged =>
    simp only [Except.ok.injEq, Prod.mk.injEq, Option.some.injEq] at h
    obtain ⟨rfl, rfl⟩ := h
    have hstep : AdvanceStep s pass (some (route env s pass first embedding).1)
        (route env s pass first embedding).2 := route_step hunjudged hjudged
    generalize route env s pass first embedding = r at hstep hitem
    obtain ⟨pass', s'⟩ := r
    cases hstep with
    | skip hsome | judged hsome => simp [hunjudged] at hsome
    | routed | filed => exact .inl (List.mem_of_mem_tail hitem)
    | sourceRead | created | candidateRead => exact .inl hitem
  · cases h

/-- A suppressed verdict files nothing. -/
theorem unsuppressed_of_advance {draft : Option CuratorVerdictDraft} {embedding : Embedding}
    {next : Option CuratorPass} {item : JudgedFinding} {rest : List JudgedFinding}
    (h : advance env s pass draft embedding = .ok (next, s')) (hunjudged : pass.unjudged = [])
    (hjudged : pass.judged = item :: rest) (hwrites : s'.items ≠ s.items) :
    item.suppressed = false := by
  by_contra hsuppressed
  rw [Bool.not_eq_false] at hsuppressed
  apply hwrites
  unfold advance at h
  simp only [hunjudged, hjudged, Except.ok.injEq, Prod.mk.injEq] at h
  obtain ⟨-, rfl⟩ := h
  unfold route
  cases item.action with
  | keep => rfl
  | act action => simp [hsuppressed]

end Review

end Nocturne.Curation
