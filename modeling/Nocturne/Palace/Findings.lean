import Nocturne.Palace.Consent

namespace Nocturne

open Nocturne.Lib Nocturne.Store Nocturne.Memory Nocturne.Queue Nocturne.Curation
  Nocturne.Symphony

/-- The findings whose verdicts a pass has not routed yet. -/
def Curation.CuratorPass.awaiting (pass : CuratorPass) : List Ulid :=
  pass.judged.map (·.findingUid)

/-- Every curator card is on a finding on record, and so is every verdict not routed yet; such a
verdict has no card, and no finding is judged twice. -/
structure Traced (p : Palace) : Prop where
  cards : ∀ row ∈ p.store.items.rows, ∀ uid ∈ row.birthplace.findingUid,
    (p.store.findings.get? uid).isSome
  recorded : ∀ {k : Nat} {pass : CuratorPass}, p.ops[k]? = some (.curating pass) →
    ∀ uid ∈ pass.awaiting, (p.store.findings.get? uid).isSome
  unfiled : ∀ {k : Nat} {pass : CuratorPass}, p.ops[k]? = some (.curating pass) →
    ∀ uid ∈ pass.awaiting, ∀ row ∈ p.store.items.rows, row.birthplace.findingUid ≠ some uid
  once : ∀ {k : Nat} {pass : CuratorPass}, p.ops[k]? = some (.curating pass) → pass.awaiting.Nodup
  apart : ∀ {j k : Nat} {pass pass' : CuratorPass} {uid : Ulid},
    p.ops[j]? = some (.curating pass) → p.ops[k]? = some (.curating pass') →
      uid ∈ pass.awaiting → uid ∈ pass'.awaiting → j = k

/-- The `k`-th request is a pass with this verdict in hand. -/
def Palace.Awaits (p : Palace) (k : Nat) (uid : Ulid) : Prop :=
  ∃ pass, p.ops[k]? = some (.curating pass) ∧ uid ∈ pass.awaiting

/-- What a transaction of the `k`-th request may do to the findings, cards and verdicts. -/
structure Traces (p q : Palace) (k : Nat) : Prop where
  ops : ∀ {j}, j ≠ k → q.ops[j]? = p.ops[j]?
  findings : ∀ {uid}, (p.store.findings.get? uid).isSome → (q.store.findings.get? uid).isSome
  named : ∀ row ∈ q.store.items.rows, ∀ uid ∈ row.birthplace.findingUid,
    (∃ old ∈ p.store.items.rows, old.birthplace.findingUid = some uid) ∨
      p.Awaits k uid ∧ ¬q.Awaits k uid
  awaited : ∀ {uid}, q.Awaits k uid → p.Awaits k uid ∨
    p.store.findings.get? uid = none ∧ (q.store.findings.get? uid).isSome
  once : ∀ {pass}, q.ops[k]? = some (.curating pass) → pass.awaiting.Nodup

variable {w : World} {p q : Palace} {s s' : Store}

theorem Traced.move {k : Nat} (h : Traced p) (hstep : Traces p q k) : Traced q where
  cards row hrow uid huid := by
    apply hstep.findings
    rcases hstep.named row hrow uid huid with ⟨old, hold, heq⟩ | ⟨⟨pass, hop, hawaiting⟩, _⟩
    · exact h.cards old hold uid heq
    · exact h.recorded hop uid hawaiting
  recorded {j pass} hop uid huid := by
    by_cases hj : j = k
    · subst hj
      rcases hstep.awaited ⟨pass, hop, huid⟩ with ⟨old, hold, huid'⟩ | ⟨_, hsome⟩
      · exact hstep.findings (h.recorded hold uid huid')
      · exact hsome
    · exact hstep.findings (h.recorded (hstep.ops hj ▸ hop) uid huid)
  unfiled {j pass} hop uid huid row hrow hnamed := by
    rcases hstep.named row hrow uid hnamed with ⟨old, hold, heq⟩ | ⟨⟨pass', hop', huid'⟩, hgone⟩
    · by_cases hj : j = k
      · subst hj
        rcases hstep.awaited ⟨pass, hop, huid⟩ with ⟨before, hbefore, hawaited⟩ | ⟨hnone, _⟩
        · exact h.unfiled hbefore uid hawaited old hold heq
        · have hsome := h.cards old hold uid heq
          rw [hnone] at hsome
          cases hsome
      · exact h.unfiled (hstep.ops hj ▸ hop) uid huid old hold heq
    · by_cases hj : j = k
      · subst hj
        exact hgone ⟨pass, hop, huid⟩
      · exact hj (h.apart (hstep.ops hj ▸ hop) hop' huid huid')
  once {j pass} hop := by
    by_cases hj : j = k
    · subst hj
      exact hstep.once hop
    · exact h.once (hstep.ops hj ▸ hop)
  apart {i j pass pass' uid} hop hop' huid huid' := by
    have hother {a b : Nat} {o o' : CuratorPass} (ha : a = k) (hb : b ≠ k)
        (ho : q.ops[a]? = some (.curating o)) (ho' : q.ops[b]? = some (.curating o'))
        (hin : uid ∈ o.awaiting) (hin' : uid ∈ o'.awaiting) : False := by
      subst ha
      have hold := hstep.ops hb ▸ ho'
      rcases hstep.awaited ⟨o, ho, hin⟩ with ⟨before, hbefore, hawaited⟩ | ⟨hnone, _⟩
      · exact hb (h.apart hold hbefore hin' hawaited)
      · have hsome := h.recorded hold uid hin'
        rw [hnone] at hsome
        cases hsome
    by_cases hi : i = k <;> by_cases hj : j = k
    · rw [hi, hj]
    · exact (hother hi hj hop hop' huid huid').elim
    · exact (hother hj hi hop' hop huid' huid).elim
    · exact h.apart (hstep.ops hi ▸ hop) (hstep.ops hj ▸ hop') huid huid'

section Shapes

/-- Findings stay on record, and no curator card is filed. -/
structure Store.Tracks (s s' : Store) : Prop where
  findings : ∀ {uid}, (s.findings.get? uid).isSome → (s'.findings.get? uid).isSome
  births : ∀ row ∈ s'.items.rows, ∀ uid ∈ row.birthplace.findingUid,
    ∃ old ∈ s.items.rows, old.birthplace.findingUid = some uid

theorem Write.findings {φ : Footprint} (h : Write φ s s') {uid : Ulid}
    (hsome : (s.findings.get? uid).isSome) : (s'.findings.get? uid).isSome := by
  cases h with
  | head _ hs =>
    obtain ⟨_, _, _, _, rfl⟩ := hs.written
    exact hsome
  | root _ hs =>
    obtain ⟨_, _, _, _, rfl⟩ := hs.written
    exact hsome
  | quiet hq =>
    obtain ⟨f, hf⟩ := Option.isSome_iff_exists.mp hsome
    obtain ⟨_, hf', _⟩ := hq.findings hf
    exact Option.isSome_iff_exists.mpr ⟨_, hf'⟩
  | card _ hs =>
    obtain ⟨_, _, _, _, _, rfl⟩ := insertItem_eq_ok.mp hs
    exact hsome
  | decision _ hs =>
    obtain ⟨_, _, _, rfl⟩ := insertDecision_eq_ok.mp hs
    exact hsome
  | record => exact hsome
  | outcome _ hs =>
    obtain ⟨_, _, _, rfl⟩ := replaceOutcome_eq_ok.mp hs
    exact hsome
  | resolution _ hs =>
    obtain ⟨_, _, rfl⟩ := hs
    exact hsome

theorem Writes.findings {φ : Footprint} (h : Writes φ s s') {uid : Ulid} :
    (s.findings.get? uid).isSome → (s'.findings.get? uid).isSome :=
  h.keeps (I := fun s => (s.findings.get? uid).isSome) fun hw hs => Write.findings hw hs

theorem Writes.births {φ : Footprint} (h : Writes φ s s')
    (hc : ∀ item, φ.card item → ¬item.birthplace.IsCurator) :
    ∀ row ∈ s'.items.rows, ∀ uid ∈ row.birthplace.findingUid,
      ∃ old ∈ s.items.rows, old.birthplace.findingUid = some uid := by
  apply h.rel (R := fun s s' => ∀ row ∈ s'.items.rows, ∀ uid ∈ row.birthplace.findingUid,
    ∃ old ∈ s.items.rows, old.birthplace.findingUid = some uid)
  · exact fun _ row hrow uid huid => ⟨row, hrow, huid⟩
  · intro s t u hst htu row hrow uid huid
    obtain ⟨mid, hmid, huid⟩ := htu row hrow uid huid
    exact hst mid hmid uid huid
  · intro s t hw row hrow uid huid
    cases hw with
    | head _ hs =>
      obtain ⟨_, _, _, _, rfl⟩ := hs.written
      exact ⟨row, hrow, huid⟩
    | root _ hs =>
      obtain ⟨_, _, _, _, rfl⟩ := hs.written
      exact ⟨row, hrow, huid⟩
    | quiet hq => exact ⟨row, hq.items ▸ hrow, huid⟩
    | card hφ hs =>
      rcases (mem_of_insertItem hs).mp hrow with hrow | rfl
      · exact ⟨row, hrow, huid⟩
      · have hcurator := hc _ hφ
        cases hbirth : row.birthplace <;> simp [hbirth, Birthplace.findingUid,
          Birthplace.IsCurator] at huid hcurator
    | decision _ hs =>
      obtain ⟨_, _, _, rfl⟩ := insertDecision_eq_ok.mp hs
      simp only [setItemState, Table.rows_modify, List.mem_map] at hrow
      obtain ⟨old, hold, rfl⟩ := hrow
      refine ⟨old, hold, ?_⟩
      split at huid <;> exact huid
    | record => exact ⟨row, hrow, huid⟩
    | outcome _ hs =>
      obtain ⟨_, _, _, rfl⟩ := replaceOutcome_eq_ok.mp hs
      exact ⟨row, hrow, huid⟩
    | resolution _ hs =>
      obtain ⟨_, _, rfl⟩ := hs
      exact ⟨row, hrow, huid⟩

theorem Store.Tracks.of_writes {φ : Footprint} {session : Session}
    (h : Writes φ (s.begin session) s')
    (hc : ∀ item, φ.card item → ¬item.birthplace.IsCurator) : s.Tracks s' := by
  have hbirths := Writes.births h hc
  exact ⟨Writes.findings h, hbirths⟩

/-- A transaction that begins no verdict and files none leaves the findings traced. -/
theorem Traced.idle {k : Nat} (h : Traced p) (hstore : p.store.Tracks q.store)
    (hops : ∀ {j}, j ≠ k → q.ops[j]? = p.ops[j]?)
    (hk : ∀ {pass}, q.ops[k]? = some (.curating pass) → pass.judged = []) : Traced q := by
  have hnone {uid : Ulid} : ¬q.Awaits k uid := by
    rintro ⟨pass, hop, huid⟩
    simp [CuratorPass.awaiting, hk hop] at huid
  refine h.move ⟨hops, hstore.findings, ?_, fun hawaits => absurd hawaits hnone, ?_⟩
  · exact fun row hrow uid huid => .inl (hstore.births row hrow uid huid)
  · intro pass hop
    simp [CuratorPass.awaiting, hk hop]

theorem Traced.alone (h : Traced p) (hstore : p.store.Tracks s') : Traced ⟨s', p.ops⟩ := by
  refine h.idle (k := p.ops.length) hstore (fun _ => rfl) fun {pass} hop => ?_
  simp at hop

theorem Traced.launch {op : Operation} (h : Traced p) (hstore : p.store.Tracks s')
    (hop : ∀ pass, op = .curating pass → pass.judged = []) : Traced (p.launch s' op) := by
  apply h.idle (k := p.ops.length) hstore
  · intro j hj
    simp only [Palace.launch, List.getElem?_append]
    split
    · rfl
    · rw [List.getElem?_eq_none (by simp; omega), List.getElem?_eq_none (by omega)]
  · intro pass hget
    rw [p.ops_launch] at hget
    exact hop pass (Option.some.inj hget)

theorem Traced.become {k : Nat} {op : Operation} (h : Traced p) (hstore : p.store.Tracks s')
    (hop : ∀ pass, op ≠ .curating pass) : Traced (p.become k s' op) := by
  apply h.idle (k := k) hstore fun hj => List.getElem?_set_ne (Ne.symm hj)
  intro pass hget
  simp only [Palace.become, List.getElem?_set_self'] at hget
  obtain ⟨_, _, heq⟩ := Option.map_eq_some_iff.mp hget
  exact absurd heq (hop pass)

end Shapes

section Steps

variable {k : Nat} {session : Session} {pass : CuratorPass}

theorem awaits_become {pass' : CuratorPass} {uid : Ulid} (hop : p.ops[k]? = some (.curating pass)) :
    (p.become k s' (.curating pass')).Awaits k uid ↔ uid ∈ pass'.awaiting := by
  have hlt : k < p.ops.length := by
    by_contra hge
    rw [List.getElem?_eq_none (by omega)] at hop
    cases hop
  unfold Palace.Awaits
  simp only [Palace.become, List.getElem?_set_self hlt, Option.some.injEq,
    Operation.curating.injEq, exists_eq_left']

/-- A pass that moves on to some of the verdicts it had in hand. -/
theorem Traced.keep {pass' : CuratorPass} (h : Traced p) (hop : p.ops[k]? = some (.curating pass))
    (hstore : p.store.Tracks s') (hsub : pass'.awaiting.Sublist pass.awaiting) :
    Traced (p.become k s' (.curating pass')) := by
  refine h.move (k := k) ⟨fun hj => List.getElem?_set_ne (Ne.symm hj), hstore.findings, ?_, ?_, ?_⟩
  · exact fun row hrow uid huid => .inl (hstore.births row hrow uid huid)
  · intro uid hawaits
    rw [awaits_become hop] at hawaits
    exact .inl ⟨pass, hop, hsub.subset hawaits⟩
  · intro pass'' hget
    simp only [Palace.become, List.getElem?_set_self', hop, Option.map_eq_map, Option.map_some,
      Function.const_apply, Option.some.injEq, Operation.curating.injEq] at hget
    exact hget ▸ (h.once hop).sublist hsub

theorem Traced.advance {next : Option CuratorPass} (h : Traced p)
    (hop : p.ops[k]? = some (.curating pass))
    (hstep : AdvanceStep (p.store.begin session) pass next s') :
    Traced (p.become k s' (next.elim .done .curating)) := by
  have hidle {t : Store} (hq : (p.store.begin session).Quiet t) : p.store.Tracks t :=
    .of_writes (φ := {}) hq.writes fun _ => False.elim
  have htail : pass.routed.awaiting.Sublist pass.awaiting :=
    (List.tail_sublist pass.judged).map _
  cases hstep with
  | skip | sourceRead | candidateRead => exact h.keep hop (hidle (.refl _)) (.refl _)
  | routed => exact h.keep hop (hidle (.refl _)) htail
  | created _ _ _ _ _ hw =>
    have htracks : p.store.Tracks s' := .of_writes hw fun _ => False.elim
    exact h.keep hop htracks (.refl _)
  | persisted => exact h.become (hidle persistRun_quiet) (by simp)
  | @judged finding rest pass' _ _ hjudged =>
    have htracks := hidle hjudged.quiet
    obtain ⟨row, findings, item, hinsert, hs', huid, _, _, _, _, hitem, _, _, hpass'⟩ :=
      hjudged.written
    have hawaiting : pass'.awaiting = pass.awaiting ++ [row.findingUid] := by
      rw [hpass']
      simp [CuratorPass.awaiting, hitem]
    obtain ⟨hfresh, rfl⟩ := Table.insert?_eq_some.mp hinsert
    have hnone : p.store.findings.get? row.findingUid = none := hfresh
    refine h.move (k := k) ⟨fun hj => List.getElem?_set_ne (Ne.symm hj), htracks.findings, ?_, ?_,
      ?_⟩
    · exact fun row hrow uid huid => .inl (htracks.births row hrow uid huid)
    · intro uid hawaits
      rw [Option.elim_some, awaits_become hop, hawaiting, List.mem_append,
        List.mem_singleton] at hawaits
      rcases hawaits with hawaits | rfl
      · exact .inl ⟨pass, hop, hawaits⟩
      · refine .inr ⟨hnone, ?_⟩
        rw [hs']
        exact Option.isSome_iff_exists.mpr ⟨row, Table.get?_insert_self (h := hfresh)⟩
    · intro pass'' hget
      simp only [Option.elim_some, Palace.become, List.getElem?_set_self', hop, Option.map_eq_map,
        Option.map_some, Function.const_apply, Option.some.injEq, Operation.curating.injEq] at hget
      rw [← hget, hawaiting, List.nodup_append]
      refine ⟨h.once hop, by simp, fun uid huid other hother => ?_⟩
      rw [List.mem_singleton] at hother
      rintro rfl
      have hsome := h.recorded hop uid huid
      rw [hother, hnone] at hsome
      cases hsome
  | @filed item rest action row neighbors _ _ hjudged haction _ hinsert =>
    obtain ⟨_, _, _, items, hrow, hs'⟩ := insertItem_eq_ok.mp hinsert
    obtain ⟨_, rfl⟩ := Table.insert?_eq_some.mp hrow
    have hawaiting : pass.awaiting = item.findingUid :: pass.routed.awaiting := by
      simp [CuratorPass.awaiting, CuratorPass.routed, hjudged]
    have honce := h.once hop
    rw [hawaiting, List.nodup_cons] at honce
    refine h.move (k := k) ⟨fun hj => List.getElem?_set_ne (Ne.symm hj), ?_, ?_, ?_, ?_⟩
    · intro uid hsome
      rw [hs']
      exact hsome
    · intro other hother uid huid
      simp only [Palace.become, hs', Table.rows_insert, List.mem_append,
        List.mem_singleton] at hother
      rcases hother with hother | rfl
      · exact .inl ⟨other, hother, huid⟩
      · obtain rfl : item.findingUid = uid := Option.some.inj huid
        refine .inr ⟨⟨pass, hop, by simp [hawaiting]⟩, ?_⟩
        rw [Option.elim_some, awaits_become hop]
        exact honce.1
    · intro uid hawaits
      rw [Option.elim_some, awaits_become hop] at hawaits
      exact .inl ⟨pass, hop, htail.subset hawaits⟩
    · intro pass'' hget
      simp only [Option.elim_some, Palace.become, List.getElem?_set_self', hop, Option.map_eq_map,
        Option.map_some, Function.const_apply, Option.some.injEq, Operation.curating.injEq] at hget
      exact hget ▸ honce.2

theorem Traced.stepped {action : Action} (h : Traced p) (hledger : p.store.Ledger)
    (hcards : p.store.Cards)
    (hstep : Palace.Stepped w p (p.store.begin session) action q) : Traced q := by
  have hsame : p.store.Tracks (p.store.begin session) :=
    ⟨id, fun row hrow uid huid => ⟨row, hrow, huid⟩⟩
  have hnone {φ : Footprint} {t : Store} (hw : Writes φ (p.store.begin session) t)
      (hc : ∀ item, ¬φ.card item) : p.store.Tracks t :=
    .of_writes hw fun item hitem => absurd hitem (hc item)
  cases hstep with
  | create hw | split hw | stage hw => exact h.alone (hnone hw fun _ => id)
  | commit _ hw | feedback _ hw => exact h.alone (hnone hw fun _ => id)
  | resolve hr =>
    rcases hr with ⟨rfl, _⟩ | ⟨t, hresolves, hrouted⟩
    · exact h.alone hsame
    · apply h.alone (.of_writes (hrouted.resolve_writes hresolves) _)
      rintro item ⟨_, _, hcard⟩
      simp [hcard.birthplace, Birthplace.IsCurator]
  | seeded => exact h.alone hsame
  | startPatch | startExtract | startSeed | startDecision | prepare =>
    exact h.launch hsame (by simp)
  | startPass =>
    have hw : Writes {} (p.store.begin session) (p.store.begin session).drawn :=
      drawn_quiet.writes
    apply h.launch (hnone hw fun _ => id)
    rintro pass ⟨⟩
    rfl
  | patch _ hw | prepareWrite _ _ hw => exact h.become (hnone hw fun _ => id) (by simp)
  | seedSource _ hw => exact h.become (hnone hw fun _ => id) (by simp)
  | @ingest _ _ admission next _ _ hstep =>
    apply h.become (.of_writes hstep.writes _)
    · intro pass
      cases next <;> simp
    · rintro item ⟨_, _, _, hbirth, _⟩
      cases hsource : admission.source <;>
        simp [hbirth, Source.birthplace, hsource, Birthplace.IsCurator]
  | advance hop hstep => exact h.advance hop hstep
  | decide _ _ hr =>
    rcases hr with rfl | hdecided
    · exact h.become hsame (by simp)
    · exact h.become (hnone hdecided.writes fun _ => id) (by simp)
  | decideBatch hr =>
    obtain ⟨hcurrent, hnodup⟩ := batchRows_current (p.store.begin session) _
    obtain ⟨_, _, _, hnamed⟩ := hr.keeps (hledger.congr rfl rfl) (hcards.congr rfl rfl) hcurrent
      hnodup
    refine h.alone ⟨Writes.findings hr.writes, fun row hrow uid huid => ?_⟩
    obtain ⟨old, hold, _, hbirth⟩ := hnamed row hrow
    exact ⟨old, hold, hbirth ▸ huid⟩
  | abandon => exact h.become hsame (by simp)

end Steps

theorem traced_of_reachable (h : (palace w).Reachable p) : Traced p := by
  refine (Machine.reachable_keeps
    (I := fun p : Palace => (palace w).Reachable p ∧ Traced p) ?_ ?_ h).2
  · rintro _ ⟨configs, rfl⟩
    have hidle {k : Nat} {pass : CuratorPass} :
        ([] : List Operation)[k]? ≠ some (.curating pass) := by simp
    refine ⟨⟨_, [], ⟨configs, rfl⟩, rfl⟩, fun row hrow => ?_, fun h => absurd h hidle,
      fun h => absurd h hidle, fun h => absurd h hidle, fun h => absurd h hidle⟩
    simp [Store.deployed, Table.empty] at hrow
  · rintro p call q ⟨hreach, hp⟩ hstep
    have hconsented := consented_of_reachable hreach
    exact ⟨hreach.step hstep, hp.stepped hconsented.ledger hconsented.cards
      (stepped_of_step (lineage_of_reachable hreach) hstep)⟩

end Nocturne
