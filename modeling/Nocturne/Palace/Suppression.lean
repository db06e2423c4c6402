import Nocturne.Palace.Records

namespace Nocturne

open Nocturne.Lib Nocturne.Store Nocturne.Memory Nocturne.Queue Nocturne.Curation

variable {w : World} {p q : Palace} {s s' : Store}

/-- Every curator card is on a finding on record, with the action of its verdict, and no two open
ones are for one action on equal findings. -/
structure Store.OnePending (s : Store) : Prop where
  recorded : ∀ item ∈ s.items.rows, item.birthplace.IsCurator →
    ∃ f ∈ s.findings.rows, item.birthplace.findingUid = some f.findingUid ∧
      f.action = .act item.verdict
  once : ∀ a ∈ s.items.rows, ∀ b ∈ s.items.rows, a.state = .pending → b.state = .pending →
    a.verdict = b.verdict → ∀ f ∈ s.findings.rows, ∀ g ∈ s.findings.rows,
      a.birthplace.findingUid = some f.findingUid → b.birthplace.findingUid = some g.findingUid →
        f.finding = g.finding → a = b

/-- Only an abandoned pass that has filed a card still open leaves a finding off the record. -/
def Persists (p : Palace) : Action → Prop
  | .abandon k => ∀ pass ∈ p.ops[k]?.bind Operation.curating?, ∀ item ∈ p.store.items.rows,
      item.state = .pending → ∀ uid ∈ item.birthplace.findingUid, uid ∉ pass.findingUids
  | _ => True

instance (p : Palace) : DecidablePred (Persists p)
  | .abandon k => inferInstanceAs (Decidable (∀ pass ∈ p.ops[k]?.bind Operation.curating?, _))
  | .create .. | .split .. | .stage .. | .resolve .. | .startPatch .. | .patch ..
   | .startExtract .. | .startSeed .. | .seedSource .. | .ingest .. | .startPass ..
   | .advance .. | .startDecision .. | .decide .. | .decideBatch .. | .prepare ..
   | .prepareWrite .. | .commit .. | .feedback .. => isTrue trivial

/-- The card is open, on a finding of this record. -/
structure Store.OpenOn (s : Store) (item : ApprovalQueueItem) (f : CuratorFinding) : Prop where
  filed : item ∈ s.items.rows
  pending : item.state = .pending
  named : item.birthplace.findingUid = some f.findingUid
  found : s.findings.get? f.findingUid = some f

/-- An open card's finding is on record for good or with its pass, a verdict not suppressed has
no open card on its fingerprint but from its own pass, and no two open cards are alike. -/
structure Suppressing (p : Palace) : Prop where
  kept : ∀ {item : ApprovalQueueItem} {f : CuratorFinding}, p.store.OpenOn item f →
    f.persisted ∨ ∃ (k : Nat) (pass : CuratorPass), p.ops[k]? = some (.curating pass) ∧
      f.findingUid ∈ pass.findingUids
  unseen : ∀ {k : Nat} {pass : CuratorPass}, p.ops[k]? = some (.curating pass) →
    ∀ verdict ∈ pass.judged, verdict.suppressed = false →
      ∀ {item : ApprovalQueueItem} {f : CuratorFinding}, p.store.OpenOn item f →
        f.finding = verdict.finding → f.action = verdict.action →
          f.findingUid ∈ pass.findingUids
  once : ∀ {a b : ApprovalQueueItem} {f g : CuratorFinding}, p.store.OpenOn a f →
    p.store.OpenOn b g → f.finding = g.finding → f.action = g.action → a = b

section Steps

variable {session : Session} {action : Action}

theorem Files.named {pass : CuratorPass} {verdict : JudgedFinding} {item : ApprovalQueueItem}
    (h : Files s pass verdict item) :
    item.birthplace.findingUid = some verdict.findingUid ∧ item.itemUid = s.freshUlid := by
  obtain ⟨_, _, _, _, _, rfl⟩ := h.written
  exact ⟨rfl, rfl⟩

theorem Store.OpenOn.curator {item : ApprovalQueueItem} {f : CuratorFinding}
    (h : s.OpenOn item f) : item.birthplace.IsCurator := by
  have hnamed := h.named
  cases hbirth : item.birthplace <;> simp [hbirth, Birthplace.findingUid] at hnamed
  trivial

/-- What an open card was: open before, its finding the same but for the record's being kept,
or a verdict that a pass has just filed. -/
theorem Store.OpenOn.before (hrecorded : Recorded p)
    (hstep : Palace.Stepped w p (p.store.begin session) action q) {item : ApprovalQueueItem}
    {f : CuratorFinding} (h : q.store.OpenOn item f) :
    (∃ f₀, p.store.OpenOn item f₀ ∧ f₀.findingUid = f.findingUid ∧ f₀.finding = f.finding ∧
      f₀.action = f.action ∧ (f₀.persisted → f.persisted)) ∨
      ∃ k draft embedding pass verdict, action = .advance k draft embedding ∧
        p.ops[k]? = some (.curating pass) ∧ q.ops[k]? = some (.curating pass.routed) ∧
        Files (p.store.begin session) pass verdict item ∧ verdict ∈ pass.judged ∧
        f.findingUid = verdict.findingUid ∧ f.finding = verdict.finding ∧
        f.action = verdict.action := by
  rcases hstep.filed h.filed h.curator with ⟨old, hold, _, hsame⟩ |
    ⟨k, draft, embedding, pass, verdict, haction, hop, hop', hfiles⟩
  · obtain rfl := hsame h.pending
    obtain ⟨f₀, hf₀, _⟩ := hrecorded.cards item hold _ h.named
    have huid := Table.key_of_get? hf₀
    obtain ⟨persisted, hf, hkept⟩ := Writes.finding hstep.writes hf₀
    obtain rfl := Option.some.inj (h.found.symm.trans hf)
    exact .inl ⟨f₀, ⟨hold, h.pending, h.named, hf₀⟩, rfl, rfl, rfl, hkept⟩
  · obtain ⟨rest, hjudged⟩ := hfiles.judged
    have hmem : verdict ∈ pass.judged := by simp [hjudged]
    have huid : f.findingUid = verdict.findingUid :=
      Option.some.inj (h.named.symm.trans hfiles.named.1)
    obtain ⟨_, f₀, hf₀, hfinding, hrecorded⟩ := (hrecorded.reviewed hop).judged verdict hmem
    obtain ⟨persisted, hf, _⟩ := Writes.finding hstep.writes hf₀
    obtain rfl := Option.some.inj (h.found.symm.trans (huid ▸ hf))
    exact .inr ⟨k, draft, embedding, pass, verdict, haction, hop, hop', hfiles, hmem, huid,
      hfinding, hrecorded⟩

/-- Two passes that both had a finding on the same fingerprint are one. -/
theorem Recorded.same (h : Recorded p) {j k : Nat} {pass pass' : CuratorPass}
    {finding : HealthFinding} (hj : p.ops[j]? = some (.curating pass))
    (hk : p.ops[k]? = some (.curating pass')) (howned : Owned p.store pass.principalId finding)
    (howned' : Owned p.store pass'.principalId finding) : j = k ∧ pass = pass' := by
  obtain rfl := h.locked hj hk (howned.unique howned')
  exact ⟨rfl, Operation.curating.inj (Option.some.inj (hj.symm.trans hk))⟩

theorem Curation.CuratorPass.Reviewed.owns {pass : CuratorPass} {verdict : JudgedFinding}
    (h : pass.Reviewed s) (hverdict : verdict ∈ pass.judged) :
    verdict.findingUid ∈ pass.findingUids ∧ Owned s pass.principalId verdict.finding := by
  obtain ⟨huid, f, hf, hfinding, _⟩ := h.judged verdict hverdict
  obtain ⟨f', hf', howned, _⟩ := h.recorded _ huid
  obtain rfl := Option.some.inj (hf.symm.trans hf')
  exact ⟨huid, hfinding ▸ howned⟩

theorem Suppressing.stepped_kept (h : Suppressing p) (hrecorded : Recorded p)
    (hpersists : Persists p action)
    (hstep : Palace.Stepped w p (p.store.begin session) action q) {item : ApprovalQueueItem}
    {f : CuratorFinding} (hopen : q.store.OpenOn item f) :
    f.persisted ∨ ∃ (k : Nat) (pass : CuratorPass), q.ops[k]? = some (.curating pass) ∧
      f.findingUid ∈ pass.findingUids := by
  rcases hopen.before hrecorded hstep with ⟨f₀, hopen₀, huid, _, _, hkept⟩ |
    ⟨k, draft, embedding, pass, verdict, _, hop, hop', _, hmem, huid, _⟩
  · rcases h.kept hopen₀ with hold | ⟨k, pass, hop, hmem⟩
    · exact .inl (hkept hold)
    · rcases hstep.survives hop with hsame | rfl | ⟨_, _, next, _, hadvance, hop'⟩
      · exact .inr ⟨k, pass, hsame, huid ▸ hmem⟩
      · exact absurd hmem (hpersists pass (by simp [hop, Operation.curating?]) item
          hopen₀.filed hopen₀.pending f₀.findingUid hopen₀.named)
      · cases next with
        | none =>
          generalize q.store = t at hadvance hopen
          cases hadvance with
          | persisted =>
            have hf := persisted_of_persistRun (s := p.store.begin session) hopen₀.found hmem
            rw [huid, hopen.found] at hf
            exact .inl (Option.some.inj hf ▸ rfl)
        | some pass' => exact .inr ⟨k, pass', hop', huid ▸ hadvance.keeps.2 hmem⟩
  · exact .inr ⟨k, pass.routed, hop', huid ▸ ((hrecorded.reviewed hop).owns hmem).1⟩

/-- A card filed is on a verdict that was not suppressed. -/
theorem unsuppressed_of_filed (hreach : (palace w).Reachable p) {k : Nat}
    {draft : Option CuratorVerdictDraft} {embedding : Embedding}
    (haccepted : (palace w).step p ⟨session, .advance k draft embedding⟩ = .ok q)
    {pass : CuratorPass} (hop : p.ops[k]? = some (.curating pass)) {verdict : JudgedFinding}
    {item : ApprovalQueueItem} (hfiles : Files (p.store.begin session) pass verdict item)
    (hitem : item ∈ q.store.items.rows) : verdict.suppressed = false := by
  obtain ⟨pass', next, s', hop', hadvance, rfl⟩ := step_advance_eq_ok haccepted
  obtain rfl := Operation.curating.inj (Option.some.inj (hop.symm.trans hop'))
  obtain ⟨rest, hjudged⟩ := hfiles.judged
  refine unsuppressed_of_advance hadvance hfiles.unjudged hjudged fun hsame => ?_
  have hold : item ∈ p.store.items.rows := by
    have hitem : item ∈ s'.items.rows := hitem
    exact hsame ▸ hitem
  exact (traced_of_reachable hreach).unfiled hop verdict.findingUid
    (by simp [CuratorPass.awaiting, hjudged]) item hold hfiles.named.1

theorem Suppressing.stepped_unseen (h : Suppressing p) (hrecorded : Recorded p)
    (hstep : Palace.Stepped w p (p.store.begin session) action q)
    (haccepted : (palace w).step p ⟨session, action⟩ = .ok q) {k : Nat} {pass' : CuratorPass}
    (hget : q.ops[k]? = some (.curating pass')) {verdict : JudgedFinding}
    (hverdict : verdict ∈ pass'.judged) (hnew : verdict.suppressed = false)
    {item : ApprovalQueueItem} {f : CuratorFinding} (hopen : q.store.OpenOn item f)
    (hfinding : f.finding = verdict.finding) (haction : f.action = verdict.action) :
    f.findingUid ∈ pass'.findingUids := by
  rcases hstep.curating hget with hold | ⟨_, _, _, _, _, rfl⟩ |
    ⟨pass, draft, embedding, hop, rfl, hadvance⟩
  · -- the pass does not move: a card another files is on another principal's finding
    rcases hopen.before hrecorded hstep with ⟨f₀, hopen₀, huid, hfinding₀, haction₀, _⟩ |
      ⟨_, _, _, other, verdict', _, hop, _, _, hmem, huid, hfinding', _⟩
    · exact huid ▸ h.unseen hold verdict hverdict hnew hopen₀ (hfinding₀.trans hfinding)
        (haction₀.trans haction)
    · have howned := ((hrecorded.reviewed hop).owns hmem)
      have howned' := ((hrecorded.reviewed hold).owns hverdict).2
      rw [← hfinding, hfinding'] at howned'
      obtain ⟨_, rfl⟩ := hrecorded.same hop hold howned.2 howned'
      exact huid ▸ howned.1
  · cases hverdict
  · obtain ⟨pass₀, next, s', hop', hadvanced, hq⟩ := step_advance_eq_ok haccepted
    obtain rfl := Operation.curating.inj (Option.some.inj (hop.symm.trans hop'))
    rw [hq, ops_become_self hop] at hget
    cases next with
    | none => cases hget
    | some next =>
      obtain rfl := Operation.curating.inj (Option.some.inj hget)
      rcases hopen.before hrecorded hstep with ⟨f₀, hopen₀, huid, hfinding₀, haction₀, _⟩ |
        ⟨_, _, _, other, verdict', hsame, hop', _, hfiles, hmem, huid, hfinding', _⟩
      · rcases judged_of_advance hadvanced verdict hverdict with hold | ⟨hunjudged, hseen⟩
        · exact hadvance.keeps.2 (huid ▸ h.unseen hop verdict hold hnew hopen₀
            (hfinding₀.trans hfinding) (haction₀.trans haction))
        · -- a new verdict: its open card is on record for good, or with this pass
          rcases h.kept hopen₀ with hpersisted | ⟨j, other, hj, hmem⟩
          · have hrow := Table.mem_of_get? hopen₀.found
            have hsuppressed : wasSeenUnchanged (p.store.begin session) verdict.finding
                verdict.action = true := by
              unfold wasSeenUnchanged
              rw [List.any_eq_true]
              refine ⟨f₀, hrow, decide_eq_true ⟨hpersisted, hfinding₀.trans hfinding,
                haction₀.trans haction, item, hopen₀.filed, hopen₀.named, .inl hopen₀.pending⟩⟩
            rw [← hseen, hnew] at hsuppressed
            cases hsuppressed
          · obtain ⟨f', hf', howned, hreviewed, _⟩ := (hrecorded.reviewed hj).recorded _ hmem
            obtain rfl := Option.some.inj (hopen₀.found.symm.trans hf')
            rw [hfinding₀.trans hfinding] at howned hreviewed
            obtain ⟨_, rfl⟩ := hrecorded.same hj hop howned
              ((hrecorded.reviewed hop).owned _ hunjudged)
            exact absurd hunjudged hreviewed
      · obtain ⟨rfl, _⟩ := Action.advance.inj hsame
        obtain rfl := Operation.curating.inj (Option.some.inj (hop.symm.trans hop'))
        exact hadvance.keeps.2 (huid ▸ ((hrecorded.reviewed hop).owns hmem).1)

/-- A card filed is on a finding no other open card is on. -/
theorem Suppressing.filed_alone (h : Suppressing p) (hreach : (palace w).Reachable p) {k : Nat}
    {draft : Option CuratorVerdictDraft} {embedding : Embedding}
    (haccepted : (palace w).step p ⟨session, .advance k draft embedding⟩ = .ok q)
    {pass : CuratorPass} (hop : p.ops[k]? = some (.curating pass)) {verdict : JudgedFinding}
    {item other : ApprovalQueueItem} {f : CuratorFinding}
    (hfiles : Files (p.store.begin session) pass verdict item)
    (hitem : item ∈ q.store.items.rows) (hopen : p.store.OpenOn other f)
    (hfinding : f.finding = verdict.finding) (haction : f.action = verdict.action) : False := by
  obtain ⟨rest, hjudged⟩ := hfiles.judged
  have hmem : verdict ∈ pass.judged := by simp [hjudged]
  have huid := h.unseen hop verdict hmem (unsuppressed_of_filed hreach haccepted hop hfiles hitem)
    hopen hfinding haction
  obtain ⟨f', hf', _, _, hone⟩ := ((recorded_of_reachable hreach).reviewed hop).recorded _ huid
  obtain rfl := Option.some.inj (hopen.found.symm.trans hf')
  have hsame : verdict.findingUid = f.findingUid := hone verdict hmem hfinding.symm
  exact (traced_of_reachable hreach).unfiled hop verdict.findingUid
    (by simp [CuratorPass.awaiting, hjudged]) other hopen.filed (hsame ▸ hopen.named)

theorem Suppressing.stepped_once (h : Suppressing p) (hreach : (palace w).Reachable p)
    (hstep : Palace.Stepped w p (p.store.begin session) action q)
    (haccepted : (palace w).step p ⟨session, action⟩ = .ok q) {a b : ApprovalQueueItem}
    {f g : CuratorFinding} (hopen : q.store.OpenOn a f) (hopen' : q.store.OpenOn b g)
    (hfinding : f.finding = g.finding) (haction : f.action = g.action) : a = b := by
  have hrecorded := recorded_of_reachable hreach
  rcases hopen.before hrecorded hstep with ⟨f₀, hf₀, _, hfinding₀, haction₀, _⟩ |
      ⟨k, draft, embedding, pass, verdict, hadvance, hop, _, hfiles, _, _, hjudged, hact⟩ <;>
    rcases hopen'.before hrecorded hstep with ⟨g₀, hg₀, _, hfinding₁, haction₁, _⟩ |
      ⟨k', draft', embedding', pass', verdict', hadvance', hop', _, hfiles', _, _, hjudged',
        hact'⟩
  · exact h.once hf₀ hg₀ (hfinding₀.trans (hfinding.trans hfinding₁.symm))
      (haction₀.trans (haction.trans haction₁.symm))
  · subst hadvance'
    exact (h.filed_alone hreach haccepted hop' hfiles' hopen'.filed hf₀
      (hfinding₀.trans (hfinding.trans hjudged'))
      (haction₀.trans (haction.trans hact'))).elim
  · subst hadvance
    exact (h.filed_alone hreach haccepted hop hfiles hopen.filed hg₀
      (hfinding₁.trans (hfinding.symm.trans hjudged))
      (haction₁.trans (haction.symm.trans hact))).elim
  · -- one transaction files one card
    have ha := Table.get?_of_mem hopen.filed
    have hb := Table.get?_of_mem hopen'.filed
    rw [hfiles.named.2] at ha
    rw [hfiles'.named.2] at hb
    exact Option.some.inj (ha.symm.trans hb)

theorem Suppressing.stepped (h : Suppressing p) (hreach : (palace w).Reachable p)
    (hpersists : Persists p action)
    (haccepted : (palace w).step p ⟨session, action⟩ = .ok q) : Suppressing q := by
  have hrecorded := recorded_of_reachable hreach
  have hstep := stepped_of_step (lineage_of_reachable hreach) haccepted
  constructor
  · exact fun hopen => h.stepped_kept hrecorded hpersists hstep hopen
  · exact fun hget _ hverdict hnew _ _ hopen hfinding haction =>
      h.stepped_unseen hrecorded hstep haccepted hget hverdict hnew hopen hfinding haction
  · exact fun hopen hopen' hfinding haction =>
      h.stepped_once hreach hstep haccepted hopen hopen' hfinding haction

end Steps

theorem suppressing_of_reachable
    (h : (palace w).ReachableBy (fun p call => Persists p call.action) p) : Suppressing p := by
  refine (Machine.reachableBy_keeps
    (I := fun p : Palace => (palace w).Reachable p ∧ Suppressing p) ?_ ?_ h).2
  · rintro _ ⟨configs, rfl⟩
    refine ⟨⟨_, [], ⟨configs, rfl⟩, rfl⟩, fun hopen => ?_, nofun, fun hopen => ?_⟩
    · simpa [Store.deployed, Table.empty] using hopen.filed
    · simpa [Store.deployed, Table.empty] using hopen.filed
  · rintro p call q ⟨hreach, hp⟩ hpersists hstep
    exact ⟨hreach.step hstep, hp.stepped hreach hpersists hstep⟩

/-- While every pass with a card still open is persisted, no two open curator cards are for one
action on equal findings. -/
theorem one_pending_card
    (h : (palace w).ReachableBy (fun p call => Persists p call.action) p) :
    p.store.OnePending := by
  have hrecorded := recorded_of_reachable h.reachable
  constructor
  · intro item hitem hcurator
    cases hbirth : item.birthplace <;> simp only [hbirth, Birthplace.IsCurator] at hcurator
    next uid _ _ =>
    obtain ⟨f, hf, hcard⟩ := hrecorded.cards item hitem uid (by rw [hbirth]; rfl)
    exact ⟨f, Table.mem_of_get? hf, congrArg some (Table.key_of_get? hf).symm, hcard.action⟩
  · intro a ha b hb hpending hpending' hverdict f hf g hg hnamed hnamed' hfinding
    have hfound := Table.get?_of_mem hf
    have hfound' := Table.get?_of_mem hg
    obtain ⟨f', hf', hcard⟩ := hrecorded.cards a ha _ hnamed
    obtain rfl := Option.some.inj (hfound.symm.trans hf')
    obtain ⟨g', hg', hcard'⟩ := hrecorded.cards b hb _ hnamed'
    obtain rfl := Option.some.inj (hfound'.symm.trans hg')
    refine (suppressing_of_reachable h).once ⟨ha, hpending, hnamed, hfound⟩
      ⟨hb, hpending', hnamed', hfound'⟩ hfinding ?_
    rw [hcard.action, hcard'.action, hverdict]

/-- A pass over a head with no keywords, which files a repair. -/
def repairPass (k uid : Nat) : List Call :=
  [⟨⟨2, [uid]⟩, .startPass "owner" "m"⟩,
    ⟨⟨3, [uid + 1]⟩, .advance k (some ⟨.act .keywordRepair,
      ⟨none, none, some ["tea", "drink"], none⟩⟩) []⟩,
    ⟨⟨4, []⟩, .advance k none []⟩,
    ⟨⟨5, [uid + 2]⟩, .advance k none []⟩]

def repairPalace (calls : List Call) : Palace :=
  (palace default).run plainPalace
    (⟨⟨1, [7, 70]⟩, .create (savedMemory "tea" "drinks tea") [1]⟩ :: repairPass 0 30 ++ calls)

/-- The pass is persisted; the next one suppresses the same repair. -/
theorem one_pending_card_persisted :
    (repairPalace (⟨⟨6, []⟩, .advance 0 none []⟩ :: repairPass 1 40)).store.OnePending := by
  apply one_pending_card (w := default)
  refine ⟨plainPalace, _, ⟨_, rfl⟩, ?_, rfl⟩
  decide +kernel

/-- The pass dies before it is persisted; the next one files the same repair again. -/
theorem one_pending_card_abandoned :
    (palace default).Reachable (repairPalace (⟨⟨6, []⟩, .abandon 0⟩ :: repairPass 1 40)) ∧
      ¬(repairPalace (⟨⟨6, []⟩, .abandon 0⟩ :: repairPass 1 40)).store.OnePending := by
  refine ⟨⟨plainPalace, _, ⟨_, rfl⟩, rfl⟩, fun h => ?_⟩
  have htwo : ∃ a ∈ (repairPalace (⟨⟨6, []⟩, .abandon 0⟩ :: repairPass 1 40)).store.items.rows,
      ∃ b ∈ (repairPalace (⟨⟨6, []⟩, .abandon 0⟩ :: repairPass 1 40)).store.items.rows,
      ∃ f ∈ (repairPalace (⟨⟨6, []⟩, .abandon 0⟩ :: repairPass 1 40)).store.findings.rows,
      ∃ g ∈ (repairPalace (⟨⟨6, []⟩, .abandon 0⟩ :: repairPass 1 40)).store.findings.rows,
        a.state = .pending ∧ b.state = .pending ∧ a.verdict = b.verdict ∧
        a.birthplace.findingUid = some f.findingUid ∧
        b.birthplace.findingUid = some g.findingUid ∧ f.finding = g.finding ∧
        a.itemUid ≠ b.itemUid := by decide +kernel
  obtain ⟨a, ha, b, hb, f, hf, g, hg, hpending, hpending', hverdict, hnamed, hnamed', hfinding,
    hne⟩ := htwo
  exact hne (congrArg (·.itemUid) (h.once a ha b hb hpending hpending' hverdict f hf g hg hnamed
    hnamed' hfinding))

end Nocturne
