import Nocturne.Curation.Service
import Nocturne.Queue.Laws

namespace Nocturne.Curation

open Nocturne.Lib Nocturne.Store Nocturne.Memory Nocturne.Queue

variable {env : Env} {diagnosis : Diagnosis} {s : Store} {pass : CuratorPass}

section Report

theorem mem_pairs {α : Type} {l : List α} {pair : α × α} (h : pair ∈ pairs l) :
    pair.1 ∈ l ∧ pair.2 ∈ l := by
  induction l with
  | nil => cases h
  | cons a l ih =>
    simp only [pairs, List.mem_append, List.mem_map] at h
    rcases h with ⟨b, hb, rfl⟩ | h
    · exact ⟨by simp, List.mem_cons_of_mem _ hb⟩
    · exact ⟨List.mem_cons_of_mem _ (ih h).1, List.mem_cons_of_mem _ (ih h).2⟩

theorem ne_of_mem_pairs {rows : List MemoryUnit} (h : (rows.map (·.id)).Nodup)
    {pair : MemoryUnit × MemoryUnit} (hpair : pair ∈ pairs rows) : pair.1.id ≠ pair.2.id := by
  induction rows with
  | nil => cases hpair
  | cons row rows ih =>
    simp only [List.map_cons, List.nodup_cons] at h
    simp only [pairs, List.mem_append, List.mem_map] at hpair
    rcases hpair with ⟨other, hother, rfl⟩ | hpair
    · exact fun heq => h.1 (List.mem_map.mpr ⟨other, hother, heq.symm⟩)
    · exact ih h.2 hpair

theorem nodup_activeRows {principalId : String} :
    ((activeRows s principalId).map (·.id)).Nodup := by
  unfold activeRows
  rw [((List.perm_insertionSort _ _).map _).nodup_iff]
  exact s.units.nodup.sublist (List.filter_sublist.map _)

theorem mem_activeRows {principalId : String} {u : MemoryUnit} :
    u ∈ activeRows s principalId ↔
      u ∈ s.units.rows ∧ u.principalId = principalId ∧ u.status = .active := by
  simp [activeRows]

/-- What a finding was read from: one or two of the principal's active heads. -/
theorem evidence_of_build {principalId : String} {finding : HealthFinding}
    (h : finding ∈ build env diagnosis s principalId) : ∃ rows, rows ≠ [] ∧
      (rows.map (·.id)).Nodup ∧ (∀ u ∈ rows, u ∈ activeRows s principalId) ∧
      finding.evidence = evidence rows := by
  have hpair {pair : MemoryUnit × MemoryUnit} (hp : pair ∈ pairs (activeRows s principalId)) :
      [pair.1, pair.2] ≠ [] ∧ ([pair.1, pair.2].map (·.id)).Nodup ∧
        ∀ u ∈ [pair.1, pair.2], u ∈ activeRows s principalId := by
    obtain ⟨hfirst, hsecond⟩ := mem_pairs hp
    have hne := ne_of_mem_pairs nodup_activeRows hp
    simp [hfirst, hsecond, hne]
  simp only [build, List.mem_map, List.mem_insertionSort, List.mem_append, duplicates,
    contradictions, List.mem_filter, List.mem_flatMap] at h
  obtain ⟨nomination, hnomination, rfl⟩ := h
  rcases hnomination with (⟨pair, hp, rfl⟩ | ⟨pair, hp, rfl⟩) | ⟨row, hrow, hsingle⟩
  · obtain ⟨hne, hnodup, hrows⟩ := hpair hp.1
    exact ⟨_, hne, hnodup, hrows, rfl⟩
  · obtain ⟨hne, hnodup, hrows⟩ := hpair hp.1
    exact ⟨_, hne, hnodup, hrows, rfl⟩
  · have hone : nomination.finding.evidence = evidence [row] := by
      simp only [singles, List.mem_append] at hsingle
      rcases hsingle with (hsingle | hsingle) | hsingle <;> split at hsingle <;> simp_all
    exact ⟨[row], by simp, by simp, by simpa using hrow, hone⟩

/-- The head an evidence entry was read from: active, and at the revision it records. -/
def Diagnosed (s : Store) (principalId : String) (entry : Uuid × Nat) : Prop :=
  ∃ u ∈ s.units.rows, u.principalId = principalId ∧ u.status = .active ∧
    entry = (u.id, u.revision)

/-- A report names active heads only, each at the revision it read. -/
theorem diagnosed_of_build {principalId : String} {finding : HealthFinding}
    (h : finding ∈ build env diagnosis s principalId) {entry : Uuid × Nat}
    (hentry : entry ∈ finding.evidence) : Diagnosed s principalId entry := by
  obtain ⟨rows, _, _, hrows, hevidence⟩ := evidence_of_build h
  rw [hevidence] at hentry
  obtain ⟨u, hu, rfl⟩ := List.mem_map.mp hentry
  obtain ⟨hmem, hprincipal, hactive⟩ := mem_activeRows.mp (hrows u hu)
  exact ⟨u, hmem, hprincipal, hactive, rfl⟩

/-- A report names each head of a finding once. -/
theorem nodup_of_build {principalId : String} {finding : HealthFinding}
    (h : finding ∈ build env diagnosis s principalId) : finding.memoryIds.Nodup := by
  obtain ⟨rows, _, hnodup, _, hevidence⟩ := evidence_of_build h
  simpa [HealthFinding.memoryIds, hevidence, evidence, Function.comp_def] using hnodup

end Report

/-- A verdict joins the pass, its finding recorded under a new uid. -/
structure Judged (s : Store) (pass : CuratorPass) (finding : HealthFinding)
    (unjudged : List HealthFinding) (pass' : CuratorPass) (s' : Store) : Prop where
  written : ∃ row findings item, s.findings.insert? row = some findings ∧
    s' = { s.drawn with findings } ∧ row.findingUid = s.freshUlid ∧ row.finding = finding ∧
    row.runUid = pass.runUid ∧ row.action ∈ allowed finding.kind ∧ row.persisted = false ∧
    item.findingUid = row.findingUid ∧ item.finding = finding ∧ item.action = row.action ∧
    pass' = { pass with
      unjudged
      reviewedPairs := pass'.reviewedPairs
      judged := pass.judged ++ [item]
      findingUids := row.findingUid :: pass.findingUids }

/-- What the next transaction of a pass can do. -/
inductive AdvanceStep (s : Store) (pass : CuratorPass) : Option CuratorPass → Store → Prop
  | skip {finding : HealthFinding} {rest unjudged : List HealthFinding} {reviewedPairs : Nat} :
    pass.unjudged = finding :: rest → unjudged = rest ∨ unjudged = [] →
      AdvanceStep s pass (some { pass with unjudged, reviewedPairs }) s
  | judged {finding : HealthFinding} {rest : List HealthFinding} {pass' : CuratorPass}
    {s' : Store} : pass.unjudged = finding :: rest → Judged s pass finding rest pass' s' →
      AdvanceStep s pass (some pass') s'
  | routed : pass.unjudged = [] → AdvanceStep s pass (some pass.routed) s
  | sourceRead {item : JudgedFinding} {rest : List JudgedFinding} {action : Verdict}
    {source : MemoryUnit} : pass.unjudged = [] → pass.judged = item :: rest →
      item.action = .act action → pass.filing = .unread →
      (∃ head ∈ item.finding.memoryIds.head?, s.units.get? head = some source) →
      AdvanceStep s pass (some { pass with filing := .sourceRead source }) s
  | created {item : JudgedFinding} {rest : List JudgedFinding} {action : Verdict}
    {source memory : MemoryUnit} {command : CreateMemoryCommand} {neighbors : List Uuid}
    {s' : Store} : pass.unjudged = [] → pass.judged = item :: rest → item.action = .act action →
      pass.filing = .sourceRead source → action.Replaces →
      Writes { root := (·.status = .candidate) } s s' →
      Inserted s .candidate command (memory, s') → item.suppressed = false →
      command.principalId = pass.principalId →
      AdvanceStep s pass (some { pass with filing := .created memory.id neighbors }) s'
  | candidateRead {item : JudgedFinding} {rest : List JudgedFinding} {action : Verdict}
    {candidateId : Uuid} {neighbors : List Uuid} {candidate : MemoryUnit} :
    pass.unjudged = [] → pass.judged = item :: rest → item.action = .act action →
      pass.filing = .created candidateId neighbors → s.units.get? candidateId = some candidate →
      AdvanceStep s pass (some { pass with filing := .candidateRead candidate neighbors }) s
  | filed {item : JudgedFinding} {rest : List JudgedFinding} {action : Verdict}
    {row : MemoryUnit} {neighbors : List Uuid} {s' : Store} :
    pass.unjudged = [] → pass.judged = item :: rest → item.action = .act action →
      (pass.filing = .sourceRead row ∧ ¬action.Replaces ∨
        pass.filing = .candidateRead row neighbors) →
      s.drawn.insertItem ((enqueueOf pass item action).item s row neighbors) = .ok s' →
      (∃ u, s'.units.get? row.id = some u ∧ u.status ≠ .staged) →
      AdvanceStep s pass (some pass.routed) s'
  | persisted : pass.unjudged = [] → pass.judged = [] →
      AdvanceStep s pass none (persistRun s pass)

theorem verdict_eq_ok {finding : HealthFinding} {draft : Option CuratorVerdictDraft}
    {d : CuratorVerdictDraft} (h : verdict finding draft = .ok d) :
    d.Valid ∧ d.action ∈ allowed finding.kind := by
  simp only [verdict, requireAllowed, bind_eq_ok, require_eq_ok, ensure_eq_ok, pure_eq_ok] at h
  obtain ⟨_, _, _, hvalid, _, hallowed, rfl⟩ := h
  exact ⟨hvalid, hallowed⟩

theorem judge_meets {finding : HealthFinding} {rest : List HealthFinding}
    {draft : Option CuratorVerdictDraft} (hpass : pass.unjudged = finding :: rest) :
    Meets (fun r => AdvanceStep s pass (some r.1) r.2) SpineError.Lineaged
      (judge s pass finding rest draft) := by
  unfold judge
  split
  · exact .ok (.skip hpass (.inl rfl))
  · dsimp only
    split
    · exact .ok (.skip hpass (.inr rfl))
    · next hverdict =>
      refine Meets.bind (Meets.require trivial) fun findings hinsert => Meets.pure ?_
      exact .judged hpass ⟨_, findings, ⟨_, _, _, _, _⟩, hinsert, rfl, rfl, rfl, rfl,
        (verdict_eq_ok hverdict).2, rfl, rfl, rfl, rfl, rfl⟩

theorem insertCuratorItem_meets {request : CuratorEnqueue} {row : MemoryUnit}
    {neighbors : List Uuid} :
    Meets (fun s' => s.drawn.insertItem (request.item s row neighbors) = .ok s' ∧
        ∃ u, s'.units.get? row.id = some u ∧ u.status ≠ .staged)
      SpineError.Lineaged (insertCuratorItem env s request row neighbors) := by
  refine (insertItem_meets .any trivial).bind fun s' hs' => ?_
  refine card_meets.bind fun c hc => Meets.pure ⟨hs'.2, c.candidate, hc.2.1, hc.2.2⟩

theorem command_meets {request : CuratorEnqueue} {source : MemoryUnit} :
    Meets (·.principalId = request.principalId) SpineError.Lineaged
      (request.command env source) := by
  refine proposalText_meets.bind fun _ _ => ?_
  refine proposalText_meets.bind fun _ _ => ?_
  exact proposalKeywords_meets.bind fun _ _ => .pure rfl

theorem enqueueCurator_meets {item : JudgedFinding} {rest : List JudgedFinding}
    {action : Verdict} {embedding : Embedding} (hunjudged : pass.unjudged = [])
    (hjudged : pass.judged = item :: rest) (haction : item.action = .act action)
    (hnew : item.suppressed = false) :
    Meets (fun r => AdvanceStep s pass (some r.1) r.2) SpineError.Lineaged
      (enqueueCurator env s pass (enqueueOf pass item action) embedding) := by
  unfold enqueueCurator
  split
  · next hfiling =>
    refine Meets.bind (Meets.require trivial) fun head hhead => ?_
    refine memoryRow_meets.bind fun source hsource => Meets.pure ?_
    exact .sourceRead hunjudged hjudged haction hfiling ⟨head, hhead, hsource.1⟩
  · next source hfiling =>
    split
    · next hreplaces =>
      refine Meets.bind command_meets fun command hprincipal => ?_
      refine createCuratorCandidate_meets.bind fun r hr => ?_
      obtain ⟨created, s'⟩ := r
      obtain ⟨hwrites, hnone, hcreated⟩ := hr
      cases created with
      | none =>
        obtain rfl := hnone rfl
        exact .pure (.routed hunjudged)
      | some created =>
        exact .pure (.created hunjudged hjudged haction hfiling hreplaces hwrites
          (hcreated created rfl) hnew hprincipal)
    · next hreplaces =>
      refine Meets.bind insertCuratorItem_meets fun s' hs' => Meets.pure ?_
      exact .filed hunjudged hjudged haction (.inl ⟨hfiling, hreplaces⟩) hs'.1 hs'.2
  · next candidateId neighbors hfiling =>
    refine memoryRow_meets.bind fun candidate hcandidate => Meets.pure ?_
    exact .candidateRead hunjudged hjudged haction hfiling hcandidate.1
  · next candidate neighbors hfiling =>
    refine Meets.bind insertCuratorItem_meets fun s' hs' => Meets.pure ?_
    exact .filed hunjudged hjudged haction (.inr hfiling) hs'.1 hs'.2

theorem route_step {item : JudgedFinding} {rest : List JudgedFinding} {embedding : Embedding}
    (hunjudged : pass.unjudged = []) (hjudged : pass.judged = item :: rest) :
    AdvanceStep s pass (some (route env s pass item embedding).1)
      (route env s pass item embedding).2 := by
  unfold route
  split
  · exact .routed hunjudged
  · next haction =>
    split
    · exact .routed hunjudged
    · next hnew =>
      split
      · next hr =>
        exact (enqueueCurator_meets hunjudged hjudged haction (by simpa using hnew)).of_ok hr
      · exact .routed hunjudged

theorem advance_meets {draft : Option CuratorVerdictDraft} {embedding : Embedding} :
    Meets (fun r => AdvanceStep s pass r.1 r.2) SpineError.Lineaged
      (advance env s pass draft embedding) := by
  unfold advance
  split
  · next hunjudged => exact (judge_meets hunjudged).bind fun _ hr => .pure hr
  · next hunjudged hjudged => exact .ok (route_step hunjudged hjudged)
  · next hunjudged hjudged => exact .ok (.persisted hunjudged hjudged)

section Writes

theorem get?_foldl_persisted {uids : List Ulid}
    {findings : Table Ulid CuratorFinding (·.findingUid)} {uid : Ulid} {f : CuratorFinding}
    (h : findings.get? uid = some f) : ∃ persisted : Bool,
      (uids.foldl (fun findings uid => findings.modify uid (fun f => { f with persisted := true })
        fun _ => rfl) findings).get? uid = some { f with persisted } ∧
      (f.persisted ∨ uid ∈ uids → persisted) := by
  induction uids generalizing findings f with
  | nil => exact ⟨f.persisted, h, by simp⟩
  | cons a uids ih =>
    rw [List.foldl_cons]
    by_cases ha : uid = a
    · subst ha
      have hself : (findings.modify uid (fun f => { f with persisted := true })
          fun _ => rfl).get? uid = some { f with persisted := true } := by
        rw [Table.get?_modify_self, h]
        rfl
      obtain ⟨persisted, hget, hpersisted⟩ := ih hself
      exact ⟨persisted, hget, fun _ => hpersisted (.inl rfl)⟩
    · have hother : (findings.modify a (fun f => { f with persisted := true })
          fun _ => rfl).get? uid = some f := by
        rw [Table.get?_modify_of_ne ha, h]
      obtain ⟨persisted, hget, hpersisted⟩ := ih hother
      refine ⟨persisted, hget, fun hf => hpersisted (hf.imp_right fun huid => ?_)⟩
      exact (List.mem_cons.mp huid).resolve_left ha

theorem persistRun_quiet : s.Quiet (persistRun s pass) :=
  ⟨rfl, rfl, rfl, rfl, rfl, rfl, rfl,
    fun h =>
      have ⟨persisted, hget, hpersisted⟩ := get?_foldl_persisted h
      ⟨persisted, hget, fun hf => hpersisted (.inl hf)⟩,
    fun h => ⟨_, h, fun h => h⟩⟩

theorem Judged.quiet {finding : HealthFinding} {rest : List HealthFinding} {pass' : CuratorPass}
    {s' : Store} (h : Judged s pass finding rest pass' s') : s.Quiet s' := by
  obtain ⟨row, findings, item, hinsert, rfl, _⟩ := h.written
  obtain ⟨hfresh, rfl⟩ := Table.insert?_eq_some.mp hinsert
  exact ⟨rfl, rfl, rfl, rfl, rfl, rfl, rfl,
    fun {_ f} hf => ⟨f.persisted, Table.get?_insert_of_some (h := hfresh) hf, id⟩,
    fun h => ⟨_, h, fun h => h⟩⟩

/-- A curator card, and the verdict it came from. -/
structure FiledCard (pass : CuratorPass) (item : ApprovalQueueItem) : Prop where
  pending : item.state = .pending
  filed : ∃ judged action row revision, judged ∈ pass.judged ∧ judged.action = .act action ∧
    item.verdict = action ∧ item.birthplace = .curator pass.runUid judged.findingUid revision
      judged.proposal ∧
    item.targetIds = (enqueueOf pass judged action).targetIds ∧
    item.candidateMemoryId = row

/-- Everything a curator pass may write: candidates and cards, and no head that exists. -/
def advanceFootprint (pass : CuratorPass) : Footprint :=
  { root := (·.status = .candidate)
    card := FiledCard pass }

theorem AdvanceStep.writes {pass' : Option CuratorPass} {s' : Store}
    (h : AdvanceStep s pass pass' s') : Writes (advanceFootprint pass) s s' := by
  cases h with
  | skip => exact .refl
  | judged _ hjudged => exact hjudged.quiet.writes
  | routed => exact .refl
  | sourceRead => exact .refl
  | created _ _ _ _ _ hwrites =>
    exact hwrites.mono ⟨False.elim, id, False.elim, id, id, id, id⟩
  | candidateRead => exact .refl
  | @filed item _ action row _ _ _ hjudged haction _ hinsert =>
    refine drawn_quiet.writes.tail (.card ⟨rfl, ?_⟩ hinsert)
    exact ⟨item, action, row.id, row.revision, by simp [hjudged], haction, rfl, rfl, rfl, rfl⟩
  | persisted => exact persistRun_quiet.writes

end Writes

end Nocturne.Curation
