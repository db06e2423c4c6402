import Nocturne.Memory.Creations

namespace Nocturne.Memory

open Nocturne.Lib Nocturne.Store

variable {env : Env} {s s' : Store} {c : Creation}

section Reads

/-- A search that is not a duplicate found nothing at the threshold. -/
theorem cosine_lt_of_band {principalId : String} {embedding : Embedding} {band : DedupBand}
    (hband : classifyDedupScore env
      ((dedupMatches env s principalId embedding).head?.map (·.score)) = band)
    (hne : band ≠ .duplicate) {u : MemoryUnit} (hu : u ∈ s.units.rows)
    (hprincipal : u.principalId = principalId) (hactive : u.status = .active) :
    env.cosine u.embedding embedding < env.dedupDup := by
  by_contra hge
  rw [not_lt] at hge
  subst hband
  have hsim : env.dedupSim ≤ env.cosine u.embedding embedding :=
    env.dedup_ordered.2.1.le.trans hge
  let before (a b : SimilarityMemoryCard) : Prop :=
    b.score < a.score ∨ b.score = a.score ∧ a.memoryId ≤ b.memoryId
  have hmem : (⟨u.id, env.cosine u.embedding embedding⟩ : SimilarityMemoryCard) ∈
      dedupMatches env s principalId embedding := by
    unfold dedupMatches
    rw [List.mem_insertionSort, List.mem_map]
    exact ⟨u, by simp [hu, hprincipal, hactive, hsim], rfl⟩
  have hsorted : (dedupMatches env s principalId embedding).Pairwise before := by
    have : IsTrans SimilarityMemoryCard before := ⟨fun a b c hab hbc => by
      simp only [before] at hab hbc ⊢
      rcases hab with h | ⟨h, hid⟩ <;> rcases hbc with h' | ⟨h', hid'⟩
      · exact .inl (h'.trans h)
      · exact .inl (h' ▸ h)
      · exact .inl (h ▸ h')
      · exact .inr ⟨h'.trans h, le_trans hid hid'⟩⟩
    have : Std.Total before := ⟨fun a b => by
      simp only [before]
      rcases lt_trichotomy a.score b.score with h | h | h
      · exact .inr (.inl h)
      · rcases Nat.le_total a.memoryId b.memoryId with hid | hid
        · exact .inl (.inr ⟨h.symm, hid⟩)
        · exact .inr (.inr ⟨h, hid⟩)
      · exact .inl (.inl h)⟩
    exact List.pairwise_insertionSort before _
  cases hfound : dedupMatches env s principalId embedding with
  | nil => simp [hfound] at hmem
  | cons first rest =>
    rw [hfound] at hmem hsorted
    have hfirst : env.dedupDup ≤ first.score := by
      rcases List.mem_cons.mp hmem with rfl | hmem
      · exact hge
      · rcases List.rel_of_pairwise_cons hsorted hmem with h | ⟨h, _⟩
        · exact hge.trans h.le
        · exact hge.trans h.le
    apply hne
    have hdup : ¬first.score < env.dedupSim := not_lt.mpr (env.dedup_ordered.2.1.le.trans hfirst)
    simp [hfound, classifyDedupScore, hdup, not_lt.mpr hfirst]

/-- What the locked reads of a call found before it inserts `embeddings`. -/
structure Clear (env : Env) (s : Store) (principalId : String) (labels : List String)
    (embeddings : List Embedding) : Prop where
  labels : ∀ label ∈ labels, findActiveLabel s principalId label = none
  distinct : ∀ u ∈ s.units.rows, u.principalId = principalId → u.status = .active →
    ∀ embedding ∈ embeddings, env.cosine u.embedding embedding < env.dedupDup

theorem createReads_insert {command : CreateMemoryCommand} {embedding : Embedding}
    (h : (createReads env command embedding).eval s = .insert) :
    Clear env s command.principalId [command.label] [embedding] := by
  simp only [createReads, Reading.eval_read] at h
  split at h
  · cases h
  split at h
  · cases h
  · next hband =>
    simp only [Reading.eval_read] at h
    split at h
    · cases h
    · next hlabel =>
      refine ⟨by simpa using hlabel, fun u hu hprincipal hactive e he => ?_⟩
      obtain rfl := List.mem_singleton.mp he
      exact cosine_lt_of_band rfl hband hu hprincipal hactive

theorem childReads_insert {principalId : String} {children : List (SplitChild × Embedding)}
    (h : (childReads env principalId children).eval s = .insert) :
    Clear env s principalId (children.map (·.1.label)) (children.map (·.2)) := by
  induction children with
  | nil => exact ⟨by simp, by simp⟩
  | cons child rest ih =>
    obtain ⟨child, embedding⟩ := child
    simp only [childReads, Reading.eval_read] at h
    split at h
    · cases h
    · next hlabel =>
      simp only [Reading.eval_read] at h
      split at h
      · cases h
      · cases h
      · next hband =>
        have hrest := ih h
        refine ⟨?_, fun u hu hprincipal hactive => ?_⟩
        · rw [List.map_cons, List.forall_mem_cons]
          exact ⟨hlabel, hrest.labels⟩
        · rw [List.map_cons, List.forall_mem_cons]
          exact ⟨cosine_lt_of_band hband (by simp) hu hprincipal hactive,
            hrest.distinct u hu hprincipal hactive⟩

theorem rejectedReads_insert {principalId : String} {next : Reading Store Verdict}
    {bodies : List String} (h : (rejectedReads principalId next bodies).eval s = .insert) :
    next.eval s = .insert := by
  induction bodies with
  | nil => exact h
  | cons body rest ih =>
    simp only [rejectedReads, Reading.eval_read] at h
    split at h
    · cases h
    · exact ih h

end Reads

section Inserts

/-- The rows an accepted insertion appends. -/
structure Appended (s s' : Store) (rows : List MemoryUnit) : Prop where
  rows : s'.units.rows = s.units.rows ++ rows
  labelled : s.Labelled → s'.Labelled

theorem Appended.trans {t u : Store} {rows more : List MemoryUnit} (h : Appended s t rows)
    (h' : Appended t u more) : Appended s u (rows ++ more) where
  rows := by rw [h'.rows, h.rows, List.append_assoc]
  labelled := h'.labelled ∘ h.labelled

/-- A row as it was asked for. -/
structure Asked (principalId : String) (embedding : Embedding) (status : MemoryStatus)
    (row : MemoryUnit) : Prop where
  principalId : row.principalId = principalId
  embedding : row.embedding = embedding
  status : row.status = status

theorem insertRoot_appended {command : CreateMemoryCommand} {embedding : Embedding}
    {status : MemoryStatus} {r : MemoryUnit × Store}
    (h : insertRoot env s command embedding status = .ok r) :
    Appended s r.2 [r.1] ∧ Asked command.principalId embedding status r.1 := by
  have hwrites := ((insertRoot_meets Footprint.any fun _ _ => trivial).of_ok h).1
  simp only [insertRoot, insertUnit, insertRevision, bind_eq_ok, ensure_eq_ok, require_eq_ok,
    pure_eq_ok] at h
  obtain ⟨t, ⟨_, _, _, _, _, hlabel, units, hunits, rfl⟩, w, ⟨_, _, revisions, hrevisions, rfl⟩,
    rfl⟩ := h
  obtain ⟨hunit, rfl⟩ := Table.insert?_eq_some.mp hunits
  exact ⟨⟨rfl, hwrites.labelled⟩, ⟨rfl, rfl, rfl⟩⟩

theorem insertChildren_appended {command : SplitChild → CreateMemoryCommand} {principalId : String}
    (hprincipal : ∀ child, (command child).principalId = principalId)
    {children : List (SplitChild × Embedding)} {r : List MemoryUnit × Store}
    (h : insertChildren env command s children = .ok r) :
    Appended s r.2 r.1 ∧
      List.Forall₂ (fun child row => Asked principalId child.2 .active row) children r.1 := by
  induction children generalizing s r with
  | nil =>
    simp only [insertChildren, Except.ok.injEq] at h
    subst h
    exact ⟨⟨by simp, id⟩, .nil⟩
  | cons child rest ih =>
    obtain ⟨child, embedding⟩ := child
    simp only [insertChildren, bind_eq_ok, pure_eq_ok] at h
    obtain ⟨⟨row, t⟩, hroot, ⟨rows, s'⟩, hrest, rfl⟩ := h
    obtain ⟨happended, hasked⟩ := insertRoot_appended hroot
    obtain ⟨happended', hasked'⟩ := ih hrest
    exact ⟨happended.trans happended', .cons (hprincipal child ▸ hasked) hasked'⟩

theorem relateSiblings_appended {ids : List Uuid} (h : relateSiblings s ids = .ok s') :
    Appended s s' [] where
  rows := by rw [(relateSiblings_meets.of_ok h).units, List.append_nil]
  labelled := (relateSiblings_meets.of_ok h).writes (φ := Footprint.any) |>.labelled

end Inserts

section Calls

/-- What a call that created memories left. -/
structure Made (env : Env) (c : Creation) (s s' : Store) (memories : List MemoryUnit) : Prop where
  appended : ∃ sources, Appended s s' (sources ++ memories) ∧
    ∀ u ∈ sources, u.status = .tombstoned
  active : ∀ m ∈ memories, m.status = .active ∧ m.principalId = c.principalId
  distinct : ∀ m ∈ memories, ∀ u ∈ s.units.rows, u.principalId = c.principalId →
    u.status = .active → env.cosine u.embedding m.embedding < env.dedupDup

theorem ok_of_labelRace {principalId : String} {labels : List String} {α : Type}
    {inserted : Except SpineError α} {r : α}
    (h : labelRace s principalId labels inserted = .ok r) : inserted = .ok r := by
  unfold labelRace at h
  split at h
  · split at h <;> cases h
  · exact h

theorem begin_appended (session : Session) : Appended s (s.begin session) [] where
  rows := by simp [Store.begin]
  labelled h := h.congr rfl

theorem made_of_insert {memories : List MemoryUnit}
    (hread : (creationReads env c).eval s = .insert)
    (h : creationInsert env c (s.begin c.session) = .ok (memories, s')) :
    Made env c s s' memories := by
  unfold creationReads at hread
  unfold creationInsert at h
  split at hread
  · next command embedding rest hrequest hvectors =>
    simp only [hrequest, hvectors, createInsert, bind_eq_ok, pure_eq_ok] at h
    obtain ⟨⟨row, t⟩, hrow, row', hcontract, heq⟩ := h
    obtain ⟨happended, hasked⟩ := insertRoot_appended (ok_of_labelRace hrow)
    obtain rfl := (contractMemory_meets.of_ok hcontract).1
    cases heq
    have hclear := createReads_insert hread
    have hprincipal : c.principalId = command.principalId := by
      simp [Creation.principalId, CreationRequest.principalId, hrequest]
    refine ⟨⟨[], (begin_appended c.session).trans happended, by simp⟩, ?_, ?_⟩
    · intro m hm
      obtain rfl := List.mem_singleton.mp hm
      exact ⟨hasked.status, hasked.principalId.trans hprincipal.symm⟩
    · intro m hm u hu huPrincipal hactive
      obtain rfl := List.mem_singleton.mp hm
      rw [hasked.embedding]
      exact hclear.distinct u hu (huPrincipal.trans hprincipal) hactive _ (by simp)
  · next command source children hrequest hvectors =>
    simp only [hrequest, hvectors, splitInsert] at h
    have hfamily := ok_of_labelRace h
    simp only [familyInsert, bind_eq_ok] at hfamily
    obtain ⟨⟨row, t⟩, hsource, hfamily⟩ := hfamily
    obtain ⟨happended, hasked⟩ := insertRoot_appended hsource
    split at hfamily
    · cases hfamily
    · next sourceUid _ _ =>
      simp only [bind_eq_ok, pure_eq_ok] at hfamily
      obtain ⟨⟨rows, w⟩, hchildren, w', hrelated, heq⟩ := hfamily
      cases heq
      obtain ⟨happended', hasked'⟩ := insertChildren_appended
        (fun _ => (rfl : _ = command.principalId)) hchildren
      have hclear := childReads_insert (rejectedReads_insert hread)
      have hprincipal : c.principalId = command.principalId := by
        simp [Creation.principalId, CreationRequest.principalId, hrequest]
      have hall := ((begin_appended c.session).trans happended).trans
        (happended'.trans (relateSiblings_appended hrelated))
      refine ⟨⟨[row], by simpa using hall, by simpa using hasked.status⟩, ?_, ?_⟩
      · intro m hm
        obtain ⟨child, _, hchild⟩ := forall₂_of_mem_right hasked' hm
        exact ⟨hchild.status, hchild.principalId.trans hprincipal.symm⟩
      · intro m hm u hu huPrincipal hactive
        obtain ⟨child, hmem, hchild⟩ := forall₂_of_mem_right hasked' hm
        rw [hchild.embedding]
        exact hclear.distinct u hu (huPrincipal.trans hprincipal) hactive _
          (List.mem_map_of_mem hmem)
  · cases hread

/-- A call that created nothing. -/
def Uncreated (outcome : CreationOutcome) : Prop := ∀ memories, outcome ≠ .created memories

/-- Under the lock a call creates its memories or leaves the store as it was. -/
theorem locked_cases (env : Env) (c : Creation) (s : Store) :
    (Uncreated ((creations env).locked c s).1 ∧ ((creations env).locked c s).2 = s) ∨
      ∃ memories, ((creations env).locked c s).1 = .created memories ∧
        Made env c s ((creations env).locked c s).2 memories := by
  have hlocked : (creations env).locked c s
      = creationWrite env c ((creationReads env c).eval s) s := rfl
  rw [hlocked]
  unfold creationWrite
  split
  · exact .inl ⟨fun _ => by simp, rfl⟩
  · exact .inl ⟨fun _ => by simp, rfl⟩
  · next hread =>
    split
    · next memories s' hinsert => exact .inr ⟨memories, rfl, made_of_insert hread hinsert⟩
    · exact .inl ⟨fun _ => by simp, rfl⟩

/-- No row is lost to a call. -/
theorem rows_locked (c : Creation) (s : Store) {u : MemoryUnit} (hu : u ∈ s.units.rows) :
    u ∈ ((creations env).locked c s).2.units.rows := by
  rcases locked_cases env c s with ⟨_, hstore⟩ | ⟨_, _, hmade⟩
  · rw [hstore]
    exact hu
  · obtain ⟨sources, happended, _⟩ := hmade.appended
    rw [happended.rows]
    exact List.mem_append_left _ hu

theorem isSome_labelTest {principalId label : String} :
    (labelTest principalId label s).isSome ↔ ∃ u ∈ s.units.rows, u.principalId = principalId ∧
      u.label = label ∧ u.status = .active := by
  unfold labelTest
  rw [Option.isSome_map, Option.isSome_iff_ne_none, ne_eq, findActiveLabel_eq_none]
  push Not
  rfl

/-- A test that the same call passes in one store and fails in another looks for a label. -/
theorem test_cases {test : Store → Option CreationOutcome} (h : test ∈ earlyTests env c) :
    (∀ s t, test s = test t) ∨ ∃ command child, c.request = .split command ∧
      child ∈ command.children ∧ test = labelTest command.principalId child.label := by
  unfold earlyTests at h
  split at h
  · simp only [List.mem_cons, List.not_mem_nil, or_false] at h
    rcases h with rfl | rfl | rfl <;> exact .inl fun _ _ => rfl
  · next command hrequest =>
    simp only [List.cons_append, List.mem_cons, List.mem_append, List.mem_map, List.not_mem_nil,
      or_false] at h
    rcases h with rfl | ⟨child, hchild, rfl⟩ | rfl
    · exact .inl fun _ _ => rfl
    · exact .inr ⟨command, child, hrequest, hchild, rfl⟩
    · exact .inl fun _ _ => rfl

theorem quiet_of_test {test : Store → Option CreationOutcome} {outcome : CreationOutcome}
    (h : test ∈ earlyTests env c) (hsome : test s = some outcome) : Uncreated outcome := by
  have hrefusalOf {check : Except SpineError Unit} (h : refusalOf check = some outcome) :
      Uncreated outcome := by
    unfold refusalOf at h
    split at h
    · cases h
    · cases h
      exact fun _ => by simp
  have hembedding (h : embeddingTest c = some outcome) : Uncreated outcome := by
    unfold embeddingTest at h
    split at h
    · cases h
      exact fun _ => by simp
    · cases h
  unfold earlyTests at h
  split at h
  · simp only [List.mem_cons, List.not_mem_nil, or_false] at h
    rcases h with rfl | rfl | rfl
    · exact hrefusalOf hsome
    · exact hrefusalOf hsome
    · exact hembedding hsome
  · simp only [List.cons_append, List.mem_cons, List.mem_append, List.mem_map, List.not_mem_nil,
      or_false] at h
    rcases h with rfl | ⟨child, _, rfl⟩ | rfl
    · exact hrefusalOf hsome
    · simp only [labelTest, Option.map_eq_some_iff] at hsome
      obtain ⟨_, _, rfl⟩ := hsome
      exact fun _ => by simp
    · exact hembedding hsome

/-- What the preflight of a split finds it would find again under the lock, whatever is created
in between. -/
theorem creations_sound (env : Env) : (creations env).Sound Uncreated where
  early := quiet_of_test
  stable := by
    intro c d s h
    rw [Protocol.isSome_refusal] at h ⊢
    obtain ⟨test, htest, hsome⟩ := h
    refine ⟨test, htest, ?_⟩
    rcases test_cases htest with hconst | ⟨command, child, _, _, rfl⟩
    · rw [hconst _ s]
      exact hsome
    · rw [isSome_labelTest] at hsome ⊢
      obtain ⟨u, hu, hlabel⟩ := hsome
      exact ⟨u, rows_locked d s hu, hlabel⟩
  recheck := by
    intro c s hpassed h
    rw [Protocol.isSome_refusal] at h
    obtain ⟨test, htest, hsome⟩ := h
    rcases test_cases htest with hconst | ⟨command, child, hrequest, hchild, rfl⟩
    · obtain ⟨t, ht⟩ := hpassed test htest
      rw [hconst s t, ht] at hsome
      cases hsome
    rcases locked_cases env c s with hquiet | ⟨memories, hcreated, _⟩
    · exact hquiet
    -- a family is not created while one of its labels is taken
    exfalso
    have hread : (creationReads env c).eval s = .insert := by
      have hlocked : ((creations env).locked c s).1
          = (creationWrite env c ((creationReads env c).eval s) s).1 := rfl
      rw [hcreated] at hlocked
      cases hverdict : (creationReads env c).eval s with
      | insert => rfl
      | refused error => simp [hverdict, creationWrite] at hlocked
      | similar cards => simp [hverdict, creationWrite] at hlocked
    unfold creationReads at hread
    rw [hrequest] at hread
    cases hvectors : c.vectors with
    | none => simp [hvectors] at hread
    | some vectors =>
      cases vectors with
      | nil => simp [hvectors] at hread
      | cons source children =>
        simp only [hvectors] at hread
        have hclear := childReads_insert (rejectedReads_insert hread)
        have hlength : (source :: children).length = c.request.bodies.length := by
          have hfilter := Option.filter_eq_some_iff.mp hvectors
          simpa using hfilter.2
        have hmem : child.label ∈ (command.children.zip children).map (·.1.label) := by
          have hsame : children.length = command.children.length := by
            simpa [hrequest, CreationRequest.bodies] using hlength
          have hfst : (command.children.zip children).map Prod.fst = command.children :=
            List.map_fst_zip hsame.ge
          have hlabels : (command.children.zip children).map (·.1.label)
              = command.children.map SplitChild.label := by
            conv_rhs => rw [← hfst, List.map_map]
            rfl
          rw [hlabels]
          exact List.mem_map_of_mem hchild
        have hnone := hclear.labels child.label hmem
        simp [labelTest, hnone] at hsome

end Calls

section Atomic

theorem createReads_eq_insert {command : CreateMemoryCommand} {embedding : Embedding} :
    (createReads env command embedding).eval s = .insert ↔
      ¬rejectedBody s command.principalId command.body ∧
        findActiveLabel s command.principalId command.label = none ∧
        let found := dedupMatches env s command.principalId embedding
        let band := classifyDedupScore env (found.head?.map (·.score))
        band ≠ .duplicate ∧ ¬(band = .similar ∧ command.force = false) := by
  simp only [createReads, Reading.eval_read]
  split
  · next hrejected => simp [hrejected]
  · next hrejected =>
    split
    · next hband => simp [hband]
    · next hband =>
      simp only [Reading.eval_read]
      split
      · next hlabel => simp [hlabel]
      · next hlabel =>
        split
        · next hforce => simp [hforce]
        · next hforce => simp [hrejected, hband, hlabel, hforce]

theorem childReads_eq_insert {principalId : String} {children : List (SplitChild × Embedding)} :
    (childReads env principalId children).eval s = .insert ↔
      splitRefusal env s principalId children = .ok none := by
  induction children with
  | nil => simp [childReads, splitRefusal]
  | cons child rest ih =>
    obtain ⟨child, embedding⟩ := child
    simp only [childReads, Reading.eval_read]
    unfold splitRefusal
    cases hlabel : findActiveLabel s principalId child.label with
    | some conflict => simp
    | none =>
      simp only [Reading.eval_read]
      cases classifyDedupScore env
        ((dedupMatches env s principalId embedding).head?.map (·.score)) with
      | duplicate => simp
      | similar => simp
      | distinct => exact ih

theorem rejectedReads_eq_insert {principalId : String} {next : Reading Store Verdict}
    {bodies : List String} : (rejectedReads principalId next bodies).eval s = .insert ↔
      (∀ body ∈ bodies, ¬rejectedBody s principalId body) ∧ next.eval s = .insert := by
  induction bodies with
  | nil => simp [rejectedReads]
  | cons body rest ih =>
    simp only [rejectedReads, Reading.eval_read, List.forall_mem_cons]
    split
    · next hrejected => simp [hrejected]
    · next hrejected => simp [hrejected, ih]

theorem labelRace_ok {principalId : String} {labels : List String} {α : Type}
    {inserted : Except SpineError α} {r : α} :
    labelRace s principalId labels inserted = .ok r ↔ inserted = .ok r :=
  ⟨ok_of_labelRace, fun h => by rw [h]; rfl⟩

theorem locked_eq_created {memories : List MemoryUnit} :
    (creations env).locked c s = (.created memories, s') ↔
      (creationReads env c).eval s = .insert ∧
        creationInsert env c (s.begin c.session) = .ok (memories, s') := by
  have hlocked : (creations env).locked c s
      = creationWrite env c ((creationReads env c).eval s) s := rfl
  rw [hlocked]
  unfold creationWrite
  split
  · next hread => simp [hread]
  · next hread => simp [hread]
  · next hread =>
    split
    · next hinsert => simp [hread, hinsert]
    · next hinsert => simp [hread, hinsert]

/-- The locked pass of a create is the create of a principal without other calls in flight. -/
theorem locked_create {command : CreateMemoryCommand} {embedding : Embedding} {row : MemoryUnit}
    (hrequest : c.request = .create command) (hvectors : c.vectors = some [embedding])
    (hlabel : validateLabel env command.label = .ok ())
    (hbody : validateBody env command.body = .ok ()) :
    (creations env).locked c s = (.created [row], s') ↔
      create env (s.begin c.session) command embedding = .ok (.created row, s') := by
  rw [locked_eq_created]
  unfold creationReads creationInsert createInsert
  simp only [hrequest, hvectors, createReads_eq_insert, bind_eq_ok, pure_eq_ok, labelRace_ok]
  unfold create
  rw [hlabel, ok_bind, hbody, ok_bind]
  simp only [bind_eq_ok, ensure_eq_ok]
  constructor
  · rintro ⟨⟨hrejected, hopen, hband, hforce⟩, ⟨unit, t⟩, hinsert, row', hcontract, heq⟩
    cases heq
    refine ⟨.unit, hrejected, .unit, hband, ?_⟩
    have hopen' : findActiveLabel (s.begin c.session) command.principalId command.label = none :=
      hopen
    rw [hopen']
    refine (if_neg hforce).trans ?_
    simp only [bind_eq_ok, pure_eq_ok]
    exact ⟨(unit, t), hinsert, row, hcontract, rfl⟩
  · rintro ⟨_, hrejected, _, hband, h⟩
    split at h
    · cases h
    · next hopen =>
      split at h
      · simp at h
      · next hforce =>
        simp only [bind_eq_ok, pure_eq_ok] at h
        obtain ⟨⟨unit, t⟩, hinsert, row', hcontract, heq⟩ := h
        cases heq
        exact ⟨⟨hrejected, hopen, hband, hforce⟩, (unit, t), hinsert, row, hcontract, rfl⟩

/-- What a split looks at does not depend on its own draws. -/
theorem splitRefusal_begin (session : Session) (principalId : String)
    (children : List (SplitChild × Embedding)) :
    splitRefusal env (s.begin session) principalId children
      = splitRefusal env s principalId children := by
  induction children with
  | nil => rfl
  | cons child rest ih =>
    unfold splitRefusal
    rw [ih]
    rfl

/-- The locked pass of a split is the split of a principal without other calls in flight. -/
theorem locked_split {command : SplitMemoryCommand} {source : Embedding}
    {children : List Embedding} {rows : List MemoryUnit} (hrequest : c.request = .split command)
    (hvectors : c.vectors = some (source :: children))
    (hvalid : validateSplit env command = .ok ())
    (hlength : children.length = command.children.length) :
    (creations env).locked c s = (.created rows, s') ↔ ∃ parent,
      split env (s.begin c.session) command source children = .ok (.created parent rows, s') := by
  rw [locked_eq_created]
  unfold creationReads creationInsert splitInsert
  simp only [hrequest, hvectors, rejectedReads_eq_insert, childReads_eq_insert, labelRace_ok]
  unfold split
  rw [hvalid, ok_bind, ensure_pos hlength, ok_bind]
  simp only [bind_eq_ok, ensure_eq_ok]
  constructor
  · rintro ⟨⟨hrejected, hrefusal⟩, hfamily⟩
    simp only [familyInsert, bind_eq_ok] at hfamily
    obtain ⟨⟨parent, t⟩, hsource, hfamily⟩ := hfamily
    rw [← splitRefusal_begin c.session] at hrefusal
    refine ⟨parent, .unit, hrejected, none, hrefusal, ?_⟩
    simp only [bind_eq_ok]
    refine ⟨(parent, t), hsource, ?_⟩
    split at hfamily
    · cases hfamily
    · next hparent =>
      simp only [bind_eq_ok, pure_eq_ok] at hfamily
      obtain ⟨⟨rows', w⟩, hchildren, w', hrelated, heq⟩ := hfamily
      cases heq
      simp only [hparent, bind_eq_ok, pure_eq_ok]
      exact ⟨(rows', w), hchildren, s', hrelated, rfl⟩
  · rintro ⟨parent, _, hrejected, refusal, hrefusal, h⟩
    cases refusal with
    | some cards => simp at h
    | none =>
      rw [splitRefusal_begin] at hrefusal
      refine ⟨⟨hrejected, hrefusal⟩, ?_⟩
      simp only [bind_eq_ok] at h
      obtain ⟨⟨parent', t⟩, hsource, h⟩ := h
      simp only [familyInsert, bind_eq_ok]
      refine ⟨(parent', t), hsource, ?_⟩
      split at h
      · cases h
      · next hparent =>
        simp only [bind_eq_ok, pure_eq_ok] at h
        obtain ⟨⟨rows', w⟩, hchildren, w', hrelated, heq⟩ := h
        cases heq
        simp only [hparent, bind_eq_ok, pure_eq_ok]
        exact ⟨(rows', w), hchildren, s', hrelated, rfl⟩

end Atomic

section Replay

/-- What calls of one principal made one after the other leave. -/
structure Grown (env : Env) (principalId : String) (s : Store) (outcomes : List CreationOutcome)
    (s' : Store) : Prop where
  kept : ∀ u ∈ s.units.rows, u ∈ s'.units.rows
  active : ∀ u ∈ s'.units.rows, u.status = .active →
    u ∈ s.units.rows ∨ ∃ o ∈ outcomes, u ∈ o.memories
  made : ∀ o ∈ outcomes, ∀ m ∈ o.memories, m ∈ s'.units.rows ∧ m.status = .active ∧
    ∀ u ∈ s.units.rows, u.principalId = principalId → u.status = .active →
      env.cosine u.embedding m.embedding < env.dedupDup
  apart : outcomes.Pairwise fun a b => ∀ u ∈ a.memories, ∀ m ∈ b.memories,
    env.cosine u.embedding m.embedding < env.dedupDup
  labelled : s.Labelled → s'.Labelled

theorem Uncreated.memories {outcome : CreationOutcome} (h : Uncreated outcome) :
    outcome.memories = [] := by
  cases outcome with
  | created memories => exact absurd rfl (h memories)
  | refused | unembedded | similar => rfl

/-- One call by itself. -/
theorem serial_cases (env : Env) (c : Creation) (s : Store) :
    (Uncreated ((creations env).serial c s).1 ∧ ((creations env).serial c s).2 = s) ∨
      ∃ memories, ((creations env).serial c s).1 = .created memories ∧
        Made env c s ((creations env).serial c s).2 memories := by
  unfold Protocol.serial
  split
  · next outcome hrefusal =>
    obtain ⟨test, htest, hsome⟩ := List.exists_of_findSome?_eq_some hrefusal
    exact .inl ⟨quiet_of_test htest hsome, rfl⟩
  · exact locked_cases env c s

theorem grown_replay (env : Env) {principalId : String} {cs : List Creation}
    (hcs : ∀ c ∈ cs, c.principalId = principalId) (s : Store) :
    Grown env principalId s ((creations env).replay s cs).1 ((creations env).replay s cs).2 := by
  induction cs generalizing s with
  | nil => exact ⟨fun _ => id, fun _ hu _ => .inl hu, by simp [Protocol.replay], .nil, id⟩
  | cons c cs ih =>
    have hrest := ih (fun d hd => hcs d (List.mem_cons_of_mem _ hd)) ((creations env).serial c s).2
    simp only [Protocol.replay]
    rcases serial_cases env c s with ⟨hquiet, hstore⟩ | ⟨memories, hcreated, hmade⟩
    · have hnone : ((creations env).serial c s).1.memories = [] := hquiet.memories
      rw [hstore] at hrest ⊢
      refine ⟨hrest.kept, fun u hu hactive => ?_, ?_, ?_, hrest.labelled⟩
      · rcases hrest.active u hu hactive with h | ⟨o, ho, hm⟩
        · exact .inl h
        · exact .inr ⟨o, List.mem_cons_of_mem _ ho, hm⟩
      · rw [List.forall_mem_cons]
        exact ⟨by simp [hnone], hrest.made⟩
      · rw [List.pairwise_cons]
        exact ⟨by simp [hnone], hrest.apart⟩
    · obtain ⟨sources, happended, hsources⟩ := hmade.appended
      have hmemories : ((creations env).serial c s).1.memories = memories := by rw [hcreated]; rfl
      have hprincipal := hcs c List.mem_cons_self
      have hrow {u : MemoryUnit} (hu : u ∈ s.units.rows) :
          u ∈ ((creations env).serial c s).2.units.rows := by
        rw [happended.rows]
        exact List.mem_append_left _ hu
      have hmem {m : MemoryUnit} (hm : m ∈ memories) :
          m ∈ ((creations env).serial c s).2.units.rows := by
        rw [happended.rows]
        exact List.mem_append_right _ (List.mem_append_right _ hm)
      refine ⟨fun u hu => hrest.kept u (hrow hu), fun u hu hactive => ?_, ?_, ?_,
        hrest.labelled ∘ happended.labelled⟩
      · rcases hrest.active u hu hactive with h | ⟨o, ho, hm⟩
        · rw [happended.rows, List.mem_append, List.mem_append] at h
          rcases h with h | h | h
          · exact .inl h
          · rw [hsources u h] at hactive
            cases hactive
          · exact .inr ⟨_, List.mem_cons_self, hmemories ▸ h⟩
        · exact .inr ⟨o, List.mem_cons_of_mem _ ho, hm⟩
      · rw [List.forall_mem_cons, hmemories]
        refine ⟨fun m hm => ⟨hrest.kept m (hmem hm), (hmade.active m hm).1, fun u hu hp ha => ?_⟩,
          fun o ho m hm => ?_⟩
        · exact hmade.distinct m hm u hu (hp.trans hprincipal.symm) ha
        · obtain ⟨hin, hactive, hdistinct⟩ := hrest.made o ho m hm
          exact ⟨hin, hactive, fun u hu => hdistinct u (hrow hu)⟩
      · rw [List.pairwise_cons, hmemories]
        refine ⟨fun o ho u hu m hm => ?_, hrest.apart⟩
        obtain ⟨hactive, hcall⟩ := hmade.active u hu
        exact (hrest.made o ho m hm).2.2 u (hmem hu) (hcall.trans hprincipal) hactive

end Replay

/-- The memory is one that the call created. -/
def MadeBy (s : Protocol.State Store Creation Verdict CreationOutcome) (k : ℕ) (u : MemoryUnit) :
    Prop :=
  ∃ c memories, s.calls[k]? = some ⟨c, .over (.created memories)⟩ ∧ u ∈ memories

def OfPrincipal (principalId : String)
    (_ : Protocol.State Store Creation Verdict CreationOutcome) : Protocol.Action Creation → Prop
  | .begin c => c.principalId = principalId
  | .test _ | .lock _ | .read _ | .commit _ | .abort _ => True

theorem principal_of_reachable {principalId : String} {Start : Store → Prop}
    {s : Protocol.State Store Creation Verdict CreationOutcome}
    (h : ((creations env).machine Start).ReachableBy (OfPrincipal principalId) s) :
    ∀ call ∈ s.calls, call.call.principalId = principalId :=
  Protocol.calls_of_reachableBy (G := fun c => c.principalId = principalId)
    (fun {_ _} hguard => hguard) h

section Small

private def oneHot : Env :=
  { characterEnv with
    dedupDup := 1
    dedupSim := 0
    cl100kTokenCount := fun _ => 1
    cosine := fun a b => if a = b then 1 else -1
    dedup_ordered := by decide }

private def fresh : Store where
  units := .empty
  revisions := .empty
  edges := .empty
  items := .empty
  decisions := .empty
  resolutions := .empty
  findings := .empty
  threads := .empty
  events := .empty
  configs := .empty
  session := ⟨0, []⟩

private def saving (label : String) (embedding : Embedding) (draws : List ℕ) : Creation where
  request := .create
    { principalId := "p", label, body := label, kind := .fact, editor := "human", machineId := "m" }
  embeddings := some [embedding]
  session := ⟨0, draws⟩

/-- Two creates whose checks before the lock overlap. -/
private def overlapping : List (Protocol.Action Creation) :=
  [.begin (saving "a" [1, 0] [10, 11]), .begin (saving "b" [0, 1] [20, 21]), .test 0, .test 1,
    .test 1, .test 0, .test 0, .test 1, .lock 1, .read 1, .read 1, .read 1, .commit 1, .lock 0,
    .read 0, .read 0, .read 0, .commit 0]

end Small

end Nocturne.Memory
