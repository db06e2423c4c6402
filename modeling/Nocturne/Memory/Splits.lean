import Nocturne.Memory.Serial

namespace Nocturne.Memory

open Nocturne.Lib Nocturne.Store

variable {env : Env} {s s' t : Store}

section Wrote

/-- What an accepted insertion of a root wrote: one head, and its first revision. -/
structure Wrote (s : Store) (status : MemoryStatus) (command : CreateMemoryCommand)
    (r : MemoryUnit × Store) : Prop where
  head : r.1.status = status ∧ r.1.principalId = command.principalId
  units : r.2.units.rows = s.units.rows ++ [r.1]
  revisions : ∃ revision : MemoryRevision, r.2.revisions.rows = s.revisions.rows ++ [revision] ∧
    revision.memoryId = r.1.id ∧ revision.revision = 1 ∧ revision.parentUid = command.parentUid
  edges : r.2.edges = s.edges

theorem insertRoot_wrote {command : CreateMemoryCommand} {embedding : Embedding}
    {status : MemoryStatus} {r : MemoryUnit × Store}
    (h : insertRoot env s command embedding status = .ok r) : Wrote s status command r := by
  simp only [insertRoot, insertUnit, insertRevision, bind_eq_ok, ensure_eq_ok, require_eq_ok,
    pure_eq_ok] at h
  obtain ⟨t, ⟨_, _, _, _, _, _, units, hunits, rfl⟩, w, ⟨_, _, revisions, hrevisions, rfl⟩,
    rfl⟩ := h
  obtain ⟨hunit, rfl⟩ := Table.insert?_eq_some.mp hunits
  obtain ⟨hrevision, rfl⟩ := Table.insert?_eq_some.mp hrevisions
  exact ⟨⟨rfl, rfl⟩, rfl, ⟨_, rfl, rfl, rfl, rfl⟩, rfl⟩

/-- A first revision of a head, parented on the given revision. -/
def FirstRevision (parentUid : Option Ulid) (row : MemoryUnit) (revision : MemoryRevision) : Prop :=
  revision.memoryId = row.id ∧ revision.revision = 1 ∧ revision.parentUid = parentUid

/-- What an accepted insertion of children wrote. -/
structure WroteChildren (s : Store) (principalId : String) (parentUid : Option Ulid) (n : ℕ)
    (r : List MemoryUnit × Store) : Prop where
  count : r.1.length = n
  heads : ∀ row ∈ r.1, row.status = .active ∧ row.principalId = principalId
  units : r.2.units.rows = s.units.rows ++ r.1
  revisions : ∃ revisions, r.2.revisions.rows = s.revisions.rows ++ revisions ∧
    List.Forall₂ (FirstRevision parentUid) r.1 revisions
  edges : r.2.edges = s.edges

theorem insertChildren_wrote {command : SplitChild → CreateMemoryCommand} {principalId : String}
    {parentUid : Option Ulid} {children : List (SplitChild × Embedding)}
    {r : List MemoryUnit × Store}
    (hprincipal : ∀ child, (command child).principalId = principalId)
    (hparent : ∀ child, (command child).parentUid = parentUid)
    (h : insertChildren env command s children = .ok r) :
    WroteChildren s principalId parentUid children.length r := by
  induction children generalizing s r with
  | nil =>
    simp only [insertChildren, Except.ok.injEq] at h
    subst h
    exact ⟨rfl, by simp, by simp, ⟨[], by simp, .nil⟩, rfl⟩
  | cons child rest ih =>
    obtain ⟨child, embedding⟩ := child
    simp only [insertChildren, bind_eq_ok, pure_eq_ok] at h
    obtain ⟨⟨row, t⟩, hroot, ⟨rows, s'⟩, hrest, rfl⟩ := h
    obtain ⟨⟨hstatus, howner⟩, hunits, ⟨revision, hrevision, hfirst⟩, hedges⟩ :=
      insertRoot_wrote hroot
    obtain ⟨hcount, hheads, hunits', ⟨revisions, hrevisions, hfirsts⟩, hedges'⟩ := ih hrest
    dsimp only at hunits hrevision hunits' hrevisions hheads hstatus howner ⊢
    refine ⟨by rw [List.length_cons, hcount, List.length_cons], ?_, ?_,
      ⟨revision :: revisions, ?_, .cons (hparent child ▸ hfirst) hfirsts⟩, hedges'.trans hedges⟩
    · rw [List.forall_mem_cons]
      exact ⟨⟨hstatus, howner.trans (hprincipal child)⟩, hheads⟩
    · rw [hunits', hunits, List.append_assoc, List.singleton_append]
    · rw [hrevisions, hrevision, List.append_assoc, List.singleton_append]

end Wrote

section Pairs

/-- Both ways between every two of the heads. -/
def siblingPairs (ids : List Uuid) : List (Uuid × Uuid) :=
  ids.flatMap fun left => (ids.filter (left ≠ ·)).map (left, ·)

theorem mem_siblingPairs {ids : List Uuid} {a b : Uuid} :
    (a, b) ∈ siblingPairs ids ↔ a ∈ ids ∧ b ∈ ids ∧ a ≠ b := by
  simp only [siblingPairs, List.mem_flatMap, List.mem_map, List.mem_filter, decide_eq_true_eq,
    Prod.mk.injEq]
  constructor
  · rintro ⟨_, ha, _, ⟨hb, hne⟩, rfl, rfl⟩
    exact ⟨ha, hb, hne⟩
  · rintro ⟨ha, hb, hne⟩
    exact ⟨a, ha, b, ⟨hb, hne⟩, rfl, rfl⟩

theorem length_siblingPairs {ids : List Uuid} (h : ids.Nodup) :
    (siblingPairs ids).length = ids.length * (ids.length - 1) := by
  have hothers : ∀ left ∈ ids, (ids.filter (left ≠ ·)).length = ids.length - 1 := by
    intro left hleft
    have herase := List.Nodup.erase_eq_filter h left
    rw [← List.length_erase_of_mem hleft, herase]
    congr 1
    refine List.filter_congr fun other _ => ?_
    rw [Bool.eq_iff_iff, bne_iff_ne, decide_eq_true_eq]
    exact ne_comm
  rw [siblingPairs, List.length_flatMap]
  simp only [List.length_map]
  rw [List.map_congr_left hothers, List.map_const', List.sum_replicate_nat]

theorem nodup_siblingPairs {ids : List Uuid} (h : ids.Nodup) : (siblingPairs ids).Nodup := by
  rw [siblingPairs, List.nodup_flatMap]
  refine ⟨fun left _ => (h.filter _).map (Prod.mk_right_injective left), ?_⟩
  refine h.imp fun hne => ?_
  simp only [Function.onFun, List.disjoint_left, List.mem_map]
  rintro _ ⟨_, _, rfl⟩ ⟨_, _, heq⟩
  exact hne (Prod.mk.inj heq).1.symm

end Pairs

section Edges

/-- The ends of an edge. -/
def MemoryEdge.ends (edge : MemoryEdge) : Uuid × Uuid := (edge.fromMemoryId, edge.toMemoryId)

/-- `relates_to` edges written between the given ends, and nothing else. -/
structure WroteEdges (s : Store) (pairs : List (Uuid × Uuid)) (s' : Store) : Prop where
  units : s'.units = s.units
  revisions : s'.revisions = s.revisions
  edges : ∃ edges, s'.edges.rows = s.edges.rows ++ edges ∧
    edges.map MemoryEdge.ends = pairs ∧ ∀ edge ∈ edges, edge.edgeType = .relatesTo

theorem WroteEdges.refl (s : Store) : WroteEdges s [] s :=
  ⟨rfl, rfl, [], by simp, rfl, by simp⟩

theorem WroteEdges.trans {pairs pairs' : List (Uuid × Uuid)} (h : WroteEdges s pairs t)
    (h' : WroteEdges t pairs' s') : WroteEdges s (pairs ++ pairs') s' := by
  obtain ⟨edges, hrows, hends, htype⟩ := h.edges
  obtain ⟨edges', hrows', hends', htype'⟩ := h'.edges
  refine ⟨h'.units.trans h.units, h'.revisions.trans h.revisions, edges ++ edges', ?_, ?_, ?_⟩
  · rw [hrows', hrows, List.append_assoc]
  · rw [List.map_append, hends, hends']
  · intro edge hedge
    exact (List.mem_append.mp hedge).elim (htype edge) (htype' edge)

theorem relateTo_wrote {left : Uuid} {rights : List Uuid}
    (h : rights.foldlM (relateTo left) s = .ok s') :
    WroteEdges s ((rights.filter (left ≠ ·)).map (left, ·)) s' := by
  induction rights generalizing s with
  | nil =>
    simp only [List.foldlM_nil, pure_eq_ok] at h
    subst h
    exact .refl s
  | cons right rest ih =>
    simp only [List.foldlM_cons, bind_eq_ok] at h
    obtain ⟨t, hfirst, hrest⟩ := h
    unfold relateTo at hfirst
    split at hfirst
    · next hsame =>
      obtain rfl := Except.ok.inj hfirst
      simpa [List.filter_cons, hsame] using ih hrest
    · next hne =>
      obtain ⟨_, ht⟩ := insertEdge_eq_ok.mp hfirst
      have hone : WroteEdges s [(left, right)] t := by
        subst ht
        exact ⟨rfl, rfl, [_], Table.rows_insert (h := get?_freshUlid_edges), rfl, by simp⟩
      rw [List.filter_cons_of_pos (by simpa using hne), List.map_cons, ← List.singleton_append]
      exact hone.trans (ih hrest)

theorem relateSiblings_wrote {ids : List Uuid} (h : relateSiblings s ids = .ok s') :
    WroteEdges s (siblingPairs ids) s' := by
  have hloop : ∀ lefts : List Uuid, ∀ s : Store,
      lefts.foldlM (fun s left => ids.foldlM (relateTo left) s) s = .ok s' →
      WroteEdges s (lefts.flatMap fun left => (ids.filter (left ≠ ·)).map (left, ·)) s' := by
    intro lefts
    induction lefts with
    | nil =>
      intro s h
      simp only [List.foldlM_nil, pure_eq_ok] at h
      subst h
      exact .refl s
    | cons left rest ih =>
      intro s h
      simp only [List.foldlM_cons, bind_eq_ok] at h
      obtain ⟨t, hfirst, hrest⟩ := h
      exact (relateTo_wrote hfirst).trans (ih t hrest)
  exact hloop ids s (relateSiblings_eq ids ▸ h)

end Edges

section Family

/-- What a split creates: a tombstoned source and an active child for each of its children, all of
its principal, the children revised from the source and related to one another both ways. -/
structure Family (command : SplitMemoryCommand) (s s' : Store) (source : MemoryUnit)
    (children : List MemoryUnit) : Prop where
  tombstoned : source.status = .tombstoned ∧ source.principalId = command.principalId
  count : children.length = command.children.length
  active : ∀ child ∈ children, child.status = .active ∧ child.principalId = command.principalId
  distinct : (children.map (·.id)).Nodup
  units : s'.units.rows = s.units.rows ++ source :: children
  revisions : ∃ own firsts parentUid, s'.revisions.rows = s.revisions.rows ++ own :: firsts ∧
    FirstRevision none source own ∧
    List.Forall₂ (FirstRevision (some parentUid)) children firsts ∧
    ∃ parent ∈ s'.revisions.rows, parent.revUid = parentUid ∧ parent.memoryId = source.id ∧
      parent.revision = 1
  edges : ∃ edges, s'.edges.rows = s.edges.rows ++ edges ∧
    edges.length = command.children.length * (command.children.length - 1) ∧
    (edges.map MemoryEdge.ends).Nodup ∧ (∀ edge ∈ edges, edge.edgeType = .relatesTo) ∧
    ∀ a b, (a, b) ∈ edges.map MemoryEdge.ends ↔
      a ∈ children.map (·.id) ∧ b ∈ children.map (·.id) ∧ a ≠ b

theorem nodup_ids (s : Store) : (s.units.rows.map (·.id)).Nodup := s.units.nodup

theorem familyInsert_family {command : SplitMemoryCommand} {sourceEmbedding : Embedding}
    {children : List (SplitChild × Embedding)} {r : List MemoryUnit × Store}
    (hcount : children.length = command.children.length)
    (h : familyInsert env command sourceEmbedding children s = .ok r) :
    ∃ source, Family command s r.2 source r.1 := by
  simp only [familyInsert, bind_eq_ok] at h
  obtain ⟨⟨source, t⟩, hsource, h⟩ := h
  obtain ⟨hhead, hunits, ⟨own, hown, hfirst⟩, hedges⟩ := insertRoot_wrote hsource
  split at h
  · cases h
  · next parentUid _ hparent =>
    simp only [bind_eq_ok, pure_eq_ok] at h
    obtain ⟨⟨rows, w⟩, hchildren, s', hrelated, rfl⟩ := h
    obtain ⟨hrows, hheads, hunits', ⟨firsts, hfirsts, hforall⟩, hedges'⟩ :=
      insertChildren_wrote (fun _ => (rfl : _ = command.principalId))
        (fun _ => (rfl : _ = some parentUid)) hchildren
    obtain ⟨hsameUnits, hsameRevisions, edges, hedgeRows, hends, htypes⟩ :=
      relateSiblings_wrote hrelated
    dsimp only at hunits hown hunits' hfirsts hedges hedges' hrows hheads hhead hparent ⊢
    have hrevisions : s'.revisions.rows = s.revisions.rows ++ own :: firsts := by
      rw [hsameRevisions, hfirsts, hown, List.append_assoc, List.singleton_append]
    have hids : (rows.map (·.id)).Nodup := by
      have hnodup := nodup_ids w
      rw [hunits', List.map_append] at hnodup
      exact (List.nodup_append.mp hnodup).2.1
    have hlength : (rows.map (·.id)).length = command.children.length := by
      rw [List.length_map, hrows, hcount]
    refine ⟨source, hhead, hrows.trans hcount, hheads, hids, ?_,
      ⟨own, firsts, parentUid, hrevisions, hfirst, hforall, ?_⟩, ⟨edges, ?_, ?_, ?_, htypes, ?_⟩⟩
    · rw [hsameUnits, hunits', hunits, List.append_assoc, List.singleton_append]
    · have hmem : parentUid ∈ t.parentUids source.id 1 := by
        rw [hparent]
        exact List.mem_cons_self
      simp only [parentUids, List.mem_map, List.mem_filter, decide_eq_true_eq] at hmem
      obtain ⟨parent, ⟨hin, hmemory, hrevision⟩, huid⟩ := hmem
      refine ⟨parent, ?_, huid, hmemory, hrevision⟩
      rw [hsameRevisions, hfirsts]
      exact List.mem_append_left _ hin
    · rw [hedgeRows, hedges', hedges]
    · rw [← List.length_map (f := MemoryEdge.ends), hends, length_siblingPairs hids, hlength]
    · rw [hends]
      exact nodup_siblingPairs hids
    · intro a b
      rw [hends, mem_siblingPairs]

theorem family_of_insert {c : Creation} {command : SplitMemoryCommand}
    {memories : List MemoryUnit} (hsplit : c.request = .split command)
    (h : creationInsert env c (s.begin c.session) = .ok (memories, s')) :
    ∃ source, Family command s s' source memories := by
  unfold creationInsert at h
  split at h
  · next hrequest _ =>
    rw [hrequest] at hsplit
    cases hsplit
  · next own source children hrequest hvectors =>
    obtain rfl : own = command := CreationRequest.split.inj (hrequest.symm.trans hsplit)
    have hlength : (source :: children).length = own.children.length + 1 := by
      have hfilter := (Option.filter_eq_some_iff.mp hvectors).2
      simpa [CreationRequest.bodies, hrequest] using hfilter
    have hcount : (own.children.zip children).length = own.children.length := by
      rw [List.length_cons] at hlength
      rw [List.length_zip]
      omega
    obtain ⟨source, hfamily⟩ := familyInsert_family hcount (ok_of_labelRace h)
    exact ⟨source, hfamily.tombstoned, hfamily.count, hfamily.active, hfamily.distinct,
      hfamily.units, hfamily.revisions, hfamily.edges⟩
  · cases h

/-- Writing on a verdict creates the family or leaves the store. -/
theorem creationWrite_split {c : Creation} {command : SplitMemoryCommand} (verdict : Verdict)
    (s : Store) (hsplit : c.request = .split command) :
    (∃ source children, (creationWrite env c verdict s).1 = .created children ∧
      Family command s (creationWrite env c verdict s).2 source children) ∨
    Uncreated (creationWrite env c verdict s).1 ∧ (creationWrite env c verdict s).2 = s := by
  unfold creationWrite
  split
  · exact .inr ⟨fun _ => by simp, rfl⟩
  · exact .inr ⟨fun _ => by simp, rfl⟩
  · split
    · next memories s' hinsert =>
      obtain ⟨source, hfamily⟩ := family_of_insert hsplit hinsert
      exact .inl ⟨source, memories, rfl, hfamily⟩
    · exact .inr ⟨fun _ => by simp, rfl⟩

/-- A split creates its exact family, or nothing: any refusal, of the request, of a label, of the
embedding provider or of the writes themselves, leaves the store as it was. -/
theorem split_exact (env : Env) (command : SplitMemoryCommand)
    (embeddings : Option (List Embedding)) (session : Session) (s : Store) :
    let r := (creations env).serial ⟨.split command, embeddings, session⟩ s
    (∃ source children, r.1 = .created children ∧ Family command s r.2 source children) ∨
      Uncreated r.1 ∧ r.2 = s := by
  dsimp only [Protocol.serial]
  cases hrefused : (creations env).refusal ⟨.split command, embeddings, session⟩ s with
  | some outcome =>
    obtain ⟨test, htest, hsome⟩ := List.exists_of_findSome?_eq_some hrefused
    have htest : test ∈ earlyTests env ⟨.split command, embeddings, session⟩ := htest
    exact .inr ⟨quiet_of_test htest hsome, rfl⟩
  | none => exact creationWrite_split _ s rfl

/-- However calls overlap and whichever of them are lost, a step changes the store only where the
transaction of a call commits what it created; of a split that is its exact family. -/
theorem split_committed {p p' : Protocol.State Store Creation Verdict CreationOutcome}
    {a : Protocol.Action Creation} (h : (creations env).step p a = .ok p') :
    p'.store = p.store ∨ ∃ k c verdict, a = .commit k ∧
      p.calls[k]? = some ⟨c, .reading (.done verdict)⟩ ∧
      ∀ command, c.request = .split command → ∃ source children,
        (creationWrite env c verdict p.store).1 = .created children ∧
        Family command p.store p'.store source children := by
  rcases Protocol.store_of_step h with hsame | ⟨k, c, verdict, rfl, hk, hstore⟩
  · exact .inl hsame
  · by_cases hsame : p'.store = p.store
    · exact .inl hsame
    · refine .inr ⟨k, c, verdict, rfl, hk, fun command hsplit => ?_⟩
      rw [hstore] at hsame ⊢
      exact (creationWrite_split verdict p.store hsplit).resolve_right fun h => hsame h.2

end Family

end Nocturne.Memory
