import Nocturne.Memory.Queries
import Nocturne.Store.Footprint

namespace Nocturne.Memory

open Nocturne.Lib Nocturne.Lib.Like Nocturne.Text

section Patterns

variable {c : Char} {l l' : List Char}

theorem replaceChar_append : replaceChar c (l ++ l') = replaceChar c l ++ replaceChar c l' := by
  simp [replaceChar]

theorem replaceChar_cons (a : Char) :
    replaceChar c (a :: l) = (if a = c then ['\\', c] else [a]) ++ replaceChar c l := rfl

/-- The three replacements, the escape first, quote a text. -/
theorem escapeIlike_eq_quote (value : List Char) :
    escapeIlike value = sqlWildcards.quote value := by
  induction value with
  | nil => rfl
  | cons a value ih =>
    have hcons : escapeIlike (a :: value) =
        replaceChar '_' (replaceChar '%' (if a = '\\' then ['\\', '\\'] else [a])) ++
          escapeIlike value := by
      simp only [escapeIlike, replaceChar_cons, replaceChar_append]
    rw [hcons, ih, Wildcards.quote_cons]
    congr 1
    by_cases hescape : a = '\\'
    · subst hescape
      decide
    by_cases hany : a = '%'
    · subst hany
      decide
    by_cases hone : a = '_'
    · subst hone
      decide
    · simp [replaceChar, hescape, hany, hone, Wildcards.Special, sqlWildcards]

/-- An escaped text between wildcards is looked for as it stands, whatever it contains. -/
theorem ilike_escapeIlike (collation : Collation) (value term : List Char) :
    ilike collation value ('%' :: (escapeIlike term ++ ['%'])) =
      .ok (decide (term.map collation.fold <:+: value.map collation.fold)) := by
  rw [ilike, escapeIlike_eq_quote]
  have hmatches := collation.matches?_within term value
  simp only [sqlWildcards] at hmatches ⊢
  rw [hmatches, require_some]

end Patterns

section List

variable (collation : Collation) {s : Store} {query : ListMemoriesQuery}

/-- A text occurs in another but for its case. -/
def Collation.Occurs (term value : String) : Prop :=
  term.toList.map collation.fold <:+: value.toList.map collation.fold

instance (term value : String) : Decidable (Collation.Occurs collation term value) :=
  inferInstanceAs (Decidable (_ <:+: _))

/-- What a listing is asked for: heads in some status, by default any but that of a queue-only
head, of a project, with a text in their label or body. -/
def ListMemoriesQuery.Listed (query : ListMemoriesQuery) (unit : MemoryUnit) : Prop :=
  (query.status = none → ¬unit.status.Unadmitted) ∧
  (∀ status ∈ query.status, unit.status = status) ∧
  (∀ projectKey ∈ query.projectKey, unit.projectKey = some projectKey) ∧
  ∀ term ∈ query.term, Collation.Occurs collation term unit.label ∨
    Collation.Occurs collation term unit.body

instance (query : ListMemoriesQuery) : DecidablePred (query.Listed collation) :=
  fun _ => inferInstanceAs (Decidable (_ ∧ _ ∧ _ ∧ _))

theorem where_eq (query : ListMemoriesQuery) (unit : MemoryUnit) :
    query.where collation unit = .ok (decide (query.Listed collation unit)) := by
  have hshown : (query.status.isSome ∨ ¬unit.status.Unadmitted) ↔
      (query.status = none → ¬unit.status.Unadmitted) := by
    cases query.status <;> simp
  unfold ListMemoriesQuery.where ListMemoriesQuery.Listed
  split
  · next hterm =>
    simp only [hshown, hterm, Option.not_mem_none, false_imp_iff, implies_true, and_true]
    congr 2
    exact propext (and_congr_right fun _ => and_comm)
  · next term hterm =>
    simp only [ilike_escapeIlike, ok_bind, hshown, hterm, decide_eq_true_eq,
      Option.mem_some_iff, forall_eq']
    congr 2
    exact propext (and_congr_right fun _ => and_left_comm)

/-- No staged head is listed. -/
theorem not_staged_of_listed {unit : MemoryUnit} (h : query.Listed collation unit) :
    unit.status ≠ .staged := by
  obtain ⟨hshown, hstatus, _⟩ := h
  cases hquery : query.status with
  | none =>
    intro hstaged
    exact hshown hquery (hstaged ▸ trivial)
  | some status =>
    rw [hstatus status hquery]
    exact query.publicStatus status hquery

theorem recency_injective {s : Store} : ∀ a ∈ s.units.rows, ∀ b ∈ s.units.rows,
    recency a = recency b → a = b := by
  intro a ha b hb h
  have hid : a.id = b.id := congrArg (fun stamp => (ofLex stamp).2) h
  have hget := Table.get?_of_mem ha
  rw [hid, Table.get?_of_mem hb] at hget
  exact (Option.some.inj hget).symm

variable (s query)

/-- All that a query is about, in the order it is listed in. -/
def listed : List MemoryUnit :=
  listing recency (s.units.rows.filter fun unit => query.Listed collation unit)

variable {s query}

theorem mem_listed {unit : MemoryUnit} :
    unit ∈ listed collation s query ↔ unit ∈ s.units.rows ∧ query.Listed collation unit := by
  simp [listed]

theorem listed_pairwise :
    (listed collation s query).Pairwise fun a b => recency a < recency b := by
  have hnodup : (s.units.rows.filter fun unit => query.Listed collation unit).Nodup :=
    (List.Nodup.of_map _ s.units.nodup).filter _
  have hne : (listed collation s query).Pairwise (· ≠ ·) :=
    (perm_listing _ _).nodup_iff.mpr hnodup
  refine ((pairwise_listing recency _).and hne).imp_of_mem ?_
  rintro a b ha hb ⟨hle, hab⟩
  refine hle.lt_of_ne fun h => hab ?_
  exact recency_injective a ((mem_listed collation).mp ha).1 b ((mem_listed collation).mp hb).1 h

theorem list_eq (hlimit : 1 ≤ query.limit ∧ query.limit ≤ 200) (hoffset : 0 ≤ query.offset) :
    list collation s query = .ok
      { items := ((listed collation s query).drop query.offset.toNat).take query.limit.toNat
        total := (listed collation s query).length
        limit := query.limit
        offset := query.offset } := by
  have hfound := filterM_eq_ok fun unit (_ : unit ∈ s.units.rows) =>
    where_eq collation query unit
  have hitems : (((listed collation s query).drop query.offset.toNat).take
      query.limit.toNat).mapM (fun unit => (contractMemory unit).mapError QueryError.spine) =
        .ok (((listed collation s query).drop query.offset.toNat).take query.limit.toNat) := by
    rw [mapM_eq_ok, List.forall₂_same]
    intro unit hunit
    have hlisted := (mem_listed collation).mp (List.mem_of_mem_drop (List.mem_of_mem_take hunit))
    have hstaged := not_staged_of_listed collation hlisted.2
    simp only [contractMemory, ensure_pos hstaged, ok_bind]
    rfl
  rw [listed] at hitems ⊢
  simp only [list, ensure_pos hlimit, ensure_pos hoffset, ok_bind, hfound, hitems,
    (perm_listing _ _).length_eq]
  rfl

theorem list_bounds {response : MemoryListResponse} (h : list collation s query = .ok response) :
    (1 ≤ query.limit ∧ query.limit ≤ 200) ∧ 0 ≤ query.offset := by
  simp only [list, bind_eq_ok, ensure_eq_ok] at h
  obtain ⟨_, hlimit, _, hoffset, _⟩ := h
  exact ⟨hlimit, hoffset⟩

/-- The page that starts after `i` whole ones. -/
def ListMemoriesQuery.page (query : ListMemoriesQuery) (i : Nat) : ListMemoriesQuery :=
  { query with offset := i * query.limit }

/-- A listing answers exactly within its bounds, and its pages, one after the other, hold what
the query is about, each head once and in order. -/
theorem list_pages (collation : Collation) (s : Store) (query : ListMemoriesQuery) :
    ((∃ response, list collation s query = .ok response) ↔
      (1 ≤ query.limit ∧ query.limit ≤ 200) ∧ 0 ≤ query.offset) ∧
    (1 ≤ query.limit ∧ query.limit ≤ 200 →
      ∃ pages : Nat → MemoryListResponse,
        (∀ i, list collation s (query.page i) = .ok (pages i)) ∧
        ∀ n, (pages 0).total ≤ n * query.limit.toNat →
          (∀ unit, unit ∈ (List.range n).flatMap (fun i => (pages i).items) ↔
            unit ∈ s.units.rows ∧ query.Listed collation unit) ∧
          ((List.range n).flatMap fun i => (pages i).items).Pairwise
            (fun a b => recency a < recency b) ∧
          ∀ i, (pages i).total = ((List.range n).flatMap fun i => (pages i).items).length) := by
  refine ⟨⟨fun ⟨_, h⟩ => list_bounds collation h,
    fun ⟨hlimit, hoffset⟩ => ⟨_, list_eq collation hlimit hoffset⟩⟩, fun hlimit => ?_⟩
  have hpage (i : Nat) := @list_eq collation s (query.page i) hlimit
    (Int.mul_nonneg (by omega) (by omega))
  refine ⟨_, hpage, fun n hn => ?_⟩
  have hskip (i : Nat) : (query.page i).offset.toNat = i * query.limit.toNat := by
    rw [ListMemoriesQuery.page, Int.toNat_mul (by omega) (by omega), Int.toNat_natCast]
  have hitems : ((List.range n).flatMap fun i => ((listed collation s (query.page i)).drop
      (query.page i).offset.toNat).take (query.page i).limit.toNat) =
        listed collation s query := by
    simp only [hskip]
    exact flatMap_pages hn
  simp only [hitems]
  exact ⟨fun _ => mem_listed collation, listed_pairwise collation, fun _ => rfl⟩

/-- An active head born in a thread, in no project. -/
def threadHead (id : Uuid) (body : String) : MemoryUnit where
  id := id
  principalId := "owner"
  label := toString id
  body := body
  kind := .fact
  keywords := []
  embedding := [id]
  embeddingModel := "one-hot"
  projectKey := none
  threadOrigin := none
  originThreadId := some id
  originPath := none
  originLocation := none
  originLocations := []
  runId := none
  originAgent := none
  pin := false
  status := .active
  revision := 1
  stats := .zero
  bias := 0
  createdAt := 0
  updatedAt := 0

def shelf : Store :=
  { Store.deployed .empty with
    units := ⟨[threadHead 1 "wool 100%", threadHead 2 "wool 1000", threadHead 3 "0% COTTON"],
      by decide⟩ }

def percentQuery : ListMemoriesQuery := { q := some " 0% ", limit := 1 }

/-- A percent sign in the search text is only that, and the second page goes on from the first. -/
theorem list_pages_percent : ∃ pages : Nat → MemoryListResponse,
    list asciiCollation shelf (percentQuery.page 1) = .ok (pages 1) ∧
    (∀ unit, unit ∈ (List.range 2).flatMap (fun i => (pages i).items) ↔
      unit ∈ shelf.units.rows ∧ percentQuery.Listed asciiCollation unit) ∧
    ¬percentQuery.Listed asciiCollation (threadHead 2 "wool 1000") := by
  have hlimit : 1 ≤ percentQuery.limit ∧ percentQuery.limit ≤ 200 := by decide
  obtain ⟨pages, hpages, hwhole⟩ := (list_pages asciiCollation shelf percentQuery).2 hlimit
  have htotal : Answers (list asciiCollation shelf (percentQuery.page 0)) (·.total = 2) := by
    decide +kernel
  obtain ⟨first, hfirst, htwo⟩ := answers_iff.mp htotal
  rw [hpages 0, Except.ok.injEq] at hfirst
  have hcovers : (pages 0).total ≤ 2 * percentQuery.limit.toNat := by
    rw [hfirst, htwo]
    decide
  exact ⟨pages, hpages 1, (hwhole 2 hcovers).1, by decide +kernel⟩

end List

section Search

variable {env : Env} {s s' : Store} {query : SearchMemoriesQuery} {embedding : Embedding}

theorem nearness_injective {s : Store} : ∀ a ∈ s.units.rows, ∀ b ∈ s.units.rows,
    nearness env embedding a = nearness env embedding b → a = b := by
  intro a ha b hb h
  have hid : a.id = b.id := congrArg (fun stamp => (ofLex stamp).2) h
  have hget := Table.get?_of_mem ha
  rw [hid, Table.get?_of_mem hb] at hget
  exact (Option.some.inj hget).symm

theorem seen_injective : ∀ a ∈ s.units.rows.filter (query.Sees ·),
    ∀ b ∈ s.units.rows.filter (query.Sees ·),
      nearness env embedding a = nearness env embedding b → a = b :=
  fun a ha b hb => nearness_injective a (List.mem_of_mem_filter ha) b (List.mem_of_mem_filter hb)

/-- What a principal can see of another store's heads orders the same. -/
theorem listing_seen (h : ∀ unit, query.Sees unit → (unit ∈ s'.units.rows ↔ unit ∈ s.units.rows)) :
    listing (nearness env embedding) (s'.units.rows.filter (query.Sees ·)) =
      listing (nearness env embedding) (s.units.rows.filter (query.Sees ·)) := by
  refine listing_eq_of_perm ?_ seen_injective
  have hnodup (s : Store) : (s.units.rows.filter (query.Sees ·)).Nodup :=
    (List.Nodup.of_map _ s.units.nodup).filter _
  rw [List.perm_ext_iff_of_nodup (hnodup s') (hnodup s)]
  intro unit
  simp only [List.mem_filter, decide_eq_true_eq]
  constructor
  · exact fun ⟨hmem, hsees⟩ => ⟨(h unit hsees).mp hmem, hsees⟩
  · exact fun ⟨hmem, hsees⟩ => ⟨(h unit hsees).mpr hmem, hsees⟩

theorem search_eq (hk : 1 ≤ query.k ∧ query.k ≤ 50) :
    search env s query embedding = .ok
      (((listing (nearness env embedding) (s.units.rows.filter (query.Sees ·))).take
        query.k.toNat).map (searchCard env embedding)) := by
  simp only [search, ensure_pos hk, ok_bind]
  rfl

theorem search_bounds {cards : List SearchCard} (h : search env s query embedding = .ok cards) :
    1 ≤ query.k ∧ query.k ≤ 50 := by
  simp only [search, bind_eq_ok, ensure_eq_ok] at h
  exact h.choose_spec.1

/-- A search answers exactly within its bounds, with the heads its principal sees that have
fewer than `k` such heads nearer, nearest first; nothing else in the store bears on it. -/
theorem search_nearest (env : Env) (s : Store) (query : SearchMemoriesQuery)
    (embedding : Embedding) :
    ((∃ cards, search env s query embedding = .ok cards) ↔ 1 ≤ query.k ∧ query.k ≤ 50) ∧
    ∀ cards, search env s query embedding = .ok cards →
      (∃ units : List MemoryUnit, cards = units.map (searchCard env embedding) ∧
        (units.Pairwise fun a b => nearness env embedding a ≤ nearness env embedding b) ∧
        units.Nodup ∧
        ∀ unit, unit ∈ units ↔ unit ∈ s.units.rows ∧ query.Sees unit ∧
          ((s.units.rows.filter fun other => query.Sees other ∧
            nearness env embedding other < nearness env embedding unit).length : Int) < query.k) ∧
      ∀ s' : Store, (∀ unit, query.Sees unit → (unit ∈ s'.units.rows ↔ unit ∈ s.units.rows)) →
        search env s' query embedding = .ok cards := by
  refine ⟨⟨fun ⟨_, h⟩ => search_bounds h, fun hk => ⟨_, search_eq hk⟩⟩, fun cards h => ?_⟩
  have hk := search_bounds h
  have hnodup : (s.units.rows.filter (query.Sees ·)).Nodup :=
    (List.Nodup.of_map _ s.units.nodup).filter _
  rw [search_eq hk, Except.ok.injEq] at h
  constructor
  · refine ⟨_, h.symm, (pairwise_listing _ _).sublist (List.take_sublist _ _),
      ((perm_listing _ _).nodup_iff.mpr hnodup).sublist (List.take_sublist _ _), fun unit => ?_⟩
    rw [mem_take_listing hnodup seen_injective, List.mem_filter, List.filter_filter,
      decide_eq_true_eq, and_assoc]
    refine and_congr_right fun _ => and_congr_right fun _ => ?_
    have hcount : (s.units.rows.filter fun other =>
        decide (nearness env embedding other < nearness env embedding unit) &&
          decide (query.Sees other)) = s.units.rows.filter fun other => query.Sees other ∧
        nearness env embedding other < nearness env embedding unit :=
      List.filter_congr fun other _ => by simp [and_comm]
    rw [hcount]
    omega
  · intro s' hs'
    rw [search_eq hk, listing_seen hs', h]

/-- What another principal holds does not come between an owner and the nearest head. -/
theorem search_nearest_alone : ∃ cards,
    search characterEnv shelf { principalId := "owner", k := 1 } [2] = .ok cards ∧
    search characterEnv
      { shelf with
        units := ⟨{ threadHead 7 "wool" with principalId := "guest", embedding := [2] } ::
          shelf.units.rows, by decide⟩ }
      { principalId := "owner", k := 1 } [2] = .ok cards := by
  obtain ⟨hbounds, hnearest⟩ :=
    search_nearest characterEnv shelf { principalId := "owner", k := 1 } [2]
  obtain ⟨cards, hcards⟩ := hbounds.mpr (by decide)
  refine ⟨cards, hcards, (hnearest cards hcards).2 _ fun unit hsees => ?_⟩
  have howner : unit.principalId = "owner" := hsees.1
  rw [List.mem_cons, or_iff_right]
  rintro rfl
  exact absurd howner (by decide)

end Search

section Projects

variable {s : Store} {principalId : String} {projects projects' : Uuid → Option String}

/-- One head after the backfill. -/
def filledUnit (principalId : String) (projects : Uuid → Option String) (now : Time)
    (unit : MemoryUnit) : MemoryUnit :=
  match backfilled principalId projects unit with
  | some projectKey => { unit with projectKey := some projectKey, updatedAt := now }
  | none => unit

theorem rows_backfill : (backfillProjects s principalId projects).1.units.rows =
    s.units.rows.map (filledUnit principalId projects s.session.now) := rfl

theorem filledUnit_of_none {now : Time} {unit : MemoryUnit}
    (h : backfilled principalId projects unit = none) :
    filledUnit principalId projects now unit = unit := by
  simp [filledUnit, h]

theorem filledUnit_of_some {now : Time} {unit : MemoryUnit} {projectKey : String}
    (h : backfilled principalId projects unit = some projectKey) :
    filledUnit principalId projects now unit =
      { unit with projectKey := some projectKey, updatedAt := now } := by
  simp [filledUnit, h]

theorem filledUnit_id {now : Time} {unit : MemoryUnit} :
    (filledUnit principalId projects now unit).id = unit.id := by
  unfold filledUnit
  split <;> rfl

theorem get?_backfill (id : Uuid) : (backfillProjects s principalId projects).1.units.get? id =
    (s.units.get? id).map (filledUnit principalId projects s.session.now) := by
  simp only [Table.get?, rows_backfill, List.find?_map]
  congr 2
  funext unit
  simp [filledUnit_id]

/-- A head that was given a project has one. -/
theorem backfilled_filledUnit {now : Time} {unit : MemoryUnit} :
    backfilled principalId projects' (filledUnit principalId projects now unit) =
      if (backfilled principalId projects unit).isSome then none
      else backfilled principalId projects' unit := by
  cases h : backfilled principalId projects unit with
  | none => simp [filledUnit_of_none h]
  | some projectKey => simp [filledUnit_of_some h, backfilled]

theorem backfilled_or {unit : MemoryUnit} :
    backfilled principalId (fun threadId => (projects threadId).or (projects' threadId)) unit =
      (backfilled principalId projects unit).or (backfilled principalId projects' unit) := by
  unfold backfilled
  split
  · cases unit.originThreadId <;> simp
  · rfl

theorem lineage_backfill (h : s.Lineage) : (backfillProjects s principalId projects).1.Lineage := by
  have hsame (unit : MemoryUnit) :
      (filledUnit principalId projects s.session.now unit).revision = unit.revision ∧
      (filledUnit principalId projects s.session.now unit).body = unit.body ∧
      (filledUnit principalId projects s.session.now unit).label = unit.label := by
    unfold filledUnit
    split <;> exact ⟨rfl, rfl, rfl⟩
  have hfound {id : Uuid} {u : MemoryUnit}
      (hu : (backfillProjects s principalId projects).1.units.get? id = some u) :
      ∃ old, s.units.get? id = some old ∧ u.revision = old.revision ∧ u.body = old.body ∧
        u.label = old.label := by
    rw [get?_backfill, Option.map_eq_some_iff] at hu
    obtain ⟨old, hold, rfl⟩ := hu
    exact ⟨old, hold, hsame old⟩
  constructor
  · intro r hr
    rw [get?_backfill, Option.isSome_map]
    exact h.owned r hr
  · intro id u hu
    obtain ⟨old, hold, hrevision, _⟩ := hfound hu
    rw [hrevision]
    exact h.numbered hold
  · exact h.linked
  · intro id u hu
    obtain ⟨old, hold, _, hbody, hlabel⟩ := hfound hu
    rw [hbody, hlabel]
    exact h.newest hold

theorem filledUnit_filledUnit {now : Time} {unit : MemoryUnit} :
    filledUnit principalId projects' now (filledUnit principalId projects now unit) =
      filledUnit principalId (fun threadId => (projects threadId).or (projects' threadId)) now
        unit := by
  cases h : backfilled principalId projects unit with
  | none =>
    rw [filledUnit_of_none h]
    simp only [filledUnit, backfilled_or, h, Option.none_or]
  | some projectKey =>
    have hnone : backfilled principalId projects' (filledUnit principalId projects now unit) =
        none := by
      rw [backfilled_filledUnit, h]
      rfl
    rw [filledUnit_of_none hnone, filledUnit_of_some h]
    simp only [filledUnit, backfilled_or, h, Option.some_or]

/-- Backfilling writes the project and the time of the principal's heads that have a thread's
project to gain, and nothing else; a second backfill finds only what the first left, as if both
had been one. -/
theorem backfill_projects (s : Store) (principalId : String)
    (projects projects' : Uuid → Option String) :
    ∃ s' n, backfillProjects s principalId projects = (s', n) ∧
      s' = { s with units := s'.units } ∧ (s.Lineage → s'.Lineage) ∧
      (∀ id u, s.units.get? id = some u → s'.units.get? id = some
        (if u.principalId = principalId ∧ u.projectKey = none then
          match u.originThreadId.bind projects with
          | some projectKey => { u with projectKey := some projectKey, updatedAt := s.session.now }
          | none => u
        else u)) ∧
      ∃ n', backfillProjects s' principalId projects' =
          ((backfillProjects s principalId fun threadId =>
            (projects threadId).or (projects' threadId)).1, n') ∧
        n + n' = (backfillProjects s principalId fun threadId =>
          (projects threadId).or (projects' threadId)).2 := by
  refine ⟨(backfillProjects s principalId projects).1, (backfillProjects s principalId projects).2,
    rfl, rfl, lineage_backfill, ?_, _, Prod.ext ?_ rfl, ?_⟩
  · intro id u hu
    rw [get?_backfill, hu, Option.map_some, filledUnit, backfilled]
    congr 1
    by_cases hfills : u.principalId = principalId ∧ u.projectKey = none
    · simp [hfills]
    · simp [hfills]
  · have hrows : (backfillProjects (backfillProjects s principalId projects).1 principalId
        projects').1.units = (backfillProjects s principalId fun threadId =>
          (projects threadId).or (projects' threadId)).1.units := by
      apply Table.ext
      rw [rows_backfill, rows_backfill, rows_backfill, List.map_map]
      exact List.map_congr_left fun _ _ => filledUnit_filledUnit
    exact congrArg (fun units => ({ s with units } : Store)) hrows
  · have hcount (rows : List MemoryUnit) :
        (rows.filter fun unit => (backfilled principalId projects unit).isSome).length +
          ((rows.map (filledUnit principalId projects s.session.now)).filter fun unit =>
            (backfilled principalId projects' unit).isSome).length =
        (rows.filter fun unit => (backfilled principalId
          (fun threadId => (projects threadId).or (projects' threadId)) unit).isSome).length := by
      induction rows with
      | nil => rfl
      | cons unit rows ih =>
        simp only [backfilled_or, Option.isSome_or] at ih
        simp only [List.map_cons, List.filter_cons, backfilled_filledUnit, backfilled_or,
          Option.isSome_or]
        cases backfilled principalId projects unit <;>
          cases backfilled principalId projects' unit <;> simp <;> omega
    exact hcount s.units.rows

theorem backfill_projects_twice : ∃ s' n,
    backfillProjects shelf "owner"
      (fun threadId => if threadId = 1 then some "wardrobe" else none) = (s', n) ∧
    (s'.units.get? 1).map (·.projectKey) = some (some "wardrobe") ∧ n = 1 := by
  obtain ⟨s', n, hfilled, _, _, hunits, n', hagain, hcount⟩ := backfill_projects shelf "owner"
    (fun threadId => if threadId = 1 then some "wardrobe" else none) fun _ => none
  refine ⟨s', n, hfilled, ?_, ?_⟩
  · rw [hunits 1 (threadHead 1 "wool 100%") (by decide)]
    rfl
  · exact (congrArg Prod.snd hfilled).symm

end Projects

end Nocturne.Memory
