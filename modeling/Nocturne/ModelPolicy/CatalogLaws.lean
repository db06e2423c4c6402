import Nocturne.ModelPolicy.Catalog

namespace Nocturne.ModelPolicy

open Nocturne.Lib

/-- Both give results, and these are related, or both refuse. -/
def Both {ε α : Type} (R : α → α → Prop) : Except ε α → Except ε α → Prop
  | .ok a, .ok b => R a b
  | .error _, .error _ => True
  | .ok _, .error _ | .error _, .ok _ => False

/-- The same rows of a payload, in any order. -/
def Reordered (payload payload' : Decoded) : Prop :=
  ∃ data data', payloadData payload = .ok data ∧ payloadData payload' = .ok data' ∧
    data'.Perm data

/-- `==` on dictionaries. -/
def SameAnswers {ν : Type} (d d' : Dict String ν) : Prop := ∀ name, d'.lookup name = d.lookup name

variable {payload payload' : Decoded} {numbers : Decimals}

theorem Reordered.symm (h : Reordered payload payload') : Reordered payload' payload := by
  obtain ⟨data, data', hdata, hdata', hperm⟩ := h
  exact ⟨data', data, hdata', hdata, hperm.symm⟩

theorem Reordered.perm (h : Reordered payload payload') {data data' : List Decoded}
    (hdata : payloadData payload = .ok data) (hdata' : payloadData payload' = .ok data') :
    data'.Perm data := by
  obtain ⟨rows, rows', hrows, hrows', hperm⟩ := h
  obtain rfl := Except.ok.inj (hrows.symm.trans hdata)
  obtain rfl := Except.ok.inj (hrows'.symm.trans hdata')
  exact hperm

theorem both_of_ok {ε α : Type} {R : α → α → Prop} {x y : Except ε α}
    (h : ∀ {a}, x = .ok a → ∃ b, y = .ok b ∧ R a b) (h' : ∀ {b}, y = .ok b → ∃ a, x = .ok a) :
    Both R x y := by
  cases x with
  | ok a =>
    obtain ⟨b, rfl, hR⟩ := h rfl
    exact hR
  | error e =>
    cases y with
    | ok b =>
      obtain ⟨a, ha⟩ := h' rfl
      cases ha
    | error e' => trivial

theorem Both.ok_left {ε α : Type} {R : α → α → Prop} {x y : Except ε α} {a : α}
    (h : Both R x y) (hx : x = .ok a) : ∃ b, y = .ok b ∧ R a b := by
  subst hx
  cases y with
  | ok b => exact ⟨b, rfl, h⟩
  | error e => exact h.elim

theorem Both.ok_right {ε α : Type} {R : α → α → Prop} {x y : Except ε α} {b : α}
    (h : Both R x y) (hy : y = .ok b) : ∃ a, x = .ok a ∧ R a b := by
  subst hy
  cases x with
  | ok a => exact ⟨a, rfl, h⟩
  | error e => exact h.elim

section Merged

theorem named_reordered {d : Dict String ModelRoute} (h : Reordered payload payload')
    (hok : parseNamedRoutes payload = .ok d) :
    ∃ d', parseNamedRoutes payload' = .ok d' ∧ SameAnswers d d' := by
  obtain ⟨data, data', hdata, hdata', hperm⟩ := h
  simp only [parseNamedRoutes, hdata, hdata', ok_bind, bind_eq_ok, ensure_eq_ok, pure_eq_ok]
    at hok ⊢
  obtain ⟨_, hgather, _, hne, rfl⟩ := hok
  obtain ⟨d', hd', hsame⟩ := Dict.gather_perm (hperm.filterMap namedRoute) hgather
  refine ⟨d', ⟨d', hd', .unit, ?_, rfl⟩, hsame⟩
  rw [Dict.ne_nil_iff] at hne ⊢
  simpa only [hsame] using hne

theorem mapM_perm {α β : Type} {f : α → Except CatalogError β} {l l' : List α} {r : List β}
    (h : l.mapM f = .ok r) (hperm : l'.Perm l) : ∃ r', l'.mapM f = .ok r' ∧ r'.Perm r := by
  have hresults {l : List α} {r : List β} (h : l.mapM f = .ok r) :
      r = l.filterMap fun a => (f a).toOption := by
    rw [mapM_eq_ok] at h
    induction h with
    | nil => rfl
    | cons hab _ ih => rw [List.filterMap_cons, hab, ih]; rfl
  obtain ⟨r', hr'⟩ := mapM_total (f := f) (l := l') fun a ha => by
    obtain ⟨b, _, hb⟩ := forall₂_of_mem_left (mapM_eq_ok.mp h) (hperm.subset ha)
    exact ⟨b, hb⟩
  refine ⟨r', hr', ?_⟩
  rw [hresults h, hresults hr']
  exact hperm.filterMap _

theorem benchmark_reordered {rows : List BenchmarkModel} (h : Reordered payload payload')
    (hok : parseBenchmarkRows numbers payload = .ok rows) :
    ∃ rows', parseBenchmarkRows numbers payload' = .ok rows' ∧ rows'.Perm rows := by
  obtain ⟨data, data', hdata, hdata', hperm⟩ := h
  simp only [parseBenchmarkRows, hdata, hdata', ok_bind, bind_eq_ok, ensure_eq_ok, pure_eq_ok]
    at hok ⊢
  obtain ⟨d, hfold, _, hne, rfl⟩ := hok
  obtain ⟨entries, hentries, hgather⟩ := Dict.foldlM_put_eq_ok.mp hfold
  obtain ⟨entries', hentries', hperm'⟩ :=
    mapM_perm hentries (hperm.filterMap (benchmarkRow numbers))
  obtain ⟨d', hd', hsame⟩ := Dict.gather_perm hperm' hgather
  have hdict : d'.Perm d :=
    (Dict.gather_lookup hgather).1.perm_of_lookup (Dict.gather_lookup hd').1 hsame
  refine ⟨_, ⟨d', Dict.foldlM_put_eq_ok.mpr ⟨entries', hentries', hd'⟩, .unit, ?_, rfl⟩,
    hdict.map Prod.snd⟩
  rw [Dict.ne_nil_iff] at hne ⊢
  simpa only [hsame] using hne

end Merged

section Routes

/-- The rows of one model under their ids. -/
def entriesOf (rows : List RouteRow) (permaslug : String) : List (String × RouteValue) :=
  (rows.filter (·.permaslug = permaslug)).map fun row => (row.modelId, row.value)

def idsOf (rows : List RouteRow) (permaslug : String) : List String :=
  ((entriesOf rows permaslug).map Prod.fst).dedup

/-- Rows of one id name one model, and say equal things of it. -/
def Consistent (rows : List RouteRow) : Prop :=
  ∀ row ∈ rows, ∀ other ∈ rows, row.modelId = other.modelId →
    row.permaslug = other.permaslug ∧ row.value.Same other.value

/-- Written as an integer, and positive. -/
def RouteValue.Positive (value : RouteValue) : Prop :=
  ∃ n, value.contextLength = .int n ∧ 0 < n

/-- Of the id chosen for a model, every row writes a positive context length as an integer or none
does. -/
def Plain (rows : List RouteRow) : Prop :=
  ∀ row ∈ rows, ∀ other ∈ rows, row.permaslug = other.permaslug → row.modelId = other.modelId →
    selectedId (idsOf rows row.permaslug) = some row.modelId →
      row.value.Positive → other.value.Positive

/-- What the first loop leaves of the rows. -/
structure Tabled (rows : List RouteRow) (table : RouteTable) : Prop where
  canonical : Dict.gather (· = ·) CatalogError.aliased
    (rows.map fun row => (row.modelId, row.permaslug)) = .ok table.canonicalById
  grouped : ∀ permaslug, Dict.gather RouteValue.Same CatalogError.conflictingRoutes
    (entriesOf rows permaslug) = .ok (table.routes permaslug)
  keyed : Dict.Keyed table.grouped

variable {rows rows' : List RouteRow} {row : RouteRow} {table table' : RouteTable}
  {permaslug modelId : String} {a b : RouteValue} {route : ModelRoute}

theorem same_equivalence : Equivalence RouteValue.Same where
  refl _ := ⟨rfl, rfl, rfl⟩
  symm h := ⟨h.1.symm, h.2.1.symm, h.2.2.symm⟩
  trans h h' := ⟨h.1.trans h'.1, h.2.1.trans h'.2.1, h.2.2.trans h'.2.2⟩

theorem eq_equivalence {α : Type} : Equivalence fun a b : α => a = b :=
  ⟨fun _ => rfl, Eq.symm, Eq.trans⟩

theorem mem_entriesOf : (modelId, a) ∈ entriesOf rows permaslug ↔
    ∃ row ∈ rows, row.permaslug = permaslug ∧ row.modelId = modelId ∧ row.value = a := by
  simp [entriesOf, and_assoc]

theorem entry_mem (h : row ∈ rows) :
    (row.modelId, row.value) ∈ entriesOf rows row.permaslug := by
  rw [mem_entriesOf]
  exact ⟨row, h, rfl, rfl, rfl⟩

theorem entriesOf_concat : entriesOf (rows ++ [row]) permaslug =
    entriesOf rows permaslug ++
      if row.permaslug = permaslug then [(row.modelId, row.value)] else [] := by
  simp only [entriesOf, List.filter_append, List.map_append, List.filter_singleton]
  split <;> simp_all

theorem entriesOf_perm (h : rows'.Perm rows) :
    (entriesOf rows' permaslug).Perm (entriesOf rows permaslug) :=
  (h.filter _).map _

theorem addRoute_eq_ok : addRoute table row = .ok table' ↔ ∃ canonicalById routes,
    Dict.put (· = ·) CatalogError.aliased table.canonicalById (row.modelId, row.permaslug) =
      .ok canonicalById ∧
    Dict.put RouteValue.Same CatalogError.conflictingRoutes (table.routes row.permaslug)
      (row.modelId, row.value) = .ok routes ∧
    table' = ⟨canonicalById, table.grouped.set row.permaslug routes⟩ := by
  simp only [addRoute, bind_eq_ok, pure_eq_ok]
  constructor
  · rintro ⟨canonicalById, hcanonical, routes, hroutes, rfl⟩
    exact ⟨canonicalById, routes, hcanonical, hroutes, rfl⟩
  · rintro ⟨canonicalById, routes, hcanonical, hroutes, rfl⟩
    exact ⟨canonicalById, hcanonical, routes, hroutes, rfl⟩

theorem addRoutes_tabled (h : rows.foldlM addRoute ⟨[], []⟩ = .ok table) : Tabled rows table := by
  induction rows using List.reverseRecOn generalizing table with
  | nil =>
    obtain rfl := Except.ok.inj h
    exact ⟨rfl, fun _ => rfl, List.nodup_nil⟩
  | append_singleton rows row ih =>
    simp only [List.foldlM_append, bind_eq_ok, List.foldlM_cons, List.foldlM_nil, pure_eq_ok] at h
    obtain ⟨before, hbefore, _, hrow, rfl⟩ := h
    have htabled := ih hbefore
    rw [addRoute_eq_ok] at hrow
    obtain ⟨canonicalById, routes, hcanonical, hroutes, rfl⟩ := hrow
    refine ⟨?_, fun permaslug => ?_, htabled.keyed.set⟩
    · rw [List.map_append, List.map_singleton]
      exact Dict.gather_concat_eq_ok.mpr ⟨_, htabled.canonical, hcanonical⟩
    · simp only [RouteTable.routes, Dict.lookup_set]
      rw [entriesOf_concat]
      by_cases hslug : permaslug = row.permaslug
      · subst hslug
        rw [if_pos rfl, if_pos rfl]
        exact Dict.gather_concat_eq_ok.mpr ⟨_, htabled.grouped row.permaslug, hroutes⟩
      · rw [if_neg hslug, if_neg (Ne.symm hslug), List.append_nil]
        exact htabled.grouped permaslug

theorem Consistent.agree (h : Consistent rows) :
    Dict.Agree (· = ·) (rows.map fun row => (row.modelId, row.permaslug)) ∧
      ∀ permaslug, Dict.Agree RouteValue.Same (entriesOf rows permaslug) := by
  constructor
  · intro e he e' he' hkey
    obtain ⟨row, hrow, rfl⟩ := List.mem_map.mp he
    obtain ⟨other, hother, rfl⟩ := List.mem_map.mp he'
    exact (h row hrow other hother hkey).1
  · rintro permaslug ⟨_, _⟩ he ⟨_, _⟩ he' hkey
    rw [mem_entriesOf] at he he'
    obtain ⟨row, hrow, _, rfl, rfl⟩ := he
    obtain ⟨other, hother, _, rfl, rfl⟩ := he'
    exact (h row hrow other hother hkey).2

theorem Consistent.perm (h : Consistent rows) (hperm : rows'.Perm rows) : Consistent rows' :=
  fun row hrow other hother => h row (hperm.subset hrow) other (hperm.subset hother)

/-- The rows are tabled exactly where they are consistent. -/
theorem addRoutes_ok_iff :
    (∃ table, rows.foldlM addRoute ⟨[], []⟩ = .ok table) ↔ Consistent rows := by
  constructor
  · rintro ⟨table, h⟩
    have htabled := addRoutes_tabled h
    intro row hrow other hother hid
    have hcanonical := (Dict.gather_ok_iff _ eq_equivalence).mp ⟨_, htabled.canonical⟩
    have hslug : row.permaslug = other.permaslug :=
      hcanonical _ (List.mem_map_of_mem hrow) _ (List.mem_map_of_mem hother) hid
    have hgroup := (Dict.gather_ok_iff _ same_equivalence).mp ⟨_, htabled.grouped other.permaslug⟩
    have hentry := entry_mem hrow
    rw [hslug] at hentry
    exact ⟨hslug, hgroup _ hentry _ (entry_mem hother) hid⟩
  · intro h
    induction rows using List.reverseRecOn with
    | nil => exact ⟨_, rfl⟩
    | append_singleton rows row ih =>
      obtain ⟨before, hbefore⟩ := ih fun a ha b hb =>
        h a (List.mem_append_left _ ha) b (List.mem_append_left _ hb)
      have htabled := addRoutes_tabled hbefore
      obtain ⟨hcanonical, hgroups⟩ := h.agree
      obtain ⟨_, hput⟩ := (Dict.gather_ok_iff CatalogError.aliased
        eq_equivalence).mpr hcanonical
      rw [List.map_append, List.map_singleton] at hput
      obtain ⟨_, hsame, hcanonical⟩ := Dict.gather_concat_eq_ok.mp hput
      obtain rfl := Except.ok.inj (htabled.canonical.symm.trans hsame)
      obtain ⟨_, hput⟩ := (Dict.gather_ok_iff CatalogError.conflictingRoutes
        same_equivalence).mpr (hgroups row.permaslug)
      rw [entriesOf_concat, if_pos rfl] at hput
      obtain ⟨_, hsame, hroutes⟩ := Dict.gather_concat_eq_ok.mp hput
      obtain rfl := Except.ok.inj ((htabled.grouped row.permaslug).symm.trans hsame)
      rw [List.foldlM_append, hbefore, ok_bind]
      simp only [List.foldlM_cons, List.foldlM_nil, bind_eq_ok, addRoute_eq_ok, pure_eq_ok]
      exact ⟨_, _, ⟨_, _, hcanonical, hroutes, rfl⟩, rfl⟩

/-- The context window a model has for rows in this order. -/
def answer (rows : List RouteRow) (permaslug : String) : Option ModelRoute := do
  let modelId ← selectedId (idsOf rows permaslug)
  let value ← (entriesOf rows permaslug).reverse.lookup modelId
  value.route modelId

theorem selectedId_eq_some {ids : List String} {id : String} : selectedId ids = some id ↔
    ids.filter (':' ∉ ·.toList) = [id] ∨ ids.filter (':' ∉ ·.toList) = [] ∧ ids = [id] := by
  unfold selectedId
  split
  · next heq => rw [heq]; simp
  · next heq => rw [heq]; simp
  · next hmany hfew =>
    refine iff_of_false (by simp) ?_
    rintro (h | ⟨h, rfl⟩)
    · exact hmany id h
    · exact hfew id h rfl

theorem selectedId_perm {ids ids' : List String} (h : ids'.Perm ids) :
    selectedId ids' = selectedId ids := by
  have heq {l l' l'' : List String} (h : l'.Perm l) (hl'' : l''.length ≤ 1) :
      l' = l'' ↔ l = l'' := by
    match l'' with
    | [] => rw [← List.perm_nil, ← List.perm_nil, h.congr_left]
    | [a] => rw [← List.perm_singleton, ← List.perm_singleton, h.congr_left]
  apply Option.ext
  intro id
  rw [selectedId_eq_some, selectedId_eq_some, heq (h.filter _) (by simp), heq (h.filter _) (by simp),
    heq h (by simp)]

theorem Tabled.ids (h : Tabled rows table) :
    ((table.routes permaslug).map Prod.fst).Perm (idsOf rows permaslug) := by
  obtain ⟨hkeyed, hlast⟩ := Dict.gather_lookup (h.grouped permaslug)
  refine (List.perm_ext_iff_of_nodup hkeyed (List.nodup_dedup _)).mpr fun modelId => ?_
  rw [← not_iff_not, ← Dict.lookup_eq_none_iff, hlast, Dict.lookup_eq_none_iff,
    List.mem_dedup, List.map_reverse, List.mem_reverse]

theorem Tabled.resolveGroup (h : Tabled rows table) :
    resolveGroup (table.routes permaslug) = answer rows permaslug := by
  obtain ⟨_, hlast⟩ := Dict.gather_lookup (h.grouped permaslug)
  simp only [ModelPolicy.resolveGroup, answer, selectedId_perm h.ids, hlast]

theorem Tabled.resolved (h : Tabled rows table) : (table.grouped.filterMap fun group =>
    (ModelPolicy.resolveGroup group.2).map (group.1, ·)).lookup permaslug =
      answer rows permaslug := by
  refine (h.keyed.lookup_filterMap (f := fun _ => ModelPolicy.resolveGroup)).trans ?_
  rw [← h.resolveGroup, RouteTable.routes]
  cases table.grouped.lookup permaslug with
  | none => rfl
  | some routes => rfl

theorem parseModelRoutes_eq_ok {d : Dict String ModelRoute} {data : List Decoded}
    (hdata : payloadData payload = .ok data) (hok : parseModelRoutes payload = .ok d) :
    Consistent (data.filterMap routeRow) ∧
      ∀ permaslug, d.lookup permaslug = answer (data.filterMap routeRow) permaslug := by
  simp only [parseModelRoutes, hdata, ok_bind, bind_eq_ok, ensure_eq_ok, pure_eq_ok] at hok
  obtain ⟨table, htable, _, hne, rfl⟩ := hok
  rw [← addRoutes_ok_iff]
  exact ⟨⟨table, htable⟩, fun _ => (addRoutes_tabled htable).resolved⟩

theorem parseModelRoutes_ok_iff {data : List Decoded} (hdata : payloadData payload = .ok data) :
    (∃ d, parseModelRoutes payload = .ok d) ↔ Consistent (data.filterMap routeRow) ∧
      ∃ permaslug route, answer (data.filterMap routeRow) permaslug = some route := by
  simp only [parseModelRoutes, hdata, ok_bind, bind_eq_ok, ensure_eq_ok, pure_eq_ok]
  constructor
  · rintro ⟨_, table, htable, _, hne, rfl⟩
    rw [Dict.ne_nil_iff] at hne
    simp only [(addRoutes_tabled htable).resolved] at hne
    rw [← addRoutes_ok_iff]
    exact ⟨⟨table, htable⟩, hne⟩
  · rintro ⟨hconsistent, hne⟩
    rw [← addRoutes_ok_iff] at hconsistent
    obtain ⟨table, htable⟩ := hconsistent
    refine ⟨_, table, htable, .unit, ?_, rfl⟩
    rw [Dict.ne_nil_iff]
    simpa only [(addRoutes_tabled htable).resolved] using hne

theorem selectedId_idsOf_perm (h : rows'.Perm rows) :
    selectedId (idsOf rows' permaslug) = selectedId (idsOf rows permaslug) :=
  selectedId_perm ((entriesOf_perm h).map Prod.fst).dedup

theorem Plain.perm (h : Plain rows) (hperm : rows'.Perm rows) : Plain rows' := by
  intro row hrow other hother hslug hid hselected
  rw [selectedId_idsOf_perm hperm] at hselected
  exact h row (hperm.subset hrow) other (hperm.subset hother) hslug hid hselected

theorem answer_eq_some : answer rows permaslug = some route ↔
    ∃ modelId value, selectedId (idsOf rows permaslug) = some modelId ∧
      (entriesOf rows permaslug).reverse.lookup modelId = some value ∧
      value.route modelId = some route := by
  simp [answer, Option.bind_eq_some_iff]

theorem route_eq_some : a.route modelId = some route ↔
    ∃ n, a.contextLength = .int n ∧ 0 < n ∧
      route = ⟨modelId, n, a.inputModalities, a.supportedParameters⟩ := by
  simp only [RouteValue.route, Option.bind_eq_bind, Option.bind_eq_some_iff, Decoded.asInt_eq_some,
    Option.ite_none_right_eq_some, Option.some.injEq]
  constructor
  · rintro ⟨n, hn, hpos, rfl⟩
    exact ⟨n, hn, hpos, rfl⟩
  · rintro ⟨n, hn, hpos, rfl⟩
    exact ⟨n, hn, hpos, rfl⟩

theorem RouteValue.Positive.resolves (h : a.Positive) (modelId : String) :
    ∃ route, a.route modelId = some route := by
  obtain ⟨n, hn, hpos⟩ := h
  simp only [route_eq_some]
  exact ⟨_, n, hn, hpos, rfl⟩

/-- Equal values give equal routes where both are written as integers. -/
theorem route_same (h : a.Same b) (hb : b.Positive) (ha : a.route modelId = some route) :
    b.route modelId = some route := by
  rw [route_eq_some] at ha ⊢
  obtain ⟨n, hn, hpos, rfl⟩ := ha
  obtain ⟨m, hm, -⟩ := hb
  obtain ⟨hcontext, hinput, hsupported⟩ := h
  rw [hn, hm, Decoded.pyEq_int] at hcontext
  exact ⟨n, by rw [hm, hcontext], hpos, by rw [hinput, hsupported]⟩

theorem answer_perm (hconsistent : Consistent rows) (hplain : Plain rows)
    (hperm : rows'.Perm rows) (h : answer rows permaslug = some route) :
    answer rows' permaslug = some route := by
  rw [answer_eq_some] at h ⊢
  obtain ⟨modelId, value, hselected, hlast, hroute⟩ := h
  have hvalue := List.mem_reverse.mp (Dict.mem_of_lookup hlast)
  obtain ⟨value', hlast'⟩ := Dict.exists_lookup
    (List.mem_reverse.mpr ((entriesOf_perm hperm).mem_iff.mpr hvalue))
  have hvalue' := List.mem_reverse.mp (Dict.mem_of_lookup hlast')
  rw [mem_entriesOf] at hvalue hvalue'
  obtain ⟨row, hrow, hslug, hid, rfl⟩ := hvalue
  obtain ⟨other, hother, hslug', hid', rfl⟩ := hvalue'
  have hother := hperm.subset hother
  have hpositive : row.value.Positive := by
    rw [route_eq_some] at hroute
    obtain ⟨n, hn, hpos, _⟩ := hroute
    exact ⟨n, hn, hpos⟩
  have hpositive' : other.value.Positive :=
    hplain row hrow other hother (hslug.trans hslug'.symm) (hid.trans hid'.symm)
      (by rw [hslug, hid, hselected]) hpositive
  have hsame := (hconsistent row hrow other hother (hid.trans hid'.symm)).2
  exact ⟨modelId, other.value, by rw [selectedId_idsOf_perm hperm, hselected], hlast',
    route_same hsame hpositive' hroute⟩

theorem routes_reordered {d : Dict String ModelRoute} (h : Reordered payload payload')
    (hplain : ∀ data, payloadData payload = .ok data → Consistent (data.filterMap routeRow) →
      Plain (data.filterMap routeRow))
    (hok : parseModelRoutes payload = .ok d) :
    ∃ d', parseModelRoutes payload' = .ok d' ∧ SameAnswers d d' := by
  obtain ⟨data, data', hdata, hdata', hperm⟩ := h
  have hperm := hperm.filterMap routeRow
  obtain ⟨hconsistent, permaslug, route, hroute⟩ := (parseModelRoutes_ok_iff hdata).mp ⟨d, hok⟩
  have hplain := hplain data hdata hconsistent
  obtain ⟨d', hok'⟩ := (parseModelRoutes_ok_iff hdata').mpr
    ⟨hconsistent.perm hperm, permaslug, route, answer_perm hconsistent hplain hperm hroute⟩
  refine ⟨d', hok', fun permaslug => ?_⟩
  rw [(parseModelRoutes_eq_ok hdata hok).2, (parseModelRoutes_eq_ok hdata' hok').2]
  apply Option.ext
  intro route
  exact ⟨answer_perm (hconsistent.perm hperm) (hplain.perm hperm) hperm.symm,
    answer_perm hconsistent hplain hperm⟩

/-- A row at the end of its group speaks for its model. -/
theorem answer_concat (hselected : selectedId (idsOf (rows ++ [row]) row.permaslug) =
    some row.modelId) :
    answer (rows ++ [row]) row.permaslug = row.value.route row.modelId := by
  have hlast : (entriesOf (rows ++ [row]) row.permaslug).reverse.lookup row.modelId =
      some row.value := by
    rw [entriesOf_concat, if_pos rfl, List.reverse_append, List.reverse_singleton,
      List.singleton_append, List.lookup_cons_self]
  simp [answer, hselected, hlast]

end Routes

section OrderFree

variable (numbers)

/-- The three parsers take every order of the rows alike. -/
def OrderFree (payload : Decoded) : Prop :=
  ∀ payload', Reordered payload payload' →
    Both (fun rows rows' => rows'.Perm rows) (parseBenchmarkRows numbers payload)
      (parseBenchmarkRows numbers payload') ∧
    Both SameAnswers (parseNamedRoutes payload) (parseNamedRoutes payload') ∧
    Both SameAnswers (parseModelRoutes payload) (parseModelRoutes payload')

variable {numbers}

theorem OrderFree.of_plain
    (h : ∀ data, payloadData payload = .ok data → Consistent (data.filterMap routeRow) →
      Plain (data.filterMap routeRow)) : OrderFree numbers payload := by
  intro payload' hreordered
  have h' : ∀ data, payloadData payload' = .ok data → Consistent (data.filterMap routeRow) →
      Plain (data.filterMap routeRow) := by
    obtain ⟨data, data', hdata, hdata', hperm⟩ := hreordered
    intro other hother hconsistent
    obtain rfl := Except.ok.inj (hdata'.symm.trans hother)
    exact (h data hdata (hconsistent.perm (hperm.symm.filterMap routeRow))).perm
      (hperm.filterMap routeRow)
  refine ⟨both_of_ok (benchmark_reordered hreordered) fun hok => ?_,
    both_of_ok (named_reordered hreordered) fun hok => ?_,
    both_of_ok (routes_reordered hreordered h) fun hok => ?_⟩
  · obtain ⟨rows, hrows, _⟩ := benchmark_reordered hreordered.symm hok
    exact ⟨rows, hrows⟩
  · obtain ⟨d, hd, _⟩ := named_reordered hreordered.symm hok
    exact ⟨d, hd⟩
  · obtain ⟨d, hd, _⟩ := routes_reordered hreordered.symm h' hok
    exact ⟨d, hd⟩

/-- The rows with one of them moved to the end. -/
theorem moved_last {data : List Decoded} (hdata : payloadData payload = .ok data)
    (hrow : row ∈ data.filterMap routeRow) : ∃ payload' data', Reordered payload payload' ∧
      payloadData payload' = .ok data' ∧
      ∃ rows, data'.filterMap routeRow = rows ++ [row] := by
  obtain ⟨raw, hraw, heq⟩ := List.mem_filterMap.mp hrow
  obtain ⟨before, after, rfl⟩ := List.append_of_mem hraw
  refine ⟨.dict [("data", .list (before ++ after ++ [raw]))], before ++ after ++ [raw],
    ⟨_, _, hdata, rfl, ?_⟩, rfl, (before ++ after).filterMap routeRow, ?_⟩
  · rw [List.append_assoc]
    exact (List.perm_append_singleton raw after).append_left before
  · rw [List.filterMap_append, List.filterMap_cons, heq, List.filterMap_nil]

theorem OrderFree.plain {data : List Decoded} (h : OrderFree numbers payload)
    (hdata : payloadData payload = .ok data) (hconsistent : Consistent (data.filterMap routeRow)) :
    Plain (data.filterMap routeRow) := by
  intro row hrow other hother hslug hid hselected hpositive
  obtain ⟨payload₁, data₁, hreordered₁, hdata₁, rows₁, hrows₁⟩ := moved_last hdata hrow
  obtain ⟨payload₂, data₂, hreordered₂, hdata₂, rows₂, hrows₂⟩ := moved_last hdata hother
  have hperm₁ := (hreordered₁.perm hdata hdata₁).filterMap routeRow
  have hperm₂ := (hreordered₂.perm hdata hdata₂).filterMap routeRow
  have hanswer₁ : answer (data₁.filterMap routeRow) row.permaslug =
      row.value.route row.modelId := by
    rw [← selectedId_idsOf_perm hperm₁, hrows₁] at hselected
    rw [hrows₁, answer_concat hselected]
  have hanswer₂ : answer (data₂.filterMap routeRow) row.permaslug =
      other.value.route row.modelId := by
    rw [← selectedId_idsOf_perm hperm₂, hrows₂, hslug, hid] at hselected
    rw [hrows₂, hslug, hid, answer_concat hselected]
  obtain ⟨route, hroute⟩ := hpositive.resolves row.modelId
  obtain ⟨d₁, hok₁⟩ := (parseModelRoutes_ok_iff hdata₁).mpr
    ⟨hconsistent.perm hperm₁, row.permaslug, route, hanswer₁.trans hroute⟩
  obtain ⟨d, hok, hsame₁⟩ := (h _ hreordered₁).2.2.ok_right hok₁
  obtain ⟨d₂, hok₂, hsame₂⟩ := (h _ hreordered₂).2.2.ok_left hok
  have hother : other.value.route row.modelId = some route := calc
    other.value.route row.modelId = d₂.lookup row.permaslug := by
      rw [(parseModelRoutes_eq_ok hdata₂ hok₂).2, hanswer₂]
    _ = d₁.lookup row.permaslug := by rw [hsame₂, hsame₁]
    _ = some route := by rw [(parseModelRoutes_eq_ok hdata₁ hok₁).2, hanswer₁, hroute]
  obtain ⟨n, hn, hpos, _⟩ := route_eq_some.mp hother
  exact ⟨n, hn, hpos⟩

/-- Each of the parsers gives equal rows or routes for every order of the rows, or refuses every
order, exactly where the rows of a chosen id all write their context length as an integer or none
does: equality takes 8192 and 8192.0 for one value, and only the last of them is kept and read. -/
theorem order_free_iff : OrderFree numbers payload ↔ ∀ data, payloadData payload = .ok data →
    Consistent (data.filterMap routeRow) → Plain (data.filterMap routeRow) :=
  ⟨fun h _ => h.plain, OrderFree.of_plain⟩

/-- One id twice, its context window once as 8192 and once as 8192.0. -/
private def twice (first second : Decoded) : Decoded :=
  .dict [("data", .list ([first, second].map fun contextLength => .dict
    [("canonical_slug", .str "a/b"), ("context_length", contextLength), ("id", .str "a/b")]))]

theorem order_free_not : ∃ payload payload', Reordered payload payload' ∧
    parseModelRoutes payload = .error .noRoutes ∧
    parseModelRoutes payload' = .ok [("a/b", ⟨"a/b", 8192, none, none⟩)] ∧
    ∀ numbers, ¬OrderFree numbers payload := by
  have hreordered : Reordered (twice (.int 8192) (.float (.finite 8192)))
      (twice (.float (.finite 8192)) (.int 8192)) :=
    ⟨_, _, rfl, rfl, .swap ..⟩
  have hfirst : parseModelRoutes (twice (.int 8192) (.float (.finite 8192))) =
      .error .noRoutes := by decide
  have hsecond : parseModelRoutes (twice (.float (.finite 8192)) (.int 8192)) =
      .ok [("a/b", ⟨"a/b", 8192, none, none⟩)] := by decide
  refine ⟨_, _, hreordered, hfirst, hsecond, fun numbers h => ?_⟩
  obtain ⟨_, hok, _⟩ := (h _ hreordered).2.2.ok_right hsecond
  rw [hfirst] at hok
  cases hok

end OrderFree

end Nocturne.ModelPolicy
