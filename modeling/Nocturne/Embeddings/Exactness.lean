import Mathlib.Data.List.Perm.Basic
import Nocturne.Embeddings.Validation

namespace Nocturne.Embeddings

open Nocturne.Lib

/-- The embedding of a row and the index it carries. -/
abbrev Row := ℤ × List ℚ

section Rows

variable {expectedCount dimensions : ℕ} {item : Decoded} {row : Row} {rows start : List Row}
  {vectorsByIndex : Dict ℤ (List ℚ)} {data : List Decoded} {index : ℤ}

/-- The data list of a payload. -/
def Lists (payload : Decoded) (data : List Decoded) : Prop :=
  ∃ fields, payload = .dict fields ∧ Decoded.get fields "data" = .list data

/-- An item carries an index and, as a list, an embedding. -/
def Holds (item : Decoded) (index : ℤ) (embedding : List Decoded) : Prop :=
  ∃ fields, item = .dict fields ∧ Decoded.get fields "index" = .int index ∧
    Decoded.get fields "embedding" = .list embedding

/-- An item is a row of finite numbers in the right dimension, and not of zero norm. -/
def Sound (dimensions : ℕ) (item : Decoded) (row : Row) : Prop :=
  ∃ embedding, Holds item row.1 embedding ∧ embedding.length = dimensions ∧
    List.Forall₂ Reads embedding row.2 ∧
    ∃ norm, Float64.fsum (squares row.2) = .ok norm ∧ norm ≠ .finite 0

/-- An item of the right dimension whose numbers, or the sum of their squares, are past the
doubles. -/
def Overflows (dimensions : ℕ) (item : Decoded) (index : ℤ) : Prop :=
  ∃ embedding, Holds item index embedding ∧ embedding.length = dimensions ∧
    (HugeFirst embedding ∨ ∃ vector, List.Forall₂ Reads embedding vector ∧
      Float64.fsum (squares vector) = .error .overflow)

/-- Indices in range, each once. -/
def Distinct (expectedCount : ℕ) (indices : List ℤ) : Prop :=
  indices.Nodup ∧ ∀ index ∈ indices, 0 ≤ index ∧ index < expectedCount

/-- The first item at fault is one that overflows. -/
def OverflowFirst (data : List Decoded) (expectedCount dimensions : ℕ) : Prop :=
  data.length = expectedCount ∧ ∃ before item after rows index, data = before ++ item :: after ∧
    List.Forall₂ (Sound dimensions) before rows ∧
    Distinct expectedCount (rows.map Prod.fst ++ [index]) ∧ Overflows dimensions item index

theorem distinct_concat {indices : List ℤ} : Distinct expectedCount (indices ++ [index]) ↔
    Distinct expectedCount indices ∧ (0 ≤ index ∧ index < expectedCount) ∧ index ∉ indices := by
  simp only [Distinct, List.nodup_append, List.mem_append, List.mem_singleton, List.nodup_singleton]
  constructor
  · rintro ⟨⟨hnodup, _, hne⟩, hrange⟩
    exact ⟨⟨hnodup, fun a ha => hrange a (.inl ha)⟩, hrange index (.inr rfl),
      fun hin => hne index hin index rfl rfl⟩
  · rintro ⟨⟨hnodup, hrange⟩, hindex, hout⟩
    refine ⟨⟨hnodup, trivial, ?_⟩, ?_⟩
    · rintro a ha b rfl rfl
      exact hout ha
    · rintro a (ha | rfl)
      · exact hrange a ha
      · exact hindex

theorem set_of_not_mem (h : index ∉ vectorsByIndex.map Prod.fst) (vector : List ℚ) :
    vectorsByIndex.set index vector = vectorsByIndex ++ [(index, vector)] := if_neg h

/-- An item is placed where it is sound and its index is in range and new. -/
theorem place_eq_ok {after : Dict ℤ (List ℚ)} :
    place expectedCount dimensions vectorsByIndex item = .ok after ↔
      ∃ row, Sound dimensions item row ∧ (0 ≤ row.1 ∧ row.1 < expectedCount) ∧
        row.1 ∉ vectorsByIndex.map Prod.fst ∧ after = vectorsByIndex ++ [row] := by
  simp only [place, bind_eq_ok, require_eq_ok, ensure_eq_ok, pure_eq_ok, mapM_number_eq_ok,
    sumOfSquares_eq_ok, Decoded.asDict_eq_some, Decoded.asInt_eq_some, Decoded.asList_eq_some]
  constructor
  · rintro ⟨fields, hitem, index, hindex, _, hrange, _, hnew, embedding, hembedding, _, hlength,
      vector, hvector, norm, hnorm, _, hzero, rfl⟩
    exact ⟨(index, vector), ⟨embedding, ⟨fields, hitem, hindex, hembedding⟩, hlength, hvector,
      norm, hnorm, hzero⟩, hrange, hnew, set_of_not_mem hnew vector⟩
  · rintro ⟨⟨index, vector⟩, ⟨embedding, ⟨fields, hitem, hindex, hembedding⟩, hlength, hvector,
      norm, hnorm, hzero⟩, hrange, hnew, rfl⟩
    exact ⟨fields, hitem, index, hindex, .unit, hrange, .unit, hnew, embedding, hembedding, .unit,
      hlength, vector, hvector, norm, hnorm, .unit, hzero, set_of_not_mem hnew vector⟩

theorem place_eq_overflow :
    place expectedCount dimensions vectorsByIndex item = .error .overflowError ↔
      ∃ index : ℤ, (0 ≤ index ∧ index < expectedCount) ∧ index ∉ vectorsByIndex.map Prod.fst ∧
        Overflows dimensions item index := by
  simp only [place, bind_eq_error, require_eq_ok, ensure_eq_ok, require_eq_error, ensure_eq_error,
    mapM_number_eq_ok, mapM_number_eq_overflow, sumOfSquares_eq_ok, sumOfSquares_eq_overflow,
    Decoded.asDict_eq_some, Decoded.asInt_eq_some, Decoded.asList_eq_some, reduceCtorEq, and_false,
    false_or]
  constructor
  · rintro ⟨fields, hitem, index, hindex, _, hrange, _, hnew, embedding, hembedding, _, hlength,
      hvalues⟩
    refine ⟨index, hrange, hnew, embedding, ⟨fields, hitem, hindex, hembedding⟩, hlength, ?_⟩
    rcases hvalues with hhuge | ⟨vector, hvector, hsum | ⟨_, _, hend⟩⟩
    · exact .inl hhuge
    · exact .inr ⟨vector, hvector, hsum⟩
    · simp [pure, Except.pure] at hend
  · rintro ⟨index, hrange, hnew, embedding, ⟨fields, hitem, hindex, hembedding⟩, hlength, hvalues⟩
    refine ⟨fields, hitem, index, hindex, .unit, hrange, .unit, hnew, embedding, hembedding, .unit,
      hlength, ?_⟩
    rcases hvalues with hhuge | ⟨vector, hvector, hsum⟩
    · exact .inl hhuge
    · exact .inr ⟨vector, hvector, .inl hsum⟩

theorem place_meets :
    Meets (fun _ => True) Expected (place expectedCount dimensions vectorsByIndex item) := by
  refine (Meets.require (expected_response (by nofun))).bind fun fields _ => ?_
  refine (Meets.require (expected_response (by nofun))).bind fun index _ => ?_
  refine (Meets.ensure (expected_response (by nofun))).bind fun _ _ => ?_
  refine (Meets.ensure (expected_response (by nofun))).bind fun _ _ => ?_
  refine (Meets.require (expected_response (by nofun))).bind fun embedding _ => ?_
  refine (Meets.ensure (expected_response (by nofun))).bind fun _ _ => ?_
  refine (Meets.mapM fun _ _ => number_meets).bind fun vector _ => ?_
  refine Meets.bind sumOfSquares_meets fun norm _ => ?_
  exact (Meets.ensure (expected_response (by nofun))).bind fun _ _ => .pure trivial

/-- The loop places sound rows in their order, with distinct indices in range. -/
theorem foldlM_place_eq_ok {final : Dict ℤ (List ℚ)}
    (hstart : Distinct expectedCount (start.map Prod.fst)) :
    data.foldlM (place expectedCount dimensions) start = .ok final ↔
      ∃ rows, List.Forall₂ (Sound dimensions) data rows ∧
        Distinct expectedCount ((start ++ rows).map Prod.fst) ∧ final = start ++ rows := by
  induction data generalizing start with
  | nil =>
    rw [List.foldlM_nil, pure_eq_ok]
    constructor
    · rintro rfl
      exact ⟨[], .nil, by rwa [List.append_nil], (List.append_nil _).symm⟩
    · rintro ⟨_, hrows, _, rfl⟩
      cases hrows
      rw [List.append_nil]
  | cons item data ih =>
    simp only [List.foldlM_cons, bind_eq_ok, place_eq_ok]
    constructor
    · rintro ⟨_, ⟨row, hsound, hrange, hnew, rfl⟩, hrest⟩
      have hnext : Distinct expectedCount ((start ++ [row]).map Prod.fst) := by
        rw [List.map_append, List.map_singleton, distinct_concat]
        exact ⟨hstart, hrange, hnew⟩
      obtain ⟨rows, hrows, hdistinct, rfl⟩ := (ih hnext).mp hrest
      rw [List.append_assoc, List.singleton_append] at hdistinct ⊢
      exact ⟨row :: rows, .cons hsound hrows, hdistinct, rfl⟩
    · rintro ⟨_, hrows, hdistinct, rfl⟩
      cases hrows with
      | @cons _ row _ rows hsound hrows =>
        have hsplit : start ++ row :: rows = (start ++ [row]) ++ rows := by simp
        rw [hsplit] at hdistinct
        have hnext : Distinct expectedCount ((start ++ [row]).map Prod.fst) := by
          rw [List.map_append] at hdistinct
          exact ⟨hdistinct.1.of_append_left,
            fun a ha => hdistinct.2 a (List.mem_append_left _ ha)⟩
        have hrow := hnext
        rw [List.map_append, List.map_singleton, distinct_concat] at hrow
        obtain ⟨_, hrange, hnew⟩ := hrow
        exact ⟨_, ⟨row, hsound, hrange, hnew, rfl⟩, (ih hnext).mpr ⟨rows, hrows, hdistinct, hsplit⟩⟩

theorem distinct_nil : Distinct expectedCount [] := ⟨List.nodup_nil, by simp⟩

theorem foldlM_place_nil {final : Dict ℤ (List ℚ)} :
    data.foldlM (place expectedCount dimensions) [] = .ok final ↔
      List.Forall₂ (Sound dimensions) data final ∧
        Distinct expectedCount (final.map Prod.fst) := by
  rw [foldlM_place_eq_ok distinct_nil]
  constructor
  · rintro ⟨rows, hrows, hdistinct, rfl⟩
    exact ⟨hrows, hdistinct⟩
  · rintro ⟨hrows, hdistinct⟩
    exact ⟨final, hrows, hdistinct, rfl⟩

theorem foldlM_place_overflow (hlength : data.length = expectedCount) :
    data.foldlM (place expectedCount dimensions) [] = .error .overflowError ↔
      OverflowFirst data expectedCount dimensions := by
  simp only [foldlM_eq_error, foldlM_place_nil, place_eq_overflow]
  constructor
  · rintro ⟨before, item, after, rows, hdata, ⟨hrows, hdistinct⟩, index, hrange, hnew, hover⟩
    refine ⟨hlength, before, item, after, rows, index, hdata, hrows, ?_, hover⟩
    rw [distinct_concat]
    exact ⟨hdistinct, hrange, hnew⟩
  · rintro ⟨_, before, item, after, rows, index, hdata, hrows, hdistinct, hover⟩
    rw [distinct_concat] at hdistinct
    obtain ⟨hdistinct, hrange, hnew⟩ := hdistinct
    exact ⟨before, item, after, rows, hdata, ⟨hrows, hdistinct⟩, index, hrange, hnew, hover⟩

end Rows

section Vectors

variable {expectedCount dimensions : ℕ} {payload : Decoded} {data : List Decoded}
  {rows : Dict ℤ (List ℚ)} {vectors : List (List ℚ)}

/-- Each vector with its position. -/
def placed (vectors : List (List ℚ)) : List Row :=
  vectors.mapIdx fun index vector => (index, vector)

/-- The vectors are those of the rows, each at the index its row carries. -/
def Answer (data : List Decoded) (expectedCount dimensions : ℕ) (vectors : List (List ℚ)) : Prop :=
  vectors.length = expectedCount ∧
    ∃ rows, rows.Perm (placed vectors) ∧ List.Forall₂ (Sound dimensions) data rows

theorem mem_placed {row : Row} :
    row ∈ placed vectors ↔ ∃ (i : ℕ) (h : i < vectors.length), row = (↑i, vectors[i]) := by
  simp only [placed, List.mem_mapIdx, eq_comm]

theorem placed_keys : (placed vectors).map Prod.fst = (List.range vectors.length).map Nat.cast := by
  apply List.ext_getElem
  · simp [placed]
  · simp [placed]

theorem nodup_indices (n : ℕ) : ((List.range n).map (Nat.cast : ℕ → ℤ)).Nodup :=
  List.nodup_range.map Nat.cast_injective

theorem distinct_indices : Distinct expectedCount ((List.range expectedCount).map Nat.cast) := by
  refine ⟨nodup_indices _, fun index hindex => ?_⟩
  obtain ⟨i, hi, rfl⟩ := List.mem_map.mp hindex
  rw [List.mem_range] at hi
  omega

theorem Distinct.perm {indices indices' : List ℤ} (h : Distinct expectedCount indices)
    (hperm : indices'.Perm indices) : Distinct expectedCount indices' :=
  ⟨hperm.nodup_iff.mpr h.1, fun index hindex => h.2 index (hperm.mem_iff.mp hindex)⟩

/-- As many distinct indices as there are leave none out. -/
theorem Distinct.full {indices : List ℤ} (h : Distinct expectedCount indices)
    (hlength : indices.length = expectedCount) :
    indices.Perm ((List.range expectedCount).map Nat.cast) := by
  have hsubset : indices ⊆ (List.range expectedCount).map Nat.cast := by
    intro index hindex
    obtain ⟨hlow, hhigh⟩ := h.2 index hindex
    exact List.mem_map.mpr ⟨index.toNat, List.mem_range.mpr (by omega), by omega⟩
  exact (List.subperm_of_subset h.1 hsubset).perm_of_length_le (by simp [hlength])

/-- Once every row is placed, no vector is missing. -/
theorem missing_eq_nil (h : Distinct expectedCount (rows.map Prod.fst))
    (hlength : rows.length = expectedCount) : missing expectedCount rows = [] := by
  have hfull := h.full (by rw [List.length_map, hlength])
  unfold missing
  rw [List.filter_eq_nil_iff]
  intro index hindex
  rw [decide_eq_true_eq, not_not, hfull.mem_iff]
  exact List.mem_map_of_mem hindex

theorem mapM_lookup_eq_ok : ((List.range expectedCount).mapM fun (index : ℕ) =>
      require (rows.lookup (index : ℤ)) (Raised.keyError index)) = .ok vectors ↔
    vectors.length = expectedCount ∧
      ∀ (i : ℕ) (h : i < vectors.length), rows.lookup (i : ℤ) = some vectors[i] := by
  simp only [mapM_eq_ok, require_eq_ok, List.forall₂_iff_get, List.length_range,
    List.get_eq_getElem, List.getElem_range]
  constructor
  · rintro ⟨hlength, h⟩
    exact ⟨hlength.symm, fun i hi => h i (hlength ▸ hi) hi⟩
  · rintro ⟨hlength, h⟩
    exact ⟨hlength.symm, fun i _ hi => h i hi⟩

/-- Looking every position up undoes the order of the rows. -/
theorem lookups_iff (hkeyed : rows.Keyed) (hlength : rows.length = expectedCount) :
    (vectors.length = expectedCount ∧
      ∀ (i : ℕ) (h : i < vectors.length), rows.lookup (i : ℤ) = some vectors[i]) ↔
    vectors.length = expectedCount ∧ rows.Perm (placed vectors) := by
  refine and_congr_right fun hvectors => ⟨fun h => ?_, fun hperm i hi => ?_⟩
  · have hnodup : (placed vectors).Nodup := by
      refine List.Nodup.of_map Prod.fst ?_
      rw [placed_keys]
      exact nodup_indices _
    have hsubset : placed vectors ⊆ rows := by
      intro row hrow
      rw [mem_placed] at hrow
      obtain ⟨i, hi, rfl⟩ := hrow
      exact hkeyed.lookup_iff.mp (h i hi)
    have hcount : rows.length ≤ (placed vectors).length := by
      rw [placed, List.length_mapIdx, hlength, hvectors]
    exact ((List.subperm_of_subset hnodup hsubset).perm_of_length_le hcount).symm
  · rw [hkeyed.lookup_iff, hperm.mem_iff, mem_placed]
    exact ⟨i, hi, rfl⟩

/-- Vectors come back exactly where the rows are sound and carry each position once. -/
theorem validatedVectors_eq_ok : validatedVectors payload expectedCount dimensions = .ok vectors ↔
    ∃ data, Lists payload data ∧ Answer data expectedCount dimensions vectors := by
  simp only [validatedVectors, bind_eq_ok, require_eq_ok, ensure_eq_ok, Decoded.asDict_eq_some,
    Decoded.asList_eq_some, foldlM_place_nil, mapM_lookup_eq_ok]
  constructor
  · rintro ⟨fields, hpayload, data, hdata, _, hlength, rows, ⟨hrows, hdistinct⟩, _, _, hlookups⟩
    have hcount : rows.length = expectedCount := hrows.length_eq.symm.trans hlength
    obtain ⟨hvectors, hperm⟩ := (lookups_iff hdistinct.1 hcount).mp hlookups
    exact ⟨data, ⟨fields, hpayload, hdata⟩, hvectors, rows, hperm, hrows⟩
  · rintro ⟨data, ⟨fields, hpayload, hdata⟩, hvectors, rows, hperm, hrows⟩
    have hcount : rows.length = expectedCount := by
      rw [hperm.length_eq, placed, List.length_mapIdx, hvectors]
    have hdistinct : Distinct expectedCount (rows.map Prod.fst) := by
      have hkeys := hperm.map Prod.fst
      rw [placed_keys, hvectors] at hkeys
      exact distinct_indices.perm hkeys
    exact ⟨fields, hpayload, data, hdata, .unit, hrows.length_eq.trans hcount, rows,
      ⟨hrows, hdistinct⟩, .unit, missing_eq_nil hdistinct hcount,
      (lookups_iff hdistinct.1 hcount).mpr ⟨hvectors, hperm⟩⟩

/-- The order of the rows does not matter. -/
theorem Answer.perm {data' : List Decoded} (h : Answer data expectedCount dimensions vectors)
    (hperm : data'.Perm data) : Answer data' expectedCount dimensions vectors := by
  obtain ⟨hvectors, rows, hrows, hsound⟩ := h
  obtain ⟨rows', hsound', hrows'⟩ := List.perm_comp_forall₂ hperm hsound
  exact ⟨hvectors, rows', hrows'.trans hrows, hsound'⟩

theorem validatedVectors_eq_overflow :
    validatedVectors payload expectedCount dimensions = .error .overflowError ↔
      ∃ data, Lists payload data ∧ OverflowFirst data expectedCount dimensions := by
  simp only [validatedVectors, bind_eq_error, require_eq_ok, ensure_eq_ok, require_eq_error,
    ensure_eq_error, Decoded.asDict_eq_some, Decoded.asList_eq_some, mapM_eq_error, reduceCtorEq,
    and_false, false_or, or_false, exists_false]
  constructor
  · rintro ⟨fields, hpayload, data, hdata, _, hlength, hover⟩
    exact ⟨data, ⟨fields, hpayload, hdata⟩, (foldlM_place_overflow hlength).mp hover⟩
  · rintro ⟨data, ⟨fields, hpayload, hdata⟩, hover⟩
    exact ⟨fields, hpayload, data, hdata, .unit, hover.1, (foldlM_place_overflow hover.1).mpr hover⟩

/-- Every position is found once every row is placed. -/
theorem mapM_lookup_total (h : Distinct expectedCount (rows.map Prod.fst))
    (hlength : rows.length = expectedCount) :
    ∃ vectors, ((List.range expectedCount).mapM fun (index : ℕ) =>
      require (rows.lookup (index : ℤ)) (Raised.keyError index)) = .ok vectors := by
  have hfull := h.full (by rw [List.length_map, hlength])
  refine mapM_total fun index hindex => ?_
  have hkey : (index : ℤ) ∈ rows.map Prod.fst := hfull.mem_iff.mpr (List.mem_map_of_mem hindex)
  obtain ⟨row, hrow, hrowkey⟩ := List.mem_map.mp hkey
  obtain ⟨vector, hvector⟩ := Dict.exists_lookup hrow
  rw [hrowkey] at hvector
  exact ⟨vector, require_eq_ok.mpr hvector⟩

/-- Nothing is raised but the errors meant and the overflow, and no position is ever missing. -/
theorem validatedVectors_meets :
    Meets (fun _ => True) Expected (validatedVectors payload expectedCount dimensions) := by
  refine (Meets.require (expected_response (by nofun))).bind fun fields _ => ?_
  refine (Meets.require (expected_response (by nofun))).bind fun data _ => ?_
  refine (Meets.ensure (expected_response (by nofun))).bind fun _ hlength => ?_
  have hloop : Meets (fun _ => True) Expected
      (data.foldlM (place expectedCount dimensions) []) :=
    .foldlM (fun _ _ _ _ => place_meets) trivial
  refine hloop.bind' fun rows hrows _ => ?_
  obtain ⟨hsound, hdistinct⟩ := foldlM_place_nil.1 hrows
  have hcount : rows.length = expectedCount := hsound.length_eq.symm.trans hlength
  obtain ⟨vectors, hvectors⟩ := mapM_lookup_total hdistinct hcount
  rw [ensure_pos (missing_eq_nil hdistinct hcount), ok_bind, hvectors]
  exact .ok trivial

/-- What validation promises of one payload. -/
structure Exact (payload : Decoded) (expectedCount dimensions : ℕ) : Prop where
  returned : ∀ vectors, validatedVectors payload expectedCount dimensions = .ok vectors ↔
    ∃ data, Lists payload data ∧ Answer data expectedCount dimensions vectors
  reordered : ∀ payload' data data', Lists payload data → Lists payload' data' →
    data'.Perm data → ∀ vectors, validatedVectors payload expectedCount dimensions = .ok vectors →
      validatedVectors payload' expectedCount dimensions = .ok vectors
  raised : ∀ raised, validatedVectors payload expectedCount dimensions = .error raised →
    ∃ error, raised = .response error ∧ ∀ indices, error ≠ .missing indices

theorem Lists.inj {data' : List Decoded} (h : Lists payload data) (h' : Lists payload data') :
    data = data' := by
  obtain ⟨fields, rfl, hdata⟩ := h
  obtain ⟨fields', heq, hdata'⟩ := h'
  cases heq
  rw [hdata] at hdata'
  exact Decoded.list.inj hdata'

theorem validatedVectors_perm {payload' : Decoded} {data' : List Decoded} (h : Lists payload data)
    (h' : Lists payload' data') (hperm : data'.Perm data)
    (hok : validatedVectors payload expectedCount dimensions = .ok vectors) :
    validatedVectors payload' expectedCount dimensions = .ok vectors := by
  rw [validatedVectors_eq_ok] at hok ⊢
  obtain ⟨data₀, hdata₀, hanswer⟩ := hok
  obtain rfl := hdata₀.inj h
  exact ⟨data', h', hanswer.perm hperm⟩

/-- A payload is validated exactly if and only if the first item at fault in it, if there is one,
does not overflow. -/
theorem validated_exact_iff (payload : Decoded) (expectedCount dimensions : ℕ) :
    Exact payload expectedCount dimensions ↔
      ∀ data, Lists payload data → ¬OverflowFirst data expectedCount dimensions := by
  constructor
  · intro hexact data hdata hover
    obtain ⟨error, herror, _⟩ :=
      hexact.raised _ (validatedVectors_eq_overflow.2 ⟨data, hdata, hover⟩)
    cases herror
  · intro hnone
    refine ⟨fun _ => validatedVectors_eq_ok,
      fun _ _ _ h h' hperm _ hok => validatedVectors_perm h h' hperm hok, fun raised h => ?_⟩
    rcases validatedVectors_meets.of_error h with hresponse | rfl
    · exact hresponse
    · obtain ⟨data, hdata, hover⟩ := validatedVectors_eq_overflow.1 h
      exact absurd hover (hnone data hdata)

/-- A payload of one row. -/
def oneRow (embedding : List Decoded) : Decoded :=
  .dict [("data", .list [.dict [("embedding", .list embedding), ("index", .int 0)]])]

/-- An integer past the doubles, and two numbers the sum of whose squares is. -/
theorem validated_not_exact :
    (validatedVectors (oneRow [.int (2 ^ 1024)]) 1 1 = .error .overflowError ∧
      ¬Exact (oneRow [.int (2 ^ 1024)]) 1 1) ∧
    validatedVectors (oneRow [.float (.finite (3 * 2 ^ 510)), .float (.finite (3 * 2 ^ 510))]) 1 2 =
        .error .overflowError ∧
      ¬Exact (oneRow [.float (.finite (3 * 2 ^ 510)), .float (.finite (3 * 2 ^ 510))]) 1 2 := by
  have hfails {payload : Decoded} {n d : ℕ}
      (h : validatedVectors payload n d = .error .overflowError) : ¬Exact payload n d :=
    fun hexact => nomatch hexact.raised _ h
  have hinteger : validatedVectors (oneRow [.int (2 ^ 1024)]) 1 1 = .error .overflowError := by
    decide +kernel
  have hsum : validatedVectors
      (oneRow [.float (.finite (3 * 2 ^ 510)), .float (.finite (3 * 2 ^ 510))]) 1 2 =
      .error .overflowError := by
    decide +kernel
  exact ⟨⟨hinteger, hfails hinteger⟩, hsum, hfails hsum⟩

end Vectors

end Nocturne.Embeddings
