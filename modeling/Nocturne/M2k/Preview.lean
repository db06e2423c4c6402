import Nocturne.Inject.Membership
import Nocturne.M2k.Contributions
import Nocturne.M2k.Instant
import Nocturne.M2k.Laws

namespace Nocturne.M2k

open Nocturne.Inject Nocturne.Learner Nocturne.Lib Nocturne.Store

section Taken

variable {tau : ℚ} {room : ℕ} {l : List (Scored LoggedEvent ℚ)}

/-- The pass of the preview takes what the pass of the selection takes. -/
theorem previewTaken_eq : previewTaken tau room l =
    (Greedy.pass (fun item => decide (tau ≤ item.score)) (·.tokenCost) room l).taken.map
      (·.memoryId) := by
  induction l generalizing room with
  | nil => rfl
  | cons item rest ih =>
    unfold previewTaken Greedy.pass
    simp only [decide_eq_true_eq]
    split
    · rw [ih]
      rfl
    · rw [ih]

/-- Ranks are assigned after the pass, and it does not read them. -/
theorem previewTaken_withRanks (start : ℕ) :
    previewTaken tau room (withRanks start l) = previewTaken tau room l := by
  induction l generalizing room start with
  | nil => rfl
  | cons item rest ih =>
    unfold withRanks previewTaken
    rw [ih, ih]

end Taken

section Candidates

variable {floats : Floats} {env : Env} {configs : List (ScorerConfig ℚ)}
  {preview : ScorerConfig ℚ} {values : ScorerValues}

theorem instantCandidate_row {row : LoggedEvent} {item : Scored LoggedEvent ℚ}
    (h : instantCandidate floats env configs preview values row = .ok (some item)) :
    item.candidate = row ∧ item.memoryId = row.memoryId := by
  simp only [instantCandidate, bind_eq_ok, pure_eq_ok, Option.map_eq_some_iff] at h
  obtain ⟨_, _, _, _, _, _, rfl⟩ := h
  exact ⟨rfl, rfl⟩

/-- Every row becomes a candidate, about the memory the row is about. -/
theorem instantCandidates_rows {rows : List LoggedEvent} {items : List (Scored LoggedEvent ℚ)}
    (h : instantCandidates floats env configs preview values rows = .ok (some items)) :
    items.map (·.memoryId) = rows.map (·.memoryId) ∧
      ∀ item ∈ items, item.candidate.memoryId = item.memoryId := by
  induction rows generalizing items with
  | nil =>
    obtain rfl := Option.some.inj (Except.ok.inj h)
    simp
  | cons row rest ih =>
    simp only [instantCandidates, bind_eq_ok] at h
    obtain ⟨made, hmade, h⟩ := h
    cases made with
    | none => simp at h
    | some item =>
      simp only [bind_eq_ok, pure_eq_ok, Option.map_eq_some_iff] at h
      obtain ⟨_, hrest, later, rfl, rfl⟩ := h
      obtain ⟨hrow, hmemory⟩ := instantCandidate_row hmade
      obtain ⟨hids, hcandidates⟩ := ih hrest
      refine ⟨by simp [hmemory, hids], ?_⟩
      rw [List.forall_mem_cons]
      exact ⟨by rw [hrow, hmemory], hcandidates⟩

end Candidates

namespace InstantPool

variable (pool : InstantPool) (floats : Floats)

/-- The room that the share of the context leaves, in exact decimals. -/
def exactRoom : ℕ := ⌊pool.values.1.memoryContextShare * (pool.contextTokens : ℚ)⌋₊

/-- The room that the preview computes. -/
def room : ℕ := floats.intProduct pool.values.1.memoryContextShare pool.contextTokens

/-- What one pass of the selection takes of the regular cards into a room. -/
def taken (room : ℕ) : List Uuid :=
  (Greedy.pass (fun item => decide (pool.values.1.tau ≤ item.score)) (·.tokenCost) room
    pool.sortedRegular).taken.map (·.memoryId)

/-- The room in binary floating point takes the cards that the exact one takes. -/
def RoomKept : Prop := ∀ id, id ∈ pool.taken (pool.room floats) ↔ id ∈ pool.taken pool.exactRoom

/-- The preview selects what the selection injects, and lists each memory once. -/
structure Selects (rows : List ScorerComparisonRow) : Prop where
  selected : ∃ selection, scoreAndSelect pool.pins pool.regular [] pool.contextTokens
    pool.preview.params = .ok selection ∧
      ∀ id, (∃ row ∈ rows, row.memoryId = id ∧ row.previewSelected = true) ↔
        id ∈ selection.injected.map (·.memoryId)
  once : ∀ item ∈ pool.items, (rows.filter (·.memoryId = item.memoryId)).length = 1

/-- What an admitted preview of recorded rows comes with. -/
structure Admitted : Prop where
  positive : 0 < pool.contextTokens
  rows : ∀ item ∈ pool.items, item.candidate.memoryId = item.memoryId
  tau : pool.preview.params.tau = pool.values.1.tau
  share : pool.preview.params.memoryContextShare = pool.values.1.memoryContextShare
  legacy : pool.preview.params.legacyBudgetTokens = none

variable {pool} {floats}

theorem perm_items : (pool.pins ++ pool.regular).Perm pool.items :=
  List.filter_append_perm _ _

theorem perm_sorted : (pool.sortedPins ++ pool.sortedRegular).Perm pool.items :=
  ((List.perm_insertionSort _ _).append (List.perm_insertionSort _ _)).trans perm_items

theorem taken_sublist {room : ℕ} :
    (pool.taken room).Sublist (pool.sortedRegular.map (·.memoryId)) :=
  Greedy.taken_sublist.map _

theorem selectedIds_eq : pool.selectedIds floats =
    pool.sortedPins.map (·.memoryId) ++ pool.taken (pool.room floats) := by
  rw [selectedIds, previewTaken_eq]
  rfl

theorem selectedIds_subset {id : Uuid} (h : id ∈ pool.selectedIds floats) :
    id ∈ pool.items.map (·.memoryId) := by
  apply (perm_sorted.map (·.memoryId)).subset
  rw [List.map_append, List.mem_append]
  rw [selectedIds_eq] at h
  rcases List.mem_append.mp h with h | h
  · exact .inl h
  · exact .inr (taken_sublist.subset h)

/-- What a row of the preview says of a candidate. -/
theorem mem_comparisons (h : pool.Admitted) {row : ScorerComparisonRow}
    (hrow : row ∈ pool.comparisons floats) : ∃ item ∈ pool.items,
      row.memoryId = item.memoryId ∧
        row.previewSelected = decide (item.memoryId ∈ pool.selectedIds floats) := by
  obtain ⟨ranked, hranked, rfl⟩ := List.mem_map.mp hrow
  obtain ⟨item, hitem, rank, _, _, rfl⟩ := mem_withRanks hranked
  have hmem := perm_sorted.subset hitem
  have hid : item.candidate.memoryId = item.memoryId := h.rows item hmem
  exact ⟨item, hmem, hid, by rw [← hid]; rfl⟩

theorem map_comparisons (floats : Floats) (h : pool.Admitted) :
    ((pool.comparisons floats).map (·.memoryId)).Perm (pool.items.map (·.memoryId)) := by
  have hids : (pool.comparisons floats).map (·.memoryId) =
      (pool.sortedPins ++ pool.sortedRegular).map (·.candidate.memoryId) := by
    rw [comparisons, List.map_map]
    exact map_withRanks _ (fun _ _ => rfl) _ _
  rw [hids]
  refine (perm_sorted.map _).trans (List.Perm.of_eq ?_)
  exact List.map_congr_left h.rows

/-- The memories marked as selected are the ones selected. -/
theorem marked_iff (h : pool.Admitted) {id : Uuid} :
    (∃ row ∈ pool.comparisons floats, row.memoryId = id ∧ row.previewSelected = true) ↔
      id ∈ pool.selectedIds floats := by
  constructor
  · rintro ⟨row, hrow, rfl, hselected⟩
    obtain ⟨item, _, hid, hmarked⟩ := mem_comparisons h hrow
    rw [hid]
    simpa [hmarked] using hselected
  · intro hid
    have hlisted := (map_comparisons floats h).symm.subset (selectedIds_subset hid)
    obtain ⟨row, hrow, rfl⟩ := List.mem_map.mp hlisted
    obtain ⟨item, _, hmemory, hmarked⟩ := mem_comparisons h hrow
    exact ⟨row, hrow, rfl, by simpa [hmarked, hmemory] using hid⟩

/-- Each memory is listed once exactly when each was recorded once. -/
theorem once_iff (h : pool.Admitted) :
    (∀ item ∈ pool.items,
      ((pool.comparisons floats).filter (·.memoryId = item.memoryId)).length = 1) ↔
      (pool.items.map (·.memoryId)).Nodup := by
  have hcount (id : Uuid) : ((pool.comparisons floats).filter (·.memoryId = id)).length =
      (pool.items.map (·.memoryId)).count id := by
    rw [← (map_comparisons floats h).count_eq, List.count, List.countP_map,
      List.countP_eq_length_filter]
    congr 2
  simp only [hcount]
  constructor
  · intro hone
    rw [List.nodup_iff_count_le_one]
    intro id
    by_cases hid : id ∈ pool.items.map (·.memoryId)
    · obtain ⟨item, hitem, rfl⟩ := List.mem_map.mp hid
      exact (hone item hitem).le
    · rw [List.count_eq_zero_of_not_mem hid]
      exact Nat.zero_le _
  · exact fun hnodup item hitem => List.count_eq_one_of_mem hnodup (List.mem_map_of_mem hitem)

theorem lockedRegularIds_nil (pins : List (Scored LoggedEvent ℚ)) : lockedRegularIds pins [] = [] :=
  rfl

/-- Memories recorded once each pass the checks of the selection. -/
theorem selectable (h : pool.Admitted) (hnodup : (pool.items.map (·.memoryId)).Nodup) :
    Selectable pool.pins pool.regular [] pool.contextTokens where
  positive := h.positive
  pinned c hc := List.of_mem_filter hc
  unpinned c hc := by simpa using List.of_mem_filter hc
  nodup := (perm_items.map _).nodup_iff.mpr hnodup
  lockedEligible := by simp [lockedPool, lockedRegularIds_nil]

/-- Without locks the selection injects the pins and what the exact room takes. -/
theorem injected_ids (h : pool.Admitted) :
    (selectionOf pool.pins pool.regular [] pool.contextTokens pool.preview.params).injected.map
      (·.memoryId) = pool.sortedPins.map (·.memoryId) ++ pool.taken pool.exactRoom := by
  have hlocked : rankedLocked pool.pins pool.regular [] = [] := by
    simp [rankedLocked, lockedPool, lockedRegularIds_nil]
  have hregular : regularPool pool.pins pool.regular [] = pool.regular := by
    simp [regularPool, lockedRegularIds_nil]
  have hroom : regularRoom pool.pins pool.regular [] pool.contextTokens pool.preview.params =
      pool.exactRoom := by
    simp only [regularRoom, shareTokens, hlocked, h.legacy, h.share]
    exact Nat.sub_zero _
  have hpins : (rankedPins pool.pins).map (·.memoryId) = pool.sortedPins.map (·.memoryId) :=
    map_withRanks _ (fun _ _ => rfl) _ _
  simp only [selectionOf, regularCut, hroom, hlocked, List.append_nil, List.map_append, hpins,
    h.tau]
  rw [← previewTaken_eq, rankedRegular, previewTaken_withRanks, hregular, taken, previewTaken_eq]
  rfl

/-- With each memory recorded once, the two select alike where their rooms take alike. -/
theorem selected_iff (h : pool.Admitted) (hnodup : (pool.items.map (·.memoryId)).Nodup) :
    (∀ id, id ∈ pool.selectedIds floats ↔ id ∈ (selectionOf pool.pins pool.regular []
      pool.contextTokens pool.preview.params).injected.map (·.memoryId)) ↔
      pool.RoomKept floats := by
  have happart : ∀ id, id ∈ pool.sortedPins.map (·.memoryId) →
      ∀ room, id ∉ pool.taken room := by
    have hsorted := (perm_sorted.map (·.memoryId)).nodup_iff.mpr hnodup
    rw [List.map_append, List.nodup_append] at hsorted
    exact fun id hpin room htaken =>
      hsorted.2.2 id hpin id (taken_sublist.subset htaken) rfl
  simp only [injected_ids h, selectedIds_eq, List.mem_append, RoomKept]
  constructor
  · intro hsame id
    by_cases hpin : id ∈ pool.sortedPins.map (·.memoryId)
    · exact iff_of_false (happart id hpin _) (happart id hpin _)
    · simpa [hpin] using hsame id
  · exact fun hkept id => or_congr_right (hkept id)

theorem selects_iff (h : pool.Admitted) : pool.Selects (pool.comparisons floats) ↔
    (pool.items.map (·.memoryId)).Nodup ∧ pool.RoomKept floats := by
  constructor
  · rintro ⟨⟨selection, hselection, hselected⟩, honce⟩
    have hnodup := (once_iff h).mp honce
    obtain ⟨_, rfl⟩ := scoreAndSelect_eq_ok.mp hselection
    refine ⟨hnodup, (selected_iff h hnodup).mp fun id => ?_⟩
    rw [← marked_iff h]
    exact hselected id
  · rintro ⟨hnodup, hkept⟩
    refine ⟨⟨_, scoreAndSelect_eq_ok.mpr ⟨selectable h hnodup, rfl⟩, fun id => ?_⟩,
      (once_iff h).mpr hnodup⟩
    rw [marked_iff h]
    exact (selected_iff h hnodup).mpr hkept id

end InstantPool

section Simulation

variable {floats : Floats} {env : Env} {events : List LoggedEvent} {configRows : List ConfigRow}
  {principalId : String} {injectionId : Uuid} {preview : ConfigRow} {values : ScorerValues}
  {pool : InstantPool}

theorem instantPool_admitted (h : instantPool floats env events configRows principalId injectionId
    preview values = .ok (some pool)) : pool.Admitted ∧ pool.items.map (·.memoryId) =
      (injectionRows events principalId injectionId).map (·.memoryId) := by
  unfold instantPool at h
  split at h
  · cases h
  · next first rest hrows =>
    split at h
    · cases h
    · next contextTokens _ =>
      split at h
      · cases h
      · next hpositive =>
        simp only [bind_eq_ok, require_eq_ok, pure_eq_ok, Option.map_eq_some_iff] at h
        obtain ⟨configs, _, runtime, hruntime, _, hitems, items, rfl, rfl⟩ := h
        obtain ⟨hids, hcandidates⟩ := instantCandidates_rows hitems
        have hconfig := (fromMappings_eq_some.mp hruntime).1
        obtain rfl := Option.some.inj hconfig
        exact ⟨⟨by dsimp only; omega, hcandidates, rfl, rfl, rfl⟩, by rw [hrows]; exact hids⟩

end Simulation

section Gates

variable {env : Env} {scoring : Scoring} {s t : Store} {command : PrepareCommand}
  {query : Embedding} {plan : PreparePlan} {r : PrepareResponse × Store}

/-- A gate writes of each memory once exactly where no near miss was cut from the budget. -/
theorem rowIds_nodup_iff (h : plan.Sound) (hgate : plan.command.mode = .gate) :
    (rowIds plan.command plan.selection).Nodup ↔ ∀ c ∈ plan.selection.nearMisses,
      c.memoryId ∉ plan.selection.budgetCuts.map (·.memoryId) := by
  have hids : rowIds plan.command plan.selection =
      plan.selection.injected.map (·.memoryId) ++ (plan.selection.nearMisses.map (·.memoryId) ++
        plan.selection.budgetCuts.map (·.memoryId)) := by
    simp only [rowIds, eventDrafts, hgate, List.map_append, List.map_map, List.append_nil,
      List.append_assoc]
    rfl
  have hnodup := h.nodup
  rw [List.map_append, List.nodup_append] at hnodup
  obtain ⟨hinjected, hunselected, hapart⟩ := hnodup
  have hnear := h.near_sublist.map (·.memoryId)
  have hcuts := h.cuts_sublist.map (·.memoryId)
  rw [hids, List.nodup_append, List.nodup_append]
  constructor
  · rintro ⟨_, ⟨_, _, hdisjoint⟩, _⟩ c hc hcut
    exact hdisjoint _ (List.mem_map_of_mem hc) _ hcut rfl
  · intro hdisjoint
    refine ⟨hinjected, ⟨hnear.nodup hunselected, hcuts.nodup hunselected, ?_⟩, ?_⟩
    · rintro id hin _ hcut rfl
      obtain ⟨c, hc, rfl⟩ := List.mem_map.mp hin
      exact hdisjoint c hc hcut
    · rintro id hin _ hout rfl
      rcases List.mem_append.mp hout with hout | hout
      · exact hapart _ hin _ (hnear.subset hout) rfl
      · exact hapart _ hin _ (hcuts.subset hout) rfl

/-- A gate records each memory once exactly where it keeps no near miss or cuts nothing. -/
theorem gate_recorded_once_iff (hread : prepareRead env scoring s command query = .ok plan)
    (hgate : plan.command.mode = .gate) (hwrite : prepareWrite env t plan = .ok r)
    (hfresh : ∀ e ∈ t.events.rows, e.injectionId ≠ r.1.injectionId) :
    ((injectionRows (r.2.events.rows.map logged) plan.command.principalId
      r.1.injectionId).map (·.memoryId)).Nodup ↔
      plan.config.params.nearMissK = 0 ∨ plan.selection.budgetCuts = [] := by
  obtain ⟨pinned, regular, hplan⟩ := prepareRead_eq_ok.mp hread
  obtain ⟨stamped, counted, rows, hprepared⟩ := prepareWrite_eq_ok.mp hwrite
  obtain ⟨hrecorded, hevents⟩ := hprepared.recorded
  have hinjection : r.1.injectionId = stamped.freshUuid := by rw [hprepared.response]
  have hprincipal : ∀ e ∈ r.2.events.rows, e.injectionId = r.1.injectionId →
      e.principalId = plan.command.principalId := by
    intro e he hid
    rw [hrecorded.rows, hevents] at he
    rcases List.mem_append.mp he with he | he
    · exact absurd hid (hfresh e he)
    · obtain ⟨_, _, _, _, rfl⟩ := forall₂_of_mem_right hrecorded.drafts he
      rfl
  have hcount (id : Uuid) : ((injectionRows (r.2.events.rows.map logged) plan.command.principalId
      r.1.injectionId).map (·.memoryId)).count id =
        (rowIds plan.command plan.selection).count id := by
    rw [← hplan.sound.rowIds_eq, ← length_memberRows hrecorded (hinjection ▸ hevents ▸ hfresh),
      injectionRows, ((List.perm_insertionSort _ _).map _).count_eq, List.filter_map, List.map_map,
      List.count, List.countP_map, List.countP_filter, List.countP_eq_length_filter, memberRows,
      ← hinjection]
    congr 1
    apply List.filter_congr
    intro e he
    have hsame := hprincipal e he
    by_cases hid : e.injectionId = r.1.injectionId
    · simp [logged, hid, hsame hid, Bool.beq_eq_decide_eq]
    · simp [logged, hid]
  rw [List.nodup_iff_count_le_one]
  simp only [hcount]
  rw [← List.nodup_iff_count_le_one, rowIds_nodup_iff hplan.sound hgate,
    (scoreAndSelect_eq_ok.mp hplan.selected).2, nearMisses_disjoint_iff, budgetCuts_eq_nil_iff]

end Gates

section Small

def exactFloats : Floats := ⟨fun value _ => value, fun share tokens => ⌊share * (tokens : ℚ)⌋₊⟩

def keenConfig : ScorerConfig ℚ :=
  { mixedConfig with params := { mixedConfig.params with tau := 1 / 2 } }

def keenValues : ScorerValues :=
  ⟨⟨1 / 2, 4, 1 / 10, 30, 30, ⟨1 / 2, 1 / 2, 0, 0, 0, 0⟩⟩, by decide +kernel⟩

/-- What a gate logs under a version, in a context of so many tokens. -/
def teaLog (config : ScorerConfig ℚ) (tokens : ℕ) : Except SpineError (List LoggedEvent) := do
  let s := { teaStore with configs := ⟨[⟨config, none, none, true⟩], by simp⟩ }
  let plan ← prepareRead characterEnv (exactScoring mixedScoring) s
    { teaGate with modelContextTokens := tokens } [1]
  let r ← prepareWrite characterEnv s plan
  return r.2.events.rows.map logged

/-- The gate's preview under a lower threshold. -/
def teaPool (log : List LoggedEvent) : Except SimulationError (Option InstantPool) :=
  instantPool exactFloats characterEnv log [mixedRow] "owner" 70 mixedRow keenValues

theorem teaLog_near : Answers (teaLog mixedConfig 1000) fun log => Answers (teaPool log) fun pool =>
    ∃ p ∈ pool, (injectionRows log "owner" 70).map (·.memoryId) = [7] := by
  decide +kernel

theorem teaLog_cut : Answers (teaLog keenConfig 50) fun log => Answers (teaPool log) fun pool =>
    ∃ p ∈ pool, (injectionRows log "owner" 70).map (·.memoryId) = [7, 7] := by
  decide +kernel

end Small

end Nocturne.M2k
