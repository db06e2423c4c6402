import Nocturne.Learner.Hygiene

namespace Nocturne.Learner

open Nocturne.Inject Nocturne.Lib

variable {env : Env} {rows rows' rows'' : List LoggedEvent} {row row' : LoggedEvent}
  {passiveDiscount : ℚ}

section Fixed

/-- A row without its outcome, the one column that feedback writes. -/
def LoggedEvent.fixed (row : LoggedEvent) : LoggedEvent := { row with outcome := none }

/-- The later log has the earlier one's gates, their outcomes apart, and it may have more. -/
def Continues (rows rows' : List LoggedEvent) : Prop :=
  ∀ row ∈ rows, (gateMembers rows' row.injectionId).map LoggedEvent.fixed =
    (gateMembers rows row.injectionId).map LoggedEvent.fixed

theorem eventUid_of_fixed (h : row'.fixed = row.fixed) : row'.eventUid = row.eventUid :=
  (congrArg (·.eventUid) h : row'.fixed.eventUid = row.fixed.eventUid)

theorem injectionId_of_fixed (h : row'.fixed = row.fixed) : row'.injectionId = row.injectionId :=
  (congrArg (·.injectionId) h : row'.fixed.injectionId = row.fixed.injectionId)

theorem mem_gateMembers {injectionId : Uuid} :
    row ∈ gateMembers rows injectionId ↔ row ∈ rows ∧ row.injectionId = injectionId := by
  simp [gateMembers]

theorem Continues.refl (rows : List LoggedEvent) : Continues rows rows := fun _ _ => rfl

theorem gateMembers_fixed (rows : List LoggedEvent) (injectionId : Uuid) :
    (gateMembers rows injectionId).map LoggedEvent.fixed =
      gateMembers (rows.map LoggedEvent.fixed) injectionId := by
  unfold gateMembers
  rw [List.filter_map]
  rfl

theorem continues_of_map_fixed (h : rows'.map LoggedEvent.fixed = rows.map LoggedEvent.fixed) :
    Continues rows rows' := by
  intro row _
  rw [gateMembers_fixed, gateMembers_fixed, h]

/-- A row is still there, whatever became of it. -/
theorem Continues.exists_fixed (h : Continues rows rows') (hrow : row ∈ rows) :
    ∃ row' ∈ rows', row'.fixed = row.fixed := by
  have hmem : row.fixed ∈ (gateMembers rows row.injectionId).map LoggedEvent.fixed :=
    List.mem_map_of_mem (mem_gateMembers.mpr ⟨hrow, rfl⟩)
  rw [← h row hrow] at hmem
  obtain ⟨row', hrow', hfixed⟩ := List.mem_map.mp hmem
  exact ⟨row', (mem_gateMembers.mp hrow').1, hfixed⟩

theorem Continues.trans (h : Continues rows rows') (h' : Continues rows' rows'') :
    Continues rows rows'' := by
  intro row hrow
  obtain ⟨row', hrow', hfixed⟩ := h.exists_fixed hrow
  rw [← h row hrow, ← injectionId_of_fixed hfixed]
  exact h' row' hrow'

/-- An event uid names the same row in both logs. -/
theorem Continues.fixed_eq (h : Continues rows rows') (hnodup : (rows'.map (·.eventUid)).Nodup)
    (hrow : row ∈ rows) (hrow' : row' ∈ rows') (huid : row'.eventUid = row.eventUid) :
    row'.fixed = row.fixed := by
  obtain ⟨kept, hkept, hfixed⟩ := h.exists_fixed hrow
  have hsame : row'.eventUid = kept.eventUid := huid.trans (eventUid_of_fixed hfixed).symm
  rw [List.inj_on_of_nodup_map hnodup hrow' hkept hsame]
  exact hfixed

end Fixed

section Room

variable {members members' : List LoggedEvent} {context context' : ℤ}
  {regular regular' pinned pinned' : Nat}

theorem contextTokens_fixed : contextTokens (members.map LoggedEvent.fixed) =
    contextTokens members := by
  unfold contextTokens
  rw [List.findSome?_map]
  rfl

theorem tokenTotal_fixed : tokenTotal env (members.map LoggedEvent.fixed) =
    tokenTotal env members := by
  unfold tokenTotal
  rw [List.mapM_map]
  rfl

theorem filter_fixed (shownAs : ShownAs) :
    (members.map LoggedEvent.fixed).filter (·.shownAs = shownAs) =
      (members.filter (·.shownAs = shownAs)).map LoggedEvent.fixed := by
  rw [List.filter_map]
  rfl

theorem Room.fixed (h : Room env members context regular pinned) :
    Room env (members.map LoggedEvent.fixed) context regular pinned := by
  constructor
  · rw [contextTokens_fixed, h.context]
  · rw [filter_fixed, tokenTotal_fixed, h.regular]
  · rw [filter_fixed, tokenTotal_fixed, h.pinned]

theorem Room.unique (h : Room env members context regular pinned)
    (h' : Room env members context' regular' pinned') :
    context = context' ∧ regular = regular' ∧ pinned = pinned' := by
  refine ⟨?_, ?_, ?_⟩
  · exact Option.some.inj (h.context.symm.trans h'.context)
  · exact Except.ok.inj (h.regular.symm.trans h'.regular)
  · exact Except.ok.inj (h.pinned.symm.trans h'.pinned)

/-- The room a gate took is settled when it is logged. -/
theorem Room.eq (h : Room env members context regular pinned)
    (h' : Room env members' context' regular' pinned')
    (hmembers : members'.map LoggedEvent.fixed = members.map LoggedEvent.fixed) :
    context = context' ∧ regular = regular' ∧ pinned = pinned' := by
  have hfixed := h'.fixed
  rw [hmembers] at hfixed
  exact h.fixed.unique hfixed

end Room

section Weights

theorem label_of_explicitPositive (h : ExplicitPositive row.outcome) :
    row.label passiveDiscount = some (true, 1) := by
  unfold LoggedEvent.label disposition
  rw [if_pos h]

theorem foldl_max_eq_one {weights : List ℚ} (hne : weights ≠ [])
    (hone : ∀ weight ∈ weights, weight = 1) : weights.foldl max 0 = 1 := by
  have hfrom : ∀ {weights : List ℚ}, (∀ weight ∈ weights, weight = 1) →
      weights.foldl max 1 = 1 := by
    intro weights hone
    induction weights with
    | nil => rfl
    | cons weight weights ih =>
      rw [List.foldl_cons, hone weight List.mem_cons_self, max_self]
      exact ih fun weight hweight => hone weight (List.mem_cons_of_mem _ hweight)
  cases weights with
  | nil => exact absurd rfl hne
  | cons weight weights =>
    rw [List.foldl_cons, hone weight List.mem_cons_self, max_eq_right zero_le_one]
    exact hfrom fun weight hweight => hone weight (List.mem_cons_of_mem _ hweight)

/-- A memory's explicit positives all weigh alike. -/
theorem explicitPositiveWeight_eq_one {memoryId : Uuid} {weight : ℚ}
    (h : explicitPositiveWeight passiveDiscount rows memoryId = some weight) : weight = 1 := by
  unfold explicitPositiveWeight at h
  split at h
  · cases h
  · next hne =>
    obtain rfl := Option.some.inj h
    apply foldl_max_eq_one hne
    intro weight hweight
    obtain ⟨row, _, hrow⟩ := List.mem_filterMap.mp hweight
    split at hrow
    · next hpositive =>
      rw [label_of_explicitPositive hpositive.2] at hrow
      exact (Option.some.inj hrow).symm
    · cases hrow

/-- Only a negative outcome labels a row as one to leave out. -/
theorem label_false_iff (passiveDiscount : ℚ) :
    (∃ weight, row.label passiveDiscount = some (false, weight)) ↔ Negative row.outcome := by
  unfold LoggedEvent.label disposition
  constructor
  · rintro ⟨weight, h⟩
    by_contra hnegative
    rw [if_neg hnegative] at h
    repeat' split at h
    all_goals cases h
  · intro h
    have hpositive : ¬ExplicitPositive row.outcome := by
      intro hpositive
      unfold ExplicitPositive at hpositive
      unfold Negative at h
      simp only [List.mem_cons, List.not_mem_nil, or_false] at h hpositive
      rcases h with h | h | h <;> simp [h] at hpositive
    exact ⟨1, by rw [if_neg hpositive, if_pos h]⟩

end Weights

section Boundaries

variable {members members' : List LoggedEvent} {boundary boundary' : ShareBoundary ℚ}

theorem marginalBoundary_eq {requiredShare : ℚ}
    (h : marginalBoundary passiveDiscount requiredShare row = some boundary)
    (h' : marginalBoundary passiveDiscount requiredShare row' = some boundary')
    (hfixed : row'.fixed = row.fixed) (hnegative : Negative row.outcome ↔ Negative row'.outcome) :
    boundary = boundary' := by
  simp only [marginalBoundary] at h h'
  rw [eventUid_of_fixed hfixed, injectionId_of_fixed hfixed] at h'
  by_cases hremoved : Negative row.outcome
  · rw [if_pos hremoved] at h
    rw [if_pos (hnegative.mp hremoved)] at h'
    exact Option.some.inj (h.symm.trans h')
  · rw [if_neg hremoved] at h
    rw [if_neg (hremoved ∘ hnegative.mpr)] at h'
    split at h
    · split at h'
      · exact Option.some.inj (h.symm.trans h')
      · cases h'
    · cases h

/-- Of a boundary only its kind turns on an outcome, and that on the row's own. -/
theorem Minted.eq
    (h : Minted env passiveDiscount (explicitPositiveWeight passiveDiscount rows) members row
      boundary)
    (h' : Minted env passiveDiscount (explicitPositiveWeight passiveDiscount rows') members' row'
      boundary')
    (hmembers : members'.map LoggedEvent.fixed = members.map LoggedEvent.fixed)
    (hfixed : row'.fixed = row.fixed) (hnegative : Negative row.outcome ↔ Negative row'.outcome) :
    boundary = boundary' := by
  have huid := eventUid_of_fixed hfixed
  have hid := injectionId_of_fixed hfixed
  have hshown : row'.shownAs = row.shownAs :=
    (congrArg (·.shownAs) hfixed : row'.fixed.shownAs = row.fixed.shownAs)
  cases h with
  | cut hroom hcut hweight htokens =>
    cases h' with
    | cut hroom' _ hweight' htokens' =>
      obtain ⟨rfl, rfl, rfl⟩ := hroom.eq hroom' hmembers
      have hbody : row'.bodyTokens env = row.bodyTokens env :=
        (congrArg (·.bodyTokens env) hfixed :
          row'.fixed.bodyTokens env = row.fixed.bodyTokens env)
      rw [hbody, htokens, Except.ok.injEq] at htokens'
      rw [explicitPositiveWeight_eq_one hweight, explicitPositiveWeight_eq_one hweight', htokens',
        huid, hid]
    | marginal _ hinjected => simp [hshown, hcut] at hinjected
    | pin _ hpinned => simp [hshown, hcut] at hpinned
  | marginal hroom hinjected hmarginal =>
    cases h' with
    | cut _ hcut => simp [hshown, hinjected] at hcut
    | marginal hroom' _ hmarginal' =>
      obtain ⟨rfl, rfl, rfl⟩ := hroom.eq hroom' hmembers
      exact marginalBoundary_eq hmarginal hmarginal' hfixed hnegative
    | pin _ hpinned => simp [hshown, hinjected] at hpinned
  | pin hroom hpinned =>
    cases h' with
    | cut _ hcut => simp [hshown, hpinned] at hcut
    | marginal _ hinjected => simp [hshown, hpinned] at hinjected
    | pin hroom' _ =>
      obtain ⟨rfl, rfl, rfl⟩ := hroom.eq hroom' hmembers
      rw [huid, hid]

end Boundaries

end Nocturne.Learner
