import Mathlib.Data.List.Dedup
import Nocturne.Vitals.Conservation

namespace Nocturne.Vitals

open Nocturne.Lib Nocturne.Spend

section Rate

def purposeText : SpendPurpose → String
  | .building => "building"
  | .extraction => "extraction"
  | .curation => "curation"
  | .judge => "judge"
  | .remember => "remember"
  | .embedding => "embedding"
  | .scout => "scout"

/-- `date_trunc('minute', ts)`, of instants in microseconds. -/
def truncMinute (ts : Time) : Time := ts - ts % 60000000

/-- `minute, purpose, model, provider`, in this order, nulls first. -/
abbrev GroupKey := Time ×ₗ (String ×ₗ (WithBot String ×ₗ WithBot String))

def groupKey (row : SpendEventInput) : GroupKey :=
  toLex (truncMinute row.ts, toLex (purposeText row.purpose, toLex (row.model, row.provider)))

def GroupKey.minute (key : GroupKey) : Time := (ofLex key).1

/-- One row of the `GROUP BY`. -/
def groupRow (key : GroupKey) (rows : List SpendEventInput) : SpendRow where
  minute := key.minute
  purpose := (ofLex (ofLex key).2).1
  model := (ofLex (ofLex (ofLex key).2).2).1
  provider := (ofLex (ofLex (ofLex key).2).2).2
  receiptLines := rows.length
  costUsd := if rows.any (·.costUsd.isSome) then
    some (.finite (rows.map fun row => row.costUsd.getD 0).sum) else none
  unpricedLines := (rows.filter (·.costUsd.isNone)).length

/-- The rows grouped, in the order of their keys. -/
def spendRate (ledger : List SpendEventInput) : List SpendRow :=
  ((ledger.map groupKey).dedup.insertionSort (· ≤ ·)).map fun key =>
    groupRow key (ledger.filter (groupKey · = key))

end Rate

section Snapshot

/-- Within the hour up to and at `asOf`. -/
def InWindow (asOf ts : Time) : Prop := asOf < ts + 3600000000 ∧ ts ≤ asOf

instance (asOf ts : Time) : Decidable (InWindow asOf ts) := inferInstanceAs (Decidable (_ ∧ _))

/-- `_spend_rows` -/
def spendRows (ledger : List SpendEventInput) (view : List SpendRow) (asOf : Time)
    (threadId : Option Uuid) (principalId : Option String) : List SpendRow :=
  if threadId.isNone ∧ principalId.isNone then view.filter fun row => InWindow asOf row.minute
  else spendRate (ledger.filter fun row => InWindow asOf row.ts ∧
    (∀ thread ∈ threadId, row.threadId = some thread) ∧
    ∀ principal ∈ principalId, row.principalId = some principal)

/-- The spend of `snapshot`. -/
def snapshotSpend (ledger : List SpendEventInput) (view : List SpendRow) (asOf : Time)
    (threadId : Option Uuid) (principalId : Option String) : Except VitalsError SpendSnapshot :=
  spendSnapshot (if threadId.isSome ∨ principalId.isSome then .spendEvent else .spendRate)
    (spendRows ledger view asOf threadId principalId)

end Snapshot

section Grouping

variable {ledger : List SpendEventInput} {key : GroupKey}

@[simp] theorem minute_groupRow (key : GroupKey) (rows : List SpendEventInput) :
    (groupRow key rows).minute = key.minute := rfl

@[simp] theorem minute_groupKey (row : SpendEventInput) :
    (groupKey row).minute = truncMinute row.ts := rfl

/-- Rows may be left out by their key before they are grouped or after. -/
theorem spendRate_filter {p : SpendEventInput → Prop} {q : Time → Prop} [DecidablePred p]
    [DecidablePred q] (h : ∀ row ∈ ledger, p row ↔ q (truncMinute row.ts)) :
    spendRate (ledger.filter p) = (spendRate ledger).filter fun row => q row.minute := by
  have hkeys : ((ledger.filter p).map groupKey).dedup.insertionSort (· ≤ ·) =
      ((ledger.map groupKey).dedup.insertionSort (· ≤ ·)).filter fun key => q key.minute := by
    apply List.Perm.eq_of_pairwise' (r := (· ≤ ·))
    · exact List.pairwise_insertionSort _ _
    · exact (List.pairwise_insertionSort _ _).filter _
    · refine (List.perm_insertionSort _ _).trans ((List.perm_ext_iff_of_nodup
        (List.nodup_dedup _) (((List.perm_insertionSort _ _).nodup_iff.mpr
          (List.nodup_dedup _)).filter _)).mpr fun key => ?_)
      simp only [List.mem_dedup, List.mem_map, List.mem_filter, List.mem_insertionSort,
        decide_eq_true_eq]
      constructor
      · rintro ⟨row, ⟨hrow, hp⟩, rfl⟩
        exact ⟨⟨row, hrow, rfl⟩, (h row hrow).mp hp⟩
      · rintro ⟨⟨row, hrow, rfl⟩, hq⟩
        exact ⟨row, ⟨hrow, (h row hrow).mpr hq⟩, rfl⟩
  rw [spendRate, hkeys, spendRate, List.filter_map]
  refine List.map_congr_left fun key hkey => ?_
  have hq : q key.minute := by simpa using (List.mem_filter.mp hkey).2
  congr 1
  rw [List.filter_filter]
  refine List.filter_congr fun row hrow => ?_
  by_cases hsame : groupKey row = key
  · subst hsame
    simpa using (h row hrow).mpr hq
  · simp [hsame]

theorem sum_const_one {l : List SpendEventInput} {g : SpendEventInput → ℤ}
    (h : ∀ row ∈ l, g row = 1) : (l.map g).sum = l.length := by
  rw [List.map_congr_left h, List.map_const', List.sum_replicate, nsmul_one]

/-- The lines of a minute are its receipts. -/
theorem lines_spendRate (ledger : List SpendEventInput) (m : Time) :
    (((spendRate ledger).filter (·.minute = m)).map (·.receiptLines)).sum =
      ((ledger.filter fun row => truncMinute row.ts = m).length : ℤ) := by
  have hone : ∀ row ∈ ledger.filter fun row => truncMinute row.ts = m,
      (if truncMinute row.ts = m then (1 : ℤ) else 0) = 1 := by
    intro row hrow
    exact if_pos (by simpa using (List.mem_filter.mp hrow).2)
  have hgroup (key : GroupKey) : ((ledger.filter (groupKey · = key)).map fun row =>
      if truncMinute row.ts = m then (1 : ℤ) else 0).sum =
        if key.minute = m then ((ledger.filter (groupKey · = key)).length : ℤ) else 0 := by
    have hminute : ∀ row ∈ ledger.filter (groupKey · = key), truncMinute row.ts = key.minute := by
      intro row hrow
      have hkey : groupKey row = key := by simpa using (List.mem_filter.mp hrow).2
      rw [← hkey, minute_groupKey]
    split
    · next hm => exact sum_const_one fun row hrow => if_pos ((hminute row hrow).trans hm)
    · next hm =>
      apply List.sum_eq_zero
      intro x hx
      obtain ⟨row, hrow, rfl⟩ := List.mem_map.mp hx
      exact if_neg fun heq => hm ((hminute row hrow).symm.trans heq)
  have hkeys := sum_by_key (f := groupKey) (l := ledger)
    (g := fun row => if truncMinute row.ts = m then (1 : ℤ) else 0)
    (List.nodup_dedup (ledger.map groupKey))
    fun row hrow => List.mem_dedup.mpr (List.mem_map_of_mem hrow)
  calc (((spendRate ledger).filter (·.minute = m)).map (·.receiptLines)).sum
      = ((((ledger.map groupKey).dedup.insertionSort (· ≤ ·)).filter (·.minute = m)).map fun key =>
          ((ledger.filter (groupKey · = key)).length : ℤ)).sum := by
        rw [spendRate, List.filter_map, List.map_map]
        rfl
    _ = ((((ledger.map groupKey).dedup.insertionSort (· ≤ ·)).filter (·.minute = m)).map fun key =>
          if key.minute = m then ((ledger.filter (groupKey · = key)).length : ℤ) else 0).sum := by
        congr 1
        refine List.map_congr_left fun key hkey => (if_pos ?_).symm
        simpa using (List.mem_filter.mp hkey).2
    _ = (((ledger.map groupKey).dedup.insertionSort (· ≤ ·)).map fun key =>
          if key.minute = m then ((ledger.filter (groupKey · = key)).length : ℤ) else 0).sum :=
        sum_map_filter fun key _ hm => if_neg (by simpa using hm)
    _ = ((ledger.map groupKey).dedup.map fun key =>
          if key.minute = m then ((ledger.filter (groupKey · = key)).length : ℤ) else 0).sum :=
        ((List.perm_insertionSort _ _).map _).sum_eq
    _ = (ledger.map fun row => if truncMinute row.ts = m then (1 : ℤ) else 0).sum := by
        rw [← hkeys]
        simp only [hgroup]
    _ = ((ledger.filter fun row => truncMinute row.ts = m).map fun row =>
          if truncMinute row.ts = m then (1 : ℤ) else 0).sum :=
        (sum_map_filter fun row _ hm => if_neg (by simpa using hm)).symm
    _ = ((ledger.filter fun row => truncMinute row.ts = m).length : ℤ) := sum_const_one hone

end Grouping

section Scopes

/-- The same lanes and the same latest minute, or no snapshot either way. -/
def SameSpend (a b : Except VitalsError SpendSnapshot) : Prop :=
  a.map (fun snapshot => (snapshot.latestMinute, snapshot.lanes)) =
    b.map fun snapshot => (snapshot.latestMinute, snapshot.lanes)

/-- No row has its instant and its minute on different sides of an edge of the window. -/
def Unsplit (ledger : List SpendEventInput) (asOf : Time) : Prop :=
  ∀ row ∈ ledger, InWindow asOf row.ts ↔ InWindow asOf (truncMinute row.ts)

variable {ledger : List SpendEventInput} {asOf : Time} {principal : String}

theorem spendRows_unscoped : spendRows ledger (spendRate ledger) asOf none none =
    (spendRate ledger).filter fun row => InWindow asOf row.minute := by
  simp [spendRows]

theorem spendRows_scoped (hone : ∀ row ∈ ledger, row.principalId = some principal)
    (view : List SpendRow) : spendRows ledger view asOf none (some principal) =
      spendRate (ledger.filter fun row => InWindow asOf row.ts) := by
  have hfilter : ledger.filter (fun row => InWindow asOf row.ts ∧
      (∀ thread ∈ (none : Option Uuid), row.threadId = some thread) ∧
      ∀ id ∈ some principal, row.principalId = some id) =
        ledger.filter fun row => InWindow asOf row.ts := by
    refine List.filter_congr fun row hrow => ?_
    simp [hone row hrow]
  simp only [spendRows, Option.isNone_none, Option.isNone_some, Bool.false_eq_true, and_false,
    if_false, hfilter]

theorem SameSpend.bind {α : Type} {f g : α → Except VitalsError SpendSnapshot}
    (x : Except VitalsError α) (h : ∀ a, SameSpend (f a) (g a)) :
    SameSpend (x >>= f) (x >>= g) := by
  cases x with
  | error e => rfl
  | ok a => exact h a

/-- What a snapshot names as its source changes nothing else of it. -/
theorem sameSpend_source (source source' : SourceView) (rows : List SpendRow) :
    SameSpend (spendSnapshot source rows) (spendSnapshot source' rows) := by
  unfold spendSnapshot
  refine .bind _ fun totals => .bind _ fun total => .bind _ fun purposes => ?_
  exact .bind _ fun models => rfl

/-- A receipt a snapshot can show. -/
def Showable (row : SpendEventInput) : Prop :=
  (∀ cost ∈ row.costUsd, 0 ≤ cost) ∧ ∀ model ∈ row.model, NonBlank model

theorem valid_spendRate (h : ∀ row ∈ ledger, Showable row) :
    ∀ row ∈ spendRate ledger, row.Valid := by
  intro shown hshown
  obtain ⟨key, hkey, rfl⟩ := List.mem_map.mp hshown
  rw [List.mem_insertionSort, List.mem_dedup] at hkey
  obtain ⟨row, hrow, rfl⟩ := List.mem_map.mp hkey
  refine ⟨⟨Int.natCast_nonneg _, Int.ofNat_le.mpr (List.length_filter_le _ _)⟩, ?_, ?_, ?_⟩
  · intro cost hcost
    simp only [groupRow, Option.mem_def, Option.ite_none_right_eq_some, Option.some.injEq] at hcost
    refine ⟨_, hcost.2.symm, List.sum_nonneg ?_⟩
    rintro _ hin
    obtain ⟨other, hother, rfl⟩ := List.mem_map.mp hin
    have hpriced := (h other (List.mem_of_mem_filter hother)).1
    cases hcost : other.costUsd with
    | none => exact le_rfl
    | some cost => exact hpriced cost hcost
  · change NonBlank (purposeText row.purpose)
    cases row.purpose <;> decide
  · exact (h row hrow).2

/-- Two ways to leave rows out show the same only where they leave out the same rows. -/
theorem same_rows {p q : SpendEventInput → Prop} [DecidablePred p] [DecidablePred q]
    {source source' : SourceView} (hvalid : ∀ row ∈ ledger, Showable row)
    (hsame : SameSpend (spendSnapshot source (spendRate (ledger.filter p)))
      (spendSnapshot source' (spendRate (ledger.filter q)))) (m : Time) :
    (((ledger.filter p).filter fun row => truncMinute row.ts = m).length : ℤ) =
      ((ledger.filter q).filter fun row => truncMinute row.ts = m).length := by
  have hshown {p : SpendEventInput → Prop} [DecidablePred p] (source : SourceView) :=
    spend_lanes_conserve source (spendRate (ledger.filter p))
      (valid_spendRate fun row hrow => hvalid row (List.mem_of_mem_filter hrow))
  obtain ⟨first, hfirst, hconserved⟩ := hshown (p := p) source
  obtain ⟨second, hsecond, hconserved'⟩ := hshown (p := q) source'
  have hlanes : first.lanes = second.lanes := by
    rw [SameSpend, hfirst, hsecond] at hsame
    exact (Prod.mk.inj (Except.ok.inj hsame)).2
  rw [← lines_spendRate, ← lines_spendRate, ← (hconserved.ledger .total m).2.1,
    ← (hconserved'.ledger .total m).2.1, SpendSnapshot.measure, SpendSnapshot.measure, hlanes]

theorem refreshed_in_window (ledger : List SpendEventInput) (asOf : Time) :
    spendRows ledger (spendRate ledger) asOf none none =
      spendRate (ledger.filter fun row => InWindow asOf (truncMinute row.ts)) := by
  rw [spendRows_unscoped]
  exact (spendRate_filter (q := InWindow asOf) fun _ _ => Iff.rfl).symm

theorem same_of_unsplit (hone : ∀ row ∈ ledger, row.principalId = some principal)
    (hunsplit : Unsplit ledger asOf) :
    SameSpend (snapshotSpend ledger (spendRate ledger) asOf none none)
      (snapshotSpend ledger (spendRate ledger) asOf none (some principal)) := by
  simp only [snapshotSpend, refreshed_in_window, spendRows_scoped hone]
  have hfilter : ledger.filter (fun row => InWindow asOf row.ts) =
      ledger.filter fun row => InWindow asOf (truncMinute row.ts) :=
    List.filter_congr fun row hrow => decide_eq_decide.mpr (hunsplit row hrow)
  rw [hfilter]
  exact sameSpend_source ..

theorem unsplit_of_same (hone : ∀ row ∈ ledger, row.principalId = some principal)
    (hvalid : ∀ row ∈ ledger, Showable row)
    (hsame : SameSpend (snapshotSpend ledger (spendRate ledger) asOf none none)
      (snapshotSpend ledger (spendRate ledger) asOf none (some principal))) :
    Unsplit ledger asOf := by
  simp only [snapshotSpend, refreshed_in_window, spendRows_scoped hone] at hsame
  intro row hrow
  have hcount := same_rows hvalid hsame (truncMinute row.ts)
  rw [Nat.cast_inj] at hcount
  by_cases hminute : InWindow asOf (truncMinute row.ts)
  · refine iff_of_true ?_ hminute
    have hleft : (ledger.filter fun row => InWindow asOf (truncMinute row.ts)).filter
        (fun other => truncMinute other.ts = truncMinute row.ts) =
          ledger.filter fun other => truncMinute other.ts = truncMinute row.ts := by
      rw [List.filter_filter]
      refine List.filter_congr fun other _ => ?_
      by_cases hsame : truncMinute other.ts = truncMinute row.ts
      · simp [hsame, hminute]
      · simp [hsame]
    have hright : (ledger.filter fun row => InWindow asOf row.ts).filter
        (fun other => truncMinute other.ts = truncMinute row.ts) =
          (ledger.filter fun other => truncMinute other.ts = truncMinute row.ts).filter
            fun row => InWindow asOf row.ts := by
      simp only [List.filter_filter, Bool.and_comm]
    rw [hleft, hright, eq_comm, List.length_filter_eq_length_iff] at hcount
    exact of_decide_eq_true (hcount row (List.mem_filter.mpr ⟨hrow, decide_eq_true rfl⟩))
  · refine iff_of_false (fun hts => ?_) hminute
    have hnil : (ledger.filter fun row => InWindow asOf (truncMinute row.ts)).filter
        (fun other => truncMinute other.ts = truncMinute row.ts) = [] := by
      refine List.filter_eq_nil_iff.mpr fun other hother heq => hminute ?_
      rw [decide_eq_true_eq] at heq
      rw [← heq]
      simpa using (List.mem_filter.mp hother).2
    rw [hnil, List.length_nil, eq_comm, List.length_eq_zero_iff, List.filter_eq_nil_iff] at hcount
    exact hcount row (List.mem_filter.mpr ⟨hrow, decide_eq_true hts⟩) (decide_eq_true rfl)

/-- Over the ledger of one principal, with the view freshly refreshed, the unscoped spend and the
spend scoped to the principal are the same where no receipt has its instant and its minute on
different sides of an edge of the window, and only there. -/
theorem scoped_spend_agrees (ledger : List SpendEventInput) (asOf : Time) (principal : String)
    (hone : ∀ row ∈ ledger, row.principalId = some principal) :
    (Unsplit ledger asOf →
      SameSpend (snapshotSpend ledger (spendRate ledger) asOf none none)
        (snapshotSpend ledger (spendRate ledger) asOf none (some principal))) ∧
    ((∀ row ∈ ledger, Showable row) →
      SameSpend (snapshotSpend ledger (spendRate ledger) asOf none none)
        (snapshotSpend ledger (spendRate ledger) asOf none (some principal)) →
      Unsplit ledger asOf) :=
  ⟨same_of_unsplit hone, unsplit_of_same hone⟩

end Scopes

section Small

private def receipt (ts : Time) : SpendEventInput where
  eventUid := 1
  ts := ts
  productType := .llmRequest
  quantityType := "output"
  unitOfMeasure := "tokens"
  quantity := 1
  costUsd := some 1
  basis := .measured
  behavior := .variable
  purpose := .building
  principalId := some "p"
  machineId := none
  originAgent := none
  threadId := none
  runId := none
  promptId := none
  memoryId := none
  model := none
  provider := none
  quantization := none
  ref := "r"
  «meta» := .null

theorem scoped_spend_agrees_whole : SameSpend
    (snapshotSpend [receipt 3600000000] (spendRate [receipt 3600000000]) 3600000000 none none)
    (snapshotSpend [receipt 3600000000] (spendRate [receipt 3600000000]) 3600000000 none
      (some "p")) :=
  (scoped_spend_agrees [receipt 3600000000] 3600000000 "p" (by simp [receipt])).1
    (by simp [Unsplit, receipt, InWindow, truncMinute])

/-- A receipt of the minute in which the window begins: its instant is within, its minute not. -/
theorem scoped_spend_differs : ∃ ledger asOf principal,
    (∀ row ∈ ledger, row.principalId = some principal) ∧
    ¬SameSpend (snapshotSpend ledger (spendRate ledger) asOf none none)
      (snapshotSpend ledger (spendRate ledger) asOf none (some principal)) := by
  have hone : ∀ row ∈ [receipt 3600000002], row.principalId = some "p" := by simp [receipt]
  refine ⟨[receipt 3600000002], 7200000001, "p", hone, fun h => ?_⟩
  have hunsplit := unsplit_of_same hone (by simp [Showable, receipt]) h
  have hsplit : ¬Unsplit [receipt 3600000002] 7200000001 := by
    simp [Unsplit, receipt, InWindow, truncMinute]
  exact hsplit hunsplit

end Small

end Nocturne.Vitals
