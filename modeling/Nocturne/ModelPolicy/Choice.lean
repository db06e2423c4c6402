import Mathlib.Analysis.SpecialFunctions.Log.Base
import Nocturne.Lib.Hull
import Nocturne.ModelPolicy.Frontier

namespace Nocturne.ModelPolicy

open Nocturne.Lib

/-- Why no row is chosen. -/
inductive ChoiceError
  /-- benchmark frontier is empty -/
  | emptyFrontier
  /-- elbow frontier has a degenerate axis -/
  | degenerateAxis
  /-- slope frontier has fewer than two points -/
  | fewPoints
  /-- A logarithm of no positive number, or a division by zero. -/
  | decimal
  /-- The least, or the first, of no rows. -/
  | emptySequence
  deriving DecidableEq

/-- What `select_model` raises for it; an empty sequence it does not expect. -/
def ChoiceError.raised : ChoiceError → ResolveError
  | .emptyFrontier | .degenerateAxis | .fewPoints | .decimal => .catalogUnavailable
  | .emptySequence => .catalogFailure

variable {K : Type} [Field K] [LinearOrder K] (log10 : ℚ → K)

/-- `_select_max` -/
def selectMax (rows : List BenchmarkModel) : Except ChoiceError BenchmarkModel :=
  require (rows.argmin fun row =>
    toLex (-row.intelligenceIndex, toLex (row.promptPrice, row.permaslug))) .emptySequence

/-- The price the elbow gives a free frontier model: the table's lowest nonzero price. -/
def elbowPriceFloor (frontier rows : List BenchmarkModel) : Except ChoiceError (Option ℚ) :=
  match frontier with
  | first :: _ :: _ :: _ =>
    if 0 < first.promptPrice then .ok none
    else do
      let lowest ← require ((rows.map (·.promptPrice)).filter (0 < ·)).min? .emptySequence
      return some lowest
  | _ => .ok none

/-- The price whose logarithm stands for the row. -/
def elbowPrice (floor : Option ℚ) (row : BenchmarkModel) : ℚ :=
  match floor with
  | none => row.promptPrice
  | some floor => if row.promptPrice = 0 then floor else row.promptPrice

/-- A logarithm of zero is infinite, and the difference of the axis then undefined. -/
def logPrice (price : ℚ) : Except ChoiceError K := do
  ensure (0 < price) .decimal
  return log10 price

def divide (a b : K) : Except ChoiceError K := do
  ensure (b ≠ 0) .decimal
  return a / b

/-- How far a row's intelligence is ahead of its price, both from the first row to the last. -/
def elbowOffset (minIndex indexSpan : ℚ) (minLogPrice logPriceSpan : K) (row : BenchmarkModel)
    (logPrice : K) : Except ChoiceError K := do
  let x ← divide ((row.intelligenceIndex - minIndex : ℚ) : K) indexSpan
  let y ← divide (logPrice - minLogPrice) logPriceSpan
  return x - y

/-- The offsets of `_select_elbow`, for a frontier that begins with `first`. -/
def elbowOffsets (first : BenchmarkModel) (frontier : List BenchmarkModel) (floor : Option ℚ) :
    Except ChoiceError (List (K × BenchmarkModel)) := do
  let last := frontier.getLastD first
  let logPrices ← frontier.mapM fun row => logPrice log10 (elbowPrice floor row)
  let minLogPrice := logPrices.headD (0 : K)
  let indexSpan := last.intelligenceIndex - first.intelligenceIndex
  let logPriceSpan := logPrices.getLastD (0 : K) - minLogPrice
  ensure (0 < indexSpan ∧ 0 < logPriceSpan) .degenerateAxis
  (frontier.zip logPrices).mapM fun item => do
    let offset ←
      elbowOffset first.intelligenceIndex indexSpan minLogPrice logPriceSpan item.1 item.2
    return (offset, item.1)

/-- The row of the largest positive offset, or the most intelligent. -/
def selectOffset (frontier : List BenchmarkModel) (offsets : List (K × BenchmarkModel)) :
    Except ChoiceError BenchmarkModel :=
  match (offsets.filter (0 < ·.1)).argmin fun item =>
      toLex (-item.1, toLex (item.2.promptPrice, item.2.permaslug)) with
  | some item => .ok item.2
  | none => selectMax frontier

/-- `_select_elbow` -/
def selectElbow (frontier : List BenchmarkModel) (floor : Option ℚ) :
    Except ChoiceError BenchmarkModel :=
  match frontier with
  | [] => .error .emptyFrontier
  | first :: _ :: _ :: _ => do
    let offsets ← elbowOffsets log10 first frontier floor
    selectOffset frontier offsets
  | _ => selectMax frontier

/-- `lower_convex_hull`, over index and price. -/
def lowerConvexHull (frontier : List BenchmarkModel) : List BenchmarkModel :=
  Hull.lower (·.intelligenceIndex) (·.promptPrice) frontier

/-- `_select_slope` -/
def selectSlope (frontier : List BenchmarkModel) (willingnessToPay : ℚ) :
    Except ChoiceError BenchmarkModel := do
  ensure (2 ≤ frontier.length) .fewPoints
  match lowerConvexHull frontier with
  | [] => .error .emptySequence
  | first :: hull =>
    return Hull.walk (·.intelligenceIndex) (·.promptPrice) willingnessToPay first hull

/-- What `select_model` does for the policies that look at the frontier. -/
def frontierChoice (policy : Policy) (rows : List BenchmarkModel) :
    Except ResolveError BenchmarkModel :=
  let frontier := paretoFrontier rows
  match policy with
  | .elbow =>
    (do
      let floor ← elbowPriceFloor frontier rows
      selectElbow log10 frontier floor).mapError ChoiceError.raised
  | .slope willingnessToPay => (selectSlope frontier willingnessToPay).mapError ChoiceError.raised
  | .max | .floor _ | .pinned _ => .error .configuration

/-- A resolver whose elbow and slope rules are these. -/
def ResolverConfig.ranking (cfg : ResolverConfig) : ResolverConfig :=
  { cfg with frontierChoice := ModelPolicy.frontierChoice log10 }

section Small

/-- A free model, and two paid ones at ten times each other's price. -/
private def threeModels : List BenchmarkModel :=
  [⟨"free", 40, 0, 0⟩, ⟨"small", 60, 1, 2⟩, ⟨"large", 70, 10, 30⟩]

private def brokerless : ResolverConfig where
  staticModel := "openrouter:a/b"
  staticContextTokens := 32
  catalog := none
  decimal _ := none
  frontierChoice _ _ := .error .catalogUnavailable

end Small

section Slope

variable {log10} {rows frontier : List BenchmarkModel} {row other : BenchmarkModel} {lambda : ℚ}

theorem selectModel_slope {cfg : ResolverConfig} (hrows : rows ≠ [])
    (h : selectSlope (paretoFrontier rows) lambda = .ok row) :
    selectModel (cfg.ranking log10) (.slope lambda) rows = .ok row := by
  simp only [selectModel, ensure_pos hrows, ok_bind, ResolverConfig.ranking, frontierChoice, h]
  rfl

/-- A row at least as intelligent at no higher a price is worth at least as much. -/
theorem worth_le (hlambda : 0 < lambda)
    (h : row.intelligenceIndex ≤ other.intelligenceIndex ∧ other.promptPrice ≤ row.promptPrice) :
    lambda * row.intelligenceIndex - row.promptPrice ≤
      lambda * other.intelligenceIndex - other.promptPrice :=
  sub_le_sub (mul_le_mul_of_nonneg_left h.1 hlambda.le) h.2

/-- The slope rule picks, among all rows, one that is worth the most at `lambda` a point, and the
most intelligent of those. -/
theorem slope_maximises (cfg : ResolverConfig) (hfrontier : 2 ≤ (paretoFrontier rows).length)
    (hlambda : 0 < lambda) : ∃ row ∈ rows,
      selectModel (cfg.ranking log10) (.slope lambda) rows = .ok row ∧
      ∀ other ∈ rows, lambda * other.intelligenceIndex - other.promptPrice ≤
          lambda * row.intelligenceIndex - row.promptPrice ∧
        (lambda * other.intelligenceIndex - other.promptPrice =
            lambda * row.intelligenceIndex - row.promptPrice →
          other.intelligenceIndex ≤ row.intelligenceIndex) := by
  have hexact := isFrontier rows
  have hne : paretoFrontier rows ≠ [] := List.ne_nil_of_length_pos (by omega)
  obtain ⟨first, hull, hhull, hmem, hbest⟩ := Hull.walk_lower lambda
    (x := (·.intelligenceIndex)) (y := (·.promptPrice))
    (hexact.ascending.imp fun h => h.1) hne
  have hin := hexact.subset _ hmem
  refine ⟨_, hin, selectModel_slope (List.ne_nil_of_mem hin) ?_, fun other hother => ?_⟩
  · simp only [selectSlope, ensure_pos hfrontier, ok_bind, lowerConvexHull, hhull]
    rfl
  · obtain ⟨kept, hkept, hcovers⟩ := hexact.covered other hother
    have hle := worth_le hlambda hcovers
    obtain ⟨hmost, hfar⟩ := hbest kept hkept
    refine ⟨hle.trans hmost, fun heq => ?_⟩
    exact hcovers.1.trans (hfar (le_antisymm hmost (heq.ge.trans hle)))

theorem slope_maximises_three : ∃ row ∈ threeModels,
    selectModel (brokerless.ranking (id : ℚ → ℚ)) (.slope (1 / 2)) threeModels = .ok row ∧
    ∀ other ∈ threeModels, 1 / 2 * other.intelligenceIndex - other.promptPrice ≤
        1 / 2 * row.intelligenceIndex - row.promptPrice ∧
      (1 / 2 * other.intelligenceIndex - other.promptPrice =
          1 / 2 * row.intelligenceIndex - row.promptPrice →
        other.intelligenceIndex ≤ row.intelligenceIndex) :=
  slope_maximises brokerless (by decide +kernel) (by norm_num)

end Slope

section Elbow

variable {log10} {rows frontier : List BenchmarkModel} {row other first last : BenchmarkModel}
  {floor : Option ℚ}

/-- Some row of the frontier is the most intelligent, and `_select_max` finds one. -/
theorem selectMax_ok (h : frontier ≠ []) : ∃ row ∈ frontier, selectMax frontier = .ok row ∧
    ∀ other ∈ frontier, other.intelligenceIndex ≤ row.intelligenceIndex := by
  cases hbest : frontier.argmin fun row =>
      toLex (-row.intelligenceIndex, toLex (row.promptPrice, row.permaslug)) with
  | none => exact absurd (List.argmin_eq_none.mp hbest) h
  | some row =>
    refine ⟨row, List.argmin_mem hbest, by simp [selectMax, hbest], fun other hother => ?_⟩
    have hle := List.le_of_mem_argmin hother hbest
    rw [Prod.Lex.toLex_le_toLex] at hle
    rcases hle with hlt | ⟨heq, _⟩
    · exact (neg_lt_neg_iff.mp hlt).le
    · exact (neg_inj.mp heq).ge

/-- By the floor every row has a positive price, and the first a lower one than the last. -/
theorem elbowPriceFloor_ok {second third : BenchmarkModel} {rest : List BenchmarkModel}
    (hexact : IsFrontier rows (first :: second :: third :: rest))
    (hprices : ∀ row ∈ rows, 0 ≤ row.promptPrice) :
    ∃ floor, elbowPriceFloor (first :: second :: third :: rest) rows = .ok floor ∧
      (∀ row ∈ first :: second :: third :: rest, 0 < elbowPrice floor row) ∧
      ∀ last ∈ third :: rest, elbowPrice floor first < elbowPrice floor last := by
  obtain ⟨hfirst, hascending⟩ := List.pairwise_cons.mp hexact.ascending
  obtain ⟨hsecond, _⟩ := List.pairwise_cons.mp hascending
  by_cases hcosts : 0 < first.promptPrice
  · refine ⟨none, by rw [elbowPriceFloor, if_pos hcosts], fun row hrow => ?_, fun last hlast => ?_⟩
    · rcases List.mem_cons.mp hrow with rfl | hrow
      · exact hcosts
      · exact hcosts.trans (hfirst row hrow).2
    · exact (hfirst last (List.mem_cons_of_mem second hlast)).2
  · have hzero : first.promptPrice = 0 :=
      le_antisymm (not_lt.mp hcosts) (hprices first (hexact.subset first (by simp)))
    have hpaid : ∀ row ∈ second :: third :: rest, 0 < row.promptPrice := fun row hrow =>
      hzero ▸ (hfirst row hrow).2
    have hmem : second.promptPrice ∈ (rows.map (·.promptPrice)).filter (0 < ·) := by
      rw [List.mem_filter, decide_eq_true_eq]
      exact ⟨List.mem_map_of_mem (hexact.subset second (by simp)), hpaid second (by simp)⟩
    obtain ⟨lowest, hlowest⟩ := Option.isSome_iff_exists.mp (List.isSome_min?_of_mem hmem)
    obtain ⟨hin, hle⟩ := List.min?_eq_some_iff.mp hlowest
    have hpositive : 0 < lowest := of_decide_eq_true (List.mem_filter.mp hin).2
    have hown (row : BenchmarkModel) (hrow : row ∈ second :: third :: rest) :
        elbowPrice (some lowest) row = row.promptPrice := if_neg (hpaid row hrow).ne'
    have hfloor : elbowPrice (some lowest) first = lowest := if_pos hzero
    have hok : elbowPriceFloor (first :: second :: third :: rest) rows = .ok (some lowest) := by
      rw [elbowPriceFloor, if_neg hcosts, hlowest, require_some, ok_bind]
      rfl
    refine ⟨some lowest, hok, fun row hrow => ?_, fun last hlast => ?_⟩
    · rcases List.mem_cons.mp hrow with rfl | hrow
      · rw [hfloor]
        exact hpositive
      · rw [hown row hrow]
        exact hpaid row hrow
    · rw [hfloor, hown last (List.mem_cons_of_mem second hlast)]
      exact (hle _ hmem).trans_lt (hsecond last hlast).2

variable (log10) in
/-- A row's index, normalised over the frontier, less its log price, normalised so too. -/
def elbowLead (floor : Option ℚ) (first last row : BenchmarkModel) : K :=
  ((row.intelligenceIndex - first.intelligenceIndex : ℚ) : K) /
      ((last.intelligenceIndex - first.intelligenceIndex : ℚ) : K) -
    (log10 (elbowPrice floor row) - log10 (elbowPrice floor first)) /
      (log10 (elbowPrice floor last) - log10 (elbowPrice floor first))

variable (log10) in
/-- The row leads its price the most, and is the cheapest of those, or no row does and it is the
most intelligent. -/
def Leads (frontier : List BenchmarkModel) (lead : BenchmarkModel → K) (row : BenchmarkModel) :
    Prop :=
  0 < lead row ∧ (∀ other ∈ frontier, lead other ≤ lead row ∧
      (lead other = lead row → row.promptPrice ≤ other.promptPrice)) ∨
    (∀ other ∈ frontier, lead other ≤ 0) ∧
      ∀ other ∈ frontier, other.intelligenceIndex ≤ row.intelligenceIndex

theorem mapM_ok {α β : Type} {f : α → Except ChoiceError β} {g : α → β} {l : List α}
    (h : ∀ a ∈ l, f a = .ok (g a)) : l.mapM f = .ok (l.map g) := by
  rw [mapM_eq_ok, List.forall₂_map_right_iff, List.forall₂_same]
  exact h

variable [IsStrictOrderedRing K]

theorem elbowOffset_ok {logPriceOf : K} {minIndex indexSpan : ℚ} {minLogPrice logPriceSpan : K}
    (hindex : 0 < indexSpan) (hprice : 0 < logPriceSpan) :
    elbowOffset minIndex indexSpan minLogPrice logPriceSpan row logPriceOf =
      .ok (((row.intelligenceIndex - minIndex : ℚ) : K) / (indexSpan : K) -
        (logPriceOf - minLogPrice) / logPriceSpan) := by
  have hspan : (indexSpan : K) ≠ 0 := Rat.cast_ne_zero.mpr hindex.ne'
  simp only [elbowOffset, divide, ensure_pos hspan, ensure_pos hprice.ne', ok_bind]
  rfl

theorem elbowOffsets_ok {rest : List BenchmarkModel} (hlog : StrictMonoOn log10 (Set.Ioi 0))
    (hlast : rest.getLastD first = last)
    (hpositive : ∀ row ∈ first :: rest, 0 < elbowPrice floor row)
    (hindex : first.intelligenceIndex < last.intelligenceIndex)
    (hprice : elbowPrice floor first < elbowPrice floor last) :
    elbowOffsets log10 first (first :: rest) floor =
      .ok ((first :: rest).map fun row => (elbowLead log10 floor first last row, row)) := by
  have hlogs : (first :: rest).mapM (fun row => logPrice log10 (elbowPrice floor row)) =
      .ok ((first :: rest).map fun row => log10 (elbowPrice floor row)) :=
    mapM_ok fun row hrow => by rw [logPrice, ensure_pos (hpositive row hrow)]; rfl
  have hmem : last ∈ first :: rest := hlast ▸ List.getLastD_mem_cons
  have hspan : 0 < log10 (elbowPrice floor last) - log10 (elbowPrice floor first) :=
    sub_pos.mpr (hlog (hpositive first (by simp)) (hpositive last hmem) hprice)
  have hhead : ((first :: rest).map fun row => log10 (elbowPrice floor row)).headD 0 =
      log10 (elbowPrice floor first) := rfl
  have hend : ((first :: rest).map fun row => log10 (elbowPrice floor row)).getLastD 0 =
      log10 (elbowPrice floor last) := by
    rw [List.map_cons, List.getLastD_cons,
      List.getLastD_map (f := fun row => log10 (elbowPrice floor row)), hlast]
  simp only [elbowOffsets, hlogs, ok_bind, hhead, hend, List.getLastD_cons, hlast,
    ensure_pos (And.intro (sub_pos.mpr hindex) hspan)]
  rw [← List.map_prod_left_eq_zip, mapM_eq_ok, List.forall₂_map_left_iff,
    List.forall₂_map_right_iff, List.forall₂_same]
  intro row _
  simp only [elbowOffset_ok (sub_pos.mpr hindex) hspan, ok_bind]
  rfl

theorem selectOffset_leads (lead : BenchmarkModel → K) (hne : frontier ≠ []) :
    ∃ row ∈ frontier, selectOffset frontier (frontier.map fun row => (lead row, row)) = .ok row ∧
      Leads frontier lead row := by
  unfold selectOffset
  cases hbest : ((frontier.map fun row => (lead row, row)).filter (0 < ·.1)).argmin fun item =>
      toLex (-item.1, toLex (item.2.promptPrice, item.2.permaslug)) with
  | some item =>
    have hitem := List.argmin_mem hbest
    rw [List.mem_filter, List.mem_map, decide_eq_true_eq] at hitem
    obtain ⟨⟨row, hrow, rfl⟩, hpositive⟩ := hitem
    refine ⟨row, hrow, rfl, .inl ⟨hpositive, fun other hother => ?_⟩⟩
    by_cases hahead : 0 < lead other
    · have hle := List.le_of_mem_argmin (a := (lead other, other))
        (by simpa [hahead] using hother) hbest
      rw [Prod.Lex.toLex_le_toLex] at hle
      rcases hle with hlt | ⟨heq, hle⟩
      · exact ⟨(neg_lt_neg_iff.mp hlt).le, fun heq => absurd heq (neg_lt_neg_iff.mp hlt).ne⟩
      · refine ⟨(neg_inj.mp heq).ge, fun _ => ?_⟩
        rw [Prod.Lex.toLex_le_toLex] at hle
        exact hle.elim le_of_lt fun h => h.1.le
    · have hlt := (not_lt.mp hahead).trans_lt hpositive
      exact ⟨hlt.le, fun heq => absurd heq hlt.ne⟩
  | none =>
    obtain ⟨row, hrow, hmax, hhighest⟩ := selectMax_ok hne
    refine ⟨row, hrow, hmax, .inr ⟨fun other hother => ?_, hhighest⟩⟩
    rw [List.argmin_eq_none, List.filter_eq_nil_iff] at hbest
    simpa using hbest (lead other, other) (List.mem_map_of_mem hother)

/-- What the elbow rule picks: of a frontier of three rows or more the leader, of a shorter one the
most intelligent. -/
def IsElbow (log10 : ℚ → K) (rows : List BenchmarkModel) (row : BenchmarkModel) : Prop :=
  let frontier := paretoFrontier rows
  frontier.length < 3 ∧ (∀ other ∈ frontier, other.intelligenceIndex ≤ row.intelligenceIndex) ∨
    3 ≤ frontier.length ∧ ∃ floor, elbowPriceFloor frontier rows = .ok floor ∧
      ∃ first ∈ frontier.head?, ∃ last ∈ frontier.getLast?,
        Leads frontier (elbowLead log10 floor first last) row

/-- Over rows with no negative price the elbow rule always picks a row of the frontier, and comes
on no logarithm of zero, no division by zero, no empty minimum and no degenerate axis. -/
theorem elbow_never_degenerate (cfg : ResolverConfig) (hlog : StrictMonoOn log10 (Set.Ioi 0))
    (hrows : rows ≠ []) (hprices : ∀ row ∈ rows, 0 ≤ row.promptPrice) :
    ∃ row ∈ paretoFrontier rows,
      selectModel (cfg.ranking log10) .elbow rows = .ok row ∧ IsElbow log10 rows row := by
  have hexact := isFrontier rows
  have hselect {floor : Option ℚ} {row : BenchmarkModel}
      (hfloor : elbowPriceFloor (paretoFrontier rows) rows = .ok floor)
      (hrow : selectElbow log10 (paretoFrontier rows) floor = .ok row) :
      selectModel (cfg.ranking log10) .elbow rows = .ok row := by
    simp only [selectModel, ensure_pos hrows, ok_bind, ResolverConfig.ranking, frontierChoice,
      hfloor, hrow]
    rfl
  have hne : paretoFrontier rows ≠ [] := by
    obtain ⟨row, hrow⟩ := List.exists_mem_of_ne_nil rows hrows
    obtain ⟨kept, hkept, _⟩ := hexact.covered row hrow
    exact List.ne_nil_of_mem hkept
  unfold IsElbow
  obtain ⟨highest, hmem, hmax, hhighest⟩ := selectMax_ok hne
  rcases hfrontier : paretoFrontier rows with _ | ⟨first, _ | ⟨second, _ | ⟨third, rest⟩⟩⟩
  · exact absurd hfrontier hne
  · rw [hfrontier] at hmem hmax hhighest
    refine ⟨highest, hmem, hselect (by rw [hfrontier]; rfl) (by rw [hfrontier]; exact hmax), ?_⟩
    exact .inl ⟨by simp, hhighest⟩
  · rw [hfrontier] at hmem hmax hhighest
    refine ⟨highest, hmem, hselect (by rw [hfrontier]; rfl) (by rw [hfrontier]; exact hmax), ?_⟩
    exact .inl ⟨by simp, hhighest⟩
  · rw [hfrontier] at hexact hne
    obtain ⟨floor, hfloor, hpositive, hrises⟩ := elbowPriceFloor_ok hexact hprices
    have hlast : rest.getLastD third ∈ third :: rest := List.getLastD_mem_cons
    have hindex : first.intelligenceIndex < (rest.getLastD third).intelligenceIndex :=
      ((List.pairwise_cons.mp hexact.ascending).1 _ (List.mem_cons_of_mem second hlast)).1
    have hoffsets : elbowOffsets log10 first (first :: second :: third :: rest) floor = .ok _ :=
      elbowOffsets_ok hlog (by simp only [List.getLastD_cons]) hpositive hindex (hrises _ hlast)
    obtain ⟨row, hrow, hrowed, hleads⟩ := selectOffset_leads
      (elbowLead log10 floor first (rest.getLastD third)) hne
    refine ⟨row, hrow, hselect (hfrontier ▸ hfloor) ?_, .inr ⟨by simp, floor, hfloor, first, rfl,
      rest.getLastD third, ?_, hleads⟩⟩
    · rw [hfrontier, selectElbow, hoffsets, ok_bind]
      exact hrowed
    · simp [List.getLastD_eq_getLast?, List.getLast?_cons]

theorem elbow_never_degenerate_three : ∃ row ∈ paretoFrontier threeModels,
    selectModel (brokerless.ranking fun price => Real.logb 10 price) .elbow threeModels = .ok row ∧
      IsElbow (fun price => Real.logb 10 price) threeModels row := by
  refine elbow_never_degenerate brokerless (fun a ha b _ hab => ?_) (by decide) (by decide +kernel)
  exact Real.logb_lt_logb (by norm_num) (by exact_mod_cast ha) (by exact_mod_cast hab)

end Elbow

end Nocturne.ModelPolicy
