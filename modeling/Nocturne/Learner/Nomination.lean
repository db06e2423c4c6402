import Nocturne.Learner.Range
import Nocturne.Lib.Table

namespace Nocturne.Learner

open Nocturne.Inject Nocturne.Lib

variable {K : Type}

namespace Axes

variable {axes : Axes K} {axis : StoredAxis K} {key name : String}

theorem get?_eq_none_iff : axes.get? name = none ↔ name ∉ axes.map (·.1) := by
  rw [get?, Option.map_eq_none_iff, List.find?_eq_none, List.mem_map]
  constructor
  · rintro h ⟨entry, hentry, rfl⟩
    exact h entry hentry (decide_eq_true rfl)
  · exact fun h entry hentry hname => h ⟨entry, hentry, of_decide_eq_true hname⟩

theorem get?_of_mem (hnodup : (axes.map (·.1)).Nodup) {entry : String × StoredAxis K}
    (h : entry ∈ axes) : axes.get? entry.1 = some entry.2 := by
  have hfound : axes.find? (·.1 = entry.1) = some entry :=
    Table.get?_of_mem (t := ⟨axes, hnodup⟩) h
  rw [get?, hfound, Option.map_some]

/-- Rewriting an entry leaves its name. -/
theorem fst_rewritten (entry : String × StoredAxis K) :
    (if entry.1 = name then (name, axis) else entry).1 = entry.1 := by
  split
  · next h => exact h.symm
  · rfl

theorem map_fst_set (h : name ∈ axes.map (·.1)) :
    (axes.set name axis).map (·.1) = axes.map (·.1) := by
  have hheld : ¬axes.get? name = none := fun hnone => get?_eq_none_iff.1 hnone h
  rw [set, if_neg hheld, List.map_map]
  exact List.map_congr_left fun entry _ => fst_rewritten entry

theorem get?_set : (axes.set name axis).get? key = if key = name then some axis else
    axes.get? key := by
  unfold set
  split
  · next hnew =>
    have hnone : axes.find? (·.1 = name) = none := Option.map_eq_none_iff.mp hnew
    by_cases hkey : key = name
    · subst hkey
      simp [get?, List.find?_append, hnone]
    · simp [get?, List.find?_append, hkey, Ne.symm hkey]
  · next hheld =>
    have hfst : ((fun entry : String × StoredAxis K => decide (entry.1 = key)) ∘ fun entry =>
        if entry.1 = name then (name, axis) else entry) = fun entry => decide (entry.1 = key) :=
      funext fun entry => by rw [Function.comp_apply, fst_rewritten]
    rw [get?, List.find?_map, hfst, Option.map_map, get?]
    cases hfound : axes.find? (·.1 = key) with
    | none =>
      have hkey : key ≠ name := by
        rintro rfl
        exact hheld (by rw [get?, hfound, Option.map_none])
      rw [if_neg hkey, Option.map_none, Option.map_none]
    | some entry =>
      have hentry : entry.1 = key := by simpa using List.find?_some hfound
      rw [Option.map_some, Option.map_some, Function.comp_apply, hentry]
      split
      · rfl
      · rfl

theorem get?_set_self : (axes.set name axis).get? name = some axis := by rw [get?_set, if_pos rfl]

theorem get?_set_of_ne (h : key ≠ name) : (axes.set name axis).get? key = axes.get? key := by
  rw [get?_set, if_neg h]

/-- The scorer reads of a rewritten registry what it reads of the axis written. -/
theorem nominations_set_congr {axis' : StoredAxis K}
    (h : axis.toAxisNomination = axis'.toAxisNomination) :
    (axes.set name axis).nominations = (axes.set name axis').nominations := by
  unfold set
  split
  · simp only [nominations, List.map_append, List.map_cons, List.map_nil, h]
  · rw [nominations, nominations, List.map_map, List.map_map]
    refine List.map_congr_left fun entry _ => ?_
    rw [Function.comp_apply, Function.comp_apply]
    split
    · rw [h]
    · rfl

end Axes

section Objective

variable [Field K] [LinearOrder K] {examples : List (LearningExample K)} {fit : FitResult K}
  {settings : FitSettings K} {corpusFingerprint : String} {axes axes' : Axes K}
  {axis axis' : StoredAxis K}

theorem axisObjective_congr (h : axes.nominations = axes'.nominations) :
    axisObjective examples fit settings axes = axisObjective examples fit settings axes' := by
  have hweights (axes : Axes K) : (axes.map fun axis => axis.2.weight * axis.2.weight) =
      axes.nominations.map fun axis => axis.2.weight * axis.2.weight := by
    rw [Axes.nominations, List.map_map]
    rfl
  rw [axisObjective, axisObjective, h, hweights, hweights, h]

theorem axisObjective_set_congr (h : axis.toAxisNomination = axis'.toAxisNomination)
    (name : String) : axisObjective examples fit settings (axes.set name axis) =
      axisObjective examples fit settings (axes.set name axis') :=
  axisObjective_congr (Axes.nominations_set_congr h)

omit [Field K] in
theorem least_le_left (a b : K × StoredAxis K) : (least a b).1 ≤ a.1 := by
  unfold least
  split
  · next h => exact h.le
  · exact le_rfl

/-- Zero is among the coefficients compared. -/
theorem fittedAxis_le (axes : Axes K) (axis : StoredAxis K) :
    (fittedAxis examples fit settings axes axis).1 ≤
      (axisAt examples fit settings axes axis 0).1 :=
  (least_le_left _ _).trans (least_le_left _ _)

variable [IsStrictOrderedRing K]

/-- Refitting changes nothing the scorer reads but the coefficient. -/
theorem refit_toAxisNomination (axes : Axes K) (axis : StoredAxis K) :
    (refit examples fit settings corpusFingerprint axes axis).toAxisNomination =
      { axis.toAxisNomination with
        weight := (refit examples fit settings corpusFingerprint axes axis).weight } := by
  obtain ⟨weight, _, hfitted⟩ := @fittedAxis_at K _ _ _ examples fit settings axes axis
  rw [refit, hfitted]
  rfl

/-- The coefficient refitted is in range, zero where the axis retires, and no worse than zero. -/
theorem refit_spec (axes : Axes K) (axis : StoredAxis K) :
    let updated := refit examples fit settings corpusFingerprint axes axis
    Coefficient updated.weight ∧ (updated.action = .axisRetire → updated.weight = 0) ∧
      axisObjective examples fit settings (axes.set axis.name updated) ≤
        axisObjective examples fit settings (axes.set axis.name { axis with weight := 0 }) := by
  obtain ⟨weight, hweight, hfitted⟩ := @fittedAxis_at K _ _ _ examples fit settings axes axis
  have hle := @fittedAxis_le K _ _ examples fit settings axes axis
  have hread := @refit_toAxisNomination K _ _ examples fit settings corpusFingerprint _ axes axis
  rw [hfitted] at hle
  intro updated
  by_cases hretired : 2 ≤ nextZeroGenerations axis (fittedAxis examples fit settings axes axis).2
  · have hzero : updated.weight = 0 := if_pos hretired
    refine ⟨?_, fun _ => hzero, le_of_eq (axisObjective_set_congr ?_ _)⟩
    · rw [hzero]
      exact ⟨le_rfl, one_pos⟩
    · exact hread.trans (by rw [hzero])
  · have hkept : updated.weight = weight := by
      have hfit : updated.weight = (fittedAxis examples fit settings axes axis).2.weight :=
        if_neg hretired
      rw [hfit, hfitted]
      rfl
    have hadded : updated.action = .axisAdd := if_neg hretired
    refine ⟨hkept ▸ hweight, fun haction => ?_, ?_⟩
    · rw [hadded] at haction
      cases haction
    · refine le_of_eq_of_le (axisObjective_set_congr ?_ _) hle
      exact hread.trans (by rw [hkept])

end Objective

section Pass

variable [Field K] [LinearOrder K] (examples : List (LearningExample K)) (fit : FitResult K)
  (settings : FitSettings K) (corpusFingerprint : String)

/-- The registry after one held axis. -/
def refitNext (axes : Axes K) (axis : String × StoredAxis K) : Axes K :=
  if axis.2.action = .axisRetire then axes
  else axes.set axis.1 (refit examples fit settings corpusFingerprint axes axis.2)

/-- The registry as the pass reaches an axis, those before it refitted. -/
def refitBefore (incumbent : Axes K) (earlier : List (String × StoredAxis K)) : Axes K :=
  earlier.foldl (refitNext examples fit settings corpusFingerprint) incumbent

variable {examples fit settings corpusFingerprint} {incumbent axes : Axes K}
  {held earlier later : List (String × StoredAxis K)} {entry : String × StoredAxis K}

theorem refitNext_keys (h : entry.1 ∈ axes.map (·.1)) :
    (refitNext examples fit settings corpusFingerprint axes entry).map (·.1) =
      axes.map (·.1) := by
  unfold refitNext
  split
  · rfl
  · exact Axes.map_fst_set h

theorem refitNext_get?_of_ne {name : String} (h : name ≠ entry.1) :
    (refitNext examples fit settings corpusFingerprint axes entry).get? name =
      axes.get? name := by
  unfold refitNext
  split
  · rfl
  · exact Axes.get?_set_of_ne h

theorem refitBefore_keys (h : ∀ entry ∈ held, entry.1 ∈ incumbent.map (·.1)) :
    (refitBefore examples fit settings corpusFingerprint incumbent held).map (·.1) =
      incumbent.map (·.1) := by
  apply List.foldlRecOn held _
    (motive := fun axes : Axes K => axes.map (·.1) = incumbent.map (·.1)) rfl
  intro axes haxes entry hentry
  rw [refitNext_keys (haxes ▸ h entry hentry), haxes]

/-- An axis the pass does not come to stays as it is. -/
theorem refitBefore_get? {name : String} (h : name ∉ held.map (·.1)) :
    (refitBefore examples fit settings corpusFingerprint incumbent held).get? name =
      incumbent.get? name := by
  apply List.foldlRecOn held _
    (motive := fun axes : Axes K => axes.get? name = incumbent.get? name) rfl
  intro axes haxes entry hentry
  have hne : name ≠ entry.1 := by
    rintro rfl
    exact h (List.mem_map_of_mem hentry)
  rw [refitNext_get?_of_ne hne, haxes]

/-- What the pass leaves of an axis is what it makes of it when it comes to it. -/
theorem refitBefore_at (hnodup : ((earlier ++ entry :: later).map (·.1)).Nodup) :
    (refitBefore examples fit settings corpusFingerprint incumbent
        (earlier ++ entry :: later)).get? entry.1 =
      (refitNext examples fit settings corpusFingerprint
        (refitBefore examples fit settings corpusFingerprint incumbent earlier) entry).get?
          entry.1 := by
  have hlater : entry.1 ∉ later.map (·.1) := by
    rw [List.map_append, List.map_cons] at hnodup
    exact (List.nodup_cons.mp (List.nodup_append.mp hnodup).2.1).1
  rw [refitBefore, List.foldl_append, List.foldl_cons]
  exact refitBefore_get? hlater

end Pass

section Nominate

variable [Field K] [LinearOrder K] [IsStrictOrderedRing K] {examples : List (LearningExample K)}
  {fit : FitResult K} {settings : FitSettings K} {corpusFingerprint : String}
  {incumbent axes : Axes K}

/-- The best product so far, if there is one: new to the registry, measured there, and lower by
more than rounding than the registry without it. -/
structure Nominated (examples : List (LearningExample K)) (fit : FitResult K)
    (settings : FitSettings K) (axes : Axes K) (best : K × Option (StoredAxis K)) : Prop where
  le : best.1 ≤ axisObjective examples fit settings axes
  new : ∀ axis ∈ best.2, axes.get? axis.name = none
  measured : ∀ axis ∈ best.2, axisObjective examples fit settings (axes.set axis.name axis) = best.1
  lower : ∀ axis ∈ best.2, best.1 < axisObjective examples fit settings axes

theorem Nominated.better {best : K × Option (StoredAxis K)}
    (h : Nominated examples fit settings axes best) (candidate : NamedFeature × NamedFeature) :
    Nominated examples fit settings axes
      (better examples fit settings corpusFingerprint axes best candidate) := by
  obtain ⟨weight, _, hfitted⟩ := @fittedAxis_at K _ _ _ examples fit settings axes
    (newAxis examples corpusFingerprint candidate.1 candidate.2)
  unfold Learner.better
  dsimp only
  split
  · next hnew =>
    rw [hfitted]
    split
    · next hless =>
      have hlower : (axisAt examples fit settings axes
          (newAxis examples corpusFingerprint candidate.1 candidate.2) weight).1 < best.1 := by
        refine hless.1.trans (sub_lt_self _ ?_)
        norm_num
      constructor
      · exact hlower.le.trans h.le
      · rintro axis ⟨⟩
        exact hnew
      · rintro axis ⟨⟩
        rfl
      · rintro axis ⟨⟩
        exact hlower.trans_le h.le
    · exact h
  · exact h

/-- A nomination adds nothing, or one axis that is new and lowers the objective. -/
theorem nominateAxes_added (incumbent : Axes K) :
    let refitted := refitAll examples fit settings corpusFingerprint incumbent
    let nominated := nominateAxes examples fit settings corpusFingerprint incumbent
    nominated = refitted ∨ ∃ axis, refitted.get? axis.name = none ∧
      nominated = refitted ++ [(axis.name, axis)] ∧
      axisObjective examples fit settings nominated <
        axisObjective examples fit settings refitted := by
  intro refitted nominated
  have hbest : Nominated examples fit settings refitted ((combinations featureNames).foldl
      (better examples fit settings corpusFingerprint refitted)
      (axisObjective examples fit settings refitted, none)) := by
    apply List.foldlRecOn (combinations featureNames) _
      (motive := Nominated examples fit settings refitted)
    · constructor
      · exact le_rfl
      · rintro _ ⟨⟩
      · rintro _ ⟨⟩
      · rintro _ ⟨⟩
    · exact fun best hbest candidate _ => hbest.better candidate
  obtain ⟨best, hfold⟩ : ∃ best, best = (combinations featureNames).foldl
      (better examples fit settings corpusFingerprint refitted)
      (axisObjective examples fit settings refitted, none) := ⟨_, rfl⟩
  rw [← hfold] at hbest
  cases hchosen : best.2 with
  | none =>
    left
    simp only [nominated, nominateAxes]
    rw [← hfold, hchosen]
  | some axis =>
    right
    have hset : nominated = refitted.set axis.name axis := by
      simp only [nominated, nominateAxes]
      rw [← hfold, hchosen]
    have hnew := hbest.new axis hchosen
    refine ⟨axis, hnew, hset.trans (if_pos hnew), ?_⟩
    rw [hset, hbest.measured axis hchosen]
    exact hbest.lower axis hchosen

/-- What is held under a name stays held under it. -/
theorem nominateAxes_get? {name : String} {axis : StoredAxis K}
    (h : (refitAll examples fit settings corpusFingerprint incumbent).get? name = some axis) :
    (nominateAxes examples fit settings corpusFingerprint incumbent).get? name = some axis := by
  rcases @nominateAxes_added K _ _ _ examples fit settings corpusFingerprint incumbent with
    hsame | ⟨added, _, hadded, _⟩
  · rw [hsame, h]
  · obtain ⟨entry, hfound, rfl⟩ := Option.map_eq_some_iff.mp h
    rw [hadded, Axes.get?, List.find?_append, hfound, Option.some_or, Option.map_some]

end Nominate

/-- A product the curator holds. -/
def heldAxis : StoredAxis ℚ :=
  ⟨⟨"sem_and_kw", "Meaning × Keywords", (.sem, .kw), 1 / 5⟩, .axisAdd,
    "Joint evidence reduces training pair disagreements.", ⟨"corpus", [], 0, none⟩⟩

end Nocturne.Learner
