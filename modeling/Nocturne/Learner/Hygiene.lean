import Nocturne.Learner.Evidence

namespace Nocturne.Learner

open Nocturne.Inject Nocturne.Lib

variable {env : Env} {rows rows' : List LoggedEvent}
  {annotations annotations' : List InjectionEventAnnotation} {configs : List (ScorerConfig ℚ)}
  {passiveDiscount : ℚ} {evidence : LearningEvidence}

section Noninterference

/-- Every row of the gates in `hidden` belongs to a gate that is kept out of learning. -/
def Hides (env : Env) (rows : List LoggedEvent) (annotations : List InjectionEventAnnotation)
    (hidden : Uuid → Prop) : Prop :=
  ∀ row ∈ rows, hidden row.injectionId → ExcludedGate env rows annotations row.injectionId

/-- Two logs, each with its annotations, that differ only in the rows of excluded gates. -/
structure DifferInExcluded (env : Env) (rows rows' : List LoggedEvent)
    (annotations annotations' : List InjectionEventAnnotation) (hidden : Uuid → Prop)
    [DecidablePred hidden] : Prop where
  left : Hides env rows annotations hidden
  right : Hides env rows' annotations' hidden
  shown : rows.filter (¬hidden ·.injectionId) = rows'.filter (¬hidden ·.injectionId)
  annotated : ∀ row ∈ rows, ¬hidden row.injectionId →
    (VerificationOnly annotations row.eventUid ↔ VerificationOnly annotations' row.eventUid)

variable {hidden : Uuid → Prop} [DecidablePred hidden]

theorem eligibleRows_hidden (h : Hides env rows annotations hidden) :
    eligibleRows env rows annotations = (rows.filter (¬hidden ·.injectionId)).filter fun row =>
      ¬ExcludedGate env rows annotations row.injectionId := by
  rw [List.filter_filter]
  apply List.filter_congr
  intro row hrow
  by_cases hhidden : hidden row.injectionId
  · simp [hhidden, h row hrow hhidden]
  · simp [hhidden]

theorem DifferInExcluded.excludedGate
    (h : DifferInExcluded env rows rows' annotations annotations' hidden) {injectionId : Uuid}
    (hshown : ¬hidden injectionId) : ExcludedGate env rows annotations injectionId ↔
      ExcludedGate env rows' annotations' injectionId := by
  have hmem (member : LoggedEvent) (hid : member.injectionId = injectionId) :
      member ∈ rows ↔ member ∈ rows' := by
    have hfilter : member ∈ rows.filter (¬hidden ·.injectionId) ↔
        member ∈ rows'.filter (¬hidden ·.injectionId) := by rw [h.shown]
    simpa [List.mem_filter, hid, hshown] using hfilter
  constructor
  · rintro ⟨member, hrow, hid, hexcludes⟩
    refine ⟨member, (hmem member hid).mp hrow, hid, hexcludes.imp_left ?_⟩
    exact (h.annotated member hrow (hid ▸ hshown)).mp
  · rintro ⟨member, hrow, hid, hexcludes⟩
    have hrow' := (hmem member hid).mpr hrow
    refine ⟨member, hrow', hid, hexcludes.imp_left ?_⟩
    exact (h.annotated member hrow' (hid ▸ hshown)).mpr

/-- What learning reads is the same in both logs. -/
theorem DifferInExcluded.eligibleRows
    (h : DifferInExcluded env rows rows' annotations annotations' hidden) :
    eligibleRows env rows annotations = eligibleRows env rows' annotations' := by
  rw [eligibleRows_hidden h.left, eligibleRows_hidden h.right, h.shown]
  apply List.filter_congr
  intro row hrow
  rw [List.mem_filter, decide_eq_true_eq] at hrow
  simp only [h.excludedGate hrow.2]

/-- What the learner is given of the evidence. -/
def LearningEvidence.visible (evidence : LearningEvidence) :
    List (LearningExample ℚ) × List (ShareBoundary ℚ) :=
  (evidence.examples, evidence.shareBoundaries)

theorem map_visible_projectLearningEvidence :
    (projectLearningEvidence env rows annotations configs passiveDiscount).map
        LearningEvidence.visible = (do
      let examples ← (labeledRows passiveDiscount (eligibleRows env rows annotations)).mapM
        fun labeled => labeled.1.learningExample env configs labeled.2
      let shareBoundaries ← shareBoundaries env configs passiveDiscount
        (eligibleRows env rows annotations)
      return (examples, shareBoundaries)) := by
  unfold projectLearningEvidence
  dsimp only
  cases (labeledRows passiveDiscount (eligibleRows env rows annotations)).mapM fun labeled =>
      labeled.1.learningExample env configs labeled.2 with
  | error e => rfl
  | ok examples =>
    rw [ok_bind, ok_bind]
    cases shareBoundaries env configs passiveDiscount (eligibleRows env rows annotations) <;> rfl

end Noninterference

section Provenance

/-- What a projection that succeeded read and made. -/
structure Projected (env : Env) (rows : List LoggedEvent)
    (annotations : List InjectionEventAnnotation) (configs : List (ScorerConfig ℚ))
    (passiveDiscount : ℚ) (evidence : LearningEvidence) : Prop where
  examples : (labeledRows passiveDiscount (eligibleRows env rows annotations)).mapM
    (fun labeled => labeled.1.learningExample env configs labeled.2) = .ok evidence.examples
  boundaries : shareBoundaries env configs passiveDiscount (eligibleRows env rows annotations) =
    .ok evidence.shareBoundaries
  excluded : evidence.hygieneExcludedDispositions = (rows.filter fun row =>
    ExcludedGate env rows annotations row.injectionId ∧ (row.label passiveDiscount).isSome).length

theorem projected_of_ok
    (h : projectLearningEvidence env rows annotations configs passiveDiscount = .ok evidence) :
    Projected env rows annotations configs passiveDiscount evidence := by
  simp only [projectLearningEvidence, bind_eq_ok, pure_eq_ok] at h
  obtain ⟨examples, hexamples, boundaries, hboundaries, rfl⟩ := h
  exact ⟨hexamples, hboundaries, rfl⟩

theorem mem_eligibleRows {row : LoggedEvent} : row ∈ eligibleRows env rows annotations ↔
    row ∈ rows ∧ ¬ExcludedGate env rows annotations row.injectionId := by
  simp [eligibleRows]

theorem mem_labeledRows {labeled : LoggedEvent × (Bool × ℚ)} :
    labeled ∈ labeledRows passiveDiscount rows ↔
      labeled.1 ∈ rows ∧ labeled.1.label passiveDiscount = some labeled.2 := by
  simp only [labeledRows, List.mem_filterMap, Option.map_eq_some_iff]
  constructor
  · rintro ⟨row, hrow, label, hlabel, rfl⟩
    exact ⟨hrow, hlabel⟩
  · rintro ⟨hrow, hlabel⟩
    exact ⟨labeled.1, hrow, labeled.2, hlabel, rfl⟩

theorem map_labeledRows : (labeledRows passiveDiscount rows).map Prod.fst =
    rows.filter fun row => (row.label passiveDiscount).isSome := by
  induction rows with
  | nil => rfl
  | cons row rows ih =>
    unfold labeledRows at ih ⊢
    cases hlabel : row.label passiveDiscount <;> simp [hlabel, ih]

theorem length_labeledRows : (labeledRows passiveDiscount rows).length =
    (rows.filter fun row => (row.label passiveDiscount).isSome).length := by
  rw [← map_labeledRows, List.length_map]

/-- The gate has no excluded member. -/
def CleanGate (env : Env) (rows : List LoggedEvent) (annotations : List InjectionEventAnnotation)
    (injectionId : Uuid) : Prop :=
  ∀ member ∈ rows, member.injectionId = injectionId →
    ¬VerificationOnly annotations member.eventUid ∧
      ¬IdentityIsExcluded env.lower member.principalId member.machineId

theorem cleanGate_of_mem {row : LoggedEvent} (h : row ∈ eligibleRows env rows annotations) :
    CleanGate env rows annotations row.injectionId := by
  intro member hmember hid
  have hnot := (mem_eligibleRows.mp h).2
  constructor
  · exact fun hannotated => hnot ⟨member, hmember, hid, .inl hannotated⟩
  · exact fun hidentity => hnot ⟨member, hmember, hid, .inr hidentity⟩

/-- Each example stands for the row it was made of, in the rows' order. -/
theorem Projected.examples_of
    (h : Projected env rows annotations configs passiveDiscount evidence) :
    List.Forall₂ (fun labeled example_ => labeled.1.learningExample env configs labeled.2 =
        .ok example_)
      (labeledRows passiveDiscount (eligibleRows env rows annotations)) evidence.examples :=
  mapM_eq_ok.mp h.examples

theorem Projected.count (h : Projected env rows annotations configs passiveDiscount evidence) :
    evidence.hygieneExcludedDispositions + evidence.examples.length =
      (rows.filter fun row => (row.label passiveDiscount).isSome).length := by
  have hlength := h.examples_of.length_eq
  have hsplit := List.countP_eq_countP_filter_add rows
    (fun row => (row.label passiveDiscount).isSome)
    (fun row => decide (ExcludedGate env rows annotations row.injectionId))
  rw [length_labeledRows] at hlength
  rw [h.excluded, ← hlength, eligibleRows, ← List.countP_eq_length_filter,
    ← List.countP_eq_length_filter, ← List.countP_eq_length_filter, hsplit]
  simp only [List.countP_filter]
  congr 1
  · apply List.countP_congr
    intro row _
    simp [and_comm]
  · apply List.countP_congr
    intro row _
    simp

end Provenance

section Scores

variable {row : LoggedEvent} {label : Bool × ℚ} {learned : LearningExample ℚ}

/-- The features an example froze, as the scorer reads them. -/
def LearningExample.frozen {K : Type} (row : LearningExample K) : ScoreFeatures K where
  sem := row.features.sem
  kw := row.features.kw
  time := row.features.time
  proj := row.features.proj
  freq := row.features.freq
  hist := row.features.hist
  loc := row.locationFeature
  thread := row.threadFeature
  «where» := row.whereFeature
  axes := []

theorem checkedFeature_of_required {feature : Feature} {value : ℚ}
    (h : row.requiredFeature feature = .ok value) : row.checkedFeature feature = some value := by
  simp only [LoggedEvent.requiredFeature, LoggedEvent.unitNumber, bind_eq_ok, require_eq_ok,
    ensure_eq_ok, pure_eq_ok] at h
  obtain ⟨_, hnumber, _, _, rfl⟩ := h
  exact hnumber

theorem checkedFeature_of_optional {feature : Feature} {value : Option ℚ}
    (h : row.optionalFeature feature = .ok value) : row.checkedFeature feature = value := by
  unfold LoggedEvent.optionalFeature at h
  split at h
  · next hnone =>
    obtain rfl := Except.ok.inj h
    unfold LoggedEvent.checkedFeature
    cases hstored : row.stored feature <;> rw [hstored] at hnone <;>
      first | rfl | exact absurd hnone (by simp [PyValue.asPresent])
  · next stored hsome =>
    obtain ⟨_, rfl⟩ := PyValue.asPresent_eq_some.mp hsome
    simp only [LoggedEvent.unitNumber, bind_eq_ok, require_eq_ok, ensure_eq_ok, pure_eq_ok] at h
    obtain ⟨number, ⟨_, hnumber, _, _, rfl⟩, rfl⟩ := h
    exact hnumber

/-- What an example says of the row it was made of and of the version that served the row. -/
structure Learned (configs : List (ScorerConfig ℚ)) (row : LoggedEvent) (label : Bool × ℚ)
    (learned : LearningExample ℚ) (source : ScorerConfig ℚ) : Prop where
  served : configs.find? (·.version = row.scorerVersion) = some source
  uid : learned.eventUid = row.eventUid
  injection : learned.injectionId = row.injectionId
  memory : learned.memoryId = row.memoryId
  thread : learned.threadId = some row.threadId
  target : learned.targetInjected = label.1
  weight : learned.actorWeight = label.2
  project : learned.projectKey = row.projectKey
  features : ∀ feature, row.checkedFeature feature = learned.frozen.get feature
  score : learned.baselineBias + source.biasOffset learned.memoryId +
    scoreFeatures learned.frozen (source.weightsForProject learned.projectKey) source.params
      source.axes = row.score

theorem learned_of_ok (h : row.learningExample env configs label = .ok learned) :
    ∃ source, Learned configs row label learned source := by
  simp only [LoggedEvent.learningExample, LoggedEvent.linearFeatures, bind_eq_ok, require_eq_ok,
    pure_eq_ok] at h
  obtain ⟨source, hsource, _, ⟨sem, hsem, kw, hkw, time, htime, proj, hproj, freq, hfreq, hist,
    hhist, rfl⟩, location, hlocation, thread, hthread, place, hplace, tokens, _, rfl⟩ := h
  have hfeatures (feature : Feature) : row.checkedFeature feature =
      ({ sem, kw, time, proj, freq, hist, loc := location, thread, «where» := place, axes := [] :
        ScoreFeatures ℚ }).get feature := by
    cases feature with
    | sem => exact checkedFeature_of_required hsem
    | kw => exact checkedFeature_of_required hkw
    | time => exact checkedFeature_of_required htime
    | proj => exact checkedFeature_of_required hproj
    | freq => exact checkedFeature_of_required hfreq
    | hist => exact checkedFeature_of_required hhist
    | loc => exact checkedFeature_of_optional hlocation
    | thread => exact checkedFeature_of_optional hthread
    | «where» => exact checkedFeature_of_optional hplace
  refine ⟨source, hsource, rfl, rfl, rfl, rfl, rfl, rfl, rfl, hfeatures, ?_⟩
  dsimp only [LearningExample.frozen]
  rw [funext hfeatures, sub_add_cancel, scoreFeatures, sub_add_eq_add_sub]
  exact add_sub_cancel_right _ _

/-- Every example weighs something: a whole disposition, or a passive one at its discount. -/
theorem Projected.actorWeight_pos {env : Env} {rows : List LoggedEvent}
    {annotations : List InjectionEventAnnotation} {configs : List (ScorerConfig ℚ)}
    {passiveDiscount : ℚ} {evidence : LearningEvidence}
    (h : Projected env rows annotations configs passiveDiscount evidence)
    (hdiscount : 0 < passiveDiscount) : ∀ learned ∈ evidence.examples, 0 < learned.actorWeight := by
  intro learned hlearned
  obtain ⟨labeled, hlabeled, hok⟩ := forall₂_of_mem_right h.examples_of hlearned
  obtain ⟨source, hsource⟩ := learned_of_ok hok
  rw [hsource.weight]
  have hlabel := (mem_labeledRows.mp hlabeled).2
  unfold LoggedEvent.label disposition at hlabel
  split_ifs at hlabel <;> obtain hlabel := Option.some.inj hlabel <;> rw [← hlabel]
  all_goals first | exact one_pos | exact hdiscount

end Scores

section Boundaries

variable {positives : Uuid → Option ℚ} {members : List LoggedEvent} {row : LoggedEvent}
  {boundary : ShareBoundary ℚ} {boundaries : List (ShareBoundary ℚ)}

/-- The room a gate's rows took, of the context they were prepared for. -/
structure Room (env : Env) (members : List LoggedEvent) (context : ℤ) (regular pinned : Nat) :
    Prop where
  context : contextTokens members = some context
  regular : tokenTotal env (members.filter (·.shownAs = .injected)) = .ok regular
  pinned : tokenTotal env (members.filter (·.shownAs = .pinned)) = .ok pinned

/-- What a row of a gate may be a boundary for. -/
inductive Minted (env : Env) (passiveDiscount : ℚ) (positives : Uuid → Option ℚ)
    (members : List LoggedEvent) (row : LoggedEvent) : ShareBoundary ℚ → Prop
  | cut {context : ℤ} {regular pinned tokens : Nat} {weight : ℚ} :
    Room env members context regular pinned → row.shownAs = .budgetCut →
      positives row.memoryId = some weight → row.bodyTokens env = .ok tokens →
      Minted env passiveDiscount positives members row
        ⟨row.eventUid, row.injectionId, (regular + tokens) / context, true, weight,
          .valuableBudgetCut⟩
  | marginal {context : ℤ} {regular pinned : Nat} {boundary : ShareBoundary ℚ} :
    Room env members context regular pinned → row.shownAs = .injected →
      marginalBoundary passiveDiscount (regular / context) row = some boundary →
      Minted env passiveDiscount positives members row boundary
  | pin {context : ℤ} {regular pinned : Nat} :
    Room env members context regular pinned → row.shownAs = .pinned →
      Minted env passiveDiscount positives members row
        ⟨row.eventUid, row.injectionId, (regular + pinned : Nat) / context, true, 1, .pinOverflow⟩

theorem mem_valuableCuts {seen : List Uuid} {cut : LoggedEvent × ℚ}
    (h : cut ∈ valuableCuts positives seen members) :
    cut.1 ∈ members ∧ cut.1.shownAs = .budgetCut ∧ positives cut.1.memoryId = some cut.2 := by
  induction members generalizing seen with
  | nil => cases h
  | cons row members ih =>
    unfold valuableCuts at h
    split at h
    · next weight hweight =>
      split at h
      · next hcut =>
        rcases List.mem_cons.mp h with rfl | h
        · exact ⟨List.mem_cons_self, hcut.1, hweight⟩
        · exact (ih h).imp_left (List.mem_cons_of_mem _)
      · exact (ih h).imp_left (List.mem_cons_of_mem _)
    · exact (ih h).imp_left (List.mem_cons_of_mem _)

theorem pinBoundary_minted {context : ℤ} {regular pinned : Nat}
    (hroom : Room env members context regular pinned)
    (h : pinBoundary configs members (regular + pinned) context = .ok (some boundary)) :
    ∃ row ∈ members, Minted env passiveDiscount positives members row boundary := by
  unfold pinBoundary at h
  split at h
  · next first firstPin _ hpin =>
    simp only [bind_eq_ok, require_eq_ok] at h
    obtain ⟨source, _, h⟩ := h
    split at h
    · rw [pure_eq_ok, Option.some.injEq] at h
      subst h
      have hmem := List.argmin_mem hpin
      rw [List.mem_filter, decide_eq_true_eq] at hmem
      exact ⟨firstPin, hmem.1, .pin hroom hmem.2⟩
    · rw [pure_eq_ok] at h
      cases h
  · cases h

theorem gateBoundaries_minted
    (h : gateBoundaries env configs passiveDiscount positives members = .ok boundaries)
    (hboundary : boundary ∈ boundaries) :
    ∃ row ∈ members, Minted env passiveDiscount positives members row boundary := by
  unfold gateBoundaries at h
  split at h
  · obtain rfl := Except.ok.inj h
    cases hboundary
  · next context hcontext =>
    simp only [bind_eq_ok, pure_eq_ok] at h
    obtain ⟨regular, hregular, pinned, hpinned, cuts, hcuts, pin, hpin, rfl⟩ := h
    have hroom : Room env members context regular pinned := ⟨hcontext, hregular, hpinned⟩
    rw [List.mem_append, List.mem_append, Option.mem_toList, Option.mem_toList] at hboundary
    rcases hboundary with (hcut | hmarginal) | rfl
    · obtain ⟨cut, hmem, hcut⟩ := forall₂_of_mem_right (mapM_eq_ok.mp hcuts) hcut
      obtain ⟨hrow, hshown, hweight⟩ := mem_valuableCuts hmem
      simp only [cutBoundary, bind_eq_ok, pure_eq_ok] at hcut
      obtain ⟨tokens, htokens, rfl⟩ := hcut
      exact ⟨cut.1, mem_listing.mp hrow, .cut hroom hshown hweight htokens⟩
    · rw [Option.bind_eq_some_iff] at hmarginal
      obtain ⟨row, hmax, hmarginal⟩ := hmarginal
      have hmem := List.argmax_mem hmax
      rw [List.mem_filter, decide_eq_true_eq] at hmem
      exact ⟨row, hmem.1, .marginal hroom hmem.2 hmarginal⟩
    · exact pinBoundary_minted hroom hpin

theorem Minted.ids (h : Minted env passiveDiscount positives members row boundary) :
    boundary.eventUid = row.eventUid ∧ boundary.injectionId = row.injectionId := by
  cases h with
  | cut => exact ⟨rfl, rfl⟩
  | pin => exact ⟨rfl, rfl⟩
  | marginal _ _ hmarginal =>
    unfold marginalBoundary at hmarginal
    dsimp only at hmarginal
    split at hmarginal
    · obtain rfl := Option.some.inj hmarginal
      exact ⟨rfl, rfl⟩
    · split at hmarginal
      · obtain rfl := Option.some.inj hmarginal
        exact ⟨rfl, rfl⟩
      · cases hmarginal

/-- Each boundary is minted for a row of its own gate. -/
theorem shareBoundaries_minted
    (h : shareBoundaries env configs passiveDiscount rows = .ok boundaries)
    (hboundary : boundary ∈ boundaries) : ∃ row ∈ rows,
      Minted env passiveDiscount (explicitPositiveWeight passiveDiscount rows)
        (gateMembers rows row.injectionId) row boundary := by
  simp only [shareBoundaries, bind_eq_ok, pure_eq_ok] at h
  obtain ⟨gates, hgates, rfl⟩ := h
  obtain ⟨gate, hgate, hmem⟩ := List.mem_flatten.mp hboundary
  obtain ⟨injectionId, _, hgate⟩ := forall₂_of_mem_right (mapM_eq_ok.mp hgates) hgate
  obtain ⟨row, hrow, hminted⟩ := gateBoundaries_minted hgate hmem
  rw [gateMembers, List.mem_filter, decide_eq_true_eq] at hrow
  obtain ⟨hrow, rfl⟩ := hrow
  exact ⟨row, hrow, hminted⟩

end Boundaries

section Refusals

/-- The event an error is about. -/
def LearnerError.eventUid? : LearnerError → Option Ulid
  | .missingScorer eventUid _ | .notNumeric eventUid _ | .outsideUnit eventUid _ => some eventUid
  | .noFrozenBody eventUid => some eventUid
  | _ => none

def LoggedEvent.Blamed (row : LoggedEvent) (e : LearnerError) : Prop :=
  e.eventUid? = some row.eventUid

/-- One of the rows is what the error is about. -/
def SomeBlamed (rows : List LoggedEvent) (e : LearnerError) : Prop := ∃ row ∈ rows, row.Blamed e

section Row

variable {row : LoggedEvent} {E : LearnerError → Prop} (hrow : ∀ e, row.Blamed e → E e)

include hrow

theorem unitNumber_meets (feature : Feature) (value : PyValue) :
    Meets (fun _ => True) E (row.unitNumber feature value) := by
  unfold LoggedEvent.unitNumber
  refine (Meets.require (hrow _ (by rfl))).bind fun _ _ => ?_
  exact (Meets.ensure (hrow _ (by rfl))).bind fun _ _ => .pure trivial

theorem linearFeatures_meets : Meets (fun _ => True) E row.linearFeatures := by
  have hrequired (feature : Feature) :
      Meets (fun _ => True) E (row.requiredFeature feature) := unitNumber_meets hrow feature _
  unfold LoggedEvent.linearFeatures
  refine (hrequired .sem).bind fun _ _ => (hrequired .kw).bind fun _ _ => ?_
  refine (hrequired .time).bind fun _ _ => (hrequired .proj).bind fun _ _ => ?_
  exact (hrequired .freq).bind fun _ _ => (hrequired .hist).bind fun _ _ => .pure trivial

theorem optionalFeature_meets (feature : Feature) :
    Meets (fun _ => True) E (row.optionalFeature feature) := by
  unfold LoggedEvent.optionalFeature
  split
  · exact .ok trivial
  · exact (unitNumber_meets hrow feature _).bind fun _ _ => .pure trivial

theorem bodyTokens_meets : Meets (fun _ => True) E (row.bodyTokens env) := by
  unfold LoggedEvent.bodyTokens
  exact (Meets.require (hrow _ (by rfl))).bind fun _ _ => .pure trivial

theorem learningExample_meets (label : Bool × ℚ) :
    Meets (fun _ => True) E (row.learningExample env configs label) := by
  have hoptional := optionalFeature_meets hrow
  unfold LoggedEvent.learningExample
  refine (Meets.require (hrow _ (by rfl))).bind fun _ _ => ?_
  refine (linearFeatures_meets hrow).bind fun _ _ => (hoptional .loc).bind fun _ _ => ?_
  refine (hoptional .thread).bind fun _ _ => (hoptional .where).bind fun _ _ => ?_
  exact (bodyTokens_meets hrow).bind fun _ _ => .pure trivial

end Row

section Gates

variable {E : LearnerError → Prop} {members : List LoggedEvent}
  (hmembers : ∀ row ∈ members, ∀ e, row.Blamed e → E e)

include hmembers

theorem tokenTotal_meets {P : LoggedEvent → Prop} [DecidablePred P] :
    Meets (fun _ => True) E (tokenTotal env (members.filter fun row => P row)) := by
  unfold tokenTotal
  refine (Meets.mapM fun row hrow => ?_).bind fun _ _ => .pure trivial
  exact bodyTokens_meets (hmembers row (List.mem_of_mem_filter hrow))

theorem pinBoundary_meets {tokens : Nat} {context : ℤ} :
    Meets (fun _ => True) E (pinBoundary configs members tokens context) := by
  unfold pinBoundary
  split
  · next first _ hfirst _ =>
    refine (Meets.require (hmembers first (List.mem_of_head? hfirst) _ (by rfl))).bind fun _ _ => ?_
    split <;> exact .pure trivial
  · exact .ok trivial

theorem gateBoundaries_meets {positives : Uuid → Option ℚ} :
    Meets (fun _ => True) E (gateBoundaries env configs passiveDiscount positives members) := by
  unfold gateBoundaries
  split
  · exact .ok trivial
  · refine (tokenTotal_meets hmembers).bind fun _ _ =>
      (tokenTotal_meets hmembers).bind fun _ _ => ?_
    refine (Meets.mapM fun cut hcut => ?_).bind fun _ _ => ?_
    · have hrow := mem_listing.mp (mem_valuableCuts hcut).1
      exact (bodyTokens_meets (hmembers cut.1 hrow)).bind fun _ _ => .pure trivial
    · exact (pinBoundary_meets hmembers).bind fun _ _ => .pure trivial

end Gates

/-- A projection refuses only for what one of the rows stored. -/
theorem projectLearningEvidence_meets : Meets (fun _ => True) (SomeBlamed rows)
    (projectLearningEvidence env rows annotations configs passiveDiscount) := by
  have hsome : ∀ row ∈ eligibleRows env rows annotations, ∀ e, row.Blamed e → SomeBlamed rows e :=
    fun row hrow _ hblamed => ⟨row, (mem_eligibleRows.mp hrow).1, hblamed⟩
  unfold projectLearningEvidence
  refine (Meets.mapM fun labeled hlabeled => ?_).bind fun _ _ => ?_
  · exact learningExample_meets (hsome _ (mem_labeledRows.mp hlabeled).1) _
  · have hboundaries : Meets (fun _ => True) (SomeBlamed rows) (shareBoundaries env configs
        passiveDiscount (eligibleRows env rows annotations)) := by
      refine (Meets.mapM fun injectionId _ => ?_).bind fun _ _ => .pure trivial
      exact gateBoundaries_meets fun row hrow => hsome row (List.mem_of_mem_filter hrow)
    exact hboundaries.bind fun _ _ => .pure trivial

end Refusals

section Hygiene

/-- Learning does not see the gates it excludes: two logs that differ in their rows alone give
the same examples and boundaries, none of which comes from such a gate; each disposition is
either excluded or one example, and an example's bias, the offset its version had learned and
that version's score of its features add up to the stored score. -/
theorem learning_hygiene (env : Env) (configs : List (ScorerConfig ℚ)) (passiveDiscount : ℚ) :
    (∀ rows rows' annotations annotations' (hidden : Uuid → Prop) [DecidablePred hidden],
      DifferInExcluded env rows rows' annotations annotations' hidden →
        (projectLearningEvidence env rows annotations configs passiveDiscount).map
            LearningEvidence.visible =
          (projectLearningEvidence env rows' annotations' configs passiveDiscount).map
            LearningEvidence.visible) ∧
    ∀ rows annotations evidence,
      projectLearningEvidence env rows annotations configs passiveDiscount = .ok evidence →
        (∀ learned ∈ evidence.examples, CleanGate env rows annotations learned.injectionId) ∧
        (∀ boundary ∈ evidence.shareBoundaries,
          CleanGate env rows annotations boundary.injectionId) ∧
        evidence.hygieneExcludedDispositions + evidence.examples.length =
          (rows.filter fun row => (row.label passiveDiscount).isSome).length ∧
        List.Forall₂ (fun row learned => ∃ label source,
            row.label passiveDiscount = some label ∧ Learned configs row label learned source)
          ((rows.filter fun row => ¬ExcludedGate env rows annotations row.injectionId).filter
            fun row => (row.label passiveDiscount).isSome) evidence.examples := by
  constructor
  · intro rows rows' annotations annotations' hidden _ hdiffer
    rw [map_visible_projectLearningEvidence, map_visible_projectLearningEvidence,
      hdiffer.eligibleRows]
  · intro rows annotations evidence h
    have hprojected := projected_of_ok h
    refine ⟨?_, ?_, hprojected.count, ?_⟩
    · intro learned hlearned
      obtain ⟨labeled, hlabeled, hmade⟩ := forall₂_of_mem_right hprojected.examples_of hlearned
      obtain ⟨source, hsource⟩ := learned_of_ok hmade
      rw [hsource.injection]
      exact cleanGate_of_mem (mem_labeledRows.mp hlabeled).1
    · intro boundary hboundary
      obtain ⟨row, hrow, hminted⟩ := shareBoundaries_minted hprojected.boundaries hboundary
      rw [hminted.ids.2]
      exact cleanGate_of_mem hrow
    · have hmade := (List.forall₂_and_left _ _).mpr
        ⟨fun labeled hlabeled => (mem_labeledRows.mp hlabeled).2, hprojected.examples_of⟩
      have hfirst : (labeledRows passiveDiscount (eligibleRows env rows annotations)).map
          Prod.fst = _ := map_labeledRows
      rw [eligibleRows] at hfirst
      rw [← hfirst, List.forall₂_map_left_iff]
      refine hmade.imp fun labeled learned ⟨hlabel, hlearned⟩ => ?_
      obtain ⟨source, hsource⟩ := learned_of_ok hlearned
      exact ⟨labeled.2, source, hlabel, hsource⟩

/-- A card of a gate as it was logged, all of it about what the prompt means. -/
def loggedCard (eventUid : Ulid) (injectionId : Uuid) (machineId : String) (outcome : Outcome) :
    LoggedEvent where
  eventUid
  injectionId
  threadId := 1
  machineId
  principalId := "owner"
  projectKey := none
  scorerVersion := "plain"
  memoryId := eventUid
  features :=
    [("sem", .float (3 / 4)), ("kw", .int 0), ("time", .int 1), ("proj", .int 0),
      ("freq", .int 0), ("hist", .int 0), ("thread", .float (1 / 2)),
      ("_memory", .mapping [("body", .str "drinks tea")]),
      ("_prepare", .mapping [("model_context_tokens", .int 1000)])]
  score := 4 / 5
  rank := eventUid
  shownAs := .injected
  actorClass := .human
  outcome := some outcome
  ts := injectionId

def loggedConfig : ScorerConfig ℚ where
  version := "plain"
  weights := ⟨1, 0, 0, 0, 0, 0⟩
  params := ⟨1 / 2, 3, 1 / 10, 1, 1, 10, 0, 1, 1 / 5, 0, none⟩
  biasOffsets := [(1, 1 / 20)]
  projectOffsets := []
  axes := []

/-- A gate of the owner's, and one that a relay opened. -/
def relayedLog : List LoggedEvent :=
  [loggedCard 1 10 "m" .kept, loggedCard 2 10 "m" (.removed .never),
    loggedCard 3 20 "d1-relay" .kept]

/-- Without the relay's gate there is as much to learn. -/
theorem learning_hygiene_relayed :
    (projectLearningEvidence characterEnv relayedLog [] [loggedConfig] (1 / 2)).map
        LearningEvidence.visible =
      (projectLearningEvidence characterEnv (relayedLog.take 2) [] [loggedConfig] (1 / 2)).map
        LearningEvidence.visible ∧
    Answers (projectLearningEvidence characterEnv relayedLog [] [loggedConfig] (1 / 2))
      fun evidence => evidence.examples.length = 2 ∧ evidence.shareBoundaries.length = 1 ∧
        evidence.hygieneExcludedDispositions = 1 := by
  refine ⟨(learning_hygiene characterEnv [loggedConfig] (1 / 2)).1 relayedLog (relayedLog.take 2)
    [] [] (· = 20) ⟨?_, ?_, rfl, ?_⟩, by decide +kernel⟩
  · unfold Hides
    decide +kernel
  · unfold Hides
    decide +kernel
  · decide +kernel

end Hygiene

end Nocturne.Learner
