import Mathlib.Data.List.Dedup
import Mathlib.Tactic.LinearCombination
import Nocturne.Inject.Membership
import Nocturne.M2k.Laws

namespace Nocturne.M2k

open Nocturne.Inject Nocturne.Lib Nocturne.Memory Nocturne.Store

section Terms

variable {K : Type} [Field K] [LinearOrder K]

/-- The terms of a score while its optional ones are mixed in. -/
structure Terms (K : Type) where
  contributions : ScorerWeights K
  loc : Option K
  thread : Option K
  «where» : Option K
  axes : List (String × K)
  deriving DecidableEq

namespace Terms

def total (t : Terms K) : K :=
  t.contributions.sum + (t.axes.map (·.2)).sum + t.loc.getD 0 + t.thread.getD 0 + t.where.getD 0

/-- Every term there so far makes room for the next. -/
def scale (k : K) (t : Terms K) : Terms K :=
  { contributions := t.contributions.map (· * k)
    loc := t.loc.map (· * k)
    thread := t.thread.map (· * k)
    «where» := t.where.map (· * k)
    axes := t.axes.map fun axis => (axis.1, axis.2 * k) }

/-- The six features under their weights, and the location that scales them. -/
def linear (features : ScoreFeatures K) (weights : ScorerWeights K) (locationWeight : K) :
    Terms K :=
  let locationScale := if features.loc.isSome then 1 - locationWeight else 1
  { contributions :=
      { sem := features.sem * weights.sem * locationScale
        kw := features.kw * weights.kw * locationScale
        time := features.time * weights.time * locationScale
        proj := features.proj * weights.proj * locationScale
        freq := features.freq * weights.freq * locationScale
        hist := features.hist * weights.hist * locationScale }
    loc := features.loc.map (· * locationWeight)
    thread := none
    «where» := none
    axes := [] }

def withThread (threadWeight : K) (feature : Option K) (t : Terms K) : Terms K :=
  match feature with
  | some value => { t.scale (1 - threadWeight) with thread := some (value * threadWeight) }
  | none => t

def withWhere (whereWeight : K) (feature : Option K) (t : Terms K) : Terms K :=
  match feature with
  | some value => { t.scale (1 - whereWeight) with «where» := some (value * whereWeight) }
  | none => t

/-- A registry names each axis once, so each adds an entry of its own. -/
def withAxis (features : Feature → Option K) (t : Terms K)
    (axis : String × AxisNomination K) : Terms K :=
  match axis.2.value features with
  | none => t
  | some value =>
    if axis.2.weight = 0 then t
    else
      let scaled := t.scale (1 - axis.2.weight)
      { scaled with axes := scaled.axes ++ [(axis.1, value * axis.2.weight)] }

def withAxes (features : Feature → Option K) (axes : List (String × AxisNomination K))
    (t : Terms K) : Terms K :=
  (axes.insertionSort fun a b => a.1 ≤ b.1).foldl (withAxis features) t

variable (t : Terms K)

omit [LinearOrder K] in
@[simp] theorem total_scale (k : K) : (t.scale k).total = k * t.total := by
  have haxes : ((t.axes.map fun axis => (axis.1, axis.2 * k)).map (·.2)).sum =
      k * (t.axes.map (·.2)).sum := by
    induction t.axes with
    | nil => simp
    | cons axis axes ih =>
      simp only [List.map_cons, List.sum_cons] at ih ⊢
      rw [ih]
      ring
  have hoption (x : Option K) : (x.map (· * k)).getD 0 = k * x.getD 0 := by
    cases x <;> simp [mul_comm]
  simp only [total, scale, haxes, hoption, ScorerWeights.sum, ScorerWeights.values,
    ScorerWeights.map, List.sum_cons, List.sum_nil]
  ring

omit [LinearOrder K] in
theorem total_linear (features : ScoreFeatures K) (weights : ScorerWeights K)
    (locationWeight : K) : (linear features weights locationWeight).total =
      mixLocality locationWeight features.loc (dot weights features.linear) := by
  cases hloc : features.loc <;>
    simp [total, linear, mixLocality, dot, ScoreFeatures.linear, ScorerWeights.sum,
      ScorerWeights.values, hloc] <;> ring

omit [LinearOrder K] in
theorem total_withThread (threadWeight : K) (feature : Option K) (h : t.thread = none) :
    (t.withThread threadWeight feature).total = mixLocality threadWeight feature t.total := by
  cases feature with
  | none => rfl
  | some value =>
    have hscaled := t.total_scale (1 - threadWeight)
    simp only [total, scale, h, Option.map_none, Option.getD_none] at hscaled
    simp only [withThread, mixLocality, total, scale, Option.getD_some, h, Option.getD_none]
    linear_combination hscaled

omit [LinearOrder K] in
theorem total_withWhere (whereWeight : K) (feature : Option K) (h : t.where = none) :
    (t.withWhere whereWeight feature).total = mixLocality whereWeight feature t.total := by
  cases feature with
  | none => rfl
  | some value =>
    have hscaled := t.total_scale (1 - whereWeight)
    simp only [total, scale, h, Option.map_none, Option.getD_none] at hscaled
    simp only [withWhere, mixLocality, total, scale, Option.getD_some, h, Option.getD_none]
    linear_combination hscaled

omit [LinearOrder K] in
theorem where_withThread (threadWeight : K) (feature : Option K) (h : t.where = none) :
    (t.withThread threadWeight feature).where = none := by
  cases feature <;> simp [withThread, scale, h]

theorem total_withAxis (features : Feature → Option K) (axis : String × AxisNomination K) :
    (t.withAxis features axis).total = axis.2.apply features t.total := by
  unfold withAxis AxisNomination.apply
  cases axis.2.value features with
  | none => rfl
  | some value =>
    dsimp only
    split
    · rfl
    · have hscaled := t.total_scale (1 - axis.2.weight)
      simp only [total, scale] at hscaled ⊢
      simp only [List.map_append, List.map_cons, List.map_nil, List.sum_append, List.sum_cons,
        List.sum_nil]
      linear_combination hscaled

theorem total_withAxes (features : Feature → Option K)
    (axes : List (String × AxisNomination K)) :
    (t.withAxes features axes).total = applyAxes t.total features axes := by
  unfold withAxes applyAxes
  generalize axes.insertionSort (fun a b => a.1 ≤ b.1) = sorted
  induction sorted generalizing t with
  | nil => rfl
  | cons axis rest ih => rw [List.foldl_cons, List.foldl_cons, ih, total_withAxis]

end Terms

end Terms

section Histories

inductive M2KStateError
  | missingEventScorer (version : String)
  | invalidScorer (version : String)
  | projectOffsets
  deriving DecidableEq

structure ContributionBreakdown where
  features : ScorerWeights ℚ
  loc : Option ℚ
  thread : Option ℚ
  «where» : Option ℚ
  bias : ℚ
  deriving DecidableEq

structure CandidateScorePoint where
  eventUid : Ulid
  injectionId : Uuid
  ts : Time
  scorerVersion : String
  score : ℚ
  rank : Nat
  shownAs : ShownAs
  outcome : Option Nocturne.Outcome
  features : ScoreFeatures ℚ
  axisContributions : List (String × ℚ)
  contributions : ContributionBreakdown
  deriving DecidableEq

structure CandidateScoreHistory where
  memoryId : Uuid
  label : String
  kind : MemoryKind
  points : List CandidateScorePoint
  deriving DecidableEq

/-- Everything a point shows of its score, added up. -/
def CandidateScorePoint.explained (point : CandidateScorePoint) : ℚ :=
  point.contributions.features.sum + point.contributions.loc.getD 0 +
    point.contributions.thread.getD 0 + point.contributions.where.getD 0 +
    (point.axisContributions.map (·.2)).sum + point.contributions.bias

/-- The terms of an event's score under the version on record. -/
def eventTerms (event : InjectionEvent) (params : StoredParams) (runtime : ScorerConfig ℚ)
    (projectWeights : ScorerWeights ℚ) : Terms ℚ :=
  let terms := Terms.linear event.features projectWeights (params.locationWeight.getD 0)
  let terms := terms.withThread (params.threadWeight.getD 0) event.features.thread
  let terms := terms.withWhere (params.whereWeight.getD 0) event.features.where
  terms.withAxes event.features.get runtime.axes

/-- What the other terms leave of the stored score. -/
def biasLeft (score : ℚ) (terms : Terms ℚ) : ℚ :=
  let bias := score - terms.contributions.sum
  let bias := bias - (terms.axes.map (·.2)).sum
  let bias := bias - terms.loc.getD 0
  let bias := bias - terms.thread.getD 0
  bias - terms.where.getD 0

def scorePoint (configs : List ConfigRow) (event : InjectionEvent) :
    Except M2KStateError CandidateScorePoint := do
  let config ← require (configs.find? (·.version = event.scorerVersion))
    (.missingEventScorer event.scorerVersion)
  let runtime ← require config.runtime? (.invalidScorer config.version)
  let projectWeights ← require (weightsForProject? runtime event.projectKey) .projectOffsets
  let terms := eventTerms event config.params runtime projectWeights
  return {
    eventUid := event.eventUid
    injectionId := event.injectionId
    ts := event.ts
    scorerVersion := event.scorerVersion
    score := event.score
    rank := event.rank
    shownAs := event.shownAs
    outcome := event.outcome
    features := { event.features with axes := [] }
    axisContributions := terms.axes
    contributions := {
      features := terms.contributions
      loc := terms.loc
      thread := terms.thread
      «where» := terms.where
      bias := biasLeft event.score terms } }

/-- A memory's points, under what its last event calls it. -/
def historyOf (points : List (InjectionEvent × CandidateScorePoint)) (memoryId : Uuid) :
    Option CandidateScoreHistory :=
  let own := points.filter (·.1.memoryId = memoryId)
  own.getLast?.map fun last =>
    { memoryId
      label := last.1.frozen.label
      kind := last.1.memoryKind
      points := own.map (·.2) }

def candidateHistories (events : List InjectionEvent) (configs : List ConfigRow) :
    Except M2KStateError (List CandidateScoreHistory) := do
  let points ← events.mapM fun event => do
    let point ← scorePoint configs event
    return (event, point)
  return ((events.map (·.memoryId)).dedup.insertionSort (· ≤ ·)).filterMap (historyOf points)

end Histories

section Explained

/-- Scoring before its last step rounds to PostgreSQL's REAL. -/
def exactScoring (scoring : Scoring) : Scoring := { scoring with postgresReal := id }

/-- A row a prepare logged, with the head it scored and the version it was served under. -/
inductive Served (env : Env) (scoring : Scoring) (configs : List ConfigRow) :
    InjectionEvent → MemoryUnit → ScorerConfig ℚ → Prop
  | logged {s t : Store} {command : PrepareCommand} {query : Embedding} {plan : PreparePlan}
      {r : PrepareResponse × Store} {row : ConfigRow} {event : InjectionEvent} {head : MemoryUnit}
      (read : prepareRead env (exactScoring scoring) s command query = .ok plan)
      (write : prepareWrite env t plan = .ok r)
      (new : event ∈ r.2.events.rows ∧ event ∉ t.events.rows)
      (seen : s.units.get? event.memoryId = some head)
      (version : configs.find? (·.version = plan.config.version) = some row)
      (runtime : row.runtime? = some plan.config) :
      Served env scoring configs event head plan.config

/-- What a served row says of its score. -/
structure Frozen (configs : List ConfigRow) (event : InjectionEvent) (head : MemoryUnit)
    (config : ScorerConfig ℚ) : Prop where
  score : event.score =
    scoreFeatures event.features (config.weightsForProject event.projectKey) config.params
      config.axes + (head.bias + config.biasOffset event.memoryId)
  config : ∃ row, configs.find? (·.version = event.scorerVersion) = some row ∧
    row.runtime? = some config

variable {env : Env} {scoring : Scoring} {configs : List ConfigRow} {event : InjectionEvent}
  {head : MemoryUnit} {config : ScorerConfig ℚ}

theorem Served.frozen (h : Served env scoring configs event head config) :
    Frozen configs event head config := by
  obtain ⟨hread, hwrite, hnew, hseen, hversion, hruntime⟩ := h
  obtain ⟨pinned, regular, hplan⟩ := prepareRead_eq_ok.mp hread
  obtain ⟨stamped, counted, rows, hprepared⟩ := prepareWrite_eq_ok.mp hwrite
  obtain ⟨hrecorded, hevents⟩ := hprepared.recorded
  have hrow : event ∈ rows := by
    have hmem := hnew.1
    rw [hrecorded.rows, hevents, List.mem_append] at hmem
    exact hmem.resolve_left hnew.2
  obtain ⟨draft, hdraft, id, eventUid, rfl⟩ := forall₂_of_mem_right hrecorded.drafts hrow
  obtain ⟨candidate, hcandidate, rank, hcard⟩ := hplan.card (hplan.sound.draft_mem hdraft)
  have hunit := List.mem_of_mem_filter (hplan.loaded.eligible candidate hcandidate)
  obtain rfl : candidate.unit = head := by
    have hget := Table.get?_of_mem hunit
    simp only [eventValues, hcard, scoreCandidate] at hseen
    exact Option.some.inj (hget.symm.trans hseen)
  refine ⟨?_, _, hversion, hruntime⟩
  simp only [eventValues, hcard, scoreCandidate, hplan.seen.1]
  rfl

/-- The terms recovered from the stored version add up to the score the scorer computed. -/
theorem total_eventTerms (event : InjectionEvent) {row : ConfigRow}
    (h : row.runtime? = some config) :
    (eventTerms event row.params config (config.weightsForProject event.projectKey)).total =
      scoreFeatures event.features (config.weightsForProject event.projectKey) config.params
        config.axes := by
  have hconfig := (fromMappings_eq_some.mp h).1
  simp only [configOf?, Option.bind_eq_bind, Option.bind_eq_some_iff, Option.pure_def,
    Option.some.injEq] at hconfig
  obtain ⟨_, _, _, _, rfl⟩ := hconfig
  unfold eventTerms
  rw [Terms.total_withAxes, Terms.total_withWhere _ _ _ (Terms.where_withThread _ _ _ rfl),
    Terms.total_withThread _ _ _ rfl, Terms.total_linear]
  rfl

theorem Frozen.answers (h : Frozen configs event head config) :
    ∃ point, scorePoint configs event = .ok point := by
  obtain ⟨row, hrow, hruntime⟩ := h.config
  have hloaded : row.runtime?.isSome := by
    rw [hruntime]
    rfl
  obtain ⟨runtime, hloads, hserves⟩ := serves_of_runtime hloaded
  obtain rfl : runtime = config := Option.some.inj (hloads.symm.trans hruntime)
  obtain ⟨projectWeights, hweights⟩ := Option.isSome_iff_exists.mp (hserves event.projectKey)
  simp only [scorePoint, hrow, hruntime, hweights, require_some, ok_bind]
  exact ⟨_, rfl⟩

/-- A point names its event and accounts for all of its score, the bias down to its sources. -/
structure Explains (env : Env) (scoring : Scoring) (configs : List ConfigRow)
    (event : InjectionEvent) (point : CandidateScorePoint) : Prop where
  uid : point.eventUid = event.eventUid
  score : point.score = event.score
  total : point.explained = event.score
  bias : ∀ head config, Served env scoring configs event head config →
    point.contributions.bias = head.bias + config.biasOffset event.memoryId

theorem explains_of_scorePoint {point : CandidateScorePoint}
    (h : scorePoint configs event = .ok point) : Explains env scoring configs event point := by
  simp only [scorePoint, bind_eq_ok, require_eq_ok, pure_eq_ok] at h
  obtain ⟨row, hrow, runtime, hruntime, projectWeights, hweights, rfl⟩ := h
  refine ⟨rfl, rfl, ?_, ?_⟩
  · simp only [CandidateScorePoint.explained, biasLeft]
    ring
  · intro head config hserved
    obtain ⟨hscore, row', hrow', hruntime'⟩ := hserved.frozen
    obtain rfl : row = row' := Option.some.inj (hrow.symm.trans hrow')
    obtain rfl : runtime = config := Option.some.inj (hruntime.symm.trans hruntime')
    obtain rfl : runtime.weightsForProject event.projectKey = projectWeights := by
      unfold weightsForProject? at hweights
      split at hweights
      · exact Option.some.inj hweights
      · cases hweights
    have htotal := total_eventTerms event hruntime
    rw [← htotal] at hscore
    simp only [biasLeft]
    rw [hscore, Terms.total]
    ring

/-- What a loop over the events paired them with. -/
theorem points_of_mapM {points : List (InjectionEvent × CandidateScorePoint)}
    {events : List InjectionEvent}
    (h : events.mapM (fun event => do
      let point ← scorePoint configs event
      return (event, point)) = .ok points) :
    points.map (·.1) = events ∧ ∀ p ∈ points, scorePoint configs p.1 = .ok p.2 := by
  have hpaired := mapM_eq_ok.mp h
  simp only [bind_eq_ok, pure_eq_ok] at hpaired
  constructor
  · rw [← List.forall₂_eq_eq_eq, List.forall₂_map_left_iff]
    refine hpaired.flip.imp ?_
    rintro _ event ⟨_, _, rfl⟩
    rfl
  · intro p hp
    obtain ⟨event, _, point, hpoint, rfl⟩ := forall₂_of_mem_right hpaired hp
    exact hpoint

theorem exists_historyOf {points : List (InjectionEvent × CandidateScorePoint)}
    {p : InjectionEvent × CandidateScorePoint} (h : p ∈ points) :
    ∃ history, historyOf points p.1.memoryId = some history ∧
      history.memoryId = p.1.memoryId := by
  have hown : points.filter (·.1.memoryId = p.1.memoryId) ≠ [] :=
    List.ne_nil_of_mem (List.mem_filter.mpr ⟨h, by simp⟩)
  unfold historyOf
  dsimp only
  rw [List.getLast?_eq_some_getLast hown]
  exact ⟨_, rfl, rfl⟩

/-- The histories of any served rows: one for each memory, with a point for each of its rows
that accounts for the row's score, its bias the head's at serving and the learned offset. -/
theorem contributions_explain_score (env : Env) (scoring : Scoring) (configs : List ConfigRow)
    (events : List InjectionEvent)
    (h : ∀ event ∈ events, ∃ head config, Served env scoring configs event head config) :
    ∃ histories, candidateHistories events configs = .ok histories ∧
      (∀ event ∈ events, ∃ history ∈ histories, history.memoryId = event.memoryId) ∧
      ∀ history ∈ histories, List.Forall₂ (Explains env scoring configs)
        (events.filter (·.memoryId = history.memoryId)) history.points := by
  have hanswers : ∀ event ∈ events, ∃ pair, (do
      let point ← scorePoint configs event
      return (event, point) : Except M2KStateError _) = .ok pair := by
    intro event hevent
    obtain ⟨head, config, hserved⟩ := h event hevent
    obtain ⟨point, hpoint⟩ := hserved.frozen.answers
    exact ⟨_, by rw [hpoint, ok_bind]; rfl⟩
  obtain ⟨points, hpoints⟩ := mapM_total hanswers
  obtain ⟨hevents, hscored⟩ := points_of_mapM hpoints
  refine ⟨_, by rw [candidateHistories, hpoints, ok_bind]; rfl, ?_, ?_⟩
  · intro event hevent
    have hmem := hevent
    rw [← hevents, List.mem_map] at hmem
    obtain ⟨p, hp, rfl⟩ := hmem
    obtain ⟨history, hhistory, hid⟩ := exists_historyOf hp
    refine ⟨history, List.mem_filterMap.mpr ⟨p.1.memoryId, ?_, hhistory⟩, hid⟩
    rw [List.mem_insertionSort, List.mem_dedup]
    exact List.mem_map_of_mem hevent
  · intro history hhistory
    obtain ⟨memoryId, _, hhistory⟩ := List.mem_filterMap.mp hhistory
    obtain ⟨last, _, rfl⟩ := Option.map_eq_some_iff.mp hhistory
    dsimp only
    rw [← hevents, List.filter_map, List.forall₂_map_left_iff, List.forall₂_map_right_iff,
      Function.comp_def, List.forall₂_same]
    intro p hp
    exact explains_of_scorePoint (hscored p (List.mem_of_mem_filter hp))

end Explained

section Small

/-- Every optional term counts, and one axis. -/
def mixedParams : StoredParams :=
  { plainParams with
    tau := 1
    locationWeight := some (1 / 5)
    threadWeight := some (1 / 2)
    whereWeight := some (1 / 4)
    axes := some [("sem_and_kw",
      { name := "sem_and_kw"
        label := "Meaning × Keywords"
        inputs := (.sem, .kw)
        weight := 1 / 5
        action := .axisAdd
        rationale := "Joint evidence."
        provenance := ⟨"corpus", [], 0, none⟩ })] }

def mixedRow : ConfigRow := ⟨"v2", ⟨1 / 2, 1 / 2, 0, 0, 0, 0⟩, mixedParams, 0, true⟩

def mixedConfig : ScorerConfig ℚ where
  version := "v2"
  weights := ⟨1 / 2, 1 / 2, 0, 0, 0, 0⟩
  params := mixedParams.typed (1 / 10) none
  biasOffsets := []
  projectOffsets := []
  axes := [("sem_and_kw", ⟨"sem_and_kw", "Meaning × Keywords", (.sem, .kw), 1 / 5⟩)]

def mixedScoring : Scoring where
  features := fun _ _ _ _ _ => ⟨1, 1 / 2, 0, 0, 0, 0, some (1 / 2), some 1, some (1 / 2), []⟩
  ftsRank := fun _ _ => none
  postgresReal := id

def teaHead : MemoryUnit where
  id := 7
  principalId := "owner"
  label := "tea"
  body := "drinks tea"
  kind := .fact
  keywords := []
  embedding := [1]
  embeddingModel := "one-hot"
  projectKey := none
  threadOrigin := none
  originThreadId := none
  originPath := none
  originLocation := none
  originLocations := []
  runId := none
  originAgent := none
  pin := false
  status := .active
  revision := 1
  stats := .zero
  bias := 1 / 10
  createdAt := 0
  updatedAt := 0

def teaStore : Store :=
  { Store.deployed ⟨[⟨mixedConfig, none, none, true⟩], by simp⟩ with
    units := ⟨[teaHead], by simp⟩
    session := ⟨1, [70, 30]⟩ }

def teaGate : PrepareCommand where
  threadId := 20
  agentId := "agent"
  machineId := "m"
  principalId := "owner"
  projectKey := none
  locationPath := none
  currentLocation := none
  prompt := "what do I drink?"
  modelContextTokens := 1000
  mode := .gate
  currentMemoryIds := []
  confirmedMemoryIds := []
  excludedMemoryIds := []

/-- The plan of the gate, what it answers and what it logs. -/
def teaServed : Except SpineError (PreparePlan × List InjectionEvent) := do
  let plan ← prepareRead characterEnv (exactScoring mixedScoring) teaStore teaGate [1]
  let r ← prepareWrite characterEnv teaStore plan
  return (plan, r.2.events.rows)

theorem teaServed_ok : ∃ served ∈ teaServed.toOption,
    served.1.config = mixedConfig ∧ served.2.map (·.memoryId) = [7] := by
  decide +kernel

theorem contributions_explain_score_mixed : ∃ served ∈ teaServed.toOption,
    served.2.map (·.memoryId) = [7] ∧
      ∃ histories, candidateHistories served.2 [mixedRow] = .ok histories ∧
        ∀ history ∈ histories, List.Forall₂ (Explains characterEnv mixedScoring [mixedRow])
          (served.2.filter (·.memoryId = history.memoryId)) history.points := by
  obtain ⟨⟨plan, rows⟩, hserved, hconfig, hids⟩ := teaServed_ok
  refine ⟨(plan, rows), hserved, hids, ?_⟩
  have hruns : teaServed = .ok (plan, rows) := by
    cases hrun : teaServed with
    | error e =>
      rw [hrun] at hserved
      cases hserved
    | ok served =>
      rw [hrun] at hserved
      exact congrArg _ (Option.some.inj hserved)
  simp only [teaServed, bind_eq_ok, pure_eq_ok, Prod.mk.injEq] at hruns
  obtain ⟨plan, hread, r, hwrite, rfl, rfl⟩ := hruns
  have hruntime : mixedRow.runtime? = some plan.config := by
    rw [hconfig]
    decide +kernel
  have hversion : [mixedRow].find? (·.version = plan.config.version) = some mixedRow := by
    rw [hconfig]
    rfl
  obtain ⟨histories, hhistories, _, hpoints⟩ := contributions_explain_score characterEnv mixedScoring
    [mixedRow] r.2.events.rows fun event hevent => by
      refine ⟨teaHead, _, .logged hread hwrite ⟨hevent, List.not_mem_nil⟩ ?_ hversion hruntime⟩
      have hid : event.memoryId ∈ [7] := hids ▸ List.mem_map_of_mem hevent
      rw [List.mem_singleton.mp hid]
      rfl
  exact ⟨histories, hhistories, hpoints⟩

end Small

end Nocturne.M2k
