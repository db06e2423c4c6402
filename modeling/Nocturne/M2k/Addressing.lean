import Mathlib.Data.Set.Function
import Nocturne.Learner.Continued
import Nocturne.M2k.Corpus

namespace Nocturne.M2k

open Nocturne.Inject Nocturne.Learner Nocturne.Lib

section Parts

variable {settings : LearnerSettings} {active : ConfigRow} {incumbent : ScorerConfig ℚ}
  {corpus : BalancedCorpus} {c : Challenge}

theorem version_of_runtime (h : active.runtime? = some incumbent) :
    incumbent.version = active.version := by
  simp only [ConfigRow.runtime?, fromMappings, configOf?, Option.bind_eq_bind,
    Option.bind_eq_some_iff, Option.pure_def, Option.some.injEq,
    Option.ite_none_right_eq_some] at h
  obtain ⟨_, ⟨_, _, _, _, rfl⟩, _, rfl⟩ := h
  rfl

/-- Training and holdout share the examples out between them. -/
theorem splitGates_eq_ok {examples training holdout : List (LearningExample ℚ)} {cutoff : Time}
    {holdoutFraction : ℚ}
    (h : splitGates examples holdoutFraction = .ok (training, holdout, cutoff)) :
    (∀ row, row ∈ examples ↔ row ∈ training ∨ row ∈ holdout) ∧ cutoff = gateTs training := by
  simp only [splitGates, bind_eq_ok, ensure_eq_ok, pure_eq_ok, Prod.mk.injEq] at h
  obtain ⟨_, _, rfl, rfl, rfl⟩ := h
  refine ⟨?_, rfl⟩
  intro row
  rw [← List.mem_append, ← List.flatten_append, ← List.map_append, List.take_append_drop,
    List.mem_flatten]
  simp only [List.mem_map, List.mem_insertionSort, List.mem_dedup]
  constructor
  · intro hrow
    refine ⟨_, ⟨_, ⟨row.injectionId, ⟨row, hrow, rfl⟩, rfl⟩, rfl⟩, ?_⟩
    simpa using hrow
  · rintro ⟨_, ⟨_, ⟨injectionId, _, rfl⟩, rfl⟩, hrow⟩
    exact List.mem_of_mem_filter hrow

/-- What a challenge is made of, each part of it from the parts before. -/
structure Challenged (settings : LearnerSettings) (active : ConfigRow)
    (incumbent : ScorerConfig ℚ) (corpus : BalancedCorpus) (c : Challenge) : Prop where
  examples : ∀ row, row ∈ corpus.examples ↔ row ∈ c.training ∨ row ∈ c.holdout
  cutoff : c.cutoff = gateTs c.training
  trainingBoundaries : c.trainingBoundaries = boundariesOf corpus c.training
  fit : fitPairwise c.training incumbent.weights incumbent.params.threadWeight
    incumbent.params.whereWeight incumbent.params.tau incumbent.params.memoryContextShare
    c.trainingBoundaries (decide (100 ≤ corpus.examples.length)) settings.fit = .ok c.fit
  axes : c.axes = nominateAxes c.training c.fit settings.fit corpus.fingerprint
    (active.params.axes.getD [])
  incumbentScore : c.incumbentScore = recordedScore c.holdout (boundariesOf corpus c.holdout)
    incumbent.params.memoryContextShare
  fittedScore : c.fittedScore = challengerScore c.holdout (boundariesOf corpus c.holdout) c.fit
    c.axes.nominations

theorem challenged_of_ok (h : challenge settings active incumbent corpus = .ok c) :
    Challenged settings active incumbent corpus c := by
  simp only [challenge, bind_eq_ok, pure_eq_ok] at h
  obtain ⟨⟨training, holdout, cutoff⟩, hsplit, fit, hfit, rfl⟩ := h
  obtain ⟨hexamples, rfl⟩ := splitGates_eq_ok hsplit
  exact ⟨hexamples, rfl, rfl, hfit, rfl, rfl, rfl⟩

/-- A score adds up its boundaries, whatever their order. -/
theorem replayScore_perm {examples : List (LearningExample ℚ)}
    {boundaries boundaries' : List (ShareBoundary ℚ)} (h : boundaries.Perm boundaries')
    (memoryContextShare : ℚ) (predicted : LearningExample ℚ → Bool) :
    replayScore examples boundaries memoryContextShare predicted =
      replayScore examples boundaries' memoryContextShare predicted := by
  have hwrong := h.filter (·.wrong memoryContextShare)
  simp only [replayScore]
  rw [hwrong.length_eq, (hwrong.map (·.actorWeight)).sum_eq]

end Parts

/-- What a version is told from another version by. -/
def shortDigest (canonicalDigest : CanonicalDigest) (manifest : DigestManifest) : String :=
  String.ofList ((canonicalDigest manifest).toList.take 16)

/-- One winning fit, with all it was made from. -/
structure WinningFit (env : Env) (fingerprint : FingerprintPayload → String) where
  rows : List LoggedEvent
  annotations : List InjectionEventAnnotation
  configs : List (ScorerConfig ℚ)
  settings : LearnerSettings
  maxDispositions : Nat
  active : ConfigRow
  incumbent : ScorerConfig ℚ
  evidence : LearningEvidence
  corpus : BalancedCorpus
  challenged : Challenge
  distinct : (rows.map (·.eventUid)).Nodup
  loaded : active.runtime? = some incumbent
  projected : projectLearningEvidence env rows annotations configs settings.passiveDiscount =
    .ok evidence
  capped : balancedCorpus fingerprint evidence.examples evidence.shareBoundaries maxDispositions =
    .ok corpus
  fitted : challenge settings active incumbent corpus = .ok challenged
  wins : challenged.Wins settings active

namespace WinningFit

variable {env : Env} {fingerprint : FingerprintPayload → String}
  (fit fit' : WinningFit env fingerprint)

def manifest : DigestManifest :=
  fit.challenged.manifest fit.settings fit.active fit.incumbent fit.evidence.examples.length
    fit.corpus

def payload : FingerprintPayload := payloadOf fit.corpus.examples fit.corpus.shareBoundaries

def proposal (canonicalDigest : CanonicalDigest) : Proposal :=
  fit.challenged.proposal fit.settings fit.active fit.incumbent canonicalDigest
    fit.evidence.examples.length fit.corpus

theorem version_proposal (canonicalDigest : CanonicalDigest) :
    (fit.proposal canonicalDigest).version =
      "m2f-" ++ shortDigest canonicalDigest fit.manifest := rfl

variable {fit fit'} {a : LearningExample ℚ} {row : LoggedEvent} {boundary : ShareBoundary ℚ}

section Sources

theorem whole (fit : WinningFit env fingerprint) :
    Whole fit.evidence.examples fit.evidence.shareBoundaries fingerprint fit.maxDispositions
      fit.corpus := whole_of_ok fit.capped

theorem parts (fit : WinningFit env fingerprint) :
    Challenged fit.settings fit.active fit.incumbent fit.corpus fit.challenged :=
  challenged_of_ok fit.fitted

/-- The row an example of the corpus was made of. -/
theorem source (ha : a ∈ fit.corpus.examples) : ∃ row ∈ fit.rows, ∃ label config,
    row.label fit.settings.passiveDiscount = some label ∧
      Learned fit.configs row label a config := by
  obtain ⟨labeled, hlabeled, hmade⟩ := forall₂_of_mem_right
    (projected_of_ok fit.projected).examples_of (fit.whole.subset a ha)
  obtain ⟨hrow, hlabel⟩ := mem_labeledRows.mp hlabeled
  obtain ⟨config, hlearned⟩ := learned_of_ok hmade
  exact ⟨labeled.1, (mem_eligibleRows.mp hrow).1, labeled.2, config, hlabel, hlearned⟩

/-- A row of a gate of the corpus was left out exactly if its example says so. -/
theorem negative_iff (hrow : row ∈ eligibleRows env fit.rows fit.annotations)
    (hgate : row.injectionId ∈ fit.corpus.examples.map (·.injectionId)) :
    Negative row.outcome ↔
      ∃ a ∈ fit.corpus.examples, a.eventUid = row.eventUid ∧ a.targetInjected = false := by
  rw [← label_false_iff fit.settings.passiveDiscount]
  constructor
  · rintro ⟨weight, hlabel⟩
    have hlabeled : (row, (false, weight)) ∈ labeledRows fit.settings.passiveDiscount
        (eligibleRows env fit.rows fit.annotations) := mem_labeledRows.mpr ⟨hrow, hlabel⟩
    obtain ⟨a, ha, hmade⟩ := forall₂_of_mem_left (projected_of_ok fit.projected).examples_of
      hlabeled
    obtain ⟨config, hlearned⟩ := learned_of_ok hmade
    obtain ⟨other, hother, hid⟩ := List.mem_map.mp hgate
    refine ⟨a, fit.whole.gate other hother a ha ?_, hlearned.uid, hlearned.target⟩
    exact hlearned.injection.trans hid.symm
  · rintro ⟨a, ha, huid, htarget⟩
    obtain ⟨row', hrow', ⟨kept, weight⟩, config, hlabel, hlearned⟩ := source ha
    have hsame : row' = row := List.inj_on_of_nodup_map fit.distinct hrow'
      (mem_eligibleRows.mp hrow).1 (hlearned.uid.symm.trans huid)
    have hkept : kept = false := hlearned.target.symm.trans htarget
    rw [hsame, hkept] at hlabel
    exact ⟨weight, hlabel⟩

theorem gateMembers_eligibleRows {annotations : List InjectionEventAnnotation}
    {rows : List LoggedEvent} (hrow : row ∈ eligibleRows env rows annotations) :
    gateMembers (eligibleRows env rows annotations) row.injectionId =
      gateMembers rows row.injectionId := by
  unfold gateMembers eligibleRows
  rw [List.filter_filter]
  apply List.filter_congr
  intro member _
  by_cases hid : member.injectionId = row.injectionId
  · simp [hid, (mem_eligibleRows.mp hrow).2]
  · simp [hid]

/-- A boundary of the corpus is minted for a row of one of its gates. -/
theorem minted (hboundary : boundary ∈ fit.corpus.shareBoundaries) :
    ∃ row ∈ eligibleRows env fit.rows fit.annotations,
      row.injectionId ∈ fit.corpus.examples.map (·.injectionId) ∧
      Minted env fit.settings.passiveDiscount (explicitPositiveWeight fit.settings.passiveDiscount
        (eligibleRows env fit.rows fit.annotations)) (gateMembers fit.rows row.injectionId) row
        boundary := by
  rw [fit.whole.boundaries, List.mem_filter, decide_eq_true_eq] at hboundary
  obtain ⟨row, hrow, hminted⟩ :=
    shareBoundaries_minted (projected_of_ok fit.projected).boundaries hboundary.1
  rw [gateMembers_eligibleRows hrow] at hminted
  exact ⟨row, hrow, hminted.ids.2 ▸ hboundary.2, hminted⟩

end Sources

section Comparison

/-- Two fits of one store, the later of them on a log that continues the other's, that take part
alike in what a proposal is addressed by. -/
structure Alike (fit fit' : WinningFit env fingerprint) : Prop where
  continues : Continues fit.rows fit'.rows
  manifest : fit.manifest = fit'.manifest
  payload : fit.payload = fit'.payload

namespace Alike

variable (h : Alike fit fit')

include h

theorem settings : fit.settings = fit'.settings :=
  congrArg (·.learner.toLearnerSettings) h.manifest

theorem settingsManifest :
    fit.challenged.settingsManifest fit.settings fit.evidence.examples.length fit.corpus =
      fit'.challenged.settingsManifest fit'.settings fit'.evidence.examples.length fit'.corpus :=
  congrArg (·.learner) h.manifest

theorem params : fit.active.params = fit'.active.params := congrArg (·.incumbentParams) h.manifest

theorem incumbent : fit.incumbent = fit'.incumbent := by
  have hversion : fit.incumbent.version = fit'.incumbent.version :=
    congrArg (·.incumbentVersion) h.manifest
  have hweights : fit.active.weights = fit'.active.weights :=
    congrArg (·.incumbentWeights) h.manifest
  rw [version_of_runtime fit.loaded, version_of_runtime fit'.loaded] at hversion
  have hloaded := fit.loaded
  rw [ConfigRow.runtime?, hversion, hweights, h.params] at hloaded
  exact Option.some.inj (hloaded.symm.trans fit'.loaded)

/-- The canonical encoding leaves out an example's thread, which its row settles. -/
theorem example_eq {a a' : LearningExample ℚ} (ha : a ∈ fit.corpus.examples)
    (ha' : a' ∈ fit'.corpus.examples) (hcanonical : canonicalExample a = canonicalExample a') :
    a = a' := by
  obtain ⟨row, hrow, label, config, _, hlearned⟩ := source ha
  obtain ⟨row', hrow', label', config', _, hlearned'⟩ := source ha'
  have huid : a.eventUid = a'.eventUid :=
    (congrArg (·.eventUid) hcanonical : (canonicalExample a).eventUid = _)
  have hfixed := h.continues.fixed_eq fit'.distinct hrow hrow'
    (hlearned'.uid.symm.trans (huid.symm.trans hlearned.uid))
  have hthread : a.threadId = a'.threadId := by
    rw [hlearned.thread, hlearned'.thread]
    exact congrArg (some ·.threadId) hfixed.symm
  calc a = { canonicalExample a with threadId := a.threadId } := rfl
    _ = { canonicalExample a' with threadId := a'.threadId } := by rw [hcanonical, hthread]
    _ = a' := rfl

theorem training : fit.challenged.training = fit'.challenged.training := by
  have hcanonical : fit.challenged.training.map canonicalExample =
      fit'.challenged.training.map canonicalExample := congrArg (·.training) h.manifest
  apply eq_of_map_eq hcanonical
  intro a ha a' ha'
  exact h.example_eq ((fit.parts.examples a).mpr (.inl ha))
    ((fit'.parts.examples a').mpr (.inl ha'))

theorem holdout : fit.challenged.holdout = fit'.challenged.holdout := by
  have hcanonical : fit.challenged.holdout.map canonicalExample =
      fit'.challenged.holdout.map canonicalExample := congrArg (·.holdout) h.manifest
  apply eq_of_map_eq hcanonical
  intro a ha a' ha'
  exact h.example_eq ((fit.parts.examples a).mpr (.inr ha))
    ((fit'.parts.examples a').mpr (.inr ha'))

theorem mem_examples {a : LearningExample ℚ} :
    a ∈ fit.corpus.examples ↔ a ∈ fit'.corpus.examples := by
  rw [fit.parts.examples, fit'.parts.examples, h.training, h.holdout]

/-- The boundaries of the holdout are digested by their event uids alone, which is enough. -/
theorem boundary_eq {boundary boundary' : ShareBoundary ℚ}
    (hboundary : boundary ∈ fit.corpus.shareBoundaries)
    (hboundary' : boundary' ∈ fit'.corpus.shareBoundaries)
    (huid : boundary.eventUid = boundary'.eventUid) : boundary = boundary' := by
  obtain ⟨row, hrow, hgate, hminted⟩ := minted hboundary
  obtain ⟨row', hrow', hgate', hminted'⟩ := minted hboundary'
  have hsame : row'.eventUid = row.eventUid :=
    hminted'.ids.1.symm.trans (huid.symm.trans hminted.ids.1)
  have hlogged := (mem_eligibleRows.mp hrow).1
  have hfixed := h.continues.fixed_eq fit'.distinct hlogged (mem_eligibleRows.mp hrow').1 hsame
  have hmembers := h.continues row hlogged
  rw [← h.settings, injectionId_of_fixed hfixed] at hminted'
  apply hminted.eq hminted' hmembers hfixed
  rw [negative_iff hrow hgate, negative_iff hrow' hgate', hsame]
  simp only [h.mem_examples]

theorem shareBoundaries : fit.corpus.shareBoundaries.Perm fit'.corpus.shareBoundaries := by
  have hsorted : (fit.corpus.shareBoundaries.map (·.eventUid)).insertionSort (· ≤ ·) =
      (fit'.corpus.shareBoundaries.map (·.eventUid)).insertionSort (· ≤ ·) :=
    congrArg (·.shareBoundaries) h.payload
  have huids : (fit.corpus.shareBoundaries.map (·.eventUid)).Perm
      (fit'.corpus.shareBoundaries.map (·.eventUid)) := by
    refine (List.perm_insertionSort (· ≤ ·) _).symm.trans ?_
    rw [hsorted]
    exact List.perm_insertionSort (· ≤ ·) _
  apply perm_of_map_perm huids
  intro boundary hboundary boundary' hboundary'
  exact h.boundary_eq hboundary hboundary'

theorem uids : fit.corpus.examples.map (·.eventUid) = fit'.corpus.examples.map (·.eventUid) :=
  congrArg (·.dispositions) h.payload

/-- Training, holdout, fit, axes and scores are all the same. -/
theorem challenged : fit.challenged = fit'.challenged := by
  have hparts := fit.parts
  have hparts' := fit'.parts
  have htraining := h.training
  have hholdout := h.holdout
  have htrainingBoundaries : fit.challenged.trainingBoundaries =
      fit'.challenged.trainingBoundaries := congrArg (·.shareBoundaries) h.manifest
  have hlength : fit.corpus.examples.length = fit'.corpus.examples.length := by
    simpa using congrArg List.length h.uids
  have hfit : fit.challenged.fit = fit'.challenged.fit := by
    have hfitted := hparts.fit
    rw [htraining, h.incumbent, htrainingBoundaries, hlength, h.settings] at hfitted
    exact Except.ok.inj (hfitted.symm.trans hparts'.fit)
  have haxes : fit.challenged.axes = fit'.challenged.axes := by
    have hfingerprint : fit.corpus.fingerprint = fit'.corpus.fingerprint :=
      congrArg (·.corpusFingerprint) h.manifest
    rw [hparts.axes, hparts'.axes, htraining, hfit, h.settings, hfingerprint, h.params]
  have hboundaries : (boundariesOf fit.corpus fit.challenged.holdout).Perm
      (boundariesOf fit'.corpus fit'.challenged.holdout) := by
    unfold boundariesOf
    rw [hholdout]
    exact h.shareBoundaries.filter _
  have hincumbentScore : fit.challenged.incumbentScore = fit'.challenged.incumbentScore := by
    rw [hparts.incumbentScore, hparts'.incumbentScore, h.incumbent, hholdout]
    rw [hholdout] at hboundaries
    exact replayScore_perm hboundaries _ _
  have hfittedScore : fit.challenged.fittedScore = fit'.challenged.fittedScore := by
    rw [hparts.fittedScore, hparts'.fittedScore, hfit, haxes, hholdout]
    rw [hholdout] at hboundaries
    exact replayScore_perm hboundaries _ _
  have hcutoff : fit.challenged.cutoff = fit'.challenged.cutoff := by
    rw [hparts.cutoff, hparts'.cutoff, htraining]
  exact Challenge.ext htraining hholdout hcutoff htrainingBoundaries hfit haxes hincumbentScore
    hfittedScore

/-- What a proposal holds is what it is addressed by. -/
theorem proposal (canonicalDigest : CanonicalDigest) :
    fit.proposal canonicalDigest = fit'.proposal canonicalDigest := by
  have hdigest : canonicalDigest fit.manifest = canonicalDigest fit'.manifest := by rw [h.manifest]
  unfold WinningFit.manifest at hdigest
  unfold WinningFit.proposal Challenge.proposal
  simp only [hdigest, h.settingsManifest, h.uids, h.params]
  rw [h.challenged]

end Alike

/-- Digests that tell the manifests at hand apart, and fingerprints the payloads, tell two fits
apart by their versions. -/
theorem alike_of_version {canonicalDigest : CanonicalDigest} {manifests : Set DigestManifest}
    {payloads : Set FingerprintPayload} (hdigest : manifests.InjOn (shortDigest canonicalDigest))
    (hfingerprint : payloads.InjOn fingerprint) (hcontinues : Continues fit.rows fit'.rows)
    (hmanifest : fit.manifest ∈ manifests) (hmanifest' : fit'.manifest ∈ manifests)
    (hpayload : fit.payload ∈ payloads) (hpayload' : fit'.payload ∈ payloads)
    (hversion : (fit.proposal canonicalDigest).version = (fit'.proposal canonicalDigest).version) :
    Alike fit fit' := by
  rw [version_proposal, version_proposal, String.append_right_inj] at hversion
  have hsame : fit.manifest = fit'.manifest := hdigest hmanifest hmanifest' hversion
  have hcorpus : fit.corpus.fingerprint = fit'.corpus.fingerprint :=
    congrArg (·.corpusFingerprint) hsame
  rw [fit.whole.fingerprint, fit'.whole.fingerprint] at hcorpus
  exact ⟨hcontinues, hsame, hfingerprint hpayload hpayload' hcorpus⟩

end Comparison

end WinningFit

end Nocturne.M2k
