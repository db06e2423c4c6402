import Mathlib.Algebra.Order.BigOperators.Group.List
import Mathlib.Data.List.TakeWhile
import Nocturne.Learner.Range
import Nocturne.M2k.Laws

namespace Nocturne.M2k

open Nocturne.Inject Nocturne.Learner Nocturne.Lib

variable {w : Deployment} {c c' : Console} {a : Action} {row : ConfigRow}

section Rows

theorem not_isBlank_of_head {value : String} {l : List Char} {ch : Char}
    (h : value.toList = ch :: l) (hch : Text.isSpace ch = false) : ¬Text.isBlank value := by
  intro hblank
  simp only [Text.isBlank, Text.strip, h, List.dropWhile_cons, hch, Bool.false_eq_true,
    ↓reduceIte, String.ofList_eq_empty_iff, Text.rstrip, List.reverse_eq_nil_iff,
    List.dropWhile_eq_nil_iff] at hblank
  have hspace := hblank ch (by simp)
  rw [hch] at hspace
  cases hspace

theorem not_isBlank_m2f (digest : String) : ¬Text.isBlank ("m2f-" ++ digest) := by
  have htoList : ("m2f-" ++ digest).toList = 'm' :: '2' :: 'f' :: '-' :: digest.toList := by
    rw [String.toList_append]
    rfl
  exact not_isBlank_of_head htoList (by decide)

@[simp] theorem runtime?_deactivated : row.deactivated.runtime? = row.runtime? := rfl

@[simp] theorem runtime?_activated : row.activated.runtime? = row.runtime? := rfl

@[simp] theorem values?_deactivated : row.deactivated.values? = row.values? := rfl

@[simp] theorem values?_activated : row.activated.values? = row.values? := rfl

/-- The row loads where the scorer serves, and shows in the console. -/
structure ConfigRow.Sound (row : ConfigRow) : Prop where
  loads : row.runtime?.isSome
  shown : row.values?.isSome

theorem ConfigRow.Serves.loads (h : row.Serves) : row.runtime?.isSome := by
  obtain ⟨config, hconfig, _⟩ := h
  simp [hconfig]

theorem ConfigRow.Sound.deactivated (h : row.Sound) : row.deactivated.Sound := ⟨h.loads, h.shown⟩

theorem ConfigRow.Sound.activated (h : row.Sound) : row.activated.Sound := ⟨h.loads, h.shown⟩

theorem values?_eq_some {values : ScorerValues} :
    row.values? = some values ↔
      ∃ share, row.params.share? = some share ∧
        values.1 = ⟨row.params.tau, row.params.topK, share, row.params.halfLifeTimeDays,
          row.params.halfLifeHistDays, row.weights⟩ := by
  simp only [ConfigRow.values?, Option.bind_eq_bind, Option.bind_eq_some_iff]
  apply exists_congr
  intro share
  apply and_congr_right
  intro _
  split
  · next hvalid =>
    rw [Option.some.injEq]
    constructor
    · rintro rfl
      rfl
    · intro hvalues
      exact Subtype.ext hvalues.symm
  · next hinvalid =>
    constructor
    · intro h
      cases h
    · intro hvalues
      exact absurd (hvalues ▸ values.2) hinvalid

theorem values?_controlRow {ts : Time} {active : ConfigRow} {body : CreateScorerConfigRequest}
    {changes : List Change} : (controlRow ts active body changes).values? = some body.values :=
  values?_eq_some.2 ⟨body.values.1.memoryContextShare, rfl, rfl⟩

end Rows

section Proposals

variable {params : StoredParams} {fit : FitResult ℚ} {axes : Axes ℚ} {learner : LearnerMetadata}
  {incumbent : ScorerConfig ℚ}

@[simp] theorem getD_fittedKey {α : Type} [DecidableEq α] (default : α) (stored : Option α)
    (fitted : α) : (fittedKey default stored fitted).getD default = fitted := by
  unfold fittedKey
  split
  · rfl
  · next h =>
    push Not at h
    exact h.2.symm

theorem getD_projectOffsets :
    (proposalParams params fit axes learner).projectOffsets.getD [] = fit.projectOffsets := by
  simp only [proposalParams]
  split
  · rfl
  · next h =>
    push Not at h
    exact h.2.symm

theorem getD_axes : (proposalParams params fit axes learner).axes.getD [] = axes := by
  simp only [proposalParams]
  split
  · rfl
  · next h =>
    push Not at h
    exact h.2.symm

theorem configOf?_eq_some {version : String} {weights : ScorerWeights ℚ}
    {config : ScorerConfig ℚ} :
    configOf? version weights params = some config ↔
      ∃ share legacy, params.share? = some share ∧ params.legacyBudget? = some legacy ∧
        config =
          { version
            weights
            params := params.typed share legacy
            biasOffsets := (params.learner.map (·.biasOffsets)).getD []
            projectOffsets := params.projectOffsets.getD []
            axes := (params.axes.getD []).nominations } := by
  simp only [configOf?, Option.bind_eq_bind, Option.bind_eq_some_iff, Option.pure_def,
    Option.some.injEq]
  constructor
  · rintro ⟨share, hshare, legacy, hlegacy, rfl⟩
    exact ⟨share, legacy, hshare, hlegacy, rfl⟩
  · rintro ⟨share, legacy, hshare, hlegacy, rfl⟩
    exact ⟨share, hshare, legacy, hlegacy, rfl⟩

/-- What a version that loads and shows leaves of itself to a proposal. -/
structure Base (params : StoredParams) : Prop where
  typed : ∃ share legacy, params.share? = some share ∧ params.legacyBudget? = some legacy ∧
    (params.typed share legacy).Valid
  topK : 1 ≤ params.topK ∧ params.topK ≤ 8
  axes : Axes.Sound (params.axes.getD [])

theorem base_of_sound {row : ConfigRow} (h : row.Sound) : Base row.params := by
  obtain ⟨config, hconfig⟩ := Option.isSome_iff_exists.mp h.loads
  obtain ⟨values, hvalues⟩ := Option.isSome_iff_exists.mp h.shown
  obtain ⟨_, _, hraw⟩ := values?_eq_some.1 hvalues
  obtain ⟨hconfig, _, hvalid, hnames⟩ := fromMappings_eq_some.mp hconfig
  obtain ⟨share, legacy, hshare, hlegacy, rfl⟩ := configOf?_eq_some.1 hconfig
  constructor
  · exact ⟨share, legacy, hshare, hlegacy, hvalid.params⟩
  · have hshown := values.2.topK
    rwa [hraw] at hshown
  · intro axis haxis
    obtain ⟨hname, hlabel, hrationale⟩ := hnames axis haxis
    exact ⟨hname, hlabel, hrationale, hvalid.axes _ (List.mem_map_of_mem haxis)⟩

/-- The typed parameters a fit leaves are the base's but for what it fitted in range. -/
theorem Base.proposal (h : Base params) (hfit : fit.InRange) :
    ∃ share legacy, (proposalParams params fit axes learner).share? = some share ∧
      (proposalParams params fit axes learner).legacyBudget? = some legacy ∧
      ((proposalParams params fit axes learner).typed share legacy).Valid := by
  obtain ⟨share, legacy, hshare, hlegacy, hvalid⟩ := h.typed
  cases hactive : fit.shareTauActive with
  | true =>
    refine ⟨fit.memoryContextShare, none, ?_, ?_, ?_⟩
    · simp [proposalParams, StoredParams.share?, hactive]
    · simp [proposalParams, StoredParams.legacyBudget?, hactive]
    · constructor
      · simpa [proposalParams, StoredParams.typed, hactive] using hfit.tau
      · exact hfit.share
      · simp [StoredParams.typed]
      · exact hvalid.halfLives
      · exact hvalid.pool
      · exact hvalid.location
      · exact hvalid.hops
      · simpa [proposalParams, StoredParams.typed, Coefficient] using hfit.thread
      · simpa [proposalParams, StoredParams.typed, Coefficient] using hfit.where
  | false =>
    refine ⟨share, legacy, ?_, ?_, ?_⟩
    · simpa [proposalParams, StoredParams.share?, hactive] using hshare
    · simpa [proposalParams, StoredParams.legacyBudget?, hactive] using hlegacy
    · constructor
      · simpa [proposalParams, StoredParams.typed, hactive] using hvalid.tau
      · exact hvalid.share
      · exact hvalid.legacy
      · exact hvalid.halfLives
      · exact hvalid.pool
      · exact hvalid.location
      · exact hvalid.hops
      · simpa [proposalParams, StoredParams.typed, Coefficient] using hfit.thread
      · simpa [proposalParams, StoredParams.typed, Coefficient] using hfit.where

/-- A fit in range of a sound version proposes a sound one. -/
theorem proposal_sound {version : String} {ts : Time} {active : Bool} (h : Base params)
    (hfit : fit.InRange) (haxes : axes.Sound) (hversion : ¬Text.isBlank version) :
    ConfigRow.Sound
      ⟨version, fit.weights, proposalParams params fit axes learner, ts, active⟩ := by
  have hproposal : ∃ share legacy,
      (proposalParams params fit axes learner).share? = some share ∧
      (proposalParams params fit axes learner).legacyBudget? = some legacy ∧
      ((proposalParams params fit axes learner).typed share legacy).Valid := h.proposal hfit
  obtain ⟨share, legacy, hshare, hlegacy, hvalid⟩ := hproposal
  constructor
  · rw [ConfigRow.runtime?, Option.isSome_iff_exists]
    refine ⟨_, fromMappings_eq_some.mpr
      ⟨configOf?_eq_some.2 ⟨share, legacy, hshare, hlegacy, rfl⟩, hversion, ?_, ?_⟩⟩
    · constructor
      · exact hvalid
      · intro offsets hoffsets
        rw [getD_projectOffsets] at hoffsets
        rw [ScorerWeights.sum_add, hfit.weights.sum, hfit.offsets offsets hoffsets]
        norm_num
      · intro axis haxis
        rw [getD_axes] at haxis
        obtain ⟨stored, hstored, rfl⟩ := List.mem_map.mp haxis
        exact (haxes stored hstored).weight
    · intro axis haxis
      rw [getD_axes] at haxis
      have hsound := haxes axis haxis
      exact ⟨hsound.name, hsound.label, hsound.rationale⟩
  · rw [Option.isSome_iff_exists]
    have hraw : RawValues.Valid ⟨(proposalParams params fit axes learner).tau,
        (proposalParams params fit axes learner).topK, share,
        (proposalParams params fit axes learner).halfLifeTimeDays,
        (proposalParams params fit axes learner).halfLifeHistDays, fit.weights⟩ := by
      constructor
      · exact hvalid.tau
      · exact h.topK
      · exact hvalid.share
      · exact hvalid.halfLives
      · intro x hx
        refine ⟨hfit.weights.nonneg x hx, ?_⟩
        rw [← hfit.weights.sum]
        exact List.single_le_sum hfit.weights.nonneg x hx
      · rw [hfit.weights.sum]
        norm_num
    exact ⟨⟨_, hraw⟩, values?_eq_some.2 ⟨share, hshare, rfl⟩⟩

end Proposals

section Steps

/-- What a challenge of a sound version fits is in range. -/
theorem challenge_inRange {settings : LearnerSettings} {active : ConfigRow}
    {incumbent : ScorerConfig ℚ} {corpus : BalancedCorpus} {challenged : Challenge}
    (hactive : active.Sound) (hincumbent : active.runtime? = some incumbent)
    (h : challenge settings active incumbent corpus = .ok challenged) :
    challenged.fit.InRange ∧ challenged.axes.Sound := by
  simp only [challenge, bind_eq_ok, pure_eq_ok] at h
  obtain ⟨_, _, fit, hfit, rfl⟩ := h
  obtain ⟨_, _, hvalid, _⟩ := fromMappings_eq_some.mp hincumbent
  constructor
  · exact fitPairwise_inRange hvalid.params.tau hvalid.params.share hfit
  · exact nominateAxes_sound (base_of_sound hactive).axes

theorem retrainInSnapshot_sound {settings : LearnerSettings} {canonicalDigest : CanonicalDigest}
    {snapshot : List ConfigRow} {ts : Time} {eligibleDispositions : Nat} {corpus : BalancedCorpus}
    {proposal : ConfigRow} (hsnapshot : ∀ row ∈ snapshot, row.Sound)
    (h : retrainInSnapshot settings canonicalDigest snapshot ts eligibleDispositions corpus =
      .ok (some proposal)) : proposal.Sound := by
  obtain ⟨active, incumbent, challenged, hmem, hincumbent, hchallenge, p, hp, rfl⟩ :=
    retrainInSnapshot_adds h
  have hactive := hsnapshot active hmem
  obtain ⟨hfit, haxes⟩ := challenge_inRange hactive hincumbent hchallenge
  rw [hp]
  exact proposal_sound (base_of_sound hactive) hfit haxes (not_isBlank_m2f _)

theorem Written.sound {active target : ConfigRow} (h : Written c active target)
    (hsound : ∀ row ∈ c.configs.rows, row.Sound) : target.Sound := by
  cases h with
  | created hruntime => exact ⟨hruntime, by simp [values?_controlRow]⟩
  | activated hmem _ _ => exact (hsound _ hmem).activated

/-- One active row, sound rows, and sound rows in the snapshot of a retraining. -/
structure Settled (c : Console) : Prop where
  active : ∃ active, c.configs.rows.filter (·.active) = [active]
  sound : ∀ row ∈ c.configs.rows, row.Sound
  snapshot : ∀ retraining ∈ c.retraining, ∀ row ∈ retraining.snapshot, row.Sound

theorem SnapshotsKept.sound (h : SnapshotsKept c c') (hsettled : Settled c) :
    ∀ retraining ∈ c'.retraining, ∀ row ∈ retraining.snapshot, row.Sound := by
  intro retraining hretraining row hrow
  rcases h retraining hretraining with hkept | htaken
  · exact hsettled.snapshot retraining hkept row hrow
  · exact hsettled.sound row (htaken ▸ hrow)

theorem Switched.filter {active target : ConfigRow} {line : ScorerActivation}
    (h : Switched c c' active target line) : c'.configs.rows.filter (·.active) = [target] := by
  have hmem : target ∈ c'.configs.rows := (h.configs target).mpr (.inl rfl)
  have hone := Table.filter_eq_singleton (P := fun row => row.active = true) hmem h.on
    fun row hrow hactive => h.eq_target hrow hactive
  simpa using hone

theorem Stepped.settled (hsettled : Settled c) (h : Stepped w c a c') : Settled c' := by
  cases h with
  | idle _ hconfigs _ hsnapshots =>
    exact ⟨hconfigs ▸ hsettled.active, hconfigs ▸ hsettled.sound, hsnapshots.sound hsettled⟩
  | switched hswitched hwritten _ hsnapshots =>
    refine ⟨⟨_, hswitched.filter⟩, ?_, hsnapshots.sound hsettled⟩
    intro row hrow
    rcases (hswitched.configs row).mp hrow with rfl | ⟨old, hold, _, rfl⟩
    · exact hwritten.sound hsettled.sound
    · exact (hsettled.sound old hold).deactivated
  | proposed hretraining hproposal hconfigs _ hsnapshots =>
    constructor
    · obtain ⟨active, hactive⟩ := hsettled.active
      refine ⟨active, ?_⟩
      simp [hconfigs, hactive, retrainInSnapshot_inactive hproposal]
    · intro row hrow
      rw [hconfigs, List.mem_append, List.mem_singleton] at hrow
      rcases hrow with hrow | rfl
      · exact hsettled.sound row hrow
      · exact retrainInSnapshot_sound (hsettled.snapshot _ hretraining) hproposal
    · exact hsnapshots.sound hsettled

theorem settled_of_reachable (h : (console w).Reachable c) : Settled c := by
  apply Machine.reachable_keeps ?_ ?_ h
  · intro c hstart
    obtain ⟨hsound, _, _, _, _, hretraining⟩ := hstart
    constructor
    · exact List.length_eq_one_iff.mp hsound.active
    · exact fun row hrow => ⟨(hsound.serves row hrow).loads, hsound.shown row hrow⟩
    · simp [hretraining]
  · intro c a c' hsettled hstep
    exact (stepped_of_step hstep).settled hsettled

end Steps

end Nocturne.M2k
