import Nocturne.Lib.Flight
import Nocturne.ModelPolicy.Resolver

namespace Nocturne.ModelPolicy

open Nocturne.Lib

/-- What the turns of a thread have to agree on. -/
@[ext] structure Choice where
  model : String
  contextTokens : ℤ
  policy : String
  supportedParameters : Option (Finset String)
  deriving DecidableEq

def Resolution.choice (resolution : Resolution) : Choice where
  model := resolution.model
  contextTokens := resolution.contextTokens
  policy := resolution.policy
  supportedParameters := resolution.supportedParameters

/-- The policy of a resolution made for one command or one hydrated thread. -/
def Foreign (choice : Choice) : Prop :=
  choice.policy = "human_command" ∨ choice.policy = "hydrated_unverified"

instance (choice : Choice) : Decidable (Foreign choice) := inferInstanceAs (Decidable (_ ∨ _))

variable {cfg : ResolverConfig} {s s' : Resolver}

section Resolutions

variable {r r' : Resolution}

theorem eq_of_checked (h : checked r = .ok r') : r' = r := by
  simp only [checked, bind_eq_ok, ensure_eq_ok, pure_eq_ok] at h
  obtain ⟨_, _, _, _, _, _, rfl⟩ := h
  rfl

theorem foreign_of_named {route : ModelRoute} {fetchedAt : Time}
    (h : namedResolution cfg route fetchedAt = .ok r) : Foreign r.choice := by
  simp only [namedResolution, bind_eq_ok] at h
  obtain ⟨_, _, h⟩ := h
  rw [eq_of_checked h]
  exact .inl rfl

theorem foreign_of_answer {answer : Except ResolveError (ModelRoute × Time)}
    (h : (answer.bind fun route => namedResolution cfg route.1 route.2) = .ok r) :
    Foreign r.choice := by
  cases answer with
  | ok route => exact foreign_of_named h
  | error error => cases h

theorem foreign_of_hydrated {model : String} {result : Except ResolveError Resolution}
    (hresult : result = .ok r → Foreign r.choice)
    (h : hydratedResolution cfg model result = .ok r) : Foreign r.choice := by
  unfold hydratedResolution at h
  split at h
  · rw [eq_of_checked h]
    exact .inr rfl
  · rw [eq_of_checked h]
    exact .inr rfl
  · exact hresult h

theorem policy_of_pinned {contextTokens : ℤ} {parameters modalities : Option (Finset String)}
    (h : pinnedResolution s contextTokens parameters modalities = .ok r) :
    r.choice.policy = s.policyText := by
  unfold pinnedResolution at h
  split at h
  · rw [eq_of_checked h]
    rfl
  all_goals cases h

theorem policy_of_fallback (h : fallbackResolution cfg s = .ok r) :
    r.choice.policy = s.policyText := by
  rw [eq_of_checked h]
  rfl

theorem policy_of_ranked {answer : Except ResolveError ModelCatalog}
    (h : rankedResolution cfg s answer = .ok r) : r.choice.policy = s.policyText := by
  unfold rankedResolution at h
  split at h
  · exact policy_of_fallback h
  · cases h
  · simp only [bind_eq_ok] at h
    obtain ⟨_, _, h⟩ := h
    rw [eq_of_checked h]
    rfl

theorem choice_of_enriched {answer : Except ResolveError (ModelRoute × Time)}
    (h : enrichedResolution r answer = .ok r') : r'.choice = r.choice := by
  simp only [enrichedResolution, bind_eq_ok] at h
  obtain ⟨_, _, _, _, h⟩ := h
  rw [eq_of_checked h]
  rfl

/-- No policy an operator may set reads like the mark of a single command. -/
theorem not_foreign_of_parsed {text : String} {policy : Policy} {choice : Choice}
    (h : parseModelPolicy cfg text = .ok policy) (hchoice : choice.policy = text) :
    ¬Foreign choice := by
  have hforeign : ∀ text, text = "human_command" ∨ text = "hydrated_unverified" →
      afterPrefix "pinned:" text = none ∧ afterPrefix "slope:" text = none ∧
        afterPrefix "floor:" text = none ∧ text ≠ "max" ∧ text ≠ "elbow" := by
    rintro _ (rfl | rfl) <;> decide
  rintro hmark
  obtain ⟨hpinned, hslope, hfloor, hmax, helbow⟩ := hforeign text (hchoice ▸ hmark)
  unfold parseModelPolicy at h
  simp [hpinned, hslope, hfloor, hmax, helbow, bind_eq_ok] at h

end Resolutions

section Effects

/-- The resolution a call has read or returns. -/
def Phase.Carries (phase : Phase) (r : Resolution) : Prop :=
  phase = .over (.ok r) ∨ phase = .enriched r

/-- Where a resolution read on behalf of a request comes from. -/
inductive Derived (s : Resolver) (thread : String) (request : Request) (r : Resolution) : Prop
  | foreign (h : Foreign r.choice)
  | retained {q : Resolution} (hq : s.resolutions thread = some q) (h : q.choice = r.choice)
  | passed {q : Resolution} (hq : request = .image q) (h : q.choice = r.choice)
  | cached {model : String} {epoch : ℕ} (h : s.imageResolutions (thread, model, epoch) = some r)

/-- What one step does to the choices of the threads. -/
inductive Effect (cfg : ResolverConfig) (s : Resolver) : Action → Resolver → Prop
  | policy {text : String} {parsed : Policy} (h : parseModelPolicy cfg text = .ok parsed) :
    Effect cfg s (.setPolicy text) { s with policyText := text, policy := parsed }
  | begin (thread : String) (request : Request) :
    Effect cfg s (.begin thread request)
      { s with calls := s.calls ++ [⟨thread, request, beginCall cfg s thread request⟩] }
  | move {a : Action} {k : ℕ} {call : Call} {phase : Phase}
    (imageInput : String → Option (Finset String))
    (hk : s.calls[k]? = some call)
    (hlock : phase.HoldsLock → call.request = .resolve ∧ s.resolutions call.thread = none ∧
      ∀ other ∈ s.calls, ¬other.phase.HoldsLock)
    (hcarries : ∀ r, phase.Carries r → Derived s call.thread call.request r)
    (hresolve : call.request = .resolve → ∀ r, phase.Carries r →
      s.resolutions call.thread = some r) :
    Effect cfg s a { s.become k call phase with imageInput }
  | retain {a : Action} {k : ℕ} {call : Call} {r : Resolution}
    (imageInput : String → Option (Finset String))
    (hk : s.calls[k]? = some call) (hrequest : call.request = .resolve)
    (hlock : call.phase.HoldsLock ∨ s.resolutions call.thread = none ∧
      ∀ other ∈ s.calls, ¬other.phase.HoldsLock)
    (hpolicy : r.choice.policy = s.policyText) :
    Effect cfg s a { s.become k call (.over (.ok r)) with
      imageInput, resolutions := Function.update s.resolutions call.thread (some r) }
  | install {k : ℕ} {call : Call} {resolution enriched : Resolution}
    (hk : s.calls[k]? = some call) (hrequest : call.request = .image resolution)
    (hphase : call.phase = .enriched enriched)
    (hfree : ∀ other ∈ s.calls, ¬other.phase.HoldsLock) :
    Effect cfg s (.acquire k) (installImage s k call resolution enriched)

theorem Effect.quiet {a : Action} {k : ℕ} {call : Call} {phase : Phase}
    (imageInput : String → Option (Finset String)) (hk : s.calls[k]? = some call)
    (hlock : ¬phase.HoldsLock) (hcarries : ∀ r, ¬phase.Carries r) :
    Effect cfg s a { s.become k call phase with imageInput } :=
  .move imageInput hk (fun h => absurd h hlock) (fun r h => absurd h (hcarries r))
    fun _ r h => absurd h (hcarries r)

theorem not_carries_error {error : ResolveError} {r : Resolution} :
    ¬(Phase.over (.error error)).Carries r := by
  rintro (h | h) <;> cases h

theorem carries_over {outcome : Except ResolveError Resolution} {r : Resolution} :
    (Phase.over outcome).Carries r ↔ outcome = .ok r := by
  constructor
  · rintro (h | h) <;> cases h
    rfl
  · rintro rfl
    exact .inl rfl

/-- A resolve that ends leaves its error or its choice. -/
theorem effect_retain {a : Action} {k : ℕ} {call : Call} {result : Except ResolveError Resolution}
    {input : String → Option (Finset String)} (hk : s.calls[k]? = some call)
    (hrequest : call.request = .resolve)
    (hlock : call.phase.HoldsLock ∨ s.resolutions call.thread = none ∧
      ∀ other ∈ s.calls, ¬other.phase.HoldsLock)
    (hpolicy : ∀ r, result = .ok r → r.choice.policy = s.policyText) :
    Effect cfg s a (Resolver.retain { s with imageInput := input } k call result) := by
  cases result with
  | error error => exact .quiet input hk id fun _ => not_carries_error
  | ok r => exact .retain input hk hrequest hlock (hpolicy r rfl)

theorem effect_resolveUncached {a : Action} {k : ℕ} {call : Call} (hk : s.calls[k]? = some call)
    (hrequest : call.request = .resolve) (hnone : s.resolutions call.thread = none)
    (hfree : ∀ other ∈ s.calls, ¬other.phase.HoldsLock) :
    Effect cfg s a (resolveUncached cfg s k call) := by
  have hlock : call.phase.HoldsLock ∨ s.resolutions call.thread = none ∧
      ∀ other ∈ s.calls, ¬other.phase.HoldsLock := .inr ⟨hnone, hfree⟩
  have hmove {phase : Phase} (hphase : ∀ r, ¬phase.Carries r) :
      Effect cfg s a (s.become k call phase) :=
    .move s.imageInput hk (fun _ => ⟨hrequest, hnone, hfree⟩) (fun r h => absurd h (hphase r))
      fun _ r h => absurd h (hphase r)
  unfold resolveUncached
  split
  · split
    · split
      · exact hmove fun r h => by rcases h with h | h <;> cases h
      · exact effect_retain hk hrequest hlock fun _ => policy_of_pinned
      · exact effect_retain hk hrequest hlock fun _ => policy_of_pinned
      · exact effect_retain hk hrequest hlock fun _ h => by cases h
    · exact effect_retain hk hrequest hlock fun _ => policy_of_pinned
  all_goals
    split
    · exact hmove fun r h => by rcases h with h | h <;> cases h
    · exact effect_retain hk hrequest hlock fun _ => policy_of_fallback

theorem effect_pinWith {a : Action} {k : ℕ} {call : Call}
    {answer : Except ResolveError (ModelRoute × Time)} (hk : s.calls[k]? = some call)
    (hrequest : call.request = .resolve) (hphase : call.phase.HoldsLock) :
    Effect cfg s a (pinWith cfg s k call answer) := by
  unfold pinWith
  split
  · next named _ =>
    have hinput : ∃ input, confirmInput s named.inputModalities
        = { s with imageInput := input } := by
      unfold confirmInput
      split
      · exact ⟨_, rfl⟩
      · exact ⟨s.imageInput, rfl⟩
    obtain ⟨input, hinput⟩ := hinput
    rw [hinput]
    exact effect_retain hk hrequest (.inl hphase) fun _ h => policy_of_pinned h
  · exact effect_retain hk hrequest (.inl hphase) fun _ => policy_of_pinned
  · exact effect_retain hk hrequest (.inl hphase) fun _ => policy_of_pinned
  · exact effect_retain hk hrequest (.inl hphase) fun _ h => by cases h

theorem effect_enrichWith {a : Action} {k : ℕ} {call : Call} {resolution : Resolution}
    {answer : Except ResolveError (ModelRoute × Time)} (hk : s.calls[k]? = some call)
    (hrequest : call.request = .image resolution) :
    Effect cfg s a (enrichWith s k call resolution answer) := by
  have hmove {phase : Phase} {enriched : Resolution}
      (input : String → Option (Finset String)) (hlock : ¬phase.HoldsLock)
      (hphase : ∀ r, phase.Carries r → r = enriched)
      (hchoice : enriched.choice = resolution.choice) :
      Effect cfg s a { s.become k call phase with imageInput := input } := by
    refine .move input hk (fun h => absurd h hlock) (fun r h => ?_) fun h => ?_
    · obtain rfl := hphase r h
      exact .passed hrequest hchoice.symm
    · rw [hrequest] at h
      cases h
  unfold enrichWith
  split
  · exact .quiet s.imageInput hk id fun _ => not_carries_error
  · next enriched henriched =>
    have hchoice := choice_of_enriched henriched
    split
    · exact hmove s.imageInput id (fun r h => (Except.ok.inj (carries_over.mp h)).symm) hchoice
    · exact hmove _ id (fun r h => by rcases h with h | h <;> cases h; rfl) hchoice

theorem effect_of_step {a : Action} (h : resolverStep cfg s a = .ok s') : Effect cfg s a s' := by
  have hover {a : Action} {k : ℕ} {call : Call} {outcome : Except ResolveError Resolution}
      (hk : s.calls[k]? = some call) (hrequest : call.request ≠ .resolve)
      (hforeign : ∀ r, outcome = .ok r → Foreign r.choice) :
      Effect cfg s a (s.become k call (.over outcome)) :=
    .move s.imageInput hk (fun h => absurd h id)
      (fun r h => .foreign (hforeign r (carries_over.mp h))) fun h => absurd h hrequest
  cases a with
  | setPolicy policy =>
    simp only [resolverStep] at h
    split at h
    · next hparsed =>
      cases h
      exact .policy hparsed
    · cases h
  | begin thread request =>
    cases h
    exact .begin thread request
  | acquire k =>
    simp only [resolverStep, callAt, bind_eq_ok, require_eq_ok, ensure_eq_ok] at h
    obtain ⟨call, hk, _, hfree, h⟩ := h
    split at h
    · next hrequest _ =>
      split at h
      · next resolution hretained =>
        cases h
        refine .move s.imageInput hk (fun h => absurd h id) (fun r h => ?_) fun _ r h => ?_
        · obtain rfl := Except.ok.inj (carries_over.mp h)
          exact .retained hretained rfl
        · obtain rfl := Except.ok.inj (carries_over.mp h)
          exact hretained
      · next hnone =>
        cases h
        exact effect_resolveUncached hk hrequest hnone hfree
    · next hrequest hphase =>
      cases h
      exact .install hk hrequest hphase hfree
    · cases h
  | route k answer =>
    simp only [resolverStep, callAt, bind_eq_ok, require_eq_ok] at h
    obtain ⟨call, hk, h⟩ := h
    split at h
    · next hrequest hphase =>
      cases h
      exact effect_pinWith hk hrequest (hphase ▸ trivial)
    · next hrequest _ =>
      cases h
      exact hover hk (by simp [hrequest]) fun _ => foreign_of_answer
    · next hrequest _ =>
      cases h
      exact hover hk (by simp [hrequest]) fun _ => foreign_of_hydrated foreign_of_answer
    · next hrequest _ =>
      cases h
      exact effect_enrichWith hk hrequest
    · cases h
  | catalog k answer =>
    simp only [resolverStep, callAt, bind_eq_ok, require_eq_ok] at h
    obtain ⟨call, hk, h⟩ := h
    split at h
    · next hrequest hphase =>
      cases h
      exact effect_retain hk hrequest (.inl (hphase ▸ trivial)) fun _ => policy_of_ranked
    · cases h
  | cancel k =>
    simp only [resolverStep, callAt, bind_eq_ok, require_eq_ok] at h
    obtain ⟨call, hk, h⟩ := h
    split at h
    · cases h
    · cases h
      exact .quiet s.imageInput hk id fun _ => not_carries_error

end Effects

end Nocturne.ModelPolicy
