import Nocturne.ModelPolicy.Stickiness

namespace Nocturne.ModelPolicy

open Nocturne.Lib

/-- The resolution handed in, with at most other input modalities and another fetch time. -/
def SameBut (passed r : Resolution) : Prop :=
  { r with
    inputModalities := passed.inputModalities
    catalogFetchedAt := passed.catalogFetchedAt } = passed

instance (passed r : Resolution) : Decidable (SameBut passed r) :=
  inferInstanceAs (Decidable (_ = _))

/-- Every image call that returned gave back the resolution handed in. -/
def Framed (s : Resolver) : Prop :=
  ∀ call ∈ s.calls, ∀ passed r, call.request = .image passed → call.phase = .over (.ok r) →
    SameBut passed r

/-- What the image cache holds for the thread, the model and the epoch, if anything, is the
resolution handed in. -/
def CachedAs (s : Resolver) (thread : String) (passed : Resolution) : Prop :=
  ∀ cached ∈ s.imageResolutions (imageKey thread passed), SameBut passed cached

instance (s : Resolver) (thread : String) (passed : Resolution) :
    Decidable (CachedAs s thread passed) := by
  unfold CachedAs
  infer_instance

/-- An image call gets as far as the cache. -/
def Consults (cfg : ResolverConfig) (thread : String) (passed : Resolution) : Prop :=
  ¬Text.isBlank thread ∧ usesOpenrouter passed ∧ passed.inputModalities = none ∧
    cfg.catalog.isSome

instance (cfg : ResolverConfig) (thread : String) (passed : Resolution) :
    Decidable (Consults cfg thread passed) :=
  inferInstanceAs (Decidable (_ ∧ _ ∧ _ ∧ _))

/-- A call that installs what it read of the resolution `passed` finds nothing else in the cache. -/
def Call.Installs (s : Resolver) (call : Call) : Prop :=
  match call.request, call.phase with
  | .image passed, .enriched _ =>
    (∀ other ∈ s.calls, ¬other.phase.HoldsLock) → CachedAs s call.thread passed
  | _, _ => True

instance (s : Resolver) : (call : Call) → Decidable (call.Installs s)
  | ⟨thread, .image passed, .enriched _⟩ =>
    inferInstanceAs (Decidable ((∀ other ∈ s.calls, ¬other.phase.HoldsLock) →
      CachedAs s thread passed))
  | ⟨_, .image _, .waiting⟩ | ⟨_, .image _, .pinning⟩ | ⟨_, .image _, .loading⟩
  | ⟨_, .image _, .naming⟩ | ⟨_, .image _, .over _⟩ | ⟨_, .resolve, _⟩ | ⟨_, .named _, _⟩
  | ⟨_, .hydrated _, _⟩ => isTrue trivial

/-- Whenever an image call consults the cache, on its way in or under the lock, it finds its own
resolution there or nothing. -/
def OwnCache (cfg : ResolverConfig) (s : Resolver) : Action → Prop
  | .begin thread (.image passed) => Consults cfg thread passed → CachedAs s thread passed
  | .acquire k => ∀ call ∈ s.calls[k]?, call.Installs s
  | .begin _ .resolve | .begin _ (.named _) | .begin _ (.hydrated _) | .setPolicy _ | .route ..
  | .catalog .. | .cancel _ => True

instance decidableOwnCache (cfg : ResolverConfig) (s : Resolver) : DecidablePred (OwnCache cfg s)
  | .begin thread (.image passed) =>
    inferInstanceAs (Decidable (Consults cfg thread passed → CachedAs s thread passed))
  | .acquire k => inferInstanceAs (Decidable (∀ call ∈ s.calls[k]?, call.Installs s))
  | .begin _ .resolve | .begin _ (.named _) | .begin _ (.hydrated _) | .setPolicy _ | .route ..
  | .catalog .. | .cancel _ => isTrue trivial

variable {cfg : ResolverConfig} {s s' : Resolver} {thread : String} {passed r : Resolution}

theorem SameBut.refl (r : Resolution) : SameBut r r := rfl

theorem sameBut_of_enriched {answer : Except ResolveError (ModelRoute × Time)}
    (h : enrichedResolution passed answer = .ok r) : SameBut passed r := by
  simp only [enrichedResolution, bind_eq_ok] at h
  obtain ⟨_, _, _, _, h⟩ := h
  rw [eq_of_checked h]
  rfl

section Turns

/-- What one step makes of the calls. -/
inductive Turn (cfg : ResolverConfig) (s : Resolver) : Action → List Call → Prop
  | quiet {a : Action} : Turn cfg s a s.calls
  | begun (thread : String) (request : Request) : Turn cfg s (.begin thread request)
      (s.calls ++ [⟨thread, request, beginCall cfg s thread request⟩])
  | moved {a : Action} {k : ℕ} {call : Call} (phase : Phase) (hk : s.calls[k]? = some call)
    (hrequest : ∀ passed, call.request ≠ .image passed) (hopen : ∀ o, call.phase ≠ .over o) :
    Turn cfg s a (s.calls.set k { call with phase })
  | failed {a : Action} {k : ℕ} {call : Call} (error : ResolveError)
    (hk : s.calls[k]? = some call) (hopen : ∀ o, call.phase ≠ .over o) :
    Turn cfg s a (s.calls.set k { call with phase := .over (.error error) })
  | read {a : Action} {k : ℕ} {call : Call} {passed enriched : Resolution} {phase : Phase}
    (hk : s.calls[k]? = some call) (hrequest : call.request = .image passed)
    (hopen : ∀ o, call.phase ≠ .over o) (hsame : SameBut passed enriched)
    (hphase : phase = .over (.ok enriched) ∨ phase = .enriched enriched) :
    Turn cfg s a (s.calls.set k { call with phase })
  | installed {k : ℕ} {call : Call} {passed enriched : Resolution}
    (hk : s.calls[k]? = some call) (hrequest : call.request = .image passed)
    (hphase : call.phase = .enriched enriched)
    (hfree : ∀ other ∈ s.calls, ¬other.phase.HoldsLock) :
    Turn cfg s (.acquire k) (s.calls.set k
      { call with phase := .over (.ok (currentImage s call.thread passed enriched)) })

theorem calls_retain (s : Resolver) (k : ℕ) (call : Call) (result : Except ResolveError Resolution) :
    (s.retain k call result).calls = s.calls.set k { call with phase := .over result } := by
  cases result <;> rfl

theorem calls_resolveUncached (cfg : ResolverConfig) (s : Resolver) (k : ℕ) (call : Call) :
    ∃ phase, (resolveUncached cfg s k call).calls = s.calls.set k { call with phase } := by
  unfold resolveUncached
  split
  · split
    · split
      · exact ⟨_, rfl⟩
      all_goals exact ⟨_, calls_retain ..⟩
    · exact ⟨_, calls_retain ..⟩
  all_goals
    split
    · exact ⟨_, rfl⟩
    · exact ⟨_, calls_retain ..⟩

theorem calls_pinWith (cfg : ResolverConfig) (s : Resolver) (k : ℕ) (call : Call)
    (answer : Except ResolveError (ModelRoute × Time)) :
    ∃ phase, (pinWith cfg s k call answer).calls = s.calls.set k { call with phase } := by
  unfold pinWith
  split
  · next named _ =>
    have hcalls : (confirmInput s named.inputModalities).calls = s.calls := by
      unfold confirmInput
      split <;> rfl
    exact ⟨_, by rw [calls_retain, hcalls]⟩
  all_goals exact ⟨_, calls_retain ..⟩

theorem turn_enrichWith {a : Action} {k : ℕ} {call : Call}
    {answer : Except ResolveError (ModelRoute × Time)} (hk : s.calls[k]? = some call)
    (hrequest : call.request = .image passed) (hopen : ∀ o, call.phase ≠ .over o) :
    Turn cfg s a (enrichWith s k call passed answer).calls := by
  unfold enrichWith
  split
  · exact .failed _ hk hopen
  · next enriched henriched =>
    have hsame := sameBut_of_enriched henriched
    split
    · exact .read hk hrequest hopen hsame (.inl rfl)
    · exact .read hk hrequest hopen hsame (.inr rfl)

theorem turn_of_step {a : Action} (h : resolverStep cfg s a = .ok s') : Turn cfg s a s'.calls := by
  cases a with
  | setPolicy policy =>
    simp only [resolverStep] at h
    split at h
    · cases h
      exact .quiet
    · cases h
  | begin thread request =>
    cases h
    exact .begun thread request
  | acquire k =>
    simp only [resolverStep, callAt, bind_eq_ok, require_eq_ok, ensure_eq_ok] at h
    obtain ⟨call, hk, _, hfree, h⟩ := h
    split at h
    · next hrequest hphase =>
      have himage : ∀ passed, call.request ≠ .image passed := by simp [hrequest]
      have hopen : ∀ o, call.phase ≠ .over o := by simp [hphase]
      split at h
      · cases h
        exact .moved _ hk himage hopen
      · cases h
        obtain ⟨phase, hcalls⟩ := calls_resolveUncached cfg s k call
        rw [hcalls]
        exact .moved phase hk himage hopen
    · next hrequest hphase =>
      cases h
      exact .installed hk hrequest hphase hfree
    · cases h
  | route k answer =>
    simp only [resolverStep, callAt, bind_eq_ok, require_eq_ok] at h
    obtain ⟨call, hk, h⟩ := h
    split at h
    · next hrequest hphase =>
      cases h
      obtain ⟨phase, hcalls⟩ := calls_pinWith cfg s k call answer
      rw [hcalls]
      exact .moved phase hk (by simp [hrequest]) (by simp [hphase])
    · next hrequest hphase =>
      cases h
      exact .moved _ hk (by simp [hrequest]) (by simp [hphase])
    · next hrequest hphase =>
      cases h
      exact .moved _ hk (by simp [hrequest]) (by simp [hphase])
    · next hrequest hphase =>
      cases h
      exact turn_enrichWith hk hrequest (by simp [hphase])
    · cases h
  | catalog k answer =>
    simp only [resolverStep, callAt, bind_eq_ok, require_eq_ok] at h
    obtain ⟨call, hk, h⟩ := h
    split at h
    · next hrequest hphase =>
      cases h
      rw [calls_retain]
      exact .moved _ hk (by simp [hrequest]) (by simp [hphase])
    · cases h
  | cancel k =>
    simp only [resolverStep, callAt, bind_eq_ok, require_eq_ok] at h
    obtain ⟨call, hk, h⟩ := h
    split at h
    · cases h
    · next hopen =>
      cases h
      exact .failed .cancelled hk hopen

end Turns

section Frames

/-- What image calls have read and not yet installed is the resolution handed in. -/
def ReadFramed (s : Resolver) : Prop :=
  ∀ call ∈ s.calls, ∀ passed enriched, call.request = .image passed →
    call.phase = .enriched enriched → SameBut passed enriched

theorem beginImage_of_cached (hconsults : Consults cfg thread passed)
    (hcached : s.imageResolutions (imageKey thread passed) = some r) :
    beginImage cfg s thread passed = .over (.ok r) := by
  obtain ⟨hblank, hopenrouter, hinput, hcatalog⟩ := hconsults
  have hcatalog : cfg.catalog.isNone = false := by
    cases hcfg : cfg.catalog with
    | none => simp [hcfg] at hcatalog
    | some loader => rfl
  simp [beginImage, hblank, hopenrouter, hinput, hcatalog, hcached]

theorem sameBut_of_begin (hcache : Consults cfg thread passed → CachedAs s thread passed)
    (h : beginImage cfg s thread passed = .over (.ok r)) : SameBut passed r := by
  unfold beginImage at h
  split at h
  · cases h
  · next hblank =>
    split at h
    · cases h
      exact .refl passed
    · next hunread =>
      rw [not_or, not_not] at hunread
      split at h
      · cases h
      · next hcatalog =>
        split at h
        · next hcached =>
          cases h
          refine hcache ⟨hblank, hunread.1, ?_, ?_⟩ _ hcached
          · simpa using hunread.2
          · simpa [Option.isSome_iff_ne_none] using hcatalog
        · have hr := eq_of_checked (Phase.over.inj h)
          rw [hr]
          rfl
        · cases h

theorem beginImage_not_enriched : beginImage cfg s thread passed ≠ .enriched r := by
  unfold beginImage
  repeat' split
  all_goals simp

theorem mem_calls_set {calls : List Call} {k : ℕ} {call other : Call}
    (h : other ∈ calls.set k call) : other = call ∨ other ∈ calls :=
  (List.mem_or_eq_of_mem_set h).symm

theorem readFramed_step {a : Action} (hread : ReadFramed s) (h : resolverStep cfg s a = .ok s') :
    ReadFramed s' := by
  have hmoved {k : ℕ} {call : Call} (hcall : ∀ passed enriched, call.request = .image passed →
      call.phase = .enriched enriched → SameBut passed enriched) :
      ∀ other ∈ s.calls.set k call, ∀ passed enriched, other.request = .image passed →
        other.phase = .enriched enriched → SameBut passed enriched := by
    intro other hother
    rcases mem_calls_set hother with rfl | hother
    · exact hcall
    · exact hread other hother
  unfold ReadFramed
  generalize hcalls : s'.calls = calls
  have hturn := hcalls ▸ turn_of_step h
  cases hturn with
  | quiet => exact hread
  | begun thread request =>
    intro call hcall passed enriched hrequest hphase
    rcases List.mem_append.mp hcall with hcall | hcall
    · exact hread call hcall passed enriched hrequest hphase
    · obtain rfl := List.mem_singleton.mp hcall
      obtain rfl : request = .image passed := hrequest
      exact absurd hphase beginImage_not_enriched
  | moved phase hk hrequest _ => exact hmoved fun passed _ h => absurd h (hrequest passed)
  | failed => exact hmoved fun _ _ _ h => by cases h
  | read hk hrequest _ hsame hphase =>
    refine hmoved fun passed enriched h he => ?_
    obtain rfl := Request.image.inj (hrequest.symm.trans h)
    rcases hphase with rfl | rfl
    · cases he
    · cases he
      exact hsame
  | installed => exact hmoved fun _ _ _ h => by cases h

theorem framed_step {a : Action} (hread : ReadFramed s) (hframed : Framed s)
    (hcache : OwnCache cfg s a) (h : resolverStep cfg s a = .ok s') : Framed s' := by
  have hmoved {k : ℕ} {call : Call} (hcall : ∀ passed r, call.request = .image passed →
      call.phase = .over (.ok r) → SameBut passed r) :
      ∀ other ∈ s.calls.set k call, ∀ passed r, other.request = .image passed →
        other.phase = .over (.ok r) → SameBut passed r := by
    intro other hother
    rcases mem_calls_set hother with rfl | hother
    · exact hcall
    · exact hframed other hother
  unfold Framed
  generalize hcalls : s'.calls = calls
  have hturn := hcalls ▸ turn_of_step h
  cases hturn with
  | quiet => exact hframed
  | begun thread request =>
    intro call hcall passed r hrequest hphase
    rcases List.mem_append.mp hcall with hcall | hcall
    · exact hframed call hcall passed r hrequest hphase
    · obtain rfl := List.mem_singleton.mp hcall
      obtain rfl : request = .image passed := hrequest
      exact sameBut_of_begin hcache hphase
  | moved phase hk hrequest _ => exact hmoved fun passed _ h => absurd h (hrequest passed)
  | failed => exact hmoved fun _ _ _ h => by cases h
  | read hk hrequest _ hsame hphase =>
    refine hmoved fun passed r h hr => ?_
    obtain rfl := Request.image.inj (hrequest.symm.trans h)
    rcases hphase with rfl | rfl
    · cases hr
      exact hsame
    · cases hr
  | @installed k call passed enriched hk hrequest hphase hfree =>
    refine hmoved fun passed' r h hr => ?_
    obtain rfl := Request.image.inj (hrequest.symm.trans h)
    cases hr
    have hinstalls := hcache call hk
    simp only [Call.Installs, hrequest, hphase] at hinstalls
    unfold currentImage
    cases hcached : s.imageResolutions (imageKey call.thread passed) with
    | none => exact hread call (mem_of_getElem hk) passed enriched hrequest hphase
    | some cached => exact hinstalls hfree cached hcached

/-- A call that is over stays as it is. -/
theorem Turn.keeps_over {a : Action} {calls : List Call} (h : Turn cfg s a calls) {call : Call}
    {o : Except ResolveError Resolution} (hcall : call ∈ s.calls) (hover : call.phase = .over o) :
    call ∈ calls := by
  have hset {k : ℕ} {other moved : Call} (hk : s.calls[k]? = some other)
      (hopen : ∀ o, other.phase ≠ .over o) : call ∈ s.calls.set k moved := by
    obtain ⟨j, hj, hcall⟩ := List.mem_iff_getElem.mp hcall
    have hne : k ≠ j := by
      rintro rfl
      rw [List.getElem?_eq_getElem hj, hcall] at hk
      exact hopen o (Option.some.inj hk ▸ hover)
    refine List.mem_of_getElem? (i := j) ?_
    rw [List.getElem?_set_ne hne, List.getElem?_eq_getElem hj, hcall]
  cases h with
  | quiet => exact hcall
  | begun => exact List.mem_append_left _ hcall
  | moved _ hk _ hopen => exact hset hk hopen
  | failed _ hk hopen => exact hset hk hopen
  | read hk _ hopen => exact hset hk hopen
  | installed hk _ hphase => exact hset hk (by simp [hphase])

theorem Framed.before {a : Action} (hframed : Framed s') (h : resolverStep cfg s a = .ok s') :
    Framed s := by
  intro call hcall passed r hrequest hphase
  exact hframed call ((turn_of_step h).keeps_over hcall hphase) passed r hrequest hphase

/-- A step after which every image call is framed found no other resolution in the cache. -/
theorem Framed.ownCache {a : Action} (hframed : Framed ((resolver cfg).next s a)) :
    OwnCache cfg s a := by
  cases a with
  | begin thread request =>
    cases request with
    | image passed =>
      intro hconsults cached hcached
      have hphase := beginImage_of_cached hconsults hcached
      exact hframed ⟨thread, .image passed, beginImage cfg s thread passed⟩
        (by simp [Machine.next, resolver, resolverStep, beginCall]) passed cached rfl hphase
    | resolve | named model | hydrated model => trivial
  | acquire k =>
    intro call hk
    unfold Call.Installs
    split
    · next passed enriched hrequest hphase =>
      intro hfree cached hcached
      have hstep : (resolver cfg).step s (.acquire k) =
          .ok (installImage s k call passed enriched) := by
        simp only [resolver, resolverStep, callAt, bind_eq_ok, require_eq_ok, ensure_eq_ok]
        refine ⟨call, hk, .unit, hfree, ?_⟩
        simp only [hrequest, hphase]
      rw [Machine.next_of_ok hstep] at hframed
      refine hframed { call with phase := .over (.ok cached) } ?_ passed cached hrequest rfl
      have hcurrent : currentImage s call.thread passed enriched = cached := by
        rw [currentImage, Option.mem_def.mp hcached, Option.getD_some]
      simp only [installImage, hcurrent]
      exact List.mem_of_getElem? (List.getElem?_set_self (List.getElem?_eq_some_iff.mp hk).1)
    · trivial
  | setPolicy | route | catalog | cancel => trivial

end Frames

section Two

private def plainConfig : ResolverConfig where
  staticModel := "openrouter:a/b"
  staticContextTokens := 32
  catalog := some ⟨none, none⟩
  decimal _ := none
  frontierChoice _ _ := .error .catalogUnavailable

private def fresh : Resolver where
  policyText := "pinned:openrouter:a/b"
  policy := .pinned "openrouter:a/b"
  resolutions _ := none
  imageResolutions _ := none
  imageInput _ := none
  calls := []

private def unread : Resolution where
  model := "openrouter:a/b"
  contextTokens := 32
  policy := "pinned:openrouter:a/b"
  priceSorted := false
  inputModalities := none
  benchmark := none
  catalogFetchedAt := none
  stickinessEpoch := 0
  supportedParameters := none

/-- The same choice after the temperature of the thread was set. -/
private def warmed : Resolution :=
  { unread with requestParameters := { temperature := some 1 } }

/-- An image turn on one resolution, and then one on the other. -/
private def imageTurns (second : Resolution) : List Action :=
  [.begin "t" (.image unread), .route 0 (.ok (⟨"a/b", 64, some {"image"}, none⟩, 2)), .acquire 0,
    .begin "t" (.image second)]

private theorem fresh_start : (resolver plainConfig).start fresh :=
  ⟨by decide, fun _ => rfl, fun _ => rfl, fun _ => rfl, rfl⟩

end Two

end Nocturne.ModelPolicy
