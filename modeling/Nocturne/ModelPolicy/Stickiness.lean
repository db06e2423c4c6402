import Nocturne.ModelPolicy.Laws

namespace Nocturne.ModelPolicy

open Nocturne.Lib

variable {cfg : ResolverConfig} {s s' : Resolver}

/-- A resolution some call of the thread was passed, has read or returned. -/
inductive Known (s : Resolver) (thread : String) (r : Resolution) : Prop
  | carried {call : Call} (hcall : call ∈ s.calls) (hthread : call.thread = thread)
    (h : call.phase.Carries r)
  | passed {call : Call} (hcall : call ∈ s.calls) (hthread : call.thread = thread)
    (h : call.request = .image r)
  | cached {model : String} {epoch : ℕ} (h : s.imageResolutions (thread, model, epoch) = some r)

def Chosen (s : Resolver) (thread : String) (choice : Choice) : Prop :=
  ∃ q, s.resolutions thread = some q ∧ q.choice = choice

/-- The retained choice of a thread is its own, and all that is known of the thread agrees with it
but for what single commands and hydrations brought. -/
structure Sticky (cfg : ResolverConfig) (s : Resolver) : Prop where
  text : parseModelPolicy cfg s.policyText = .ok s.policy
  own : ∀ thread choice, Chosen s thread choice → ¬Foreign choice
  known : ∀ thread r, Known s thread r → ¬Foreign r.choice → Chosen s thread r.choice
  resolved : ∀ call ∈ s.calls, call.request = .resolve → ∀ r, call.phase.Carries r →
    Chosen s call.thread r.choice
  fetching : ∀ call ∈ s.calls, call.phase.HoldsLock →
    call.request = .resolve ∧ s.resolutions call.thread = none
  alone : ∀ (i j : ℕ) (c d : Call), s.calls[i]? = some c → s.calls[j]? = some d →
    c.phase.HoldsLock → d.phase.HoldsLock → i = j

theorem Chosen.unique {thread : String} {a b : Choice} (ha : Chosen s thread a)
    (hb : Chosen s thread b) : a = b := by
  obtain ⟨q, hq, rfl⟩ := ha
  obtain ⟨q', hq', rfl⟩ := hb
  rw [hq] at hq'
  cases hq'
  rfl

/-- A thread without a choice is given one. -/
theorem chosen_of_update {r : Resolution} {thread other : String} {choice : Choice}
    (hres : s'.resolutions = Function.update s.resolutions thread (some r))
    (hnone : s.resolutions thread = none) :
    Chosen s' other choice ↔ other = thread ∧ r.choice = choice ∨ Chosen s other choice := by
  unfold Chosen
  rw [hres]
  by_cases hother : other = thread
  · subst hother
    simp [hnone]
  · simp [hother]

theorem mem_of_getElem {calls : List Call} {k : ℕ} {call : Call} (h : calls[k]? = some call) :
    call ∈ calls := List.mem_of_getElem? h

/-- After one call moved, a member of the list is that call or was there before. -/
theorem mem_become {k : ℕ} {call other : Call} {phase : Phase}
    (h : other ∈ (s.become k call phase).calls) :
    other = { call with phase } ∨ other ∈ s.calls :=
  (List.mem_or_eq_of_mem_set h).symm

namespace Sticky

theorem derived (hs : Sticky cfg s) {thread : String} {request : Request} {r : Resolution}
    (hcall : ∀ q, request = .image q → Known s thread q) (h : Derived s thread request r)
    (hown : ¬Foreign r.choice) : Chosen s thread r.choice := by
  cases h with
  | foreign h => exact absurd h hown
  | retained hq h => exact ⟨_, hq, h⟩
  | passed hq h =>
    rw [← h] at hown ⊢
    exact hs.known _ _ (hcall _ hq) hown
  | cached h => exact hs.known _ _ (.cached h) hown

theorem of_policy (hs : Sticky cfg s) {text : String} {parsed : Policy}
    (h : parseModelPolicy cfg text = .ok parsed) :
    Sticky cfg { s with policyText := text, policy := parsed } where
  text := h
  own := hs.own
  known := by
    rintro thread r (⟨hcall, hthread, h⟩ | ⟨hcall, hthread, h⟩ | h)
    · exact hs.known thread r (.carried hcall hthread h)
    · exact hs.known thread r (.passed hcall hthread h)
    · exact hs.known thread r (.cached h)
  resolved := hs.resolved
  fetching := hs.fetching
  alone := hs.alone

/-- A call that begins learns what the state holds of its thread. -/
theorem of_begin (hs : Sticky cfg s) {call : Call} (hlock : ¬call.phase.HoldsLock)
    (hpassed : ∀ q, call.request = .image q → Known s call.thread q)
    (hcarries : ∀ r, call.phase.Carries r → Derived s call.thread call.request r)
    (hresolve : call.request = .resolve → ∀ r, call.phase.Carries r →
      s.resolutions call.thread = some r) :
    Sticky cfg { s with calls := s.calls ++ [call] } where
  text := hs.text
  own := hs.own
  known := by
    rintro thread r (⟨hcall, rfl, h⟩ | ⟨hcall, rfl, h⟩ | h) hown
    · rcases List.mem_append.mp hcall with hcall | hcall
      · exact hs.known _ r (.carried hcall rfl h) hown
      · obtain rfl := List.mem_singleton.mp hcall
        exact hs.derived hpassed (hcarries r h) hown
    · rcases List.mem_append.mp hcall with hcall | hcall
      · exact hs.known _ r (.passed hcall rfl h) hown
      · obtain rfl := List.mem_singleton.mp hcall
        exact hs.known _ r (hpassed r h) hown
    · exact hs.known thread r (.cached h) hown
  resolved := by
    intro other hother hrequest r hr
    rcases List.mem_append.mp hother with hother | hother
    · exact hs.resolved other hother hrequest r hr
    · obtain rfl := List.mem_singleton.mp hother
      exact ⟨r, hresolve hrequest r hr, rfl⟩
  fetching := by
    intro other hother hholds
    rcases List.mem_append.mp hother with hother | hother
    · exact hs.fetching other hother hholds
    · obtain rfl := List.mem_singleton.mp hother
      exact absurd hholds hlock
  alone := by
    intro i j c d hc hd hcl hdl
    rcases begun_cases hc with ⟨_, rfl⟩ | hc
    · exact absurd hcl hlock
    rcases begun_cases hd with ⟨_, rfl⟩ | hd
    · exact absurd hdl hlock
    exact hs.alone i j c d hc hd hcl hdl

/-- A call that moves on without touching the retained choices. -/
theorem of_move (hs : Sticky cfg s) {k : ℕ} {call : Call} {phase : Phase}
    (imageInput : String → Option (Finset String)) (hk : s.calls[k]? = some call)
    (hlock : phase.HoldsLock → call.request = .resolve ∧ s.resolutions call.thread = none ∧
      ∀ other ∈ s.calls, ¬other.phase.HoldsLock)
    (hcarries : ∀ r, phase.Carries r → Derived s call.thread call.request r)
    (hresolve : call.request = .resolve → ∀ r, phase.Carries r →
      s.resolutions call.thread = some r) :
    Sticky cfg { s.become k call phase with imageInput } where
  text := hs.text
  own := hs.own
  known := by
    have hmem := mem_of_getElem hk
    rintro thread r (⟨hcall, rfl, h⟩ | ⟨hcall, rfl, h⟩ | h) hown
    · rcases mem_become hcall with rfl | hcall
      · exact hs.derived (fun q hq => .passed hmem rfl hq) (hcarries r h) hown
      · exact hs.known _ r (.carried hcall rfl h) hown
    · rcases mem_become hcall with rfl | hcall
      · exact hs.known _ r (.passed hmem rfl h) hown
      · exact hs.known _ r (.passed hcall rfl h) hown
    · exact hs.known thread r (.cached h) hown
  resolved := by
    intro other hother hrequest r hr
    rcases mem_become hother with rfl | hother
    · exact ⟨r, hresolve hrequest r hr, rfl⟩
    · exact hs.resolved other hother hrequest r hr
  fetching := by
    intro other hother hholds
    rcases mem_become hother with rfl | hother
    · exact ⟨(hlock hholds).1, (hlock hholds).2.1⟩
    · exact hs.fetching other hother hholds
  alone := by
    intro i j c d hc hd hcl hdl
    rcases set_cases hc with ⟨rfl, rfl⟩ | ⟨_, hc'⟩
    · rcases set_cases hd with ⟨rfl, _⟩ | ⟨_, hd'⟩
      · rfl
      · exact absurd hdl ((hlock hcl).2.2 d (mem_of_getElem hd'))
    · rcases set_cases hd with ⟨rfl, rfl⟩ | ⟨_, hd'⟩
      · exact absurd hcl ((hlock hdl).2.2 c (mem_of_getElem hc'))
      · exact hs.alone i j c d hc' hd' hcl hdl

/-- The first resolve of a thread to end sets its choice. -/
theorem of_retain (hs : Sticky cfg s) {k : ℕ} {call : Call} {r : Resolution}
    (imageInput : String → Option (Finset String)) (hk : s.calls[k]? = some call)
    (hlock : call.phase.HoldsLock ∨ s.resolutions call.thread = none ∧
      ∀ other ∈ s.calls, ¬other.phase.HoldsLock)
    (hpolicy : r.choice.policy = s.policyText) :
    Sticky cfg { s.become k call (.over (.ok r)) with
      imageInput, resolutions := Function.update s.resolutions call.thread (some r) } := by
  have hmem := mem_of_getElem hk
  have hnone : s.resolutions call.thread = none := by
    rcases hlock with hlock | hlock
    · exact (hs.fetching call hmem hlock).2
    · exact hlock.1
  have hothers : ∀ j other, s.calls[j]? = some other → other.phase.HoldsLock → j = k := by
    intro j other hj hholds
    rcases hlock with hlock | hlock
    · exact hs.alone j k other call hj hk hholds hlock
    · exact absurd hholds (hlock.2 other (mem_of_getElem hj))
  have hown : ¬Foreign r.choice := not_foreign_of_parsed hs.text hpolicy
  let next : Resolver := { s.become k call (.over (.ok r)) with
    imageInput, resolutions := Function.update s.resolutions call.thread (some r) }
  have hchosen (thread : String) (choice : Choice) : Chosen next thread choice ↔
      thread = call.thread ∧ r.choice = choice ∨ Chosen s thread choice :=
    chosen_of_update rfl hnone
  constructor
  · exact hs.text
  · intro thread choice h
    rcases (hchosen thread choice).mp h with ⟨_, rfl⟩ | h
    · exact hown
    · exact hs.own thread choice h
  · rintro thread q (⟨hcall, rfl, h⟩ | ⟨hcall, rfl, h⟩ | h) hq
    · rcases mem_become hcall with rfl | hcall
      · obtain rfl := Except.ok.inj (carries_over.mp h)
        exact (hchosen _ _).mpr (.inl ⟨rfl, rfl⟩)
      · exact (hchosen _ _).mpr (.inr (hs.known _ q (.carried hcall rfl h) hq))
    · rcases mem_become hcall with rfl | hcall
      · exact (hchosen _ _).mpr (.inr (hs.known _ q (.passed hmem rfl h) hq))
      · exact (hchosen _ _).mpr (.inr (hs.known _ q (.passed hcall rfl h) hq))
    · exact (hchosen _ _).mpr (.inr (hs.known thread q (.cached h) hq))
  · intro other hother hother' q hq
    rcases mem_become hother with rfl | hother
    · obtain rfl := Except.ok.inj (carries_over.mp hq)
      exact (hchosen _ _).mpr (.inl ⟨rfl, rfl⟩)
    · exact (hchosen _ _).mpr (.inr (hs.resolved other hother hother' q hq))
  · intro other hother hholds
    obtain ⟨j, hj⟩ := List.mem_iff_getElem?.mp hother
    rcases set_cases hj with ⟨_, rfl⟩ | ⟨hne, hj'⟩
    · exact absurd hholds id
    · exact absurd (hothers j other hj' hholds) hne
  · intro i j c d hc hd hcl hdl
    rcases set_cases hc with ⟨_, rfl⟩ | ⟨hne, hc'⟩
    · exact absurd hcl id
    · exact absurd (hothers i c hc' hcl) hne

/-- An image turn puts its own reading in place of the choice: it keeps the choice unless that
reading stems from a single command or a hydration. -/
theorem of_install (hs : Sticky cfg s) {k : ℕ} {call : Call} {resolution enriched : Resolution}
    (hk : s.calls[k]? = some call) (hrequest : call.request = .image resolution)
    (hphase : call.phase = .enriched enriched) (hfree : ∀ other ∈ s.calls, ¬other.phase.HoldsLock)
    (hown : SameChoice s call.thread resolution →
      ¬Foreign (currentImage s call.thread resolution enriched).choice) :
    Sticky cfg (installImage s k call resolution enriched) := by
  have hmem := mem_of_getElem hk
  have hcurrent : Known s call.thread (currentImage s call.thread resolution enriched) := by
    unfold currentImage
    cases hcached : s.imageResolutions (imageKey call.thread resolution) with
    | some cached => exact .cached hcached
    | none => exact .carried hmem rfl (.inr hphase)
  -- what the image turn installs reads like what it replaces
  have hchosen (thread : String) (choice : Choice) :
      Chosen (installImage s k call resolution enriched) thread choice ↔
        Chosen s thread choice := by
    by_cases hsame : SameChoice s call.thread resolution
    · have hknown := hs.known _ _ hcurrent (hown hsame)
      by_cases hthread : thread = call.thread
      · subst hthread
        have hnew : Chosen (installImage s k call resolution enriched) call.thread
            (currentImage s call.thread resolution enriched).choice :=
          ⟨_, by simp [installImage, hsame], rfl⟩
        constructor
        · intro h
          rwa [h.unique hnew]
        · intro h
          rwa [h.unique hknown]
      · simp [Chosen, installImage, hsame, hthread]
    · simp [Chosen, installImage, hsame]
  constructor
  · exact hs.text
  · intro thread choice h
    exact hs.own thread choice ((hchosen _ _).mp h)
  · rintro thread q (⟨hcall, rfl, h⟩ | ⟨hcall, rfl, h⟩ | h) hq
    · rcases mem_become hcall with rfl | hcall
      · obtain rfl := Except.ok.inj (carries_over.mp h)
        exact (hchosen _ _).mpr (hs.known _ _ hcurrent hq)
      · exact (hchosen _ _).mpr (hs.known _ q (.carried hcall rfl h) hq)
    · rcases mem_become hcall with rfl | hcall
      · exact (hchosen _ _).mpr (hs.known _ q (.passed hmem rfl h) hq)
      · exact (hchosen _ _).mpr (hs.known _ q (.passed hcall rfl h) hq)
    · next model epoch =>
      by_cases hkey : (thread, model, epoch) = imageKey call.thread resolution
      · have hthread : thread = call.thread := congrArg Prod.fst hkey
        simp only [installImage, hkey, Function.update_self] at h
        cases h
        rw [hchosen, hthread]
        exact hs.known _ _ hcurrent hq
      · simp only [installImage, Function.update_of_ne hkey] at h
        exact (hchosen _ _).mpr (hs.known thread q (.cached h) hq)
  · intro other hother hother' q hq
    rcases mem_become hother with rfl | hother
    · rw [hrequest] at hother'
      cases hother'
    · exact (hchosen _ _).mpr (hs.resolved other hother hother' q hq)
  · intro other hother hholds
    rcases mem_become hother with rfl | hother
    · exact absurd hholds id
    · exact absurd hholds (hfree other hother)
  · intro i j c d hc hd hcl hdl
    rcases mem_become (mem_of_getElem hc) with rfl | hc
    · exact absurd hcl id
    · exact absurd hcl (hfree c hc)

end Sticky

/-- What the caller of an image turn hands over it got for the same thread. -/
def FromThread (s : Resolver) : Action → Prop
  | .begin thread (.image resolution) => ∃ call ∈ s.calls, call.thread = thread ∧
      call.phase = .over (.ok resolution)
  | .begin _ (.resolve) | .begin _ (.named _) | .begin _ (.hydrated _) => True
  | .setPolicy _ | .acquire _ | .route .. | .catalog .. | .cancel _ => True

instance decidableFromThread (s : Resolver) : DecidablePred (FromThread s)
  | .begin _ (.image _) => inferInstanceAs (Decidable (∃ call ∈ s.calls, _ ∧ _))
  | .begin _ (.resolve) | .begin _ (.named _) | .begin _ (.hydrated _) => isTrue trivial
  | .setPolicy _ | .acquire _ | .route .. | .catalog .. | .cancel _ => isTrue trivial

/-- An image turn that finds its model retained for the thread does not install the reading of a
single command or a hydration. -/
def Call.KeepsChoice (s : Resolver) (call : Call) : Prop :=
  match call.request, call.phase with
  | .image resolution, .enriched enriched =>
    SameChoice s call.thread resolution →
      ¬Foreign (currentImage s call.thread resolution enriched).choice
  | _, _ => True

instance (s : Resolver) (call : Call) : Decidable (call.KeepsChoice s) := by
  unfold Call.KeepsChoice
  split <;> infer_instance

def KeepsChoice (s : Resolver) : Action → Prop
  | .acquire k => ∀ call ∈ s.calls[k]?, call.KeepsChoice s
  | .setPolicy _ | .begin .. | .route .. | .catalog .. | .cancel _ => True

instance decidableKeepsChoice (s : Resolver) : DecidablePred (KeepsChoice s)
  | .acquire k => inferInstanceAs (Decidable (∀ call ∈ s.calls[k]?, call.KeepsChoice s))
  | .setPolicy _ | .begin .. | .route .. | .catalog .. | .cancel _ => isTrue trivial

theorem not_carries_waiting {r : Resolution} : ¬Phase.waiting.Carries r := by
  rintro (h | h) <;> cases h

theorem not_carries_naming {r : Resolution} : ¬Phase.naming.Carries r := by
  rintro (h | h) <;> cases h

section Begin

variable (cfg s) (thread : String)

theorem beginCall_resolve : beginCall cfg s thread .resolve =
    if Text.isBlank thread then .over (.error .blankThread)
    else
      match s.resolutions thread with
      | some resolution => .over (.ok resolution)
      | none => .waiting := rfl

theorem beginCall_named (model : String) : beginCall cfg s thread (.named model) =
    match namedSlug cfg thread model with
    | .ok _ => .naming
    | .error error => .over (.error error) := rfl

theorem beginCall_hydrated (model : String) : beginCall cfg s thread (.hydrated model) =
    match namedSlug cfg thread model with
    | .ok _ => .naming
    | .error error => .over (hydratedResolution cfg model (.error error)) := rfl

theorem beginCall_image (resolution : Resolution) :
    beginCall cfg s thread (.image resolution) = beginImage cfg s thread resolution := rfl

end Begin

theorem retained_of_begin {thread : String} {r : Resolution}
    (h : (beginCall cfg s thread .resolve).Carries r) : s.resolutions thread = some r := by
  rw [beginCall_resolve] at h
  split at h
  · exact absurd h not_carries_error
  split at h
  · next hretained =>
    obtain rfl := Except.ok.inj (carries_over.mp h)
    exact hretained
  · exact absurd h not_carries_waiting

theorem derived_of_image {thread : String} {resolution r : Resolution}
    (h : (beginImage cfg s thread resolution).Carries r) :
    Derived s thread (.image resolution) r := by
  unfold beginImage at h
  split at h
  · exact absurd h not_carries_error
  split at h
  · obtain rfl := Except.ok.inj (carries_over.mp h)
    exact .passed rfl rfl
  split at h
  · exact absurd h not_carries_error
  split at h
  · next hcached =>
    obtain rfl := Except.ok.inj (carries_over.mp h)
    exact .cached hcached
  · have hr := eq_of_checked (carries_over.mp h)
    exact .passed rfl (hr ▸ rfl)
  · exact absurd h not_carries_naming

theorem derived_of_begin {thread : String} {request : Request} {r : Resolution}
    (h : (beginCall cfg s thread request).Carries r) : Derived s thread request r := by
  cases request with
  | resolve => exact .retained (retained_of_begin h) rfl
  | named model =>
    rw [beginCall_named] at h
    split at h
    · exact absurd h not_carries_naming
    · exact absurd h not_carries_error
  | hydrated model =>
    rw [beginCall_hydrated] at h
    split at h
    · exact absurd h not_carries_naming
    · exact .foreign (foreign_of_hydrated (fun h => by cases h) (carries_over.mp h))
  | image resolution => exact derived_of_image h

theorem not_holdsLock_of_begin (thread : String) (request : Request) :
    ¬(beginCall cfg s thread request).HoldsLock := by
  cases request with
  | resolve =>
    rw [beginCall_resolve]
    split
    · exact id
    · split <;> exact id
  | named model =>
    rw [beginCall_named]
    split <;> exact id
  | hydrated model =>
    rw [beginCall_hydrated]
    split <;> exact id
  | image resolution =>
    rw [beginCall_image, beginImage]
    split
    · exact id
    split
    · exact id
    split
    · exact id
    split <;> exact id

theorem sticky_start (h : (resolver cfg).start s) : Sticky cfg s := by
  obtain ⟨htext, hres, himage, _, hcalls⟩ := h
  constructor
  · exact htext
  · rintro thread choice ⟨q, hq, _⟩
    rw [hres] at hq
    cases hq
  · rintro thread r (⟨hcall, _, _⟩ | ⟨hcall, _, _⟩ | h)
    · simp [hcalls] at hcall
    · simp [hcalls] at hcall
    · rw [himage] at h
      cases h
  · simp [hcalls]
  · simp [hcalls]
  · simp [hcalls]

theorem sticky_step {a : Action} (hs : Sticky cfg s) (hthread : FromThread s a)
    (hkeeps : KeepsChoice s a) (h : resolverStep cfg s a = .ok s') : Sticky cfg s' := by
  cases effect_of_step h with
  | policy hparsed => exact hs.of_policy hparsed
  | begin thread request =>
    refine hs.of_begin (not_holdsLock_of_begin thread request) (fun q hq => ?_)
      (fun _ => derived_of_begin) fun hrequest r hr => ?_
    · obtain rfl : request = .image q := hq
      obtain ⟨call, hcall, rfl, hphase⟩ := hthread
      exact .carried hcall rfl (.inl hphase)
    · obtain rfl : request = .resolve := hrequest
      have hphase : (beginCall cfg s thread .resolve).Carries r := hr
      exact retained_of_begin hphase
  | move imageInput hk hlock hcarries hresolve =>
    exact hs.of_move imageInput hk hlock hcarries hresolve
  | retain imageInput hk _ hlock hpolicy =>
    exact hs.of_retain imageInput hk hlock hpolicy
  | install hk hrequest hphase hfree =>
    have hown := hkeeps _ hk
    simp only [Call.KeepsChoice, hrequest, hphase] at hown
    exact hs.of_install hk hrequest hphase hfree hown

/-- All resolve results of one thread read alike. -/
def StickyChoice (s : Resolver) : Prop :=
  ∀ a ∈ s.calls, ∀ b ∈ s.calls, a.thread = b.thread → a.request = .resolve →
    b.request = .resolve → ∀ r r', a.phase = .over (.ok r) → b.phase = .over (.ok r') →
      r.choice = r'.choice

theorem Sticky.stickyChoice (hs : Sticky cfg s) : StickyChoice s := by
  intro a ha b hb hthread ha' hb' r r' hr hr'
  have hchoice := hs.resolved a ha ha' r (.inl hr)
  rw [hthread] at hchoice
  exact hchoice.unique (hs.resolved b hb hb' r' (.inl hr'))

/-- An image turn that installs the reading of a single command replaces the thread's choice. -/
theorem Sticky.replaced (hs : Sticky cfg s) {a : Action} (h : resolverStep cfg s a = .ok s')
    (hnot : ¬KeepsChoice s a) : ∃ thread q q', s.resolutions thread = some q ∧
      s'.resolutions thread = some q' ∧ q.choice ≠ q'.choice := by
  cases a with
  | acquire k =>
    simp only [KeepsChoice, not_forall] at hnot
    obtain ⟨call, hk, hnot⟩ := hnot
    unfold Call.KeepsChoice at hnot
    split at hnot
    · next resolution enriched hrequest hphase =>
      simp only [Classical.not_imp, not_not] at hnot
      obtain ⟨hsame, hforeign⟩ := hnot
      simp only [resolverStep, callAt, bind_eq_ok, require_eq_ok, ensure_eq_ok] at h
      obtain ⟨other, hother, _, _, h⟩ := h
      obtain rfl : call = other := Option.some.inj (hk.symm.trans hother)
      simp only [hrequest, hphase, Except.ok.injEq] at h
      subst h
      obtain ⟨q, hq, _⟩ := id hsame
      refine ⟨call.thread, q, currentImage s call.thread resolution enriched, hq, ?_, ?_⟩
      · simp [installImage, hsame]
      · intro heq
        rw [← heq] at hforeign
        exact hs.own call.thread q.choice ⟨q, hq, rfl⟩ hforeign
    · exact absurd trivial hnot
  | setPolicy | begin | route | catalog | cancel => exact absurd trivial hnot

/-- The model choice of a thread is sticky in every run in which no image turn puts the reading of
a single command or a hydration in its place; one that does replaces the choice. -/
theorem choice_sticky (cfg : ResolverConfig) {s : Resolver}
    (h : (resolver cfg).ReachableBy (fun s a => FromThread s a ∧ KeepsChoice s a) s) :
    StickyChoice s ∧ ∀ a s', resolverStep cfg s a = .ok s' → ¬KeepsChoice s a →
      ∃ thread q q', s.resolutions thread = some q ∧ s'.resolutions thread = some q' ∧
        q.choice ≠ q'.choice := by
  have hs : Sticky cfg s := Machine.reachableBy_keeps sticky_start
    (fun hs hguard hstep => sticky_step hs hguard.1 hguard.2 hstep) h
  exact ⟨hs.stickyChoice, fun _ _ hstep hnot => hs.replaced hstep hnot⟩

section Small

private def config : ResolverConfig where
  staticModel := "openrouter:a/b"
  staticContextTokens := 32
  catalog := some ⟨none, none⟩
  decimal _ := none
  frontierChoice _ _ := .error .catalogUnavailable

private def opened : Resolver where
  policyText := "pinned:openrouter:a/b"
  policy := .pinned "openrouter:a/b"
  resolutions _ := none
  imageResolutions _ := none
  imageInput _ := none
  calls := []

private def own : Resolution where
  model := "openrouter:a/b"
  contextTokens := 32
  policy := "pinned:openrouter:a/b"
  priceSorted := false
  inputModalities := none
  benchmark := none
  catalogFetchedAt := none
  stickinessEpoch := 0
  supportedParameters := none

private def named : Resolution :=
  { own with contextTokens := 64, policy := "human_command", catalogFetchedAt := some 1 }

private def bare : ModelRoute := ⟨"a/b", 64, none, none⟩

private def seeing : ModelRoute := ⟨"a/b", 64, some {"image"}, none⟩

private theorem opened_start : (resolver config).start opened :=
  ⟨by decide, fun _ => rfl, fun _ => rfl, fun _ => rfl, rfl⟩

/-- An image turn on the thread's own resolution. -/
private def imageTurn : List Action :=
  [.begin "t" .resolve, .acquire 0, .begin "t" (.image own), .route 1 (.ok (seeing, 2)), .acquire 1,
    .begin "t" .resolve]

/-- An image turn on what a `/model` command of the thread returned. -/
private def commandTurn : List Action :=
  [.begin "t" .resolve, .acquire 0, .begin "t" (.named "openrouter:a/b"), .route 1 (.ok (bare, 1)),
    .begin "t" (.image named), .route 2 (.ok (seeing, 2)), .acquire 2, .begin "t" .resolve]

theorem choice_sticky_image : StickyChoice ((resolver config).run opened imageTurn) :=
  (choice_sticky config ⟨opened, imageTurn, opened_start, by decide, rfl⟩).1

/-- The command's context window and policy take the place of the thread's. -/
theorem choice_not_sticky :
    ∃ s, (resolver config).ReachableBy FromThread s ∧ ¬StickyChoice s := by
  refine ⟨(resolver config).run opened commandTurn,
    ⟨opened, commandTurn, opened_start, by decide, rfl⟩, fun h => ?_⟩
  have hfirst :
      ⟨"t", .resolve, .over (.ok own)⟩ ∈ ((resolver config).run opened commandTurn).calls := by
    decide
  have hlast : ⟨"t", .resolve, .over (.ok { named with
      inputModalities := some {"image"}, catalogFetchedAt := some 2 })⟩
        ∈ ((resolver config).run opened commandTurn).calls := by
    decide
  have hchoice := h _ hfirst _ hlast rfl rfl rfl _ _ rfl rfl
  exact absurd hchoice (by decide)

end Small

end Nocturne.ModelPolicy
