import Nocturne.Lib.Flight
import Nocturne.Lib.Machine
import Nocturne.Lib.Refusal

universe u v w x

namespace Nocturne.Lib

/-! Transactions that look at a store statement by statement under one lock. -/

/-- Statements that each see the store as it is then, up to a verdict. -/
inductive Reading (σ : Type u) (ν : Type v)
  | done (verdict : ν)
  | read (next : σ → Reading σ ν)

/-- The verdict when the store stands still. -/
def Reading.eval {σ : Type u} {ν : Type v} : Reading σ ν → σ → ν
  | .done verdict, _ => verdict
  | .read next, s => (next s).eval s

@[simp] theorem Reading.eval_done {σ : Type u} {ν : Type v} (verdict : ν) (s : σ) :
    (Reading.done verdict).eval s = verdict := rfl

@[simp] theorem Reading.eval_read {σ : Type u} {ν : Type v} (next : σ → Reading σ ν) (s : σ) :
    (Reading.read next).eval s = (next s).eval s := rfl

/-- What a call does: `early` tests before it asks for the lock, each of which may answer it, then
under the lock what it reads and what it writes on the verdict. -/
structure Protocol (σ : Type u) (κ : Type v) (ν : Type w) (ω : Type x) where
  early : κ → List (σ → Option ω)
  body : κ → Reading σ ν
  write : κ → ν → σ → ω × σ

namespace Protocol

variable {σ : Type u} {κ : Type v} {ν : Type w} {ω : Type x} (P : Protocol σ κ ν ω)

def refusal (c : κ) (s : σ) : Option ω := (P.early c).findSome? (· s)

def locked (c : κ) (s : σ) : ω × σ := P.write c ((P.body c).eval s) s

/-- A call with no other call in flight. -/
def serial (c : κ) (s : σ) : ω × σ :=
  match P.refusal c s with
  | some outcome => (outcome, s)
  | none => P.locked c s

/-- The calls one after the other. -/
def replay (s : σ) : List κ → List ω × σ
  | [] => ([], s)
  | c :: cs => ((P.serial c s).1 :: (replay (P.serial c s).2 cs).1, (replay (P.serial c s).2 cs).2)

inductive Phase (σ : Type u) (ν : Type w) (ω : Type x)
  | early (rest : List (σ → Option ω))
  | reading (rest : Reading σ ν)
  | over (outcome : ω)
  | lost

def Phase.HoldsLock : Phase σ ν ω → Prop
  | .reading _ => True
  | .early _ | .over _ | .lost => False

instance : DecidablePred (Phase.HoldsLock (σ := σ) (ν := ν) (ω := ω))
  | .reading _ => isTrue trivial
  | .early _ | .over _ | .lost => isFalse id

structure Call (σ : Type u) (κ : Type v) (ν : Type w) (ω : Type x) where
  call : κ
  phase : Phase σ ν ω

structure State (σ : Type u) (κ : Type v) (ν : Type w) (ω : Type x) where
  /-- The store before the first call. -/
  initial : σ
  store : σ
  calls : List (Call σ κ ν ω)

inductive Action (κ : Type v)
  | begin (c : κ)
  | test (k : ℕ)
  | lock (k : ℕ)
  | read (k : ℕ)
  | commit (k : ℕ)
  | abort (k : ℕ)

inductive StepError
  | noSuchCall
  | blocked

variable (s : State σ κ ν ω)

def State.become (k : ℕ) (c : κ) (phase : Phase σ ν ω) : State σ κ ν ω :=
  { s with calls := s.calls.set k ⟨c, phase⟩ }

def step (s : State σ κ ν ω) : Action κ → Except StepError (State σ κ ν ω)
  | .begin c => .ok { s with calls := s.calls ++ [⟨c, .early (P.early c)⟩] }
  | .test k =>
    match s.calls[k]? with
    | some ⟨c, .early (test :: rest)⟩ =>
      match test s.store with
      | some outcome => .ok (s.become k c (.over outcome))
      | none => .ok (s.become k c (.early rest))
    | _ => .error .noSuchCall
  | .lock k => do
    ensure (∀ other ∈ s.calls, ¬other.phase.HoldsLock) .blocked
    match s.calls[k]? with
    | some ⟨c, .early []⟩ => .ok (s.become k c (.reading (P.body c)))
    | _ => .error .noSuchCall
  | .read k =>
    match s.calls[k]? with
    | some ⟨c, .reading (.read next)⟩ => .ok (s.become k c (.reading (next s.store)))
    | _ => .error .noSuchCall
  | .commit k =>
    match s.calls[k]? with
    | some ⟨c, .reading (.done verdict)⟩ =>
      .ok { s.become k c (.over (P.write c verdict s.store).1) with
        store := (P.write c verdict s.store).2 }
    | _ => .error .noSuchCall
  | .abort k =>
    match s.calls[k]? with
    | some ⟨c, .early _⟩ | some ⟨c, .reading _⟩ => .ok (s.become k c .lost)
    | _ => .error .noSuchCall

def machine (Start : σ → Prop) : Machine (State σ κ ν ω) (Action κ) StepError where
  start s := Start s.initial ∧ s.store = s.initial ∧ s.calls = []
  step := P.step

/-- The tests before the lock say nothing the transaction would not find out: what one of them
refuses stays refused whatever is written, and under the lock it is refused again. -/
structure Sound (quiet : ω → Prop) : Prop where
  early : ∀ {c test s outcome}, test ∈ P.early c → test s = some outcome → quiet outcome
  stable : ∀ {c d s}, (P.refusal c s).isSome → (P.refusal c (P.locked d s).2).isSome
  recheck : ∀ {c s}, (∀ test ∈ P.early c, ∃ s₀, test s₀ = none) → (P.refusal c s).isSome →
    quiet (P.locked c s).1 ∧ (P.locked c s).2 = s

variable {P} {s} {s' : State σ κ ν ω} {quiet : ω → Prop} {c : κ} {k : ℕ}

theorem isSome_refusal {t : σ} :
    (P.refusal c t).isSome ↔ ∃ test ∈ P.early c, (test t).isSome := by
  simp [refusal]

/-- What an accepted step does. -/
inductive Moves (P : Protocol σ κ ν ω) (s : State σ κ ν ω) : Action κ → State σ κ ν ω → Prop
  | begin (c : κ) : Moves P s (.begin c) { s with calls := s.calls ++ [⟨c, .early (P.early c)⟩] }
  | refused {k : ℕ} {c : κ} {test : σ → Option ω} {rest : List (σ → Option ω)} {outcome : ω}
    (hk : s.calls[k]? = some ⟨c, .early (test :: rest)⟩) (htest : test s.store = some outcome) :
    Moves P s (.test k) (s.become k c (.over outcome))
  | passed {k : ℕ} {c : κ} {test : σ → Option ω} {rest : List (σ → Option ω)}
    (hk : s.calls[k]? = some ⟨c, .early (test :: rest)⟩) (htest : test s.store = none) :
    Moves P s (.test k) (s.become k c (.early rest))
  | lock {k : ℕ} {c : κ} (hk : s.calls[k]? = some ⟨c, .early []⟩)
    (hfree : ∀ other ∈ s.calls, ¬other.phase.HoldsLock) :
    Moves P s (.lock k) (s.become k c (.reading (P.body c)))
  | read {k : ℕ} {c : κ} {next : σ → Reading σ ν}
    (hk : s.calls[k]? = some ⟨c, .reading (.read next)⟩) :
    Moves P s (.read k) (s.become k c (.reading (next s.store)))
  | commit {k : ℕ} {c : κ} {verdict : ν}
    (hk : s.calls[k]? = some ⟨c, .reading (.done verdict)⟩) :
    Moves P s (.commit k) { s.become k c (.over (P.write c verdict s.store).1) with
      store := (P.write c verdict s.store).2 }
  | abort {k : ℕ} {c : κ} {phase : Phase σ ν ω} (hk : s.calls[k]? = some ⟨c, phase⟩)
    (hlive : ∀ outcome, phase ≠ .over outcome) : Moves P s (.abort k) (s.become k c .lost)

theorem moves_of_step {a : Action κ} (h : P.step s a = .ok s') : P.Moves s a s' := by
  cases a with
  | begin c =>
    cases h
    exact .begin c
  | test k =>
    simp only [step] at h
    split at h
    · next hk =>
      split at h
      · next htest =>
        cases h
        exact .refused hk htest
      · next htest =>
        cases h
        exact .passed hk htest
    · cases h
  | lock k =>
    simp only [step, bind_eq_ok, ensure_eq_ok] at h
    obtain ⟨_, hfree, h⟩ := h
    split at h
    · next hk =>
      cases h
      exact .lock hk hfree
    · cases h
  | read k =>
    simp only [step] at h
    split at h
    · next hk =>
      cases h
      exact .read hk
    · cases h
  | commit k =>
    simp only [step] at h
    split at h
    · next hk =>
      cases h
      exact .commit hk
    · cases h
  | abort k =>
    simp only [step] at h
    split at h
    · next hk =>
      cases h
      exact .abort hk nofun
    · next hk =>
      cases h
      exact .abort hk nofun
    · cases h

/-- No step touches the initial store, and no call changes what it asks for. -/
theorem step_frame {a : Action κ} (h : P.step s a = .ok s') : s'.initial = s.initial ∧
    ∀ call ∈ s'.calls, (∃ other ∈ s.calls, other.call = call.call) ∨ a = .begin call.call := by
  have hset {k : ℕ} {c : κ} {phase phase' : Phase σ ν ω} (hk : s.calls[k]? = some ⟨c, phase⟩) :
      ∀ call ∈ (s.become k c phase').calls, (∃ other ∈ s.calls, other.call = call.call) ∨
        a = .begin call.call := by
    intro call hcall
    rcases List.mem_or_eq_of_mem_set hcall with hcall | rfl
    · exact .inl ⟨call, hcall, rfl⟩
    · exact .inl ⟨_, List.mem_of_getElem? hk, rfl⟩
  cases moves_of_step h with
  | begin c =>
    refine ⟨rfl, fun call hcall => ?_⟩
    rcases List.mem_append.mp hcall with hcall | hcall
    · exact .inl ⟨call, hcall, rfl⟩
    · obtain rfl := List.mem_singleton.mp hcall
      exact .inr rfl
  | refused hk | passed hk | lock hk | read hk | commit hk | abort hk => exact ⟨rfl, hset hk⟩

/-- Only the transaction of a call changes the store, and only when it commits. -/
theorem store_of_step {a : Action κ} (h : P.step s a = .ok s') :
    s'.store = s.store ∨ ∃ k c verdict, a = .commit k ∧
      s.calls[k]? = some ⟨c, .reading (.done verdict)⟩ ∧
      s'.store = (P.write c verdict s.store).2 := by
  cases moves_of_step h with
  | commit hk => exact .inr ⟨_, _, _, rfl, hk, rfl⟩
  | begin | refused | passed | lock | read | abort => exact .inl rfl

theorem initial_of_reachable {Start : σ → Prop} (h : (P.machine Start).Reachable s) :
    Start s.initial := by
  refine Machine.reachable_keeps (I := fun s => Start s.initial) ?_ ?_ h
  · rintro s ⟨hstart, _⟩
    exact hstart
  · intro s a s' hs hstep
    rw [(step_frame hstep).1]
    exact hs

/-- What is asked of each call that begins holds of all calls. -/
theorem calls_of_reachableBy {G : κ → Prop} {H : State σ κ ν ω → Action κ → Prop}
    {Start : σ → Prop} (hG : ∀ {s c}, H s (.begin c) → G c)
    (h : (P.machine Start).ReachableBy H s) : ∀ call ∈ s.calls, G call.call := by
  refine Machine.reachableBy_keeps (I := fun s => ∀ call ∈ s.calls, G call.call) ?_ ?_ h
  · rintro s ⟨_, _, hcalls⟩
    simp [hcalls]
  · intro s a s' hs ha hstep call hcall
    rcases (step_frame hstep).2 call hcall with ⟨other, hother, heq⟩ | rfl
    · exact heq ▸ hs other hother
    · exact hG ha

section Replay

theorem replay_append (P : Protocol σ κ ν ω) (t : σ) (cs ds : List κ) :
    P.replay t (cs ++ ds) = ((P.replay t cs).1 ++ (P.replay (P.replay t cs).2 ds).1,
      (P.replay (P.replay t cs).2 ds).2) := by
  induction cs generalizing t with
  | nil => rfl
  | cons c cs ih =>
    simp only [List.cons_append, replay]
    rw [ih]

/-- Calls that are refused one by one are refused in a row. -/
theorem replay_refused {t : σ} {cs : List κ} (h : ∀ c ∈ cs, (P.refusal c t).isSome) :
    (P.replay t cs).2 = t := by
  induction cs with
  | nil => rfl
  | cons c cs ih =>
    obtain ⟨outcome, hrefusal⟩ := Option.isSome_iff_exists.mp (h c List.mem_cons_self)
    have hserial : P.serial c t = (outcome, t) := by
      unfold serial
      rw [hrefusal]
    simp only [replay, hserial]
    exact ih fun d hd => h d (List.mem_cons_of_mem _ hd)

end Replay

/-- Two outcomes that are equal or have no effect either. -/
def Alike (quiet : ω → Prop) (a b : ω) : Prop := a = b ∨ quiet a ∧ quiet b

section Order

/-- The calls that took the lock and committed, in the order in which they did, and what is known
of the others. -/
structure Ordered (P : Protocol σ κ ν ω) (quiet : ω → Prop) (s : State σ κ ν ω)
    (log : List (ℕ × κ × ω)) : Prop where
  nodup : (log.map (·.1)).Nodup
  calls : ∀ item ∈ log, s.calls[item.1]? = some ⟨item.2.1, .over item.2.2⟩
  store : (P.replay s.initial (log.map (·.2.1))).2 = s.store
  outcomes : List.Forall₂ (Alike quiet) (log.map (·.2.2)) (P.replay s.initial (log.map (·.2.1))).1
  refused : ∀ {k : ℕ} {c outcome}, s.calls[k]? = some ⟨c, .over outcome⟩ →
    (k, c, outcome) ∈ log ∨ quiet outcome ∧ (P.refusal c s.store).isSome
  early : ∀ {k : ℕ} {c rest}, s.calls[k]? = some ⟨c, .early rest⟩ →
    ∀ test ∈ P.early c, test ∈ rest ∨ ∃ t, test t = none
  reading : ∀ {k : ℕ} {c r}, s.calls[k]? = some ⟨c, .reading r⟩ →
    (∀ test ∈ P.early c, ∃ t, test t = none) ∧ r.eval s.store = (P.body c).eval s.store
  early_known : ∀ {k : ℕ} {c rest}, s.calls[k]? = some ⟨c, .early rest⟩ →
    ∀ test ∈ rest, test ∈ P.early c
  alone : ∀ {i j : ℕ} {a b}, s.calls[i]? = some a → s.calls[j]? = some b → a.phase.HoldsLock →
    b.phase.HoldsLock → i = j

variable {log : List (ℕ × κ × ω)}

/-- A call that has not answered is not on the log. -/
theorem Ordered.notMem (h : Ordered P quiet s log) {call : Call σ κ ν ω}
    (hk : s.calls[k]? = some call) (hphase : ∀ outcome, call.phase ≠ .over outcome) :
    k ∉ log.map (·.1) := by
  intro hmem
  obtain ⟨item, hitem, rfl⟩ := List.mem_map.mp hmem
  have hcall := h.calls item hitem
  rw [hk] at hcall
  cases hcall
  exact hphase _ rfl

/-- A call moves on and the store stays as it is. -/
theorem Ordered.move (h : Ordered P quiet s log) {call : Call σ κ ν ω} {phase : Phase σ ν ω}
    (hk : s.calls[k]? = some call) (hlive : ∀ outcome, call.phase ≠ .over outcome)
    (hover : ∀ outcome, phase = .over outcome →
      quiet outcome ∧ (P.refusal call.call s.store).isSome)
    (hearly : ∀ rest, phase = .early rest →
      (∀ test ∈ P.early call.call, test ∈ rest ∨ ∃ t, test t = none) ∧
        ∀ test ∈ rest, test ∈ P.early call.call)
    (hreading : ∀ r, phase = .reading r → (∀ test ∈ P.early call.call, ∃ t, test t = none) ∧
      r.eval s.store = (P.body call.call).eval s.store)
    (hlock : phase.HoldsLock → call.phase.HoldsLock ∨ ∀ other ∈ s.calls, ¬other.phase.HoldsLock) :
    Ordered P quiet (s.become k call.call phase) log where
  nodup := h.nodup
  calls := by
    intro item hitem
    have hne : k ≠ item.1 := by
      rintro rfl
      exact h.notMem hk hlive (List.mem_map_of_mem hitem)
    exact set_other hne (h.calls item hitem)
  store := h.store
  outcomes := h.outcomes
  refused := by
    intro i c outcome hi
    rcases set_cases hi with ⟨rfl, hcall⟩ | ⟨_, hi'⟩
    · cases hcall
      exact .inr (hover _ rfl)
    · exact h.refused hi'
  early := by
    intro i c rest hi
    rcases set_cases hi with ⟨rfl, hcall⟩ | ⟨_, hi'⟩
    · cases hcall
      exact (hearly _ rfl).1
    · exact h.early hi'
  reading := by
    intro i c r hi
    rcases set_cases hi with ⟨rfl, hcall⟩ | ⟨_, hi'⟩
    · cases hcall
      exact hreading _ rfl
    · exact h.reading hi'
  early_known := by
    intro i c rest hi
    rcases set_cases hi with ⟨rfl, hcall⟩ | ⟨_, hi'⟩
    · cases hcall
      exact (hearly _ rfl).2
    · exact h.early_known hi'
  alone := by
    intro i j a b hi hj ha hb
    have hcalls {m : ℕ} {other : Call σ κ ν ω} (hother : s.calls[m]? = some other)
        (hholds : other.phase.HoldsLock) (hphase : phase.HoldsLock) : m = k := by
      rcases hlock hphase with hcall | hfree
      · exact h.alone hother hk hholds hcall
      · exact absurd hholds (hfree other (List.mem_of_getElem? hother))
    rcases set_cases hi with ⟨rfl, rfl⟩ | ⟨hne, hi'⟩
    · rcases set_cases hj with ⟨rfl, _⟩ | ⟨hne, hj'⟩
      · rfl
      · exact (hcalls hj' hb ha).symm
    · rcases set_cases hj with ⟨rfl, rfl⟩ | ⟨_, hj'⟩
      · exact hcalls hi' ha hb
      · exact h.alone hi' hj' ha hb

/-- A call commits what it found in the store, which nobody has written since. -/
theorem Ordered.commit (hP : P.Sound quiet) (h : Ordered P quiet s log) {verdict : ν}
    (hk : s.calls[k]? = some ⟨c, .reading (.done verdict)⟩) :
    Ordered P quiet { s.become k c (.over (P.write c verdict s.store).1) with
      store := (P.write c verdict s.store).2 }
      (log ++ [(k, c, (P.write c verdict s.store).1)]) := by
  obtain ⟨hearly, heval⟩ := h.reading hk
  have hlocked : P.write c verdict s.store = P.locked c s.store := by
    unfold locked
    rw [← heval]
    rfl
  have hserial : Alike quiet (P.locked c s.store).1 (P.serial c s.store).1 ∧
      (P.serial c s.store).2 = (P.locked c s.store).2 := by
    unfold serial
    cases hrefusal : P.refusal c s.store with
    | none => exact ⟨.inl rfl, rfl⟩
    | some outcome =>
      obtain ⟨hquiet, hstore⟩ := hP.recheck hearly (Option.isSome_of_eq_some hrefusal)
      obtain ⟨test, htest, hsome⟩ := List.exists_of_findSome?_eq_some hrefusal
      exact ⟨.inr ⟨hquiet, hP.early htest hsome⟩, hstore.symm⟩
  have hnotMem := h.notMem hk fun _ heq => by cases heq
  have hreplay : P.replay s.initial ((log ++ [(k, c, (P.write c verdict s.store).1)]).map (·.2.1)) =
      ((P.replay s.initial (log.map (·.2.1))).1 ++ [(P.serial c s.store).1],
        (P.serial c s.store).2) := by
    rw [List.map_append, replay_append, h.store]
    rfl
  constructor
  · rw [List.map_append, List.nodup_append]
    refine ⟨h.nodup, by simp, ?_⟩
    rintro i hi j hj rfl
    obtain rfl := List.mem_singleton.mp hj
    exact hnotMem hi
  · intro item hitem
    rcases List.mem_append.mp hitem with hlog | hlast
    · have hne : k ≠ item.1 := by
        rintro rfl
        exact hnotMem (List.mem_map_of_mem hlog)
      exact set_other hne (h.calls item hlog)
    · obtain rfl := List.mem_singleton.mp hlast
      exact set_self hk
  · have hstore := congrArg Prod.snd hreplay
    rw [hlocked] at hstore ⊢
    exact hstore.trans hserial.2
  · have houtcomes := congrArg Prod.fst hreplay
    rw [List.map_append]
    have hlast : List.Forall₂ (Alike quiet) [(P.write c verdict s.store).1]
        [(P.serial c s.store).1] := by
      rw [hlocked]
      exact .cons hserial.1 .nil
    exact houtcomes ▸ List.rel_append h.outcomes hlast
  · intro i d outcome hi
    rcases set_cases hi with ⟨rfl, hcall⟩ | ⟨_, hi'⟩
    · cases hcall
      exact .inl (by simp)
    · rcases h.refused hi' with hmem | ⟨hquiet, hrefusal⟩
      · exact .inl (List.mem_append_left _ hmem)
      · rw [hlocked]
        exact .inr ⟨hquiet, hP.stable hrefusal⟩
  · intro i d rest hi
    rcases set_cases hi with ⟨_, hcall⟩ | ⟨_, hi'⟩
    · cases hcall
    · exact h.early hi'
  · intro i d r hi
    rcases set_cases hi with ⟨_, hcall⟩ | ⟨hne, hi'⟩
    · cases hcall
    · exact absurd (h.alone hi' hk trivial trivial) hne
  · intro i d rest hi
    rcases set_cases hi with ⟨_, hcall⟩ | ⟨_, hi'⟩
    · cases hcall
    · exact h.early_known hi'
  · intro i j a b hi hj ha hb
    rcases set_cases hi with ⟨_, rfl⟩ | ⟨hne, hi'⟩
    · exact absurd ha id
    · exact absurd (h.alone hi' hk ha trivial) hne

theorem Ordered.begin (h : Ordered P quiet s log) (c : κ) :
    Ordered P quiet { s with calls := s.calls ++ [⟨c, .early (P.early c)⟩] } log where
  nodup := h.nodup
  calls := fun item hitem => begun_other (h.calls item hitem)
  store := h.store
  outcomes := h.outcomes
  refused := by
    intro i d outcome hi
    rcases begun_cases hi with ⟨_, hcall⟩ | hi'
    · cases hcall
    · exact h.refused hi'
  early := by
    intro i d rest hi
    rcases begun_cases hi with ⟨_, hcall⟩ | hi'
    · cases hcall
      exact fun test htest => .inl htest
    · exact h.early hi'
  reading := by
    intro i d r hi
    rcases begun_cases hi with ⟨_, hcall⟩ | hi'
    · cases hcall
    · exact h.reading hi'
  early_known := by
    intro i d rest hi
    rcases begun_cases hi with ⟨_, hcall⟩ | hi'
    · cases hcall
      exact fun _ => id
    · exact h.early_known hi'
  alone := by
    intro i j a b hi hj ha hb
    rcases begun_cases hi with ⟨_, rfl⟩ | hi'
    · exact absurd ha id
    rcases begun_cases hj with ⟨_, rfl⟩ | hj'
    · exact absurd hb id
    exact h.alone hi' hj' ha hb

theorem Ordered.step (hP : P.Sound quiet) (h : Ordered P quiet s log) {a : Action κ}
    (hstep : P.step s a = .ok s') : ∃ log', Ordered P quiet s' log' := by
  cases moves_of_step hstep with
  | begin c => exact ⟨log, h.begin c⟩
  | refused hk htest =>
    have hmem := h.early_known hk _ List.mem_cons_self
    refine ⟨log, h.move hk (by simp) (fun _ heq => ?_) (by simp) (by simp)
      (by simp [Phase.HoldsLock])⟩
    cases heq
    rw [isSome_refusal]
    exact ⟨hP.early hmem htest, _, hmem, by simp [htest]⟩
  | passed hk htest =>
    refine ⟨log, h.move hk (by simp) (by simp) (fun _ heq => ?_) (by simp)
      (by simp [Phase.HoldsLock])⟩
    cases heq
    refine ⟨fun other hother => ?_, fun other hother =>
      h.early_known hk other (List.mem_cons_of_mem _ hother)⟩
    rcases h.early hk other hother with hother | hother
    · rcases List.mem_cons.mp hother with rfl | hother
      · exact .inr ⟨_, htest⟩
      · exact .inl hother
    · exact .inr hother
  | lock hk hfree =>
    refine ⟨log, h.move hk (by simp) (by simp) (by simp) (fun _ heq => ?_) fun _ => .inr hfree⟩
    cases heq
    refine ⟨fun test htest => ?_, rfl⟩
    exact (h.early hk test htest).resolve_left List.not_mem_nil
  | read hk =>
    have hreading := h.reading hk
    refine ⟨log, h.move hk (by simp) (by simp) (by simp) (fun _ heq => ?_) fun _ => .inl trivial⟩
    cases heq
    exact hreading
  | commit hk => exact ⟨_, h.commit hP hk⟩
  | abort hk hlive =>
    exact ⟨log, h.move hk hlive (by simp) (by simp) (by simp) (by simp [Phase.HoldsLock])⟩

theorem exists_ordered (hP : P.Sound quiet) {Start : σ → Prop} (h : (P.machine Start).Reachable s) :
    ∃ log, Ordered P quiet s log := by
  refine Machine.reachable_keeps (I := fun s => ∃ log, Ordered P quiet s log) ?_ ?_ h
  · rintro s ⟨_, hstore, hcalls⟩
    refine ⟨[], by simp, by simp, hstore.symm, .nil, ?_, ?_, ?_, ?_, ?_⟩ <;> simp [hcalls]
  · rintro s a s' ⟨log, hlog⟩ hstep
    exact hlog.step hP hstep

/-- The answered calls below a bound that are not on the log. -/
theorem exists_unlogged (s : State σ κ ν ω) (keys : List ℕ) (n : ℕ) :
    ∃ late : List (ℕ × κ × ω), (late.map (·.1)).Nodup ∧ ∀ k c outcome, (k, c, outcome) ∈ late ↔
      k < n ∧ k ∉ keys ∧ s.calls[k]? = some ⟨c, .over outcome⟩ := by
  induction n with
  | zero => exact ⟨[], by simp, by simp⟩
  | succ n ih =>
    obtain ⟨late, hnodup, hlate⟩ := ih
    by_cases hn : n ∉ keys ∧ ∃ c outcome, s.calls[n]? = some ⟨c, .over outcome⟩
    · obtain ⟨hkeys, c, outcome, hcall⟩ := hn
      refine ⟨late ++ [(n, c, outcome)], ?_, fun k d w => ?_⟩
      · rw [List.map_append, List.nodup_append]
        refine ⟨hnodup, by simp, ?_⟩
        rintro i hi j hj rfl
        obtain rfl := List.mem_singleton.mp hj
        obtain ⟨item, hitem, hfst⟩ := List.mem_map.mp hi
        have hbound := ((hlate item.1 item.2.1 item.2.2).mp hitem).1
        exact absurd hfst (Nat.ne_of_lt hbound)
      · rw [List.mem_append, hlate, List.mem_singleton]
        constructor
        · rintro (⟨hlt, hk⟩ | heq)
          · exact ⟨Nat.lt_succ_of_lt hlt, hk⟩
          · cases heq
            exact ⟨Nat.lt_succ_self n, hkeys, hcall⟩
        · rintro ⟨hlt, hk, hcall'⟩
          rcases Nat.lt_succ_iff_lt_or_eq.mp hlt with hlt | rfl
          · exact .inl ⟨hlt, hk, hcall'⟩
          · rw [hcall] at hcall'
            cases hcall'
            exact .inr rfl
    · refine ⟨late, hnodup, fun k d w => ?_⟩
      rw [hlate]
      constructor
      · rintro ⟨hlt, hk⟩
        exact ⟨Nat.lt_succ_of_lt hlt, hk⟩
      · rintro ⟨hlt, hk, hcall⟩
        rcases Nat.lt_succ_iff_lt_or_eq.mp hlt with hlt | rfl
        · exact ⟨hlt, hk, hcall⟩
        · exact absurd ⟨hk, d, w, hcall⟩ hn

/-- Refused calls made in a row are refused alike. -/
theorem outcomes_refused (hP : P.Sound quiet) {t : σ} {late : List (ℕ × κ × ω)}
    (h : ∀ item ∈ late, quiet item.2.2 ∧ (P.refusal item.2.1 t).isSome) :
    List.Forall₂ (Alike quiet) (late.map (·.2.2)) (P.replay t (late.map (·.2.1))).1 := by
  induction late with
  | nil => exact .nil
  | cons item late ih =>
    obtain ⟨hquiet, hrefusal⟩ := h item List.mem_cons_self
    obtain ⟨outcome, houtcome⟩ := Option.isSome_iff_exists.mp hrefusal
    obtain ⟨test, htest, hsome⟩ := List.exists_of_findSome?_eq_some houtcome
    have hserial : P.serial item.2.1 t = (outcome, t) := by
      unfold serial
      rw [houtcome]
    simp only [List.map_cons, replay, hserial]
    exact .cons (.inr ⟨hquiet, hP.early htest hsome⟩)
      (ih fun other hother => h other (List.mem_cons_of_mem _ hother))

/-- The calls answered so far could have been made one after the other. -/
theorem serialisable (hP : P.Sound quiet) {Start : σ → Prop} (h : (P.machine Start).Reachable s) :
    ∃ log : List (ℕ × κ × ω), (log.map (·.1)).Nodup ∧
      (∀ k c outcome, (k, c, outcome) ∈ log ↔ s.calls[k]? = some ⟨c, .over outcome⟩) ∧
      (P.replay s.initial (log.map (·.2.1))).2 = s.store ∧
      List.Forall₂ (Alike quiet) (log.map (·.2.2))
        (P.replay s.initial (log.map (·.2.1))).1 := by
  obtain ⟨log, hlog⟩ := exists_ordered hP h
  obtain ⟨late, hnodup, hlate⟩ := exists_unlogged s (log.map (·.1)) s.calls.length
  -- the calls refused before the lock come last, where they are still refused
  have hrefused : ∀ item ∈ late, quiet item.2.2 ∧ (P.refusal item.2.1 s.store).isSome := by
    rintro ⟨k, c, outcome⟩ hitem
    obtain ⟨_, hkeys, hcall⟩ := (hlate k c outcome).mp hitem
    rcases hlog.refused hcall with hmem | hrefused
    · exact absurd (List.mem_map_of_mem hmem) hkeys
    · exact hrefused
  have hreplay := replay_append P s.initial (log.map (·.2.1)) (late.map (·.2.1))
  rw [hlog.store] at hreplay
  have hcalls : ∀ c ∈ late.map (·.2.1), (P.refusal c s.store).isSome := by
    intro c hc
    obtain ⟨item, hitem, rfl⟩ := List.mem_map.mp hc
    exact (hrefused item hitem).2
  refine ⟨log ++ late, ?_, fun k c outcome => ?_, ?_, ?_⟩
  · rw [List.map_append, List.nodup_append]
    refine ⟨hlog.nodup, hnodup, ?_⟩
    rintro i hi j hj rfl
    obtain ⟨⟨k, c, outcome⟩, hitem, rfl⟩ := List.mem_map.mp hj
    exact ((hlate k c outcome).mp hitem).2.1 hi
  · rw [List.mem_append, hlate]
    constructor
    · rintro (hmem | ⟨_, _, hcall⟩)
      · exact hlog.calls _ hmem
      · exact hcall
    · intro hcall
      by_cases hkeys : k ∈ log.map (·.1)
      · obtain ⟨item, hitem, rfl⟩ := List.mem_map.mp hkeys
        have hitem' := hlog.calls item hitem
        rw [hcall] at hitem'
        cases hitem'
        exact .inl hitem
      · exact .inr ⟨(List.getElem?_eq_some_iff.mp hcall).1, hkeys, hcall⟩
  · rw [List.map_append, hreplay]
    exact replay_refused hcalls
  · rw [List.map_append, List.map_append, hreplay]
    exact List.rel_append hlog.outcomes (outcomes_refused hP hrefused)

end Order

end Protocol

end Nocturne.Lib
