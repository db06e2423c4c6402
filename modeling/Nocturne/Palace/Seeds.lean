import Nocturne.Palace.Machine
import Nocturne.Queue.Seeds

namespace Nocturne

open Nocturne.Lib Nocturne.Store Nocturne.Memory Nocturne.Queue

variable {w : World} {p : Palace} {embed : String → Embedding} {request : SeedRequest}

section Sending

/-- The request in flight that a sending is. -/
def Queue.Attempt.operation (request : SeedRequest) : Attempt → Operation
  | .asked => .seeding request
  | .admitting admission => .admitting admission
  | .answered .. | .refused => .done

theorem become_self {k : Nat} {op : Operation} (hop : p.ops[k]? = some op) :
    p.become k p.store op = p := by
  obtain ⟨s, ops⟩ := p
  simp only [Palace.become, Palace.mk.injEq, true_and]
  apply List.ext_getElem?
  intro j
  rw [List.getElem?_set]
  split
  · next hj =>
    subst hj
    obtain ⟨hk, _⟩ := List.getElem?_eq_some_iff.mp hop
    rw [if_pos hk, hop]
  · rfl

/-- What a sending does in one transaction, the palace does in one. -/
theorem step_of_attempt {k : Nat} {attempt : Attempt} {x : Store × Attempt} {session : Session}
    (hop : p.ops[k]? = some (attempt.operation request))
    (hstep : Attempt.step w.env embed request (p.store, attempt) session = .ok x) :
    ∃ calls, (palace w).run p calls = p.become k x.1 (x.2.operation request) := by
  cases attempt with
  | asked =>
    simp only [Attempt.step, bind_eq_ok] at hstep
    obtain ⟨r, hr, hstep⟩ := hstep
    obtain rfl := Except.ok.inj hstep
    refine ⟨[⟨session, .seedSource k (embed request.markdown)⟩], Machine.next_of_ok ?_⟩
    simp only [palace, Palace.step, Palace.inFlight, hop, Attempt.operation, Option.bind_some,
      Operation.seeding?, require_some, ok_bind, hr]
    rfl
  | admitting admission =>
    obtain ⟨next, hingest, hafter⟩ := step_admitting hstep
    refine ⟨[⟨session, .ingest k (admission.embedding embed)⟩], Machine.next_of_ok ?_⟩
    simp only [palace, Palace.step, Palace.inFlight, hop, Attempt.operation, Option.bind_some,
      Operation.admitting?, require_some, ok_bind, hingest, hafter]
    cases next with
    | some next => rfl
    | none =>
      cases hunfiled : admission.unfiled <;> simp only [Attempt.after, hunfiled] <;> rfl
  | answered =>
    obtain rfl := Except.ok.inj hstep
    exact ⟨[], (become_self hop).symm⟩
  | refused =>
    obtain rfl := Except.ok.inj hstep
    exact ⟨[], (become_self hop).symm⟩

/-- A sending carried on is a run of the palace. -/
theorem run_of_carryOn {k : Nat} {attempt : Attempt} {x : Store × Attempt} {sessions : List Session}
    (hop : p.ops[k]? = some (attempt.operation request))
    (hcarry : carryOn w.env embed request (p.store, attempt) sessions = .ok x) :
    ∃ calls, (palace w).run p calls = p.become k x.1 (x.2.operation request) := by
  induction sessions generalizing p attempt with
  | nil =>
    obtain rfl := Except.ok.inj hcarry
    exact ⟨[], (become_self hop).symm⟩
  | cons session sessions ih =>
    obtain ⟨y, hstep, hrest⟩ := carryOn_cons.mp hcarry
    obtain ⟨calls, hcalls⟩ := step_of_attempt hop hstep
    have hop' : (p.become k y.1 (y.2.operation request)).ops[k]? =
        some (y.2.operation request) := by
      rw [Palace.get?_become, if_pos rfl, hop]
      rfl
    obtain ⟨later, hlater⟩ := ih hop' hrest
    refine ⟨calls ++ later, ?_⟩
    rw [Machine.run_append, hcalls, hlater]
    simp only [Palace.become, List.set_set]

/-- A request that is not on record yet enters flight. -/
theorem step_startSeed {session : Session}
    (h : sendSeed w.env request (p.store.begin session) = .ok .asked) :
    (palace w).step p ⟨session, .startSeed request⟩ =
      .ok (p.launch (p.store.begin session) (Attempt.asked.operation request)) := by
  simp only [sendSeed, bind_eq_ok] at h
  obtain ⟨_, hvalid, batch, hbatch, h⟩ := h
  cases batch with
  | some cards => cases h
  | none =>
    simp only [palace, Palace.step, hvalid, hbatch, ok_bind]
    rfl

end Sending

section Retry

variable {env : Env} {s₀ s s' : Store} {first attempt : Attempt} {sessions rest : List Session}
  {cards : List Uuid} {duplicates : Nat}

/-- A first attempt, taken as far as `sessions` and, by itself, to its answer in `rest`: sending
the request again where it stopped comes to the same candidates, the same duplicate count and
the same sibling edges exactly where it is resumable. -/
theorem seed_retry (hfirst : sendSeed env request s₀ = .ok first)
    (hstop : carryOn env embed request (s₀, first) sessions = .ok (s, attempt))
    (hdone : carryOn env embed request (s, attempt) rest = .ok (s', .answered cards duplicates)) :
    RetrySafe env embed request s rest (s', .answered cards duplicates) ↔
      attempt.Resumable env embed s := by
  have hvalid : validateSeed.{0} env request = .ok .unit := by
    have hsend := hfirst
    simp only [sendSeed, bind_eq_ok] at hsend
    obtain ⟨_, hvalid, _⟩ := hsend
    exact hvalid
  obtain ⟨_, ⟨_, _, rfl⟩ | ⟨rfl, hbatch⟩⟩ := sendSeed_eq_ok hfirst
  · -- answered at once from what the batch already had
    obtain ⟨rfl, rfl⟩ := Prod.mk.inj (Except.ok.inj (carryOn_answered.symm.trans hstop))
    exact iff_of_true (.same hfirst hdone) trivial
  · cases sessions with
    | nil =>
      obtain ⟨rfl, rfl⟩ := Prod.mk.inj (Except.ok.inj hstop)
      exact iff_of_true (.same hfirst hdone) trivial
    | cons session sessions =>
      obtain ⟨z, hsource, hrest⟩ := carryOn_cons.mp hstop
      have hz : z.2.Kept request z.1 := by
        simp only [Attempt.step, bind_eq_ok] at hsource
        obtain ⟨r, hr, hsource⟩ := hsource
        obtain rfl := Except.ok.inj hsource
        exact seedSource_kept (s := s₀.begin session) hbatch hr
      have hkept : attempt.Kept request s := carryOn_kept hz hrest
      cases attempt with
      | asked => exact hkept.elim
      | admitting admission => exact admitting_retrySafe_iff hkept hvalid hdone
      | answered kept counted =>
        obtain ⟨rfl, heq⟩ := Prod.mk.inj (Except.ok.inj (carryOn_answered.symm.trans hdone))
        obtain ⟨rfl, rfl⟩ := Attempt.answered.inj heq
        obtain ⟨hseeded, htotal⟩ := hkept
        refine iff_of_true ((hseeded.retrySafe_iff hvalid).mpr ⟨?_, ?_, fun _ _ => Iff.rfl⟩) trivial
        · exact fun id => (hseeded.queued id).symm
        · simp only [Attempt.duplicates?, Option.some.injEq]
          omega
      | refused =>
        cases carryOn_refused.symm.trans hdone

/-- A document with one fact to keep. -/
def seededNotes : SeedRequest :=
  { principalId := "owner"
    batchUid := 9
    sourceName := "notes.md"
    sourceSha256 := "Tea, always."
    markdown := "Tea, always."
    machineId := "m"
    editor := "seed-splitter"
    candidates := [offeredCandidate "tea" "drinks tea"] }

def seededSessions : List Session := [⟨1, [7, 70]⟩, ⟨2, [8, 71]⟩, ⟨3, [50]⟩, ⟨4, []⟩]

/-- With its only card filed, the rest of the attempt writes nothing more. -/
theorem seed_retry_filed : ∃ s s' cards duplicates,
    RetrySafe (default : World).env (fun _ => [1]) seededNotes s (seededSessions.drop 3)
      (s', .answered cards duplicates) := by
  have hfirst : Answers (sendSeed (default : World).env seededNotes (.deployed .empty)) fun first =>
      Answers (carryOn (default : World).env (fun _ => [1]) seededNotes (.deployed .empty, first)
        (seededSessions.take 3)) fun x =>
          x.2.Resumable (default : World).env (fun _ => [1]) x.1 ∧
          Answers (carryOn (default : World).env (fun _ => [1]) seededNotes x
            (seededSessions.drop 3)) fun y => y.2.duplicates? = some 0 := by
    decide +kernel
  obtain ⟨first, hfirst, hstop⟩ := answers_iff.mp hfirst
  obtain ⟨⟨s, attempt⟩, hstop, hresumable, hdone⟩ := answers_iff.mp hstop
  obtain ⟨⟨s', answer⟩, hdone, hanswer⟩ := answers_iff.mp hdone
  cases answer with
  | answered cards duplicates =>
    exact ⟨s, s', cards, duplicates, (seed_retry hfirst hstop hdone).mpr hresumable⟩
  | asked | admitting | refused => cases hanswer

/-- Stopped once its source is written, the request sent again answers that its one candidate was
a duplicate. -/
theorem seed_retry_stopped : ∃ x y,
    carryOn (default : World).env (fun _ => [1]) seededNotes (.deployed .empty, .asked)
      (seededSessions.take 1) = .ok x ∧
    carryOn (default : World).env (fun _ => [1]) seededNotes x (seededSessions.drop 1) = .ok y ∧
    y.2 = .answered [8] 0 ∧ sendSeed (default : World).env seededNotes x.1 = .ok (.answered [] 1) ∧
    ¬RetrySafe (default : World).env (fun _ => [1]) seededNotes x.1 (seededSessions.drop 1) y := by
  have hstop : Answers (carryOn (default : World).env (fun _ => [1]) seededNotes
      (.deployed .empty, .asked) (seededSessions.take 1)) fun x =>
        Answers (sendSeed (default : World).env seededNotes x.1) (· = .answered [] 1) ∧
        Answers (carryOn (default : World).env (fun _ => [1]) seededNotes x
          (seededSessions.drop 1)) fun y => y.2 = .answered [8] 0 := by
    decide +kernel
  obtain ⟨x, hstop, hsend, hdone⟩ := answers_iff.mp hstop
  obtain ⟨_, hsend, rfl⟩ := answers_iff.mp hsend
  obtain ⟨y, hdone, hanswer⟩ := answers_iff.mp hdone
  refine ⟨x, y, hstop, hdone, hanswer, hsend, ?_⟩
  rintro ⟨again, hagain, z, hz, hagree⟩
  obtain rfl := Except.ok.inj (hsend.symm.trans hagain)
  obtain rfl := Except.ok.inj (carryOn_answered.symm.trans hz)
  have hduplicates := hagree.duplicates
  rw [hanswer] at hduplicates
  cases hduplicates

end Retry

end Nocturne
