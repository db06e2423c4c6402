import Nocturne.Inject.Replay
import Nocturne.Palace.Log

namespace Nocturne

open Nocturne.Lib Nocturne.Store Nocturne.Inject

/-- A batch as an accepted command, and any feedback since, leaves it. -/
structure CommitStands (s : Store) (command : CommitCommand) : Prop where
  lineage : s.Lineage
  plannable : Plannable (members (loadBatch s command.injectionId)) command
  settled : AllSettled s command
  wrong : WrongShown s command

section Stands

variable {s s' : Store} {command : CommitCommand}

theorem commit_stands {r : CommitResponse × Store} (hlineage : s.Lineage)
    (h : commit s command = .ok r) : CommitStands r.2 command where
  lineage := ((commit_meets hlineage).of_ok h).lineage hlineage
  plannable := (commit_redecided h).plannable (commit_plannable h)
  settled := commit_settled h
  wrong := commit_wrongShown h

theorem CommitStands.begin (h : CommitStands s command) (session : Session) :
    CommitStands (s.begin session) command :=
  ⟨h.lineage.congr rfl rfl, h.plannable, h.settled, h.wrong⟩

theorem CommitStands.feedback {signal : FeedbackCommand} (hs : CommitStands s command)
    (h : Inject.feedback s signal = .ok s') : CommitStands s' command where
  lineage := ((feedback_meets hs.lineage).of_ok h).lineage hs.lineage
  plannable := (feedback_redecided h).plannable hs.plannable
  settled := hs.settled.feedback h
  wrong := hs.wrong.feedback hs.lineage h

end Stands

variable {w : World} {p : Palace} {command : CommitCommand}

/-- Calls that send feedback. -/
def Action.Signals : Action → Prop
  | .feedback _ => True
  | _ => False

instance : DecidablePred Action.Signals
  | .feedback _ => isTrue trivial
  | .create .. | .split .. | .stage .. | .resolve .. | .startPatch .. | .patch ..
   | .startExtract .. | .startSeed .. | .seedSource .. | .ingest .. | .startPass ..
   | .advance .. | .startDecision .. | .decide .. | .decideBatch .. | .prepare ..
   | .prepareWrite .. | .commit .. | .abandon .. => isFalse id

theorem commitStands_run {calls : List Call} (hcalls : ∀ call ∈ calls, call.action.Signals)
    (hs : CommitStands p.store command) :
    CommitStands ((palace w).run p calls).store command := by
  refine Machine.along_run (M := palace w) (G := fun _ call => call.action.Signals)
    (I := fun q : Palace => CommitStands q.store command) ?_ (Machine.along_of_forall p hcalls) hs
  rintro q ⟨session, action⟩ q' hq hsignals hstep
  cases stepped_of_step hq.lineage hstep with
  | feedback hfeedback => exact (hq.begin session).feedback hfeedback
  | _ => exact hsignals.elim

/-- However much feedback follows an accepted commit: while the near misses it left alone are
still open, the same command again answers the members still kept, added back or cited and
writes nothing; a command that decides any of its decided members otherwise is refused and
changes nothing. -/
theorem commit_replays (h : (palace w).Reachable p) {session : Session}
    {r : CommitResponse × Store} (hcommit : commit (p.store.begin session) command = .ok r)
    {calls : List Call} (hcalls : ∀ call ∈ calls, call.action.Signals) (session' : Session) :
    let later := (palace w).run ⟨r.2, p.ops⟩ calls
    ((∀ e ∈ members (loadBatch later.store command.injectionId),
        desiredOutcome command e = none → e.outcome = none) →
      ∃ response, commit (later.store.begin session') command =
          .ok (response, later.store.begin session') ∧
        response.finalBlock = batchBlock later.store command.injectionId) ∧
    ∀ command', command'.injectionId = command.injectionId →
      (∃ e ∈ members (loadBatch later.store command.injectionId), ∃ desired,
        desiredOutcome command e = some desired ∧ desiredOutcome command' e ≠ some desired) →
      (∃ err, (palace w).step later ⟨session', .commit command'⟩ = .error err) ∧
        (palace w).next later ⟨session', .commit command'⟩ = later := by
  have hlineage : (p.store.begin session).Lineage := (lineage_of_reachable h).congr rfl rfl
  have hstands := commitStands_run (w := w) (p := ⟨r.2, p.ops⟩) hcalls
    (commit_stands hlineage hcommit)
  have hbegun := hstands.begin session'
  dsimp only
  refine ⟨fun hopen => ?_, ?_⟩
  · exact commit_again hbegun.plannable hbegun.settled hbegun.wrong hopen
  · rintro command' hid ⟨e, he, desired, hd, hne⟩
    obtain ⟨err, herr⟩ := commit_conflict hbegun.settled hid he hd hne
    have hstep : (palace w).step ((palace w).run ⟨r.2, p.ops⟩ calls)
        ⟨session', .commit command'⟩ = .error err := by
      simp only [palace, Palace.step] at herr ⊢
      rw [herr]
      rfl
    exact ⟨⟨err, hstep⟩, Machine.next_of_error hstep⟩

/-- A gate that shows one saved memory. -/
def shownPalace : Palace :=
  (palace default).run savedPalace
    [⟨⟨2, []⟩, .prepare (openedGate 20) [1]⟩, ⟨⟨3, [30]⟩, .prepareWrite 0⟩]

/-- A gate that holds one saved memory back as a near miss. -/
def heldPalace : Palace :=
  (palace default).run savedPalace
    [⟨⟨2, []⟩, .prepare (openedGate 20) [2]⟩, ⟨⟨3, [30]⟩, .prepareWrite 0⟩]

theorem shownPalace_reachable : (palace default).Reachable shownPalace :=
  savedPalace_reachable.run _

attribute [irreducible] shownPalace heldPalace

/-- A card kept at its gate and cited afterwards is kept by the same command again. -/
theorem commit_replays_cited : ∃ r, commit (shownPalace.store.begin ⟨4, []⟩) ⟨30, [], []⟩ = .ok r ∧
    ∃ response, commit (((palace default).run ⟨r.2, shownPalace.ops⟩
        [⟨⟨5, []⟩, .feedback ⟨30, 7, .cited⟩⟩]).store.begin ⟨6, []⟩) ⟨30, [], []⟩ =
      .ok (response, ((palace default).run ⟨r.2, shownPalace.ops⟩
        [⟨⟨5, []⟩, .feedback ⟨30, 7, .cited⟩⟩]).store.begin ⟨6, []⟩) := by
  have hrun : Answers (commit (shownPalace.store.begin ⟨4, []⟩) ⟨30, [], []⟩) fun r =>
      ∀ e ∈ members (loadBatch ((palace default).run ⟨r.2, shownPalace.ops⟩
        [⟨⟨5, []⟩, .feedback ⟨30, 7, .cited⟩⟩]).store 30),
          desiredOutcome ⟨30, [], []⟩ e = none → e.outcome = none := by decide +kernel
  obtain ⟨r, hcommit, hopen⟩ := answers_iff.mp hrun
  have hcalls : ∀ call ∈ ([⟨⟨5, []⟩, .feedback ⟨30, 7, .cited⟩⟩] : List Call),
      call.action.Signals := by decide
  obtain ⟨response, hagain, _⟩ :=
    (commit_replays shownPalace_reachable hcommit hcalls ⟨6, []⟩).1 hopen
  exact ⟨r, hcommit, response, hagain⟩

/-- A near miss left alone is decided by a later command, and added mid-thread it keeps the
first command from being sent again. -/
theorem near_miss_stays_open :
    Answers (commit heldPalace.store ⟨30, [], []⟩) fun first =>
      (∃ e ∈ members (loadBatch first.2 30),
        desiredOutcome ⟨30, [], [7]⟩ e ≠ desiredOutcome ⟨30, [], []⟩ e) ∧
      Answers (commit first.2 ⟨30, [], [7]⟩) (fun second => second.2.units ≠ first.2.units) ∧
      Answers (feedback first.2 ⟨30, 7, .midThreadAdded⟩) fun later =>
        commit later ⟨30, [], []⟩ = .error .outcomeConflict := by
  decide +kernel

end Nocturne
