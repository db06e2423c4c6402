import Nocturne.Inject.Counters
import Nocturne.Palace.Lineage

namespace Nocturne

open Nocturne.Lib Nocturne.Store Nocturne.Inject

/-- The transactions of prepare, commit and feedback. -/
def Action.Decides : Action → Prop
  | .prepare .. | .prepareWrite _ | .commit _ | .feedback _ | .abandon _ => True
  | _ => False

instance : DecidablePred Action.Decides := fun action => by
  cases action <;> unfold Action.Decides <;> infer_instance

variable {w : World} {p p' : Palace} {call : Call}

theorem accounted_of_step (hlineage : p.store.Lineage) (hdecides : call.action.Decides)
    (hstep : (palace w).step p call = .ok p') : Accounted p.store p'.store := by
  have hbegun : Accounted (p.store.begin call.session) p'.store := by
    have hstepped := stepped_of_step hlineage hstep
    have hbegin : (p.store.begin call.session).Lineage := hlineage.congr rfl rfl
    obtain ⟨session, action⟩ := call
    cases hstepped with
    | prepare => exact .of_eq rfl rfl
    | prepareWrite _ hwrite => exact prepareWrite_accounted hbegin hwrite
    | commit hcommit => exact commit_accounted hcommit
    | feedback hfeedback => exact feedback_accounted hfeedback
    | abandon => exact .of_eq rfl rfl
    | _ => exact hdecides.elim
  exact ⟨hbegun.counted, hbegun.moved, hbegun.status⟩

section Run

variable {calls : List Call}

/-- Over a run of decisions a head's counts move by the worth of what the log tells. -/
theorem headCount_run (hlineage : p.store.Lineage) (hcalls : ∀ call ∈ calls, call.action.Decides)
    (c : Counter) (id : Uuid) : headCount c id ((palace w).run p calls).store =
      headCount c id p.store +
        (palace w).tally (fun q q' => observed c id q.store q'.store) p calls := by
  refine Machine.run_tally (G := fun _ call => call.action.Decides)
    (I := fun q : Palace => q.store.Lineage) (m := fun q => headCount c id q.store) ?_ ?_
    (Machine.along_of_forall p hcalls) hlineage
  · exact fun q => observed_of_events_eq rfl
  · intro q call q' hq hdecides hstep
    exact ⟨(writes_of_step hq hstep).lineage hq,
      (accounted_of_step hq hdecides hstep).counted c id⟩

/-- Over a run of decisions a row keeps everything but its outcome, which moves along edges. -/
theorem outcome_run (hlineage : p.store.Lineage) (hcalls : ∀ call ∈ calls, call.action.Decides)
    {e : InjectionEvent} (he : e ∈ p.store.events.rows) : ∃ outcome,
      ((palace w).run p calls).store.events.get? e.id = some { e with outcome } ∧
        Relation.ReflTransGen (fun o o' => ∃ d, o' = some d ∧ Edge e.shownAs o d)
          e.outcome outcome := by
  refine (Machine.along_run (M := palace w) (G := fun _ call => call.action.Decides)
    (I := fun q : Palace => q.store.Lineage ∧ ∃ outcome,
      q.store.events.get? e.id = some { e with outcome } ∧
        Relation.ReflTransGen (fun o o' => ∃ d, o' = some d ∧ Edge e.shownAs o d)
          e.outcome outcome) ?_ (Machine.along_of_forall p hcalls)
    ⟨hlineage, e.outcome, Table.get?_of_mem he, .refl⟩).2
  rintro q call q' ⟨hq, outcome, hrow, hpath⟩ hdecides hstep
  obtain ⟨next, hnext, hmove⟩ :=
    (accounted_of_step hq hdecides hstep).moved _ (Table.mem_of_get? hrow)
  refine ⟨(writes_of_step hq hstep).lineage hq, next, hnext, ?_⟩
  rcases hmove with rfl | ⟨o, rfl, hedge⟩
  · exact hpath
  · exact hpath.tail ⟨o, rfl, hedge⟩

end Run

/-- One saved memory. -/
def savedPalace : Palace :=
  (palace default).run plainPalace
    [⟨⟨1, [7, 70]⟩, .create (savedMemory "tea" "drinks tea") [1]⟩]

theorem savedPalace_reachable : (palace default).Reachable savedPalace :=
  ⟨plainPalace, _, ⟨_, rfl⟩, rfl⟩

-- runs are evaluated by the kernel alone
attribute [irreducible] savedPalace

/-- A gate shows a saved memory and its owner never wants to see it again. -/
def neverCalls : List Call :=
  [⟨⟨2, []⟩, .prepare (openedGate 20) [1]⟩, ⟨⟨3, [30]⟩, .prepareWrite 0⟩,
    ⟨⟨4, []⟩, .commit ⟨30, [⟨7, .never⟩], []⟩⟩]

end Nocturne
