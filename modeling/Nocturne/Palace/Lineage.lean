import Nocturne.Palace.Laws

namespace Nocturne

open Nocturne.Lib Nocturne.Store Nocturne.Memory Nocturne.Queue Nocturne.Curation
  Nocturne.Symphony Nocturne.Inject

variable {w : World} {p p' : Palace} {call : Call}

namespace Palace

theorem Stepped.writes {s : Store} {action : Action} (h : Stepped w p s action p') :
    Writes .any s p'.store := by
  cases h with
  | create hw => exact hw.mono (.any _)
  | split hw => exact hw.mono (.any _)
  | stage hw => exact hw.mono (.any _)
  | resolve hr =>
    rcases hr with ⟨rfl, _⟩ | ⟨t, hresolves, hrouted⟩
    · exact .refl
    · exact (hrouted.resolve_writes hresolves).mono (.any _)
  | startPatch => exact .refl
  | patch _ hw => exact hw.mono (.any _)
  | startExtract => exact .refl
  | seeded => exact .refl
  | startSeed => exact .refl
  | seedSource _ hw => exact hw.mono (.any _)
  | ingest _ hstep => exact hstep.writes.mono (.any _)
  | startPass => exact drawn_quiet.writes
  | advance _ hstep => exact hstep.writes.mono (.any _)
  | startDecision => exact .refl
  | decide _ _ hr =>
    rcases hr with rfl | hdecided
    · exact .refl
    · exact hdecided.writes.mono (.any _)
  | decideBatch hr => exact hr.writes.mono (.any _)
  | prepare => exact .refl
  | prepareWrite _ _ hw => exact hw.mono (.any _)
  | commit _ hw => exact hw.mono (.any _)
  | feedback _ hw => exact hw.mono (.any _)
  | abandon => exact .refl

end Palace

/-- An accepted transaction is one of the moves `Stepped` lists. -/
theorem stepped_of_step (h : p.store.Lineage) (hstep : (palace w).step p call = .ok p') :
    Palace.Stepped w p (p.store.begin call.session) call.action p' :=
  (Palace.step_meets h).of_ok hstep

/-- Every transaction is a sequence of single writes. -/
theorem writes_of_step (h : p.store.Lineage) (hstep : (palace w).step p call = .ok p') :
    Writes .any p.store p'.store :=
  (begin_quiet call.session).writes.trans (stepped_of_step h hstep).writes

theorem lineage_of_reachable (h : (palace w).Reachable p) : p.store.Lineage := by
  refine Machine.reachable_keeps (I := fun p : Palace => p.store.Lineage) ?_ ?_ h
  · rintro _ ⟨configs, rfl⟩
    exact Lineage.empty rfl rfl
  · exact fun hs hstep => (writes_of_step hs hstep).lineage hs

theorem writes_of_run (h : (palace w).Reachable p) (calls : List Call) :
    Writes .any p.store ((palace w).run p calls).store := by
  refine (Machine.run_keeps (I := fun q : Palace => q.store.Lineage ∧ Writes .any p.store q.store)
    ?_ calls ⟨lineage_of_reachable h, .refl⟩).2
  rintro q call q' ⟨hq, hwrites⟩ hstep
  have hstep := writes_of_step hq hstep
  exact ⟨hstep.lineage hq, hwrites.trans hstep⟩

/-- Heads are never lost, and every later version of one descends from the earlier. -/
theorem descends_of_run (h : (palace w).Reachable p) (calls : List Call) {id : Uuid}
    {u : MemoryUnit} (hu : p.store.units.get? id = some u) :
    ∃ u', ((palace w).run p calls).store.units.get? id = some u' ∧ Descends u u' :=
  (writes_of_run h calls).descends hu

section Exactness

/-- A head update expecting a revision that was already updated is refused. -/
theorem casUpdate_once {s t t' : Store} {command command' : CasUpdate} {u : MemoryUnit}
    {φ : Footprint} (h : s.casUpdateMemoryUnit command = .ok (u, t)) (hwrites : Writes φ t t')
    (hid : command'.memoryId = command.memoryId)
    (hrevision : command'.expectedRevision = command.expectedRevision) (r : MemoryUnit × Store) :
    t'.casUpdateMemoryUnit command' ≠ .ok r := by
  intro hr
  obtain ⟨current, hstep, rfl⟩ := casUpdate_eq_ok.mp h
  obtain ⟨current', hstep', _⟩ := casUpdate_eq_ok.mp hr
  have hfound : t.units.get? command.memoryId = some (s.bumped command.changes current) := by
    rw [hstep.get?_units, if_pos rfl]
  obtain ⟨u', hu', hdesc⟩ := hwrites.descends hfound
  have hsame : u' = current' :=
    Option.some.inj (hu'.symm.trans (hid ▸ hstep'.found))
  have hle := hdesc.le
  rw [bumped_revision, hstep.expected, hsame, hstep'.expected, hrevision] at hle
  omega

end Exactness

/-- From an empty store on, every head has exactly one revision row for each number up to its
own, each hanging off the one before and the newest carrying its text; every transaction is
a sequence of single writes; no update anywhere within one loses its lineage or follows an
update at the same revision, and a refused transaction changes nothing. -/
theorem memory_lineage (h : (palace w).Reachable p) :
    (∀ u ∈ p.store.units.rows, p.store.Chained u) ∧
    (∀ call p', (palace w).step p call = .ok p' → Writes .any p.store p'.store) ∧
    (∀ s, Writes .any p.store s →
      (∀ command id n k, s.casUpdateMemoryUnit command ≠ .error (.memoryLineage id n k)) ∧
      ∀ command u t, s.casUpdateMemoryUnit command = .ok (u, t) → ∀ t', Writes .any t t' →
        ∀ command', command'.memoryId = command.memoryId →
          command'.expectedRevision = command.expectedRevision →
          ∀ r, t'.casUpdateMemoryUnit command' ≠ .ok r) ∧
    (∀ call e, (palace w).step p call = .error e →
      (∀ id n k, e ≠ .memoryLineage id n k) ∧ (palace w).next p call = p) := by
  have hlineage := lineage_of_reachable h
  refine ⟨fun u hu => hlineage.chained hu, fun call p' => writes_of_step hlineage, ?_, ?_⟩
  · refine fun s hs => ⟨fun command id n k herror => ?_, ?_⟩
    · have hmeets : Meets _ SpineError.Lineaged (s.casUpdateMemoryUnit command) :=
        casUpdate_meets .any (hs.lineage hlineage) fun _ _ _ => trivial
      exact hmeets.of_error herror
    · exact fun command u t hok t' hwrites command' => casUpdate_once hok hwrites
  · refine fun call e herror => ⟨?_, Machine.next_of_error herror⟩
    rintro id n k rfl
    exact (Palace.step_meets hlineage).of_error herror

/-- A palace that has saved one memory and edited it. -/
def editedPalace : Palace :=
  (palace default).run ⟨.deployed .empty, []⟩
    [⟨⟨1, [7, 70]⟩, .create (savedMemory "tea" "drinks tea") [1]⟩,
      ⟨⟨2, []⟩, .startPatch
        { memoryId := 7, expectedRevision := 1, body := some "drinks coffee", editor := "user",
          reason := "edit", machineId := "m" } [2]⟩,
      ⟨⟨3, [71]⟩, .patch 0⟩]

theorem memory_lineage_edited :
    (∃ u ∈ editedPalace.store.units.rows, u.revision = 2 ∧ editedPalace.store.Chained u) := by
  have h := (memory_lineage (w := default) (p := editedPalace) ⟨_, _, ⟨_, rfl⟩, rfl⟩).1
  have hrow : ∃ u ∈ editedPalace.store.units.rows, u.revision = 2 := by decide +kernel
  obtain ⟨u, hu, hrev⟩ := hrow
  exact ⟨u, hu, hrev, h u hu⟩

end Nocturne
