import Nocturne.Curation.Cadence
import Nocturne.Lib.Tally
import Nocturne.Store.Footprint

namespace Nocturne.Curation

open Nocturne.Lib

variable {c c' : Cadence} {principalId : String}

section Steps

/-- What each action can do. -/
inductive Cadence.Stepped (c : Cadence) : CadenceAction → Cadence → Prop
  | insert {unit : MemoryUnit} {units : Table Uuid MemoryUnit (·.id)} :
    c.units.insert? unit = some units →
      Stepped c (.insert unit) { c with units, states := tickCuratorWrite c.states none unit }
  | update {unit old : MemoryUnit} : c.units.get? unit.id = some old →
      unit.principalId = old.principalId → Stepped c (.update unit)
        { c with
          units := replaceUnit c.units unit
          states := tickCuratorWrite c.states (some old) unit }
  | approve {approval : CompactionApproval} :
      Stepped c (.approve approval) { c with approvals := c.approvals ++ [approval] }
  | start {principalId : String} {runUid : Ulid} {trigger : Trigger} {now : Time}
    {passes : Table String RunningPass (·.principalId)} :
    c.passes.insert? ⟨principalId, runUid, trigger, .started⟩ = some passes →
      Stepped c (.start principalId runUid trigger now)
        ({ c with passes }.recordProgress principalId runUid .runStarted now)
  | snapshot {pass : RunningPass} : c.passes.get? pass.principalId = some pass →
      pass.phase = .started → Stepped c (.snapshot pass.principalId)
        (c.moved pass (.snapshot (c.triggerSnapshot pass.principalId).1
          (c.triggerSnapshot pass.principalId).2))
  | persist {pass : RunningPass} {admitted pressure : Nat} {error : Option String}
    {runs : Table Ulid CuratorRun (·.runUid)} : c.passes.get? pass.principalId = some pass →
      pass.phase = .snapshot admitted pressure → Stepped c (.persist pass.principalId error)
        ({ c with runs }.moved pass (.persisted admitted pressure error))
  | advance {pass : RunningPass} {admitted pressure : Nat}
    {states : Table String CuratorTriggerState (·.principalId)} :
    c.passes.get? pass.principalId = some pass →
      pass.phase = .persisted admitted pressure none →
      c.advanceCursor pass.principalId admitted pressure = .ok states →
      Stepped c (.advance pass.principalId)
        ({ c with states }.moved pass (.advanced admitted pressure))
  | leave {action : CadenceAction} {progress : List CuratorProgress} {principalId : String} :
    (∀ p, action ≠ .advance p) → (∀ p, action ≠ .snapshot p) →
      Stepped c action ({ c with progress }.unlocked principalId)

theorem step_insert {unit : MemoryUnit} {units : Table Uuid MemoryUnit (·.id)}
    (hunits : c.units.insert? unit = some units) : cadence.step c (.insert unit) =
      .ok { c with units, states := tickCuratorWrite c.states none unit } := by
  change (require (c.units.insert? unit) _ >>= _) = _
  rw [hunits]
  rfl

theorem step_update (unit : MemoryUnit) {old : MemoryUnit} (hold : c.units.get? unit.id = some old)
    (howner : unit.principalId = old.principalId) : cadence.step c (.update unit) =
      .ok { c with
        units := replaceUnit c.units unit
        states := tickCuratorWrite c.states (some old) unit } := by
  change (require (c.units.get? unit.id) _ >>= fun old =>
    ensure (unit.principalId = old.principalId) _ >>= _) = _
  rw [hold, require_some, ok_bind, ensure_pos howner]
  rfl

theorem step_advance {pass : RunningPass} {admitted pressure : Nat}
    {states : Table String CuratorTriggerState (·.principalId)}
    (hpass : c.passes.get? pass.principalId = some pass)
    (hphase : pass.phase = .persisted admitted pressure none)
    (hstates : c.advanceCursor pass.principalId admitted pressure = .ok states) :
    cadence.step c (.advance pass.principalId) =
      .ok ({ c with states }.moved pass (.advanced admitted pressure)) := by
  change (require (c.passes.get? pass.principalId) _ >>= _) = _
  rw [hpass, require_some, ok_bind, hphase]
  dsimp only
  rw [hstates]
  rfl

theorem Cadence.stepped_of_ok {action : CadenceAction} (h : c.step action = .ok c') :
    c.Stepped action c' := by
  cases action with
  | insert unit =>
    simp only [Cadence.step, bind_eq_ok, require_eq_ok, pure_eq_ok] at h
    obtain ⟨units, hunits, rfl⟩ := h
    exact .insert hunits
  | update unit =>
    simp only [Cadence.step, bind_eq_ok, require_eq_ok, ensure_eq_ok, pure_eq_ok] at h
    obtain ⟨old, hold, _, howner, rfl⟩ := h
    exact .update hold howner
  | approve approval =>
    obtain rfl := Except.ok.inj h
    exact .approve
  | start principalId runUid trigger now =>
    simp only [Cadence.step, bind_eq_ok, require_eq_ok, pure_eq_ok] at h
    obtain ⟨passes, hpasses, rfl⟩ := h
    exact .start hpasses
  | snapshot principalId =>
    simp only [Cadence.step, bind_eq_ok, require_eq_ok, ensure_eq_ok, pure_eq_ok] at h
    obtain ⟨pass, hpass, _, hphase, rfl⟩ := h
    obtain rfl := Table.key_of_get? hpass
    exact .snapshot hpass hphase
  | persist principalId error =>
    simp only [Cadence.step, bind_eq_ok, require_eq_ok] at h
    obtain ⟨pass, hpass, h⟩ := h
    obtain rfl := Table.key_of_get? hpass
    split at h
    · next hphase =>
      simp only [bind_eq_ok, require_eq_ok, pure_eq_ok] at h
      obtain ⟨runs, _, rfl⟩ := h
      exact .persist hpass hphase
    · cases h
  | advance principalId =>
    simp only [Cadence.step, bind_eq_ok, require_eq_ok] at h
    obtain ⟨pass, hpass, h⟩ := h
    obtain rfl := Table.key_of_get? hpass
    split at h
    · next hphase =>
      simp only [bind_eq_ok, pure_eq_ok] at h
      obtain ⟨states, hstates, rfl⟩ := h
      exact .advance hpass hphase hstates
    · cases h
  | finish principalId now =>
    simp only [Cadence.step, bind_eq_ok, require_eq_ok] at h
    obtain ⟨pass, _, h⟩ := h
    split at h
    · obtain rfl := Except.ok.inj h
      exact .leave (by simp) (by simp)
    · obtain rfl := Except.ok.inj h
      exact .leave (by simp) (by simp)
    · cases h
  | fail principalId now =>
    simp only [Cadence.step, bind_eq_ok, require_eq_ok, pure_eq_ok] at h
    obtain ⟨pass, _, rfl⟩ := h
    exact .leave (by simp) (by simp)
  | crash principalId =>
    obtain rfl := Except.ok.inj h
    exact @Cadence.Stepped.leave _ _ c.progress _ (by simp) (by simp)

end Steps

section Counts

/-- A principal's counts; a principal without a row has counted nothing. -/
def Cadence.stateOf (c : Cadence) (principalId : String) : CuratorTriggerState :=
  (c.states.get? principalId).getD ⟨principalId, 0, 0, 0, 0⟩

theorem Cadence.triggerSnapshot_eq (c : Cadence) (principalId : String) :
    c.triggerSnapshot principalId =
      ((c.stateOf principalId).admittedWrites, (c.stateOf principalId).pressureEvents) := by
  unfold triggerSnapshot stateOf
  cases c.states.get? principalId <;> rfl

theorem writeDelta_self (u : MemoryUnit) : writeDelta (some u) u = 0 := by
  simp [writeDelta]

theorem pressureDelta_self (u : MemoryUnit) : pressureDelta (some u) u = 0 := by
  simp [pressureDelta]

/-- The row a principal's counts are in after a trigger has fired. -/
theorem stateOf_tick (c c' : Cadence) {old : Option MemoryUnit} {new : MemoryUnit}
    (hstates : c'.states = tickCuratorWrite c.states old new) (principalId : String) :
    c'.stateOf principalId =
      if new.principalId = principalId then
        { c.stateOf principalId with
          admittedWrites := (c.stateOf principalId).admittedWrites + writeDelta old new
          pressureEvents := (c.stateOf principalId).pressureEvents + pressureDelta old new }
      else c.stateOf principalId := by
  unfold Cadence.stateOf
  rw [hstates, tickCuratorWrite]
  by_cases hmoved : 0 < writeDelta old new ∨ 0 < pressureDelta old new
  · rw [if_pos hmoved, Table.get?_upsert]
    by_cases hown : new.principalId = principalId
    · rw [if_pos hown.symm, if_pos hown]
      cases c.states.get? principalId <;> simp [hown]
    · rw [if_neg (Ne.symm hown), if_neg hown]
  · rw [if_neg hmoved]
    have hwrite : writeDelta old new = 0 := by omega
    have hpressure : pressureDelta old new = 0 := by omega
    simp [hwrite, hpressure]

/-- What the row writes of one step count for a principal. -/
def counted (delta : Option MemoryUnit → MemoryUnit → Nat) (principalId : String)
    (c c' : Cadence) : Nat :=
  (c'.units.rows.map fun u =>
    if u.principalId = principalId then delta (c.units.get? u.id) u else 0).sum

variable {delta : Option MemoryUnit → MemoryUnit → Nat}

/-- Only the row written counts. -/
theorem counted_write (hself : ∀ u, delta (some u) u = 0) {unit : MemoryUnit}
    (hunit : unit ∈ c'.units.rows)
    (hothers : ∀ u ∈ c'.units.rows, u.id ≠ unit.id → c.units.get? u.id = some u) :
    counted delta principalId c c' =
      if unit.principalId = principalId then delta (c.units.get? unit.id) unit else 0 := by
  apply Table.sum_map_eq hunit
  intro u hu hne
  rw [hothers u hu hne, hself u, ite_self]

theorem counted_same (hself : ∀ u, delta (some u) u = 0) (hunits : c'.units = c.units) :
    counted delta principalId c c' = 0 := by
  apply List.sum_eq_zero
  intro n hn
  obtain ⟨u, hu, rfl⟩ := List.mem_map.mp hn
  rw [hunits] at hu
  rw [Table.get?_of_mem hu, hself u, ite_self]

theorem counted_insert (hself : ∀ u, delta (some u) u = 0) {unit : MemoryUnit}
    (hunits : c.units.insert? unit = some c'.units) : counted delta principalId c c' =
      if unit.principalId = principalId then delta none unit else 0 := by
  obtain ⟨hfresh, hrows⟩ := Table.insert?_eq_some.mp hunits
  have hmem (u : MemoryUnit) : u ∈ c'.units.rows ↔ u ∈ c.units.rows ∨ u = unit := by
    rw [hrows, Table.rows_insert, List.mem_append, List.mem_singleton]
  rw [counted_write hself ((hmem unit).mpr (.inr rfl)), hfresh]
  intro u hu hne
  rcases (hmem u).mp hu with hold | rfl
  · exact Table.get?_of_mem hold
  · exact absurd rfl hne

theorem mem_replaceUnit {units : Table Uuid MemoryUnit (·.id)} {unit old u : MemoryUnit}
    (hold : units.get? unit.id = some old) :
    u ∈ (replaceUnit units unit).rows ↔ u = unit ∨ u.id ≠ unit.id ∧ u ∈ units.rows := by
  simp only [replaceUnit, Table.mem_modify]
  constructor
  · rintro ⟨r, hr, rfl⟩
    by_cases hid : r.id = unit.id
    · simp [hid]
    · simp [hid, hr]
  · rintro (rfl | ⟨hid, hu⟩)
    · exact ⟨old, Table.mem_of_get? hold, by simp [Table.key_of_get? hold]⟩
    · exact ⟨u, hu, by simp [hid]⟩

theorem counted_update (hself : ∀ u, delta (some u) u = 0) {unit old : MemoryUnit}
    (hold : c.units.get? unit.id = some old) (hunits : c'.units = replaceUnit c.units unit) :
    counted delta principalId c c' =
      if unit.principalId = principalId then delta (some old) unit else 0 := by
  have hmem (u : MemoryUnit) :
      u ∈ c'.units.rows ↔ u = unit ∨ u.id ≠ unit.id ∧ u ∈ c.units.rows := by
    rw [hunits, mem_replaceUnit hold]
  rw [counted_write hself ((hmem unit).mpr (.inl rfl)), hold]
  intro u hu hne
  rcases (hmem u).mp hu with rfl | ⟨_, hmem⟩
  · exact absurd rfl hne
  · exact Table.get?_of_mem hmem

end Counts

section Invariant

/-- Cursors stay within the counts, and a pass has read between the two. -/
structure Cadence.Sound (c : Cadence) : Prop where
  checked : ∀ row ∈ c.states.rows, row.Checked
  read : ∀ pass ∈ c.passes.rows, ∀ counts ∈ pass.phase.counts,
    ((c.stateOf pass.principalId).lastRunWrites ≤ counts.1 ∧
      counts.1 ≤ (c.stateOf pass.principalId).admittedWrites) ∧
    (c.stateOf pass.principalId).lastRunPressure ≤ counts.2 ∧
      counts.2 ≤ (c.stateOf pass.principalId).pressureEvents

theorem Cadence.Sound.stateOf (h : c.Sound) (principalId : String) :
    (c.stateOf principalId).Checked := by
  unfold Cadence.stateOf
  cases hrow : c.states.get? principalId with
  | none => exact ⟨le_rfl, le_rfl⟩
  | some row => exact h.checked row (Table.mem_of_get? hrow)

/-- A completed pass stores what it has read, and nothing else moves. -/
theorem stateOf_advanceCursor (c' : Cadence) {admitted pressure : Nat}
    {states : Table String CuratorTriggerState (·.principalId)}
    (hread : admitted ≤ (c.stateOf principalId).admittedWrites ∧
      pressure ≤ (c.stateOf principalId).pressureEvents)
    (hok : c.advanceCursor principalId admitted pressure = .ok states)
    (hstates : c'.states = states) (other : String) :
    c'.stateOf other =
      if other = principalId then
        { c.stateOf principalId with
          lastRunWrites := admitted
          lastRunPressure := pressure }
      else c.stateOf other := by
  simp only [Cadence.advanceCursor, bind_eq_ok, ensure_eq_ok, pure_eq_ok] at hok
  obtain ⟨_, _, rfl⟩ := hok
  unfold Cadence.stateOf at hread ⊢
  rw [hstates, Table.get?_upsert]
  by_cases hown : other = principalId
  · subst hown
    rw [if_pos rfl, if_pos rfl]
    cases hrow : c.states.get? other with
    | some row => simp
    | none =>
      -- a principal that has counted nothing has been read as nothing
      rw [hrow] at hread
      obtain ⟨hadmitted, hpressure⟩ := hread
      simp only [Option.getD_none, Nat.le_zero] at hadmitted hpressure
      simp [hadmitted, hpressure]
  · rw [if_neg hown, if_neg hown]

theorem stateOf_of_mem {row : CuratorTriggerState} (h : row ∈ c.states.rows) :
    c.stateOf row.principalId = row := by
  rw [Cadence.stateOf, Table.get?_of_mem h]
  rfl

/-- How one step moves a principal's row: counts rise by what its row writes count, and the
cursors move only with a completed pass. -/
structure Moves (principalId : String) (c c' : Cadence) : Prop where
  writes : (c'.stateOf principalId).admittedWrites =
    (c.stateOf principalId).admittedWrites + counted writeDelta principalId c c'
  pressure : (c'.stateOf principalId).pressureEvents =
    (c.stateOf principalId).pressureEvents + counted pressureDelta principalId c c'

theorem Moves.of_same (hunits : c'.units = c.units)
    (hcounts : (c'.stateOf principalId).admittedWrites = (c.stateOf principalId).admittedWrites ∧
      (c'.stateOf principalId).pressureEvents = (c.stateOf principalId).pressureEvents) :
    Moves principalId c c' := by
  refine ⟨?_, ?_⟩
  · rw [counted_same writeDelta_self hunits, hcounts.1, Nat.add_zero]
  · rw [counted_same pressureDelta_self hunits, hcounts.2, Nat.add_zero]

theorem Cadence.Sound.read_advancing {pass : RunningPass} {admitted pressure : Nat}
    {error : Option String} (h : c.Sound) (hpass : c.passes.get? pass.principalId = some pass)
    (hphase : pass.phase = .persisted admitted pressure error) :
    ((c.stateOf pass.principalId).lastRunWrites ≤ admitted ∧
      admitted ≤ (c.stateOf pass.principalId).admittedWrites) ∧
    (c.stateOf pass.principalId).lastRunPressure ≤ pressure ∧
      pressure ≤ (c.stateOf pass.principalId).pressureEvents :=
  h.read pass (Table.mem_of_get? hpass) (admitted, pressure) (by simp [hphase, PassPhase.counts])

theorem Cadence.Stepped.moves {action : CadenceAction} (h : c.Stepped action c') (hs : c.Sound)
    (principalId : String) : Moves principalId c c' := by
  cases h with
  | @insert unit units hunits =>
    have hstate := stateOf_tick c
      { c with units, states := tickCuratorWrite c.states none unit } rfl principalId
    refine ⟨?_, ?_⟩
    · rw [counted_insert writeDelta_self hunits, hstate]
      split <;> rfl
    · rw [counted_insert pressureDelta_self hunits, hstate]
      split <;> rfl
  | @update unit old hold howner =>
    have hstate := stateOf_tick c
      { c with
        units := replaceUnit c.units unit
        states := tickCuratorWrite c.states (some old) unit } rfl principalId
    refine ⟨?_, ?_⟩
    · rw [counted_update writeDelta_self hold rfl, hstate]
      split <;> rfl
    · rw [counted_update pressureDelta_self hold rfl, hstate]
      split <;> rfl
  | approve => exact .of_same rfl ⟨rfl, rfl⟩
  | start => exact .of_same rfl ⟨rfl, rfl⟩
  | snapshot => exact .of_same rfl ⟨rfl, rfl⟩
  | persist => exact .of_same rfl ⟨rfl, rfl⟩
  | @advance pass admitted pressure states hpass hphase hok =>
    have hread := hs.read_advancing hpass hphase
    have hstate := stateOf_advanceCursor
      ({ c with states }.moved pass (.advanced admitted pressure)) ⟨hread.1.2, hread.2.2⟩ hok
      rfl principalId
    refine .of_same rfl ?_
    rw [hstate]
    split
    · next hown => exact ⟨by rw [hown], by rw [hown]⟩
    · exact ⟨rfl, rfl⟩
  | leave => exact .of_same rfl ⟨rfl, rfl⟩

/-- The cursors stand still until a pass of their principal completes. -/
theorem Cadence.Stepped.cursor {action : CadenceAction} (h : c.Stepped action c') (hs : c.Sound)
    (hother : action ≠ .advance principalId) :
    (c'.stateOf principalId).lastRunWrites = (c.stateOf principalId).lastRunWrites ∧
      (c'.stateOf principalId).lastRunPressure = (c.stateOf principalId).lastRunPressure := by
  cases h with
  | @insert unit units hunits =>
    rw [stateOf_tick c
      { c with units, states := tickCuratorWrite c.states none unit } rfl principalId]
    split <;> exact ⟨rfl, rfl⟩
  | @update unit old hold howner =>
    rw [stateOf_tick c
      { c with
        units := replaceUnit c.units unit
        states := tickCuratorWrite c.states (some old) unit } rfl principalId]
    split <;> exact ⟨rfl, rfl⟩
  | approve => exact ⟨rfl, rfl⟩
  | start => exact ⟨rfl, rfl⟩
  | snapshot => exact ⟨rfl, rfl⟩
  | persist => exact ⟨rfl, rfl⟩
  | @advance pass admitted pressure states hpass hphase hok =>
    have hread := hs.read_advancing hpass hphase
    have hne : principalId ≠ pass.principalId := fun heq => hother (by rw [heq])
    have hstate := stateOf_advanceCursor
      ({ c with states }.moved pass (.advanced admitted pressure)) ⟨hread.1.2, hread.2.2⟩ hok
      rfl principalId
    rw [hstate, if_neg hne]
    exact ⟨rfl, rfl⟩
  | leave => exact ⟨rfl, rfl⟩

/-- Counts that only rose keep what a pass has read within them. -/
theorem Cadence.Sound.move (h : c.Sound)
    (hmoves : ∀ principalId, Moves principalId c c')
    (hcursor : ∀ principalId,
      (c'.stateOf principalId).lastRunWrites = (c.stateOf principalId).lastRunWrites ∧
        (c'.stateOf principalId).lastRunPressure = (c.stateOf principalId).lastRunPressure)
    (hpasses : ∀ pass ∈ c'.passes.rows, pass.phase.counts = none ∨
      (∃ old ∈ c.passes.rows, old.principalId = pass.principalId ∧
        old.phase.counts = pass.phase.counts) ∨
      pass.phase.counts = some (c.triggerSnapshot pass.principalId)) : c'.Sound := by
  have hchecked (principalId : String) : (c'.stateOf principalId).Checked := by
    obtain ⟨hwrites, hpressure⟩ := h.stateOf principalId
    have hmoves := hmoves principalId
    have hcursor := hcursor principalId
    constructor
    · rw [hmoves.writes, hcursor.1]
      omega
    · rw [hmoves.pressure, hcursor.2]
      omega
  refine ⟨fun row hrow => stateOf_of_mem hrow ▸ hchecked row.principalId, ?_⟩
  intro pass hpass counts hcounts
  have hmoves := hmoves pass.principalId
  have hcursor := hcursor pass.principalId
  have hbefore : ((c.stateOf pass.principalId).lastRunWrites ≤ counts.1 ∧
      counts.1 ≤ (c.stateOf pass.principalId).admittedWrites) ∧
      (c.stateOf pass.principalId).lastRunPressure ≤ counts.2 ∧
        counts.2 ≤ (c.stateOf pass.principalId).pressureEvents := by
    rcases hpasses pass hpass with hnone | ⟨old, hold, hown, hsame⟩ | hread
    · rw [hnone] at hcounts
      cases hcounts
    · rw [← hown]
      exact h.read old hold counts (hsame ▸ hcounts)
    · rw [hread, Option.mem_some_iff, Cadence.triggerSnapshot_eq] at hcounts
      obtain ⟨hwrites, hpressure⟩ := h.stateOf pass.principalId
      rw [← hcounts]
      exact ⟨⟨hwrites, le_rfl⟩, hpressure, le_rfl⟩
  rw [hmoves.writes, hmoves.pressure, hcursor.1, hcursor.2]
  omega

theorem mem_moved {pass row : RunningPass} {phase : PassPhase}
    (h : row ∈ (c.moved pass phase).passes.rows)
    (hpass : c.passes.get? pass.principalId = some pass) :
    row = { pass with phase } ∨ row ∈ c.passes.rows ∧ row.principalId ≠ pass.principalId := by
  simp only [Cadence.moved, Table.mem_modify] at h
  obtain ⟨old, hold, rfl⟩ := h
  by_cases hown : old.principalId = pass.principalId
  · have hsame : old = pass := by
      have hget := Table.get?_of_mem hold
      rw [hown, hpass] at hget
      exact (Option.some.inj hget).symm
    left
    rw [if_pos hown, hsame]
  · right
    rw [if_neg hown]
    exact ⟨hold, hown⟩

theorem Cadence.Stepped.sound {action : CadenceAction} (h : c.Stepped action c') (hs : c.Sound) :
    c'.Sound := by
  have hkept (hadvance : ∀ p, action ≠ .advance p) := hs.move (h.moves hs)
    fun p => h.cursor hs (hadvance p)
  have hold {pass : RunningPass} (hpass : pass ∈ c.passes.rows) : pass.phase.counts = none ∨
      (∃ old ∈ c.passes.rows, old.principalId = pass.principalId ∧
        old.phase.counts = pass.phase.counts) ∨
      pass.phase.counts = some (c.triggerSnapshot pass.principalId) :=
    .inr (.inl ⟨pass, hpass, rfl, rfl⟩)
  cases h with
  | insert | update | approve => exact hkept nofun fun pass hpass => hold hpass
  | start hpasses =>
    refine hkept nofun fun pass hpass => ?_
    obtain ⟨hfresh, rfl⟩ := Table.insert?_eq_some.mp hpasses
    rcases List.mem_append.mp hpass with hpass | hnew
    · exact hold hpass
    · rw [List.mem_singleton.mp hnew]
      exact .inl rfl
  | snapshot hpass =>
    refine hkept nofun fun row hrow => ?_
    rcases mem_moved hrow hpass with rfl | ⟨hrow, _⟩
    · exact .inr (.inr rfl)
    · exact hold hrow
  | persist hpass hphase =>
    refine hkept nofun fun row hrow => ?_
    rcases mem_moved (c := { c with runs := _ }) hrow hpass with rfl | ⟨hrow, _⟩
    · refine .inr (.inl ⟨_, Table.mem_of_get? hpass, rfl, ?_⟩)
      rw [hphase]
      rfl
    · exact hold hrow
  | @advance pass admitted pressure states hpass hphase hok =>
    have hread := hs.read_advancing hpass hphase
    have hstate := stateOf_advanceCursor
      ({ c with states }.moved pass (.advanced admitted pressure)) ⟨hread.1.2, hread.2.2⟩ hok rfl
    refine ⟨fun row hrow => ?_, fun row hrow counts hcounts => ?_⟩
    · rw [← stateOf_of_mem hrow, hstate]
      split
      · exact ⟨hread.1.2, hread.2.2⟩
      · exact hs.stateOf row.principalId
    · rcases mem_moved (c := { c with states }) hrow hpass with rfl | ⟨hrow, hother⟩
      · obtain rfl : (admitted, pressure) = counts := by simpa [PassPhase.counts] using hcounts
        rw [hstate, if_pos rfl]
        exact ⟨⟨le_rfl, hread.1.2⟩, le_rfl, hread.2.2⟩
      · rw [hstate, if_neg hother]
        exact hs.read row hrow counts hcounts
  | leave hadvance =>
    exact hkept hadvance fun pass hpass => hold (List.mem_of_mem_filter hpass)

end Invariant

section Runs

/-- Writes counted since the last completed pass read the count. -/
def writesOutstanding (principalId : String) (c : Cadence) : Nat :=
  (c.stateOf principalId).admittedWrites - (c.stateOf principalId).lastRunWrites

def pressureOutstanding (principalId : String) (c : Cadence) : Nat :=
  (c.stateOf principalId).pressureEvents - (c.stateOf principalId).lastRunPressure

/-- The heads a run made active. -/
def admissions (principalId : String) (c : Cadence) (actions : List CadenceAction) : Nat :=
  cadence.tally (counted writeDelta principalId) c actions

/-- The removals a run counted on active heads. -/
def removals (principalId : String) (c : Cadence) (actions : List CadenceAction) : Nat :=
  cadence.tally (counted pressureDelta principalId) c actions

theorem Cadence.sound_step {action : CadenceAction} (hs : c.Sound)
    (hstep : cadence.step c action = .ok c') : c'.Sound :=
  (Cadence.stepped_of_ok hstep).sound hs

theorem sound_of_reachable (h : cadence.Reachable c) : c.Sound := by
  refine Machine.reachable_keeps ?_ Cadence.sound_step h
  rintro _ ⟨units, rfl⟩
  refine ⟨fun row hrow => ?_, fun pass hpass => absurd hpass List.not_mem_nil⟩
  obtain ⟨_, _, rfl⟩ := List.mem_map.mp hrow
  exact ⟨le_rfl, le_rfl⟩

variable {actions : List CadenceAction}

/-- Over any run the counts rise by exactly what its row writes count. -/
theorem counts_run (hs : c.Sound) (principalId : String) (actions : List CadenceAction) :
    ((cadence.run c actions).stateOf principalId).admittedWrites =
      (c.stateOf principalId).admittedWrites + admissions principalId c actions ∧
    ((cadence.run c actions).stateOf principalId).pressureEvents =
      (c.stateOf principalId).pressureEvents + removals principalId c actions := by
  constructor
  · refine Machine.run_tally (M := cadence) (I := Cadence.Sound)
      (m := fun c => (c.stateOf principalId).admittedWrites)
      (fun _ => counted_same writeDelta_self rfl) (fun hs _ hstep => ?_)
      (Machine.along_true c actions) hs
    exact ⟨Cadence.sound_step hs hstep,
      ((Cadence.stepped_of_ok hstep).moves hs principalId).writes⟩
  · refine Machine.run_tally (M := cadence) (I := Cadence.Sound)
      (m := fun c => (c.stateOf principalId).pressureEvents)
      (fun _ => counted_same pressureDelta_self rfl) (fun hs _ hstep => ?_)
      (Machine.along_true c actions) hs
    exact ⟨Cadence.sound_step hs hstep,
      ((Cadence.stepped_of_ok hstep).moves hs principalId).pressure⟩

theorem cursor_run (hs : c.Sound)
    (hnone : ∀ action ∈ actions, action ≠ .advance principalId) :
    (cadence.run c actions).Sound ∧
    ((cadence.run c actions).stateOf principalId).lastRunWrites =
      (c.stateOf principalId).lastRunWrites ∧
    ((cadence.run c actions).stateOf principalId).lastRunPressure =
      (c.stateOf principalId).lastRunPressure := by
  refine Machine.along_run (M := cadence) (G := fun _ action => action ≠ .advance principalId)
    (I := fun d => d.Sound ∧
      (d.stateOf principalId).lastRunWrites = (c.stateOf principalId).lastRunWrites ∧
      (d.stateOf principalId).lastRunPressure = (c.stateOf principalId).lastRunPressure)
    ?_ (Machine.along_of_forall c hnone) ⟨hs, rfl, rfl⟩
  rintro d action d' ⟨hd, hwrites, hpressure⟩ hother hstep
  obtain ⟨hwrites', hpressure'⟩ := (Cadence.stepped_of_ok hstep).cursor hd hother
  exact ⟨Cadence.sound_step hd hstep, hwrites'.trans hwrites, hpressure'.trans hpressure⟩

/-- Without a completed pass nothing outstanding is lost: it grows by what is counted. -/
theorem outstanding_run (hs : c.Sound)
    (hnone : ∀ action ∈ actions, action ≠ .advance principalId) :
    writesOutstanding principalId (cadence.run c actions) =
      writesOutstanding principalId c + admissions principalId c actions ∧
    pressureOutstanding principalId (cadence.run c actions) =
      pressureOutstanding principalId c + removals principalId c actions := by
  obtain ⟨hwrites, hpressure⟩ := counts_run hs principalId actions
  obtain ⟨_, hwritten, hpressed⟩ := cursor_run hs hnone
  obtain ⟨hle, hle'⟩ := hs.stateOf principalId
  simp only [writesOutstanding, pressureOutstanding, hwrites, hpressure, hwritten, hpressed]
  omega

/-- The pass in flight, if there is one, has read these counts. -/
def HasRead (principalId : String) (counts : Nat × Nat) (c : Cadence) : Prop :=
  ∀ pass ∈ c.passes.get? principalId, pass.phase.counts = some counts

def CadenceAction.Starts (principalId : String) : CadenceAction → Prop
  | .start principalId' .. => principalId' = principalId
  | _ => False

theorem HasRead.moved {pass : RunningPass} {phase : PassPhase} {counts : Nat × Nat}
    (h : HasRead principalId counts c) (hpass : c.passes.get? pass.principalId = some pass)
    (hphase : pass.principalId = principalId → phase.counts = pass.phase.counts) :
    HasRead principalId counts (c.moved pass phase) := by
  intro row hrow
  have hget : (c.moved pass phase).passes.get? principalId = some row := hrow
  have hkey := Table.key_of_get? hget
  rcases mem_moved (Table.mem_of_get? hget) hpass with rfl | ⟨hmem, _⟩
  · have hown : pass.principalId = principalId := hkey
    rw [hphase hown]
    exact h pass (hown ▸ hpass)
  · apply h row
    have hown : row.principalId = principalId := hkey
    exact hown ▸ Table.get?_of_mem hmem

theorem HasRead.step {counts : Nat × Nat} {action : CadenceAction}
    (h : HasRead principalId counts c) (hstep : c.Stepped action c')
    (hstart : ¬action.Starts principalId) : HasRead principalId counts c' := by
  cases hstep with
  | insert | update | approve => exact h
  | start hpasses =>
    obtain ⟨hfresh, rfl⟩ := Table.insert?_eq_some.mp hpasses
    intro pass hpass
    apply h pass
    have hne : principalId ≠ _ := fun heq => hstart heq.symm
    rw [← Table.get?_insert_of_ne (h := hfresh) hne]
    exact hpass
  | snapshot hpass hphase =>
    refine h.moved hpass fun hown => ?_
    have hread := h _ (hown ▸ hpass)
    rw [hphase] at hread
    cases hread
  | persist hpass hphase =>
    refine HasRead.moved (c := { c with runs := _ }) h hpass fun _ => ?_
    rw [hphase]
    rfl
  | advance hpass hphase =>
    refine HasRead.moved (c := { c with states := _ }) h hpass fun _ => ?_
    rw [hphase]
    rfl
  | leave =>
    intro pass hpass
    have hget := Table.get?_erase (t := c.passes) (k := _) principalId ▸ hpass
    split at hget
    · cases hget
    · exact h pass hget

theorem HasRead.run {counts : Nat × Nat} (h : HasRead principalId counts c)
    (hstart : ∀ action ∈ actions, ¬action.Starts principalId) :
    HasRead principalId counts (cadence.run c actions) := by
  refine Machine.along_run (M := cadence) (G := fun _ action => ¬action.Starts principalId)
    (I := HasRead principalId counts) (fun hread hother hstep => ?_)
    (Machine.along_of_forall c hstart) h
  exact hread.step (Cadence.stepped_of_ok hstep) hother

theorem hasRead_snapshot (hstep : cadence.step c (.snapshot principalId) = .ok c') :
    HasRead principalId (c.triggerSnapshot principalId) c' ∧
      c'.stateOf principalId = c.stateOf principalId := by
  generalize haction : CadenceAction.snapshot principalId = action at hstep
  cases Cadence.stepped_of_ok hstep with
  | @snapshot pass hpass hphase =>
    obtain rfl := CadenceAction.snapshot.inj haction
    refine ⟨fun row hrow => ?_, rfl⟩
    have hget : (c.moved pass _).passes.get? pass.principalId = some row := hrow
    rcases mem_moved (Table.mem_of_get? hget) hpass with rfl | ⟨_, hother⟩
    · rfl
    · exact absurd (Table.key_of_get? hget) hother
  | leave _ hsnapshot => exact absurd haction.symm (hsnapshot principalId)
  | _ => cases haction

/-- A completed pass moves its principal's cursors to what it has read. -/
theorem cursor_advance {counts : Nat × Nat} (hs : c.Sound) (hread : HasRead principalId counts c)
    (hstep : cadence.step c (.advance principalId) = .ok c') :
    (c'.stateOf principalId).lastRunWrites = counts.1 ∧
      (c'.stateOf principalId).lastRunPressure = counts.2 ∧ c'.units = c.units := by
  generalize haction : CadenceAction.advance principalId = action at hstep
  cases Cadence.stepped_of_ok hstep with
  | @advance pass admitted pressure states hpass hphase hok =>
    obtain rfl := CadenceAction.advance.inj haction
    have hcounts := hread pass hpass
    rw [hphase] at hcounts
    obtain rfl : (admitted, pressure) = counts := Option.some.inj hcounts
    have hwithin := hs.read_advancing hpass hphase
    have hstate := stateOf_advanceCursor
      ({ c with states }.moved pass (.advanced admitted pressure))
      ⟨hwithin.1.2, hwithin.2.2⟩ hok rfl pass.principalId
    rw [hstate, if_pos rfl]
    exact ⟨rfl, rfl, rfl⟩
  | leave hadvance => exact absurd haction.symm (hadvance principalId)
  | _ => cases haction

/-- The row checks never stand in a completed pass's way. -/
theorem advanceCursor_ok {admitted pressure : Nat} (hs : c.Sound)
    (hread : admitted ≤ (c.stateOf principalId).admittedWrites ∧
      pressure ≤ (c.stateOf principalId).pressureEvents) :
    ∃ states, c.advanceCursor principalId admitted pressure = .ok states := by
  have hchecked : ∀ row ∈ (c.states.upsert
      { principalId
        admittedWrites := admitted
        lastRunWrites := admitted
        pressureEvents := pressure
        lastRunPressure := pressure }
      (fun row => { row with lastRunWrites := admitted, lastRunPressure := pressure })
      fun _ => rfl).rows, row.Checked := by
    intro row hrow
    have hget := Table.get?_of_mem hrow
    rw [Table.get?_upsert] at hget
    split at hget
    · next hown =>
      have hown : row.principalId = principalId := hown
      rw [← Option.some.inj hget, hown]
      cases hold : c.states.get? principalId with
      | none => simp [CuratorTriggerState.Checked]
      | some old =>
        rw [Cadence.stateOf, hold] at hread
        simpa [CuratorTriggerState.Checked] using hread
    · exact hs.checked row (Table.mem_of_get? hget)
  exact ⟨_, by simp only [Cadence.advanceCursor, ensure_pos hchecked, ok_bind]; rfl⟩

end Runs

section Due

variable {thresholds : Thresholds} {actions : List CadenceAction} {trigger : Trigger}

theorem mem_dueRows {row : CuratorTriggerState} : row ∈ dueRows thresholds c ↔
    row ∈ c.states.rows ∧ (row.WritesDue thresholds ∨ row.PressureDue thresholds) := by
  simp [dueRows]

/-- An absent row is due for nothing, thresholds being positive. -/
theorem writesDue_iff : (c.stateOf principalId).WritesDue thresholds ↔
    thresholds.triggerEvery ≤ writesOutstanding principalId c := Iff.rfl

theorem pressureDue_iff : (c.stateOf principalId).PressureDue thresholds ↔
    thresholds.pressureTriggerEvery ≤ pressureOutstanding principalId c := Iff.rfl

theorem find_dueRows (thresholds : Thresholds) (c : Cadence) (principalId : String) :
    (dueRows thresholds c).find? (·.principalId = principalId) =
      if (c.stateOf principalId).WritesDue thresholds ∨
          (c.stateOf principalId).PressureDue thresholds
      then some (c.stateOf principalId) else none := by
  cases hrow : c.states.get? principalId with
  | some row =>
    have hstate : c.stateOf principalId = row := by simp [Cadence.stateOf, hrow]
    have hmem := Table.mem_of_get? hrow
    have hkey := Table.key_of_get? hrow
    rw [hstate]
    split
    · next hdue =>
      have hin : row ∈ dueRows thresholds c := mem_dueRows.mpr ⟨hmem, hdue⟩
      cases hfind : (dueRows thresholds c).find? (·.principalId = principalId) with
      | none => exact absurd hkey (by simpa using List.find?_eq_none.mp hfind row hin)
      | some other =>
        have hother := mem_dueRows.mp (List.mem_of_find?_eq_some hfind)
        have hkey' : other.principalId = principalId := by simpa using List.find?_some hfind
        have hget := Table.get?_of_mem hother.1
        rw [hkey', hrow] at hget
        rw [Option.some.inj hget]
    · next hnot =>
      rw [List.find?_eq_none]
      intro other hother
      obtain ⟨hother, hdue⟩ := mem_dueRows.mp hother
      have hget := Table.get?_of_mem hother
      simp only [decide_eq_true_eq]
      rintro rfl
      rw [hrow] at hget
      rw [Option.some.inj hget] at hnot
      exact hnot hdue
  | none =>
    have hstate : c.stateOf principalId = ⟨principalId, 0, 0, 0, 0⟩ := by
      simp [Cadence.stateOf, hrow]
    have hpositive := thresholds.positive
    rw [hstate, if_neg, List.find?_eq_none]
    · intro other hother
      have hnone := Table.get?_eq_none_iff.mp hrow other (mem_dueRows.mp hother).1
      simpa using hnone
    · simp only [CuratorTriggerState.WritesDue, CuratorTriggerState.PressureDue]
      omega

theorem triggerOf_eq (thresholds : Thresholds) (c : Cadence) (principalId : String) :
    triggerOf thresholds c principalId =
      if thresholds.triggerEvery ≤ writesOutstanding principalId c then some .writes
      else if thresholds.pressureTriggerEvery ≤ pressureOutstanding principalId c then
        some .injectionPressure
      else if principalId ∈ compacted c then some .compaction
      else none := by
  unfold triggerOf
  rw [find_dueRows]
  simp only [writesDue_iff, pressureDue_iff]
  by_cases hwrites : thresholds.triggerEvery ≤ writesOutstanding principalId c
  · simp [hwrites, writesDue_iff]
  · by_cases hpressure : thresholds.pressureTriggerEvery ≤ pressureOutstanding principalId c
    · simp [hwrites, hpressure, writesDue_iff]
    · simp [hwrites, hpressure]

theorem mem_runDue : (principalId, trigger) ∈ runDue thresholds c ↔
    triggerOf thresholds c principalId = some trigger := by
  simp only [runDue, List.mem_filterMap, List.mem_mergeSort, List.mem_dedup, List.mem_append,
    Option.map_eq_some_iff, Prod.mk.injEq]
  constructor
  · rintro ⟨_, _, _, htrigger, rfl, rfl⟩
    exact htrigger
  · intro htrigger
    refine ⟨principalId, ?_, trigger, htrigger, rfl, rfl⟩
    unfold triggerOf at htrigger
    split at htrigger
    · next row hrow =>
      have hkey : row.principalId = principalId := by simpa using List.find?_some hrow
      exact .inr (List.mem_map.mpr ⟨row, List.mem_of_find?_eq_some hrow, hkey⟩)
    · split at htrigger
      · next hcompacted => exact .inl hcompacted
      · cases htrigger

theorem writesUntilRun_eq (thresholds : Thresholds) (c : Cadence) (principalId : String) :
    writesUntilRun thresholds c principalId =
      thresholds.triggerEvery - writesOutstanding principalId c := by
  cases hrow : c.states.get? principalId <;>
    simp [writesUntilRun, writesOutstanding, Cadence.stateOf, hrow]

theorem pressureUntilRun_eq (thresholds : Thresholds) (c : Cadence) (principalId : String) :
    pressureUntilRun thresholds c principalId =
      thresholds.pressureTriggerEvery - pressureOutstanding principalId c := by
  cases hrow : c.states.get? principalId <;>
    simp [pressureUntilRun, pressureOutstanding, Cadence.stateOf, hrow]

/-- The activity view counts down to the pass that `run_due` then runs. -/
theorem triggerOf_eq_none_iff : triggerOf thresholds c principalId = none ↔
    0 < writesUntilRun thresholds c principalId ∧
    0 < pressureUntilRun thresholds c principalId ∧ principalId ∉ compacted c := by
  rw [triggerOf_eq, writesUntilRun_eq, pressureUntilRun_eq]
  grind

/-- Each principal is run once. -/
theorem runDue_nodup : ((runDue thresholds c).map (·.1)).Nodup := by
  have hsublist (l : List String) :
      ((l.filterMap fun principalId => (triggerOf thresholds c principalId).map
        fun trigger => (principalId, trigger)).map (·.1)).Sublist l := by
    induction l with
    | nil => exact .slnil
    | cons principalId l ih =>
      cases htrigger : triggerOf thresholds c principalId with
      | none => simpa [htrigger] using ih.cons principalId
      | some trigger => simpa [htrigger] using ih.cons_cons principalId
  exact List.Nodup.sublist (hsublist _)
    ((List.mergeSort_perm _ _).nodup_iff.mpr (List.nodup_dedup _))

/-- Cursors never pass the counts, no row check stands in a completed pass's way, and after one
exactly what was counted since its snapshot is outstanding, whatever was written, approved or
run meanwhile. -/
theorem pass_accounts (hreach : cadence.Reachable c) :
    (∀ row ∈ c.states.rows, row.Checked) ∧
    (∀ pass admitted pressure, c.passes.get? pass.principalId = some pass →
      pass.phase = .persisted admitted pressure none →
        ∃ c', cadence.step c (.advance pass.principalId) = .ok c') ∧
    ∀ principalId read actions c',
      cadence.step c (.snapshot principalId) = .ok read →
      (∀ action ∈ actions, ¬action.Starts principalId) →
      cadence.step (cadence.run read actions) (.advance principalId) = .ok c' →
        writesOutstanding principalId c' = admissions principalId read actions ∧
        pressureOutstanding principalId c' = removals principalId read actions := by
  have hs := sound_of_reachable hreach
  refine ⟨hs.checked, fun pass admitted pressure hpass hphase => ?_, ?_⟩
  · have hread := hs.read_advancing hpass hphase
    obtain ⟨states, hstates⟩ := advanceCursor_ok hs ⟨hread.1.2, hread.2.2⟩
    exact ⟨_, step_advance hpass hphase hstates⟩
  · intro principalId read actions c' hsnapshot hlock hadvance
    obtain ⟨hread, hstate⟩ := hasRead_snapshot hsnapshot
    have hs' := Cadence.sound_step hs hsnapshot
    have hrun : (cadence.run read actions).Sound := Machine.run_keeps Cadence.sound_step actions hs'
    obtain ⟨hwrites, hpressure⟩ := counts_run hs' principalId actions
    obtain ⟨hwritten, hpressed, hunits⟩ := cursor_advance hrun (hread.run hlock) hadvance
    have hstepped : (cadence.run read actions).Stepped (.advance principalId) c' :=
      Cadence.stepped_of_ok hadvance
    have hmoves := hstepped.moves hrun principalId
    have hcount := hmoves.writes
    have hcount' := hmoves.pressure
    rw [counted_same writeDelta_self hunits, hwrites, hstate] at hcount
    rw [counted_same pressureDelta_self hunits, hpressure, hstate] at hcount'
    rw [Cadence.triggerSnapshot_eq] at hwritten hpressed
    simp only [writesOutstanding, pressureOutstanding, hwritten, hpressed, hcount, hcount']
    omega

/-- Until a pass of its principal completes, failed and crashed ones included, what is
outstanding only grows by what is counted, and `run_due` runs each principal once, exactly when
a count reaches its threshold or a compaction was approved after its last pass began. -/
theorem due_until_pass (hreach : cadence.Reachable c)
    (hnone : ∀ action ∈ actions, action ≠ .advance principalId) (thresholds : Thresholds) :
    writesOutstanding principalId (cadence.run c actions) =
      writesOutstanding principalId c + admissions principalId c actions ∧
    pressureOutstanding principalId (cadence.run c actions) =
      pressureOutstanding principalId c + removals principalId c actions ∧
    ((runDue thresholds (cadence.run c actions)).map (·.1)).Nodup ∧
    ∀ trigger, (principalId, trigger) ∈ runDue thresholds (cadence.run c actions) ↔
      some trigger =
        if thresholds.triggerEvery ≤
            writesOutstanding principalId c + admissions principalId c actions then some .writes
        else if thresholds.pressureTriggerEvery ≤
            pressureOutstanding principalId c + removals principalId c actions then
          some .injectionPressure
        else if principalId ∈ compacted (cadence.run c actions) then some .compaction
        else none := by
  obtain ⟨hwrites, hpressure⟩ := outstanding_run (sound_of_reachable hreach) hnone
  refine ⟨hwrites, hpressure, runDue_nodup, fun trigger => ?_⟩
  rw [mem_runDue, triggerOf_eq, hwrites, hpressure, eq_comm]

/-- An active head of one owner that was taken back out of a conversation that many times. -/
def removedHead (id : Uuid) (removals : Nat) : MemoryUnit where
  id := id
  principalId := "owner"
  label := toString id
  body := "drinks tea"
  kind := .fact
  keywords := []
  embedding := [1]
  embeddingModel := "one-hot"
  projectKey := none
  threadOrigin := none
  originThreadId := none
  originPath := none
  originLocation := none
  originLocations := []
  runId := none
  originAgent := none
  pin := false
  status := .active
  revision := 1
  stats := { Stats.zero with removals }
  bias := 0
  createdAt := 0
  updatedAt := 0

/-- A pass has begun over one head. -/
def beganCadence : Cadence :=
  cadence.run (.installed .empty)
    [.insert (removedHead 1 0), .start "owner" 50 .writes 5]

/-- While it judges, a second head is saved and the first is taken out of a conversation. -/
def meanwhile : List CadenceAction :=
  [.insert (removedHead 2 0), .update (removedHead 1 1), .persist "owner" none]

theorem pass_accounts_meanwhile : ∃ read c',
    cadence.step beganCadence (.snapshot "owner") = .ok read ∧
    cadence.step (cadence.run read meanwhile) (.advance "owner") = .ok c' ∧
    writesOutstanding "owner" c' = 1 ∧ pressureOutstanding "owner" c' = 1 := by
  have hruns : Answers (cadence.step beganCadence (.snapshot "owner")) fun read =>
      (admissions "owner" read meanwhile = 1 ∧ removals "owner" read meanwhile = 1) ∧
        Answers (cadence.step (cadence.run read meanwhile) (.advance "owner")) fun _ => True := by
    decide +kernel
  obtain ⟨read, hread, ⟨hadmissions, hremovals⟩, hadvances⟩ := answers_iff.mp hruns
  obtain ⟨c', hadvance, _⟩ := answers_iff.mp hadvances
  have hlock : ∀ action ∈ meanwhile, ¬action.Starts "owner" := by
    simp [meanwhile, CadenceAction.Starts]
  obtain ⟨hwrites, hpressure⟩ :=
    (pass_accounts (c := beganCadence) ⟨_, _, ⟨_, rfl⟩, rfl⟩).2.2 "owner" read meanwhile c'
      hread hlock hadvance
  exact ⟨read, c', hread, hadvance, hwrites.trans hadmissions, hpressure.trans hremovals⟩

/-- A pass that fails before it completes. -/
def failedPass : List CadenceAction :=
  [.snapshot "owner", .persist "owner" (some "curator model failed"), .finish "owner" 6]

theorem due_until_pass_failed :
    ("owner", .writes) ∈ runDue ⟨1, 1, by decide⟩ (cadence.run beganCadence failedPass) := by
  have hnone : ∀ action ∈ failedPass, action ≠ .advance "owner" := by simp [failedPass]
  obtain ⟨_, _, _, hdue⟩ := due_until_pass (c := beganCadence) ⟨_, _, ⟨_, rfl⟩, rfl⟩ hnone
    ⟨1, 1, by decide⟩
  have hcount : 1 ≤ writesOutstanding "owner" beganCadence +
      admissions "owner" beganCadence failedPass := by decide +kernel
  rw [hdue, if_pos hcount]

end Due

section Palace

variable {s s' : Store} {φ : Footprint}

def CadenceAction.IsRowWrite : CadenceAction → Prop
  | .insert _ | .update _ => True
  | _ => False

theorem replaceUnit_eq_modify {units : Table Uuid MemoryUnit (·.id)} {id : Uuid}
    {current : MemoryUnit} {f : MemoryUnit → MemoryUnit} {hf : ∀ u, (f u).id = u.id}
    (hcurrent : units.get? id = some current) :
    replaceUnit units (f current) = units.modify id f hf := by
  have hid : current.id = id := Table.key_of_get? hcurrent
  apply Table.ext
  simp only [replaceUnit, Table.rows_modify]
  apply List.map_congr_left
  intro u hu
  have hkey : (f current).id = id := (hf current).trans hid
  by_cases hown : u.id = id
  · have hsame : u = current := by
      have hget := Table.get?_of_mem hu
      rw [hown, hcurrent] at hget
      exact (Option.some.inj hget).symm
    simp [hsame, hkey, hid]
  · simp [hkey, hown]

/-- Whatever an operation writes to the heads is a run of accepted row writes. -/
theorem rowWrites_of_writes (h : Store.Writes φ s s') (hunits : c.units = s.units) :
    ∃ actions : List CadenceAction, (∀ action ∈ actions, action.IsRowWrite) ∧
      (cadence.run c actions).units = s'.units := by
  induction h with
  | refl => exact ⟨[], by simp, hunits⟩
  | @tail t u _ hw ih =>
    obtain ⟨actions, hrows, hrun⟩ := ih
    have hone (action : CadenceAction) (hrow : action.IsRowWrite) {d : Cadence}
        (hstep : cadence.step (cadence.run c actions) action = .ok d) (hd : d.units = u.units) :
        ∃ actions : List CadenceAction, (∀ action ∈ actions, action.IsRowWrite) ∧
          (cadence.run c actions).units = u.units := by
      refine ⟨actions ++ [action], ?_, ?_⟩
      · intro other hother
        rcases List.mem_append.mp hother with hother | hother
        · exact hrows other hother
        · exact List.mem_singleton.mp hother ▸ hrow
      · rw [Machine.run_append, Machine.run_cons, Machine.run_nil, Machine.next_of_ok hstep, hd]
    rcases hw.units_cases with ⟨command, current, _, hc⟩ | ⟨unit, row, _, hr⟩ | ⟨heq, _⟩
    · have hfound : (cadence.run c actions).units.get? command.memoryId = some current :=
        hrun ▸ hc.found
      have hid := hc.id_eq
      obtain ⟨_, _, _, _, rfl⟩ := hc.written
      have hfound' : (cadence.run c actions).units.get? (t.bumped command.changes current).id =
          some current := by rw [Store.bumped_id, hid, hfound]
      have hstep := step_update (t.bumped command.changes current) hfound' rfl
      refine hone (.update (t.bumped command.changes current)) trivial hstep ?_
      simp only [hrun]
      exact replaceUnit_eq_modify hc.found
    · obtain ⟨units, _, hinsert, _, rfl⟩ := hr.written
      exact hone (.insert unit) trivial (step_insert (hrun ▸ hinsert)) rfl
    · exact ⟨actions, hrows, hrun.trans heq.symm⟩

end Palace

end Nocturne.Curation
