import Nocturne.Queue.Cards
import Nocturne.Symphony.Laws

namespace Nocturne.Symphony

open Nocturne.Lib Nocturne.Store Nocturne.Memory Nocturne.Queue

variable {s s' t : Store} {runId : String} {request : ResolveRunRequest} {rows : List MemoryUnit}

/-- What settling leaves of one staged head: a winner waits on its card, a loser is a tombstone. -/
structure SettledRow (runId : String) (request : ResolveRunRequest) (s' : Store)
    (row u : MemoryUnit) : Prop where
  found : s'.units.get? row.id = some u
  revision : u.revision = row.revision + 1
  status : u.status =
    if isOriginPrefix request.winnerOriginAgent row.originAgent then .candidate else .tombstoned
  card : isOriginPrefix request.winnerOriginAgent row.originAgent →
    ∃ item ∈ s'.items.rows, WinnerCard runId request row item

/-- What settling a run comes to. -/
structure Settles (runId : String) (request : ResolveRunRequest) (s : Store)
    (rows : List MemoryUnit) (s' : Store) : Prop where
  ledger : s'.Ledger
  cards : s'.Cards
  heads : HeadsFollow s s'
  others : ∀ id, id ∉ rows.map (·.id) → s'.units.get? id = s.units.get? id
  settled : ∀ row ∈ rows, ∃ u, SettledRow runId request s' row u
  kept : ∀ item ∈ s.items.rows, item ∈ s'.items.rows
  filed : ∀ item ∈ s'.items.rows, item ∈ s.items.rows ∨
    ∃ row ∈ rows, isOriginPrefix request.winnerOriginAgent row.originAgent ∧
      WinnerCard runId request row item

theorem CasStep.items_eq {command : CasUpdate} {current : MemoryUnit}
    (h : s.CasStep command current t) : t.items = s.items ∧ t.decisions = s.decisions := by
  obtain ⟨_, _, _, _, rfl⟩ := h.written
  exact ⟨rfl, rfl⟩

/-- The first head settled, what is left to settle stands as it stood. -/
theorem Settles.cons {row : MemoryUnit} {rest : List MemoryUnit}
    (hfirst : ∃ u, SettledRow runId request t row u) (hheads : HeadsFollow s t)
    (hothers : ∀ id, id ≠ row.id → t.units.get? id = s.units.get? id)
    (hkept : ∀ item ∈ s.items.rows, item ∈ t.items.rows)
    (hfiled : ∀ item ∈ t.items.rows, item ∈ s.items.rows ∨
      isOriginPrefix request.winnerOriginAgent row.originAgent ∧ WinnerCard runId request row item)
    (hfresh : row.id ∉ rest.map (·.id)) (h : Settles runId request t rest s') :
    Settles runId request s (row :: rest) s' where
  ledger := h.ledger
  cards := h.cards
  heads := hheads.trans h.heads
  others id hid := by
    simp only [List.map_cons, List.mem_cons, not_or] at hid
    rw [h.others id hid.2, hothers id hid.1]
  settled other hother := by
    rcases List.mem_cons.mp hother with rfl | hother
    · obtain ⟨u, hu, hrevision, hstatus, hcard⟩ := hfirst
      refine ⟨u, by rw [h.others _ hfresh, hu], hrevision, hstatus, fun hwinner => ?_⟩
      obtain ⟨item, hitem, hcard⟩ := hcard hwinner
      exact ⟨item, h.kept item hitem, hcard⟩
    · exact h.settled other hother
  kept item hitem := h.kept item (hkept item hitem)
  filed item hitem := by
    rcases h.filed item hitem with hitem | ⟨other, hother, hcard⟩
    · rcases hfiled item hitem with hitem | hcard
      · exact .inl hitem
      · exact .inr ⟨row, by simp, hcard⟩
    · exact .inr ⟨other, List.mem_cons_of_mem _ hother, hcard⟩

/-- Each staged head is settled once, and settling one leaves the others staged. -/
theorem Routed.settles (h : Routed runId request s rows s') (hledger : s.Ledger)
    (hcards : s.Cards)
    (hrows : ∀ row ∈ rows, s.units.get? row.id = some row ∧ row.status = .staged)
    (hnodup : (rows.map (·.id)).Nodup) : Settles runId request s rows s' := by
  induction h with
  | nil => exact ⟨hledger, hcards, HeadsFollow.refl _, fun _ _ => rfl, by simp, fun _ => id,
      fun _ => .inl⟩
  | @lose s t s' row current rest command hloser hat hstep _ ih =>
    obtain ⟨hid, _, hchanges⟩ := hat
    obtain ⟨hfound, hstaged⟩ := hrows row (by simp)
    obtain rfl : current = row := Option.some.inj (hstep.found.symm.trans (hid ▸ hfound))
    simp only [List.map_cons, List.nodup_cons] at hnodup
    have hget (id : Uuid) := hid ▸ hstep.get?_units id
    have hothers : ∀ id, id ≠ current.id → t.units.get? id = s.units.get? id := by
      intro id hne
      rw [hget, if_neg hne]
      rfl
    have hheads : HeadsFollow s t := by
      intro id u hu
      rw [hget]
      split
      · next heq =>
        obtain rfl := Option.some.inj (hu.symm.trans (heq ▸ hfound))
        exact ⟨_, rfl, by simpa [hchanges] using .of_admitted fun h => h⟩
      · exact ⟨u, hu, .refl _⟩
    obtain ⟨hitems, hdecisions⟩ := CasStep.items_eq hstep
    refine Settles.cons ⟨s.drawn.bumped command.changes current, ?_⟩ hheads hothers ?_ ?_ hnodup.1
      (ih ?_ ?_ ?_ hnodup.2)
    · exact ⟨by rw [hget, if_pos rfl], rfl, by simp [hchanges, hloser], fun h => absurd h hloser⟩
    · exact fun item hitem => hitems ▸ hitem
    · exact fun item hitem => .inl (hitems ▸ hitem)
    · exact hledger.congr hitems hdecisions
    · exact hcards.move hheads hitems
    · intro other hother
      rw [hothers other.id fun heq => hnodup.1 (heq ▸ List.mem_map_of_mem hother)]
      exact hrows other (List.mem_cons_of_mem _ hother)
  | @win s t w s' row current rest command item hwinner hat hstep hcard hinsert _ ih =>
    obtain ⟨hid, _, hchanges⟩ := hat
    obtain ⟨hfound, hstaged⟩ := hrows row (by simp)
    obtain rfl : current = row := Option.some.inj (hstep.found.symm.trans (hid ▸ hfound))
    simp only [List.map_cons, List.nodup_cons] at hnodup
    have hget (id : Uuid) := hid ▸ hstep.get?_units id
    have hheads : HeadsFollow s t := by
      intro id u hu
      rw [hget]
      split
      · next heq =>
        obtain rfl := Option.some.inj (hu.symm.trans (heq ▸ hfound))
        refine ⟨_, rfl, ?_, ?_⟩
        · simp [hchanges]
        · simp [hstaged, MemoryStatus.Unadmitted]
      · exact ⟨u, hu, .refl _⟩
    obtain ⟨hitems, hdecisions⟩ := CasStep.items_eq hstep
    have hledger' : t.drawn.Ledger := hledger.congr hitems hdecisions
    have hcards' : t.drawn.Cards := (hcards.move hheads hitems).congr rfl rfl
    have hu : t.drawn.units.get? item.candidateMemoryId =
        some (s.drawn.bumped command.changes current) := by
      rw [hcard.candidate]
      exact (hget _).trans (if_pos rfl)
    -- no card names a staged head
    have halone : ∀ other ∈ t.drawn.items.rows,
        other.candidateMemoryId ≠ item.candidateMemoryId := by
      intro other hother heq
      obtain ⟨u, hu, hne⟩ := hcards.carried other (hitems ▸ hother)
      rw [heq, hcard.candidate, hfound] at hu
      obtain rfl := Option.some.inj hu
      exact hne hstaged
    have hwcards : w.Cards := hcards'.card hinsert hu (by simp [hchanges]) hcard.pending
      (fun _ => halone) (by simp [hcard.birthplace, Birthplace.IsCurator])
    obtain ⟨hwunits, hwrows⟩ : w.units = t.units ∧ w.items.rows = s.items.rows ++ [item] := by
      obtain ⟨_, _, _, items, hrow, rfl⟩ := insertItem_eq_ok.mp hinsert
      obtain ⟨_, rfl⟩ := Table.insert?_eq_some.mp hrow
      exact ⟨rfl, by simp [hitems]⟩
    have hothers : ∀ id, id ≠ current.id → w.units.get? id = s.units.get? id := by
      intro id hne
      rw [hwunits, hget, if_neg hne]
      rfl
    have hfound' : w.units.get? current.id = some (s.drawn.bumped command.changes current) := by
      rw [hwunits, hget, if_pos rfl]
    refine Settles.cons ⟨s.drawn.bumped command.changes current, ?_⟩ ?_ hothers ?_ ?_ hnodup.1
      (ih ?_ hwcards ?_ hnodup.2)
    · refine ⟨hfound', rfl, by simp [hchanges, hwinner], fun _ => ?_⟩
      exact ⟨item, by simp [hwrows], hcard⟩
    · exact hheads.trans (HeadsFollow.of_eq hwunits)
    · intro other hother
      simp [hwrows, hother]
    · intro other hother
      rw [hwrows, List.mem_append, List.mem_singleton] at hother
      rcases hother with hother | rfl
      · exact .inl hother
      · exact .inr ⟨hwinner, hcard⟩
    · exact hledger'.card hcard.pending hinsert
    · intro other hother
      rw [hothers other.id fun heq => hnodup.1 (heq ▸ List.mem_map_of_mem hother)]
      exact hrows other (List.mem_cons_of_mem _ hother)

theorem mem_lockedRunRows {row : MemoryUnit} : row ∈ lockedRunRows s runId ↔
    row ∈ s.units.rows ∧ row.runId = some runId ∧ row.status = .staged := by
  simp [lockedRunRows, List.mem_insertionSort]

theorem nodup_lockedRunRows : ((lockedRunRows s runId).map (·.id)).Nodup := by
  unfold lockedRunRows
  rw [((List.perm_insertionSort _ _).map _).nodup_iff]
  exact s.units.nodup.sublist (List.filter_sublist.map _)

theorem Routed.settles_locked (h : Routed runId request s (lockedRunRows s runId) s')
    (hledger : s.Ledger) (hcards : s.Cards) :
    Settles runId request s (lockedRunRows s runId) s' := by
  apply h.settles hledger hcards ?_ nodup_lockedRunRows
  intro row hrow
  obtain ⟨hrow, _, hstaged⟩ := mem_lockedRunRows.mp hrow
  exact ⟨Table.get?_of_mem hrow, hstaged⟩

end Nocturne.Symphony
