import Nocturne.Store.Memory

namespace Nocturne

open Nocturne.Lib

namespace Store

variable {s : Store}

section Minting

theorem le_foldr_max {used : List Nat} {n : Nat} (h : n ∈ used) : n ≤ used.foldr max 0 := by
  induction used with
  | nil => simp at h
  | cons a used ih =>
    rcases List.mem_cons.mp h with rfl | h
    · exact le_max_left _ _
    · exact (ih h).trans (le_max_right _ _)

theorem fresh_not_mem (used : List Nat) (draw : Nat) : fresh used draw ∉ used := by
  unfold fresh
  split
  · intro h
    have := le_foldr_max h
    omega
  · assumption

theorem freshUuid_not_mem : s.freshUuid ∉ s.uuids := fresh_not_mem _ _

/-- A fresh identifier names no row of a table whose keys are all in use. -/
theorem get?_fresh {ρ : Type} {key : ρ → Nat} {t : Table Nat ρ key} {used : List Nat}
    (h : ∀ k ∈ t.rows.map key, k ∈ used) (draw : Nat) : t.get? (fresh used draw) = none := by
  rw [Table.get?_eq_none_iff]
  intro r hr heq
  exact fresh_not_mem used draw (heq ▸ h _ (List.mem_map_of_mem hr))

theorem mem_ulids {k : Ulid} : k ∈ s.ulids ↔
    (((((k ∈ s.revisions.rows.map (·.revUid) ∨ k ∈ s.edges.rows.map (·.edgeUid)) ∨
      k ∈ s.items.rows.map (·.itemUid)) ∨ k ∈ s.decisions.rows.map (·.decisionUid)) ∨
      k ∈ s.findings.rows.map (·.findingUid)) ∨ k ∈ s.findings.rows.map (·.runUid)) ∨
      k ∈ s.events.rows.map (·.eventUid) := by
  simp only [ulids, List.mem_append]

theorem get?_freshUlid_revisions : s.revisions.get? s.freshUlid = none :=
  get?_fresh (by simp only [mem_ulids]; tauto) _

theorem get?_freshUlid_edges : s.edges.get? s.freshUlid = none :=
  get?_fresh (by simp only [mem_ulids]; tauto) _

theorem get?_freshUlid_items : s.items.get? s.freshUlid = none :=
  get?_fresh (by simp only [mem_ulids]; tauto) _

theorem get?_freshUlid_decisions : s.decisions.get? s.freshUlid = none :=
  get?_fresh (by simp only [mem_ulids]; tauto) _

theorem get?_freshUuid_units : s.units.get? s.freshUuid = none :=
  get?_fresh (by simp only [uuids, List.mem_append]; tauto) _

theorem injectionId_ne_freshUuid {e : InjectionEvent} (h : e ∈ s.events.rows) :
    e.injectionId ≠ s.freshUuid := by
  intro heq
  apply freshUuid_not_mem (s := s)
  rw [← heq]
  simp only [uuids, List.mem_append, List.mem_map]
  exact .inr ⟨e, h, rfl⟩

end Minting

section Frames

@[simp] theorem drawn_units : s.drawn.units = s.units := rfl
@[simp] theorem drawn_revisions : s.drawn.revisions = s.revisions := rfl
@[simp] theorem drawn_edges : s.drawn.edges = s.edges := rfl
@[simp] theorem drawn_items : s.drawn.items = s.items := rfl
@[simp] theorem drawn_decisions : s.drawn.decisions = s.decisions := rfl
@[simp] theorem drawn_resolutions : s.drawn.resolutions = s.resolutions := rfl
@[simp] theorem drawn_findings : s.drawn.findings = s.findings := rfl
@[simp] theorem drawn_threads : s.drawn.threads = s.threads := rfl
@[simp] theorem drawn_events : s.drawn.events = s.events := rfl
@[simp] theorem drawn_configs : s.drawn.configs = s.configs := rfl
@[simp] theorem drawn_now : s.drawn.session.now = s.session.now := rfl

end Frames

section Cas

/-- The revision row a compare-and-set appends. -/
def revisionOf (s : Store) (command : CasUpdate) (current : MemoryUnit) (parentUid : Ulid) :
    MemoryRevision :=
  { revUid := command.revUid
    parentUid := some parentUid
    memoryId := command.memoryId
    revision := current.revision + 1
    body := (s.bumped command.changes current).body
    label := (s.bumped command.changes current).label
    editor := command.editor
    originMachineId := command.originMachineId
    reason := command.reason
    ts := s.session.now }

/-- What an accepted compare-and-set found and what it wrote. -/
structure CasStep (s : Store) (command : CasUpdate) (current : MemoryUnit) (s' : Store) :
    Prop where
  changed : command.changes ≠ {}
  found : s.units.get? command.memoryId = some current
  expected : current.revision = command.expectedRevision
  label : s.ActiveLabelFree (s.bumped command.changes current)
  written : ∃ parentUid revisions, s.parentUids command.memoryId current.revision = [parentUid] ∧
    s.revisions.insert? (s.revisionOf command current parentUid) = some revisions ∧
    s' = { s with
      units := s.units.modify command.memoryId (s.bumped command.changes) (s.bumped_id _)
      revisions }

theorem casUpdate_eq_ok {command : CasUpdate} {u : MemoryUnit} {s' : Store} :
    s.casUpdateMemoryUnit command = .ok (u, s') ↔
      ∃ current, s.CasStep command current s' ∧ u = s.bumped command.changes current := by
  constructor
  · intro h
    simp only [casUpdateMemoryUnit, bind_eq_ok, ensure_eq_ok, require_eq_ok] at h
    obtain ⟨_, hchanged, current, hfound, _, hexpected, _, hlabel, h⟩ := h
    split at h
    · next parentUid hparent =>
      simp only [bind_eq_ok, require_eq_ok, pure_eq_ok, Prod.mk.injEq] at h
      obtain ⟨revisions, hrevisions, rfl, rfl⟩ := h
      exact ⟨current, ⟨hchanged, hfound, hexpected, hlabel, parentUid, revisions,
        hexpected ▸ hparent, hrevisions, rfl⟩, rfl⟩
    · cases h
  · rintro ⟨current, ⟨hchanged, hfound, hexpected, hlabel, parentUid, revisions, hparent,
      hrevisions, rfl⟩, rfl⟩
    simp only [casUpdateMemoryUnit, bind_eq_ok, ensure_eq_ok, require_eq_ok]
    refine ⟨.unit, hchanged, current, hfound, .unit, hexpected, .unit, hlabel, ?_⟩
    rw [← hexpected, hparent]
    simp only [bind_eq_ok, require_eq_ok, pure_eq_ok]
    exact ⟨revisions, hrevisions, rfl⟩

attribute [simp] bumped_id

@[simp] theorem bumped_principalId {changes : MemoryUnitChanges} {u : MemoryUnit} :
    (s.bumped changes u).principalId = u.principalId := rfl

@[simp] theorem bumped_revision {changes : MemoryUnitChanges} {u : MemoryUnit} :
    (s.bumped changes u).revision = u.revision + 1 := rfl

@[simp] theorem bumped_status {changes : MemoryUnitChanges} {u : MemoryUnit} :
    (s.bumped changes u).status = changes.status.getD u.status := rfl

@[simp] theorem bumped_stats {changes : MemoryUnitChanges} {u : MemoryUnit} :
    (s.bumped changes u).stats = changes.stats.getD u.stats := rfl

@[simp] theorem bumped_bias {changes : MemoryUnitChanges} {u : MemoryUnit} :
    (s.bumped changes u).bias = changes.bias.getD u.bias := rfl

variable {command : CasUpdate} {current : MemoryUnit} {s' : Store}

theorem CasStep.get?_units (h : s.CasStep command current s') (id : Uuid) :
    s'.units.get? id =
      if id = command.memoryId then some (s.bumped command.changes current)
      else s.units.get? id := by
  obtain ⟨_, _, _, _, rfl⟩ := h.written
  rw [Table.get?_modify]
  split
  · next hid => simp [hid, h.found]
  · rfl

theorem CasStep.id_eq (h : s.CasStep command current s') : current.id = command.memoryId :=
  Table.key_of_get? h.found

end Cas

section Root

/-- What an accepted insertion of a new head wrote. -/
structure RootStep (s : Store) (unit : MemoryUnit) (row : MemoryRevision) (s' : Store) :
    Prop where
  staged : unit.status = .staged → unit.runId.isSome
  label : s.ActiveLabelFree unit
  first : unit.revision = 1 ∧ row.revision = 1 ∧ row.memoryId = unit.id ∧ row.body = unit.body ∧
    row.label = unit.label
  written : ∃ units revisions, s.units.insert? unit = some units ∧
    s.revisions.insert? row = some revisions ∧ s' = { s with units, revisions }

variable {unit : MemoryUnit} {row : MemoryRevision} {s' : Store}

theorem RootStep.get?_units (h : s.RootStep unit row s') (id : Uuid) :
    s'.units.get? id = if id = unit.id then some unit else s.units.get? id := by
  obtain ⟨_, _, hu, _, rfl⟩ := h.written
  obtain ⟨hfresh, rfl⟩ := Table.insert?_eq_some.mp hu
  exact Table.get?_insert (h := hfresh) id

theorem RootStep.fresh (h : s.RootStep unit row s') : s.units.get? unit.id = none := by
  obtain ⟨_, _, hu, _⟩ := h.written
  exact (Table.insert?_eq_some.mp hu).1

/-- A head that meets the row checks under a fresh identifier is inserted. -/
theorem insertUnit_ok (hpair : unit.runId.isNone = unit.originAgent.isNone)
    (hstaged : unit.status = .staged → unit.runId.isSome) (hlabel : s.ActiveLabelFree unit)
    (hfresh : s.units.get? unit.id = none) :
    s.insertUnit unit = .ok { s with units := s.units.insert unit hfresh } := by
  simp only [insertUnit, ensure_pos hpair, ensure_pos hstaged, ensure_pos hlabel, ok_bind,
    Table.insert?_of_get?_none hfresh, require_some]
  rfl

theorem insertRevision_ok (hparent : ∀ uid ∈ row.parentUid, (s.revisions.get? uid).isSome)
    (hfresh : s.revisions.get? row.revUid = none) :
    s.insertRevision row = .ok { s with revisions := s.revisions.insert row hfresh } := by
  simp only [insertRevision, ensure_pos hparent, ok_bind, Table.insert?_of_get?_none hfresh,
    require_some]
  rfl

end Root

end Store

end Nocturne
