import Nocturne.Store.Laws

namespace Nocturne

open Nocturne.Lib

/-- An edge of this type leads from one head to the other. -/
def Store.Linked (s : Store) (fromMemoryId toMemoryId : Uuid) (edgeType : EdgeType) : Prop :=
  ∃ e ∈ s.edges.rows, e.fromMemoryId = fromMemoryId ∧ e.toMemoryId = toMemoryId ∧
    e.edgeType = edgeType

instance (s : Store) (fromMemoryId toMemoryId : Uuid) (edgeType : EdgeType) :
    Decidable (s.Linked fromMemoryId toMemoryId edgeType) :=
  inferInstanceAs (Decidable (∃ e ∈ s.edges.rows, _))

namespace Store

variable {s s' : Store} {a b : Uuid} {edge : EdgeType}

theorem insertEdge_eq_ok : s.insertEdge a b edge = .ok s' ↔ ¬s.Linked a b edge ∧
    s' = { s.drawn with
      edges := s.edges.insert ⟨s.freshUlid, a, b, edge⟩ get?_freshUlid_edges } := by
  have hfresh : s.edges.get? s.freshUlid = none := get?_freshUlid_edges
  have hinsert : s.edges.insert? ⟨s.freshUlid, a, b, edge⟩ =
      some (s.edges.insert ⟨s.freshUlid, a, b, edge⟩ hfresh) :=
    Table.insert?_of_get?_none hfresh
  simp only [insertEdge, hinsert, bind_eq_ok, ensure_eq_ok, require_eq_ok, pure_eq_ok, Linked]
  constructor
  · rintro ⟨_, hnone, _, hedges, rfl⟩
    obtain rfl := Option.some.inj hedges
    refine ⟨?_, rfl⟩
    rintro ⟨e, he, hsame⟩
    exact hnone e he hsame
  · rintro ⟨hnone, rfl⟩
    exact ⟨.unit, fun e he hsame => hnone ⟨e, he, hsame⟩, _, rfl, rfl⟩

/-- An edge is refused only where it is there already, and then only it is new. -/
structure EdgeStep (s : Store) (a b : Uuid) (edge : EdgeType) (s' : Store) : Prop where
  unlinked : ¬s.Linked a b edge
  units : s'.units = s.units
  revisions : s'.revisions = s.revisions
  linked : ∀ x y t, s'.Linked x y t ↔ s.Linked x y t ∨ x = a ∧ y = b ∧ t = edge

theorem insertEdge_step (h : s.insertEdge a b edge = .ok s') : s.EdgeStep a b edge s' := by
  obtain ⟨hunlinked, rfl⟩ := insertEdge_eq_ok.mp h
  refine ⟨hunlinked, rfl, rfl, fun x y t => ?_⟩
  simp only [Linked, Table.rows_insert, List.mem_append, List.mem_singleton, or_and_right,
    exists_or, exists_eq_left]
  exact or_congr Iff.rfl ⟨fun h => ⟨h.1.symm, h.2.1.symm, h.2.2.symm⟩,
    fun h => ⟨h.1.symm, h.2.1.symm, h.2.2.symm⟩⟩

theorem CasStep.linked {command : CasUpdate} {current : MemoryUnit}
    (h : s.CasStep command current s') : s'.Linked a b edge ↔ s.Linked a b edge := by
  obtain ⟨_, _, _, _, rfl⟩ := h.written
  exact Iff.rfl

end Store

end Nocturne
