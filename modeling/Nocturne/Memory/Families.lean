import Nocturne.Memory.Labels
import Nocturne.Store.Edges

namespace Nocturne.Memory

open Nocturne.Lib Nocturne.Store

variable {env : Env} {s s' t : Store}

section Siblings

/-- What relating heads comes to: `relates_to` both ways between every two of them, all new. -/
structure Related (s : Store) (ids : List Uuid) (s' : Store) : Prop where
  units : s'.units = s.units
  linked : ∀ a b edge, s'.Linked a b edge ↔ s.Linked a b edge ∨
    a ∈ ids ∧ b ∈ ids ∧ a ≠ b ∧ edge = .relatesTo

/-- One head related to the others of its family. -/
def relateTo (left : Uuid) (s : Store) (right : Uuid) : Except SpineError Store :=
  if left = right then .ok s else s.insertEdge left right .relatesTo

theorem relateSiblings_eq (ids : List Uuid) :
    relateSiblings s ids = ids.foldlM (fun s left => ids.foldlM (relateTo left) s) s := rfl

theorem relateTo_linked {left : Uuid} {rights : List Uuid}
    (h : rights.foldlM (relateTo left) s = .ok s') : s'.units = s.units ∧
      ∀ a b edge, s'.Linked a b edge ↔ s.Linked a b edge ∨
        a = left ∧ b ∈ rights ∧ a ≠ b ∧ edge = .relatesTo := by
  induction rights generalizing s with
  | nil =>
    simp only [List.foldlM_nil, pure_eq_ok] at h
    subst h
    simp
  | cons right rest ih =>
    simp only [List.foldlM_cons, bind_eq_ok] at h
    obtain ⟨t, hfirst, hrest⟩ := h
    obtain ⟨hunits, hlinked⟩ := ih hrest
    unfold relateTo at hfirst
    split at hfirst
    · next hsame =>
      obtain rfl := Except.ok.inj hfirst
      refine ⟨hunits, fun a b edge => ?_⟩
      rw [hlinked, List.mem_cons]
      constructor
      · tauto
      · rintro (hold | ⟨rfl, rfl | hb, hne, rfl⟩)
        · exact .inl hold
        · exact absurd hsame hne
        · exact .inr ⟨rfl, hb, hne, rfl⟩
    · next hne =>
      have hedge := insertEdge_step hfirst
      refine ⟨hunits.trans hedge.units, fun a b edge => ?_⟩
      rw [hlinked, hedge.linked, List.mem_cons]
      constructor
      · rintro ((hold | ⟨rfl, rfl, rfl⟩) | ⟨rfl, hb, hne', rfl⟩)
        · exact .inl hold
        · exact .inr ⟨rfl, .inl rfl, hne, rfl⟩
        · exact .inr ⟨rfl, .inr hb, hne', rfl⟩
      · rintro (hold | ⟨rfl, rfl | hb, hne', rfl⟩)
        · exact .inl (.inl hold)
        · exact .inl (.inr ⟨rfl, rfl, rfl⟩)
        · exact .inr ⟨rfl, hb, hne', rfl⟩

theorem relateSiblings_related {ids : List Uuid} (h : relateSiblings s ids = .ok s') :
    Related s ids s' := by
  have hloop : ∀ lefts : List Uuid, ∀ s : Store,
      lefts.foldlM (fun s left => ids.foldlM (relateTo left) s) s = .ok s' →
      s'.units = s.units ∧ ∀ a b edge, s'.Linked a b edge ↔ s.Linked a b edge ∨
        a ∈ lefts ∧ b ∈ ids ∧ a ≠ b ∧ edge = .relatesTo := by
    intro lefts
    induction lefts with
    | nil =>
      intro s h
      simp only [List.foldlM_nil, pure_eq_ok] at h
      subst h
      simp
    | cons left rest ih =>
      intro s h
      simp only [List.foldlM_cons, bind_eq_ok] at h
      obtain ⟨t, hfirst, hrest⟩ := h
      obtain ⟨hunits, hlinked⟩ := ih t hrest
      obtain ⟨hunits', hlinked'⟩ := relateTo_linked hfirst
      refine ⟨hunits.trans hunits', fun a b edge => ?_⟩
      rw [hlinked, hlinked', List.mem_cons]
      tauto
  obtain ⟨hunits, hlinked⟩ := hloop ids s (relateSiblings_eq ids ▸ h)
  exact ⟨hunits, hlinked⟩

theorem relateTo_unlinked {left : Uuid} {rights : List Uuid}
    (h : rights.foldlM (relateTo left) s = .ok s') :
    ∀ b ∈ rights, left ≠ b → ¬s.Linked left b .relatesTo := by
  induction rights generalizing s with
  | nil => simp
  | cons right rest ih =>
    simp only [List.foldlM_cons, bind_eq_ok] at h
    obtain ⟨t, hfirst, hrest⟩ := h
    have hone : [right].foldlM (relateTo left) s = .ok t := by
      simp [hfirst]
    intro b hb hne hlinked
    rcases List.mem_cons.mp hb with rfl | hb
    · rw [relateTo, if_neg hne] at hfirst
      exact (insertEdge_step hfirst).unlinked hlinked
    · exact ih hrest b hb hne (((relateTo_linked hone).2 left b _).mpr (.inl hlinked))

/-- Only heads without a `relates_to` among them are related. -/
theorem relateSiblings_unlinked {ids : List Uuid} (h : relateSiblings s ids = .ok s') :
    ∀ a ∈ ids, ∀ b ∈ ids, a ≠ b → ¬s.Linked a b .relatesTo := by
  have hloop : ∀ lefts : List Uuid, ∀ s : Store,
      lefts.foldlM (fun s left => ids.foldlM (relateTo left) s) s = .ok s' →
      ∀ a ∈ lefts, ∀ b ∈ ids, a ≠ b → ¬s.Linked a b .relatesTo := by
    intro lefts
    induction lefts with
    | nil => simp
    | cons left rest ih =>
      intro s h
      simp only [List.foldlM_cons, bind_eq_ok] at h
      obtain ⟨t, hfirst, hrest⟩ := h
      intro a ha b hb hne hlinked
      rcases List.mem_cons.mp ha with rfl | ha
      · exact relateTo_unlinked hfirst b hb hne hlinked
      · exact ih t hrest a ha b hb hne (((relateTo_linked hfirst).2 a b _).mpr (.inl hlinked))
  exact hloop ids s (relateSiblings_eq ids ▸ h)

/-- Heads without a `relates_to` among them can be related. -/
theorem relateSiblings_ok {ids : List Uuid} (hnodup : ids.Nodup)
    (hfree : ∀ a ∈ ids, ∀ b ∈ ids, a ≠ b → ¬s.Linked a b .relatesTo) :
    ∃ s', relateSiblings s ids = .ok s' := by
  have hone : ∀ (left : Uuid) (rights : List Uuid) (s : Store), rights.Nodup →
      (∀ right ∈ rights, left ≠ right → ¬s.Linked left right .relatesTo) →
      ∃ s', rights.foldlM (relateTo left) s = .ok s' := by
    intro left rights
    induction rights with
    | nil => exact fun s _ _ => ⟨s, rfl⟩
    | cons right rest ih =>
      intro s hnodup hfree
      obtain ⟨hnot, hnodup⟩ := List.nodup_cons.mp hnodup
      have hfirst : ∃ t, relateTo left s right = .ok t := by
        unfold relateTo
        split
        · exact ⟨s, rfl⟩
        · next hne => exact ⟨_, insertEdge_eq_ok.mpr ⟨hfree right (by simp) hne, rfl⟩⟩
      obtain ⟨t, ht⟩ := hfirst
      have hstep : [right].foldlM (relateTo left) s = .ok t := by
        simp [ht]
      have htlinked := (relateTo_linked hstep).2
      obtain ⟨s', hs'⟩ := ih t hnodup fun other hother hne hlinked => by
        rcases (htlinked _ _ _).mp hlinked with hold | ⟨_, hsame, _⟩
        · exact hfree other (List.mem_cons_of_mem _ hother) hne hold
        · exact hnot (List.mem_singleton.mp hsame ▸ hother)
      exact ⟨s', by simp [List.foldlM_cons, ht, hs']⟩
  have hloop : ∃ s', ids.foldlM (fun s left => ids.foldlM (relateTo left) s) s = .ok s' ∧ _ :=
    foldlM_total (I := fun lefts s => lefts.Nodup ∧
      ∀ a ∈ lefts, ∀ b ∈ ids, a ≠ b → ¬s.Linked a b .relatesTo) ?_ ⟨hnodup, hfree⟩
  · obtain ⟨s', hs', _⟩ := hloop
    exact ⟨s', hs'⟩
  · rintro s left rest ⟨hdistinct, hfree⟩
    obtain ⟨hnot, hdistinct⟩ := List.nodup_cons.mp hdistinct
    obtain ⟨t, ht⟩ := hone left ids s hnodup (hfree left (by simp))
    refine ⟨t, ht, hdistinct, fun a ha b hb hne hlinked => ?_⟩
    rcases ((relateTo_linked ht).2 a b _).mp hlinked with hold | ⟨rfl, _⟩
    · exact hfree a (List.mem_cons_of_mem _ ha) b hb hne hold
    · exact hnot ha

end Siblings

section Children

/-- No active head of the principal carries the label. -/
def LabelOpen (s : Store) (principalId label : String) : Prop :=
  ∀ u ∈ s.units.rows, u.status = .active → u.principalId = principalId → u.label ≠ label

instance (s : Store) (principalId label : String) : Decidable (LabelOpen s principalId label) :=
  inferInstanceAs (Decidable (∀ u ∈ s.units.rows, _))

/-- What an accepted insertion of an active root leaves. -/
structure Rooted (s : Store) (command : CreateMemoryCommand) (r : MemoryUnit × Store) :
    Prop where
  rows : r.2.units.rows = s.units.rows ++ [r.1]
  active : r.1.status = .active ∧ r.1.principalId = command.principalId ∧
    r.1.label = command.label
  revisions : ∀ {uid}, (s.revisions.get? uid).isSome → (r.2.revisions.get? uid).isSome
  edges : r.2.edges = s.edges
  fresh : s.units.get? r.1.id = none ∧ ∀ b edge, ¬s.Linked r.1.id b edge
  labelled : LabelOpen s command.principalId command.label

theorem insertRoot_rooted {command : CreateMemoryCommand} {embedding : Embedding}
    {r : MemoryUnit × Store} (h : insertRoot env s command embedding = .ok r) :
    Rooted s command r := by
  simp only [insertRoot, insertUnit, insertRevision, bind_eq_ok, ensure_eq_ok, require_eq_ok,
    pure_eq_ok] at h
  obtain ⟨t, ⟨_, _, _, _, _, hlabel, units, hunits, rfl⟩, w, ⟨_, _, revisions, hrevisions, rfl⟩,
    rfl⟩ := h
  obtain ⟨hunit, rfl⟩ := Table.insert?_eq_some.mp hunits
  obtain ⟨hrevision, rfl⟩ := Table.insert?_eq_some.mp hrevisions
  have hfresh : s.freshUuid ∉ s.uuids := freshUuid_not_mem
  simp only [uuids, List.mem_append, List.mem_map, not_or] at hfresh
  refine ⟨rfl, ⟨rfl, rfl, rfl⟩, fun {uid} hsome => ?_, rfl, ⟨hunit, ?_⟩, ?_⟩
  · obtain ⟨row, hrow⟩ := Option.isSome_iff_exists.mp hsome
    exact Option.isSome_iff_exists.mpr ⟨row, Table.get?_insert_of_some (h := hrevision) hrow⟩
  · rintro b edge ⟨e, he, hfrom, _⟩
    exact hfresh.1.1.1.1 ⟨e, he, hfrom⟩
  · intro u hu hactive hprincipal hsame
    exact hlabel rfl ⟨u, hu, fun hid => hfresh.1.1.2 ⟨u, hu, hid⟩, hactive, hprincipal, hsame⟩

theorem insertRoot_ok {command : CreateMemoryCommand} {embedding : Embedding}
    (hparent : ∀ uid ∈ command.parentUid, (s.revisions.get? uid).isSome)
    (hlabel : LabelOpen s command.principalId command.label) :
    ∃ r, insertRoot env s command embedding = .ok r := by
  have hunit : s.drawn.units.get? s.freshUuid = none := get?_freshUuid_units
  have hfree (unit : MemoryUnit) (hprincipal : unit.principalId = command.principalId)
      (hname : unit.label = command.label) : s.drawn.ActiveLabelFree unit := by
    rintro - ⟨other, hother, _, hactive, hsame, hlabel'⟩
    exact hlabel other hother hactive (hsame.trans hprincipal) (hlabel'.trans hname)
  simp only [insertRoot, Option.getD_none]
  rw [insertUnit_ok rfl (by simp) (hfree _ rfl rfl) hunit, ok_bind,
    insertRevision_ok hparent get?_freshUlid_revisions]
  exact ⟨_, rfl⟩

theorem Rooted.labelOpen {command : CreateMemoryCommand} {r : MemoryUnit × Store}
    (h : Rooted s command r) (label : String) :
    LabelOpen r.2 command.principalId label ↔
      LabelOpen s command.principalId label ∧ command.label ≠ label := by
  obtain ⟨hactive, hprincipal, hlabel⟩ := h.active
  simp only [LabelOpen, h.rows, List.mem_append, List.mem_singleton, or_imp, forall_and,
    forall_eq, ← hlabel]
  exact and_congr Iff.rfl ⟨fun hnew => hnew hactive hprincipal, fun hnew _ _ => hnew⟩

/-- What an accepted insertion of one head for each child found and left. -/
structure Brood (s : Store) (principalId : String) (labels : List String)
    (r : List MemoryUnit × Store) : Prop where
  distinct : labels.Nodup
  labelled : ∀ label ∈ labels, LabelOpen s principalId label
  ids : (r.1.map (·.id)).Nodup
  fresh : ∀ row ∈ r.1, s.units.get? row.id = none ∧ ∀ b edge, ¬s.Linked row.id b edge
  edges : r.2.edges = s.edges

variable {principalId : String} {command : SplitChild → CreateMemoryCommand} {parentUid : Ulid}
  {children : List (SplitChild × Embedding)}

theorem insertChildren_brood (principalId : String)
    (hprincipal : ∀ child, (command child).principalId = principalId)
    (hlabel : ∀ child, (command child).label = child.label) {r : List MemoryUnit × Store}
    (h : insertChildren env command s children = .ok r) :
    Brood s principalId (children.map (·.1.label)) r := by
  induction children generalizing s r with
  | nil =>
    simp only [insertChildren, Except.ok.injEq] at h
    subst h
    exact ⟨by simp, by simp, by simp, by simp, rfl⟩
  | cons child rest ih =>
    obtain ⟨child, embedding⟩ := child
    simp only [insertChildren, bind_eq_ok, pure_eq_ok] at h
    obtain ⟨⟨row, t⟩, hroot, ⟨rows, s'⟩, hrest, rfl⟩ := h
    have hrooted := insertRoot_rooted hroot
    have hbrood := ih hrest
    have hheads : t.units.rows = s.units.rows ++ [row] := hrooted.rows
    have hedges : t.edges = s.edges := hrooted.edges
    have hlater (label : String) : LabelOpen t principalId label ↔
        LabelOpen s principalId label ∧ child.label ≠ label := by
      rw [← hprincipal child, ← hlabel child]
      exact hrooted.labelOpen label
    have hget (id : Uuid) (hid : t.units.get? id = none) :
        s.units.get? id = none ∧ row.id ≠ id := by
      simp only [Table.get?_eq_none_iff, hheads, List.mem_append, List.mem_singleton,
        or_imp, forall_and, forall_eq] at hid ⊢
      exact hid
    have hfirst : LabelOpen s principalId child.label := by
      rw [← hprincipal child, ← hlabel child]
      exact hrooted.labelled
    refine ⟨?_, ?_, ?_, ?_, hbrood.edges.trans hedges⟩
    · rw [List.map_cons, List.nodup_cons]
      refine ⟨fun hin => ?_, hbrood.distinct⟩
      exact ((hlater _).mp (hbrood.labelled _ hin)).2 rfl
    · rw [List.map_cons, List.forall_mem_cons]
      exact ⟨hfirst, fun label hin => ((hlater label).mp (hbrood.labelled label hin)).1⟩
    · rw [List.map_cons, List.nodup_cons]
      refine ⟨fun hin => ?_, hbrood.ids⟩
      obtain ⟨other, hother, hid⟩ := List.mem_map.mp hin
      exact (hget _ (hbrood.fresh other hother).1).2 hid.symm
    · rw [List.forall_mem_cons]
      refine ⟨hrooted.fresh, fun other hother => ?_⟩
      obtain ⟨hnone, hunlinked⟩ := hbrood.fresh other hother
      refine ⟨(hget _ hnone).1, fun b edge hlinked => hunlinked b edge ?_⟩
      simpa only [Linked, hedges] using hlinked

theorem insertChildren_ok (hprincipal : ∀ child, (command child).principalId = principalId)
    (hlabel : ∀ child, (command child).label = child.label)
    (hcommand : ∀ child, (command child).parentUid = some parentUid)
    (hparent : (s.revisions.get? parentUid).isSome)
    (hdistinct : (children.map (·.1.label)).Nodup)
    (hopen : ∀ child ∈ children, LabelOpen s principalId child.1.label) :
    ∃ r, insertChildren env command s children = .ok r := by
  induction children generalizing s with
  | nil => exact ⟨_, rfl⟩
  | cons child rest ih =>
    obtain ⟨child, embedding⟩ := child
    rw [List.map_cons, List.nodup_cons] at hdistinct
    rw [List.forall_mem_cons] at hopen
    have hroot : ∃ r, insertRoot env s (command child) embedding = .ok r := by
      apply insertRoot_ok
      · rw [hcommand]
        rintro _ ⟨⟩
        exact hparent
      · rw [hprincipal, hlabel]
        exact hopen.1
    apply bind_total hroot
    intro r hr
    have hrooted := insertRoot_rooted hr
    apply bind_total
    · apply ih (hrooted.revisions hparent) hdistinct.2
      intro other hother
      rw [← hprincipal child]
      apply (hrooted.labelOpen _).mpr
      rw [hprincipal, hlabel]
      refine ⟨hopen.2 other hother, fun hsame => hdistinct.1 ?_⟩
      rw [hsame]
      exact List.mem_map_of_mem (f := fun child => child.1.label) hother
    · exact fun _ _ => ⟨_, rfl⟩

/-- A split is carried out exactly where its source still stands and every child has a label
of its own that no other active head of the principal carries. -/
theorem enactCuratorSplit_ok {source : MemoryUnit} {machineId : String} {findingUid : Ulid}
    (h : s.Lineage) (hfound : s.units.get? source.id = some source) :
    (∃ s', enactCuratorSplit env s source children machineId findingUid = .ok s') ↔
      source.status = .active ∧ (children.map (·.1.label)).Nodup ∧
        ∀ child ∈ children, ¬s.LabelTaken source.principalId child.1.label source.id := by
  have hopen {t : Store} {u : MemoryUnit} (hstatus : u.status = .tombstoned)
      (hget : ∀ id, t.units.get? id = if id = source.id then some u else s.units.get? id)
      (label : String) : LabelOpen t source.principalId label ↔
        ¬s.LabelTaken source.principalId label source.id := by
    constructor
    · rintro hlabel ⟨other, hother, hne, hactive, hprincipal, hsame⟩
      have hmem : t.units.get? other.id = some other := by
        rw [hget, if_neg hne]
        exact Table.get?_of_mem hother
      exact hlabel other (Table.mem_of_get? hmem) hactive hprincipal hsame
    · intro hfree other hother hactive hprincipal hsame
      have hmem := Table.get?_of_mem hother
      rw [hget] at hmem
      split at hmem
      · obtain rfl := Option.some.inj hmem
        rw [hstatus] at hactive
        cases hactive
      · next hne =>
        exact hfree ⟨other, Table.mem_of_get? hmem, hne, hactive, hprincipal, hsame⟩
  constructor
  · rintro ⟨s', hok⟩
    simp only [enactCuratorSplit, bind_eq_ok, ensure_eq_ok] at hok
    obtain ⟨_, hactive, ⟨_, t⟩, hcas, ⟨rows, v⟩, hrows, _⟩ := hok
    obtain ⟨current, hstep, _⟩ := casUpdate_eq_ok.mp hcas
    have hbrood := insertChildren_brood source.principalId (fun _ => rfl) (fun _ => rfl) hrows
    refine ⟨hactive, hbrood.distinct, fun child hchild => ?_⟩
    rw [← hopen rfl hstep.get?_units]
    exact hbrood.labelled _ (List.mem_map_of_mem (f := fun child => child.1.label) hchild)
  · rintro ⟨hactive, hdistinct, hfree⟩
    obtain ⟨t, hstep, hcas⟩ := cas_ok (fun revUid =>
      { memoryId := source.id
        expectedRevision := source.revision
        revUid
        editor := "maintenance"
        originMachineId := machineId
        reason := s!"curation/{findingUid}/split-source"
        changes := { status := some .tombstoned } }) h hfound rfl rfl (by simp)
      (by simp [ActiveLabelFree])
    have hparent : (t.revisions.get? s.freshUlid).isSome := by
      obtain ⟨parentUid, revisions, _, hrevision, rfl⟩ := hstep.written
      obtain ⟨hfresh, rfl⟩ := Table.insert?_eq_some.mp hrevision
      exact Option.isSome_iff_exists.mpr ⟨_, Table.get?_insert_self (h := hfresh)⟩
    simp only [enactCuratorSplit, ensure_pos hactive, ok_bind, hcas]
    have hchildren (child : SplitChild × Embedding) (hchild : child ∈ children) :
        LabelOpen t source.principalId child.1.label :=
      (hopen rfl hstep.get?_units _).mpr (hfree child hchild)
    apply bind_total
    · exact insertChildren_ok (fun _ => rfl) (fun _ => rfl) (fun _ => rfl) hparent hdistinct
        hchildren
    · intro r hr
      have hbrood := insertChildren_brood source.principalId (fun _ => rfl) (fun _ => rfl) hr
      apply relateSiblings_ok hbrood.ids
      intro a ha b _ _ hlinked
      obtain ⟨row, hrow, rfl⟩ := List.mem_map.mp ha
      apply (hbrood.fresh row hrow).2 b .relatesTo
      simpa only [Linked, hbrood.edges] using hlinked

end Children

end Nocturne.Memory
