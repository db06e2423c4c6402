import Mathlib.Logic.Relation
import Nocturne.Store.Lineage
import Nocturne.Inject.Decisions

namespace Nocturne

open Nocturne.Lib Nocturne.Inject

/-- What an operation may write; an absent field is not written. -/
structure Footprint where
  head : MemoryUnit → CasUpdate → Prop := fun _ _ => False
  root : MemoryUnit → Prop := fun _ => False
  card : ApprovalQueueItem → Prop := fun _ => False
  decision : ApprovalDecision → Prop := fun _ => False
  record : InjectionEvent → Prop := fun _ => False
  outcome : InjectionEvent → Outcome → Prop := fun _ _ => False
  resolution : SymphonyRunResolution → Prop := fun _ => False

namespace Footprint

/-- Everything one footprint admits the other does. -/
structure Within (φ ψ : Footprint) : Prop where
  head : ∀ {u command}, φ.head u command → ψ.head u command
  root : ∀ {u}, φ.root u → ψ.root u
  card : ∀ {item}, φ.card item → ψ.card item
  decision : ∀ {d}, φ.decision d → ψ.decision d
  record : ∀ {e}, φ.record e → ψ.record e
  outcome : ∀ {e o}, φ.outcome e o → ψ.outcome e o
  resolution : ∀ {r}, φ.resolution r → ψ.resolution r

def any : Footprint :=
  ⟨fun _ _ => True, fun _ => True, fun _ => True, fun _ => True, fun _ => True, fun _ _ => True,
    fun _ => True⟩

/-- Everything but the decision log. -/
def unlogged : Footprint :=
  { head := fun _ _ => True
    root := fun _ => True
    card := fun _ => True
    decision := fun _ => True
    resolution := fun _ => True }

theorem Within.unlogged {φ : Footprint} (hr : ∀ e, ¬φ.record e) (ho : ∀ e o, ¬φ.outcome e o) :
    φ.Within Footprint.unlogged :=
  ⟨fun _ => trivial, fun _ => trivial, fun _ => trivial, fun _ => trivial, (hr _), (ho _ _),
    fun _ => trivial⟩

theorem Within.any (φ : Footprint) : φ.Within Footprint.any := by
  constructor <;> intros <;> trivial

end Footprint

/-- Any refusal but the one saying that a head has lost its revision row. -/
def SpineError.Lineaged : SpineError → Prop
  | .memoryLineage .. => False
  | _ => True

/-- An update of one head, at one revision, by one set of changes. -/
def CasUpdate.At (command : CasUpdate) (id : Uuid) (revision : Nat)
    (changes : MemoryUnitChanges) : Prop :=
  command.memoryId = id ∧ command.expectedRevision = revision ∧ command.changes = changes

namespace Store

/-- Heads, cards, decisions and the log are untouched, findings keep their evidence and threads
their identity; a finding once persisted stays so. -/
structure Quiet (s s' : Store) : Prop where
  units : s'.units = s.units
  revisions : s'.revisions = s.revisions
  items : s'.items = s.items
  decisions : s'.decisions = s.decisions
  events : s'.events = s.events
  configs : s'.configs = s.configs
  resolutions : s'.resolutions = s.resolutions
  findings : ∀ {uid f}, s.findings.get? uid = some f →
    ∃ persisted, s'.findings.get? uid = some { f with persisted } ∧ (f.persisted → persisted)
  threads : ∀ {id t}, s.threads.get? id = some t → ∃ snapshotTs,
    s'.threads.get? id = some { t with snapshotTs } ∧ (t.snapshotTs.isSome → snapshotTs.isSome)

theorem Quiet.refl (s : Store) : Quiet s s where
  units := rfl
  revisions := rfl
  items := rfl
  decisions := rfl
  events := rfl
  configs := rfl
  resolutions := rfl
  findings h := ⟨_, h, id⟩
  threads h := ⟨_, h, id⟩

theorem Quiet.trans {s t u : Store} (hst : Quiet s t) (htu : Quiet t u) : Quiet s u where
  units := htu.units.trans hst.units
  revisions := htu.revisions.trans hst.revisions
  items := htu.items.trans hst.items
  decisions := htu.decisions.trans hst.decisions
  events := htu.events.trans hst.events
  configs := htu.configs.trans hst.configs
  resolutions := htu.resolutions.trans hst.resolutions
  findings h := by
    obtain ⟨_, h, hst'⟩ := hst.findings h
    obtain ⟨persisted, h, htu'⟩ := htu.findings h
    exact ⟨persisted, h, fun hf => htu' (hst' hf)⟩
  threads h := by
    obtain ⟨_, h, hst'⟩ := hst.threads h
    obtain ⟨snapshotTs, h, htu'⟩ := htu.threads h
    exact ⟨snapshotTs, h, fun hs => htu' (hst' hs)⟩

/-- A run gets its one resolution. -/
def Resolves (s : Store) (resolution : SymphonyRunResolution) (s' : Store) : Prop :=
  ∃ resolutions, s.resolutions.insert? resolution = some resolutions ∧
    s' = { s with resolutions }

/-- One write the footprint admits. -/
inductive Write (φ : Footprint) (s : Store) : Store → Prop
  | head {command : CasUpdate} {current : MemoryUnit} {s' : Store} :
    φ.head current command → s.CasStep command current s' → Write φ s s'
  | root {unit : MemoryUnit} {row : MemoryRevision} {s' : Store} :
    φ.root unit → s.RootStep unit row s' → Write φ s s'
  | quiet {s' : Store} : s.Quiet s' → Write φ s s'
  | card {item : ApprovalQueueItem} {s' : Store} :
    φ.card item → s.insertItem item = .ok s' → Write φ s s'
  | decision {decision : ApprovalDecision} {s' : Store} :
    φ.decision decision → s.insertDecision decision = .ok s' →
      Write φ s (s'.setItemState decision.itemUid decision.decision.itemState)
  | record {event : InjectionEvent} {events : Table Nat InjectionEvent (·.id)} :
    φ.record event →
      (∃ thread ∈ s.threads.get? event.threadId, thread.snapshotTs.isSome) →
      s.events.insert? event = some events → Write φ s { s with events }
  | outcome {event : InjectionEvent} {expected : Option Outcome} {desired : Outcome}
    {s' : Store} : φ.outcome event desired →
      replaceOutcome s event expected desired = .ok s' → Write φ s s'
  | resolution {resolution : SymphonyRunResolution} {s' : Store} :
    φ.resolution resolution → s.Resolves resolution s' → Write φ s s'

/-- What an operation of this footprint does, write by write. -/
abbrev Writes (φ : Footprint) : Store → Store → Prop := Relation.ReflTransGen (Write φ)

section Basics

variable {φ ψ : Footprint} {s t u : Store}

theorem Write.mono (h : φ.Within ψ) : Write φ s t → Write ψ s t
  | .head hφ hs => .head (h.head hφ) hs
  | .root hφ hs => .root (h.root hφ) hs
  | .quiet hq => .quiet hq
  | .card hφ hs => .card (h.card hφ) hs
  | .decision hφ hs => .decision (h.decision hφ) hs
  | .record hφ ht hs => .record (h.record hφ) ht hs
  | .outcome hφ hs => .outcome (h.outcome hφ) hs
  | .resolution hφ hs => .resolution (h.resolution hφ) hs

theorem Writes.mono (hs : Writes φ s t) (h : φ.Within ψ) : Writes ψ s t :=
  Relation.ReflTransGen.mono (fun _ _ => Write.mono h) _ _ hs

theorem Quiet.writes (h : s.Quiet t) : Writes φ s t := .single (.quiet h)

/-- What every single write relates, an operation relates. -/
theorem Writes.rel {R : Store → Store → Prop} (refl : ∀ s, R s s)
    (trans : ∀ {s t u}, R s t → R t u → R s u) (hstep : ∀ {s t}, Write φ s t → R s t)
    (h : Writes φ s t) : R s t := by
  induction h with
  | refl => exact refl s
  | tail _ hw ih => exact trans ih (hstep hw)

/-- What every single write keeps, an operation keeps. -/
theorem Writes.keeps {I : Store → Prop} (hstep : ∀ {s t}, Write φ s t → I s → I t)
    (h : Writes φ s t) : I s → I t :=
  h.rel (R := fun s t => I s → I t) (fun _ => id) (fun h k hs => k (h hs)) hstep

end Basics

section Shapes

variable {φ : Footprint} {s s' : Store}

theorem insertItem_eq_ok {item : ApprovalQueueItem} : s.insertItem item = .ok s' ↔
    (s.units.get? item.candidateMemoryId).isSome ∧
      (¬item.birthplace.IsCurator → ∀ other ∈ s.items.rows,
        other.candidateMemoryId = item.candidateMemoryId → other.birthplace.IsCurator) ∧
      (∀ uid ∈ item.birthplace.findingUid, ∀ other ∈ s.items.rows,
        other.birthplace.findingUid ≠ some uid) ∧
      ∃ items, s.items.insert? item = some items ∧ s' = { s with items } := by
  simp only [insertItem, bind_eq_ok, ensure_eq_ok, require_eq_ok, pure_eq_ok]
  constructor
  · rintro ⟨_, h1, _, h2, _, h3, items, h4, rfl⟩
    exact ⟨h1, h2, h3, items, h4, rfl⟩
  · rintro ⟨h1, h2, h3, items, h4, rfl⟩
    exact ⟨.unit, h1, .unit, h2, .unit, h3, items, h4, rfl⟩

theorem mem_of_insertItem {item row : ApprovalQueueItem} (h : s.insertItem item = .ok s') :
    row ∈ s'.items.rows ↔ row ∈ s.items.rows ∨ row = item := by
  obtain ⟨_, _, _, _, hinsert, rfl⟩ := insertItem_eq_ok.mp h
  obtain ⟨_, rfl⟩ := Table.insert?_eq_some.mp hinsert
  rw [Table.rows_insert, List.mem_append, List.mem_singleton]

theorem insertDecision_eq_ok {decision : ApprovalDecision} : s.insertDecision decision = .ok s' ↔
    (∀ other ∈ s.decisions.rows, other.itemUid ≠ decision.itemUid) ∧
      ∃ decisions, s.decisions.insert? decision = some decisions ∧ s' = { s with decisions } := by
  simp only [insertDecision, bind_eq_ok, ensure_eq_ok, require_eq_ok, pure_eq_ok]
  constructor
  · rintro ⟨_, h1, decisions, h2, rfl⟩
    exact ⟨h1, decisions, h2, rfl⟩
  · rintro ⟨h1, decisions, h2, rfl⟩
    exact ⟨.unit, h1, decisions, h2, rfl⟩

theorem replaceOutcome_eq_ok {event : InjectionEvent} {expected : Option Outcome}
    {desired : Outcome} : replaceOutcome s event expected desired = .ok s' ↔
    ∃ current, s.events.get? event.id = some current ∧ current.outcome = expected ∧
      s' = { s with
        events := s.events.modify event.id (fun e => { e with outcome := some desired })
          fun _ => rfl } := by
  simp only [replaceOutcome, bind_eq_ok, ensure_eq_ok, require_eq_ok, pure_eq_ok]
  constructor
  · rintro ⟨current, h1, _, h2, rfl⟩
    exact ⟨current, h1, h2, rfl⟩
  · rintro ⟨current, h1, h2, rfl⟩
    exact ⟨current, h1, .unit, h2, rfl⟩

theorem insertEdge_quiet {fromMemoryId toMemoryId : Uuid} {edgeType : EdgeType}
    (h : s.insertEdge fromMemoryId toMemoryId edgeType = .ok s') : s.Quiet s' := by
  simp only [insertEdge, bind_eq_ok, ensure_eq_ok, require_eq_ok, pure_eq_ok] at h
  obtain ⟨_, _, edges, _, rfl⟩ := h
  exact ⟨rfl, rfl, rfl, rfl, rfl, rfl, rfl, fun h => ⟨_, h, id⟩, fun h => ⟨_, h, id⟩⟩

theorem drawn_quiet : s.Quiet s.drawn :=
  ⟨rfl, rfl, rfl, rfl, rfl, rfl, rfl, fun h => ⟨_, h, id⟩, fun h => ⟨_, h, id⟩⟩

theorem begin_quiet (session : Session) : s.Quiet (s.begin session) :=
  ⟨rfl, rfl, rfl, rfl, rfl, rfl, rfl, fun h => ⟨_, h, id⟩, fun h => ⟨_, h, id⟩⟩

/-- No write changes a head except by compare-and-set. -/
theorem Write.units_cases (h : Write φ s s') :
    (∃ command current, φ.head current command ∧ s.CasStep command current s') ∨
    (∃ unit row, φ.root unit ∧ s.RootStep unit row s') ∨
    (s'.units = s.units ∧ s'.revisions = s.revisions) := by
  cases h with
  | head hφ hs => exact .inl ⟨_, _, hφ, hs⟩
  | root hφ hs => exact .inr (.inl ⟨_, _, hφ, hs⟩)
  | quiet hq => exact .inr (.inr ⟨hq.units, hq.revisions⟩)
  | card _ hs =>
    obtain ⟨_, _, _, _, _, rfl⟩ := insertItem_eq_ok.mp hs
    exact .inr (.inr ⟨rfl, rfl⟩)
  | decision _ hs =>
    obtain ⟨_, _, _, rfl⟩ := insertDecision_eq_ok.mp hs
    exact .inr (.inr ⟨rfl, rfl⟩)
  | record => exact .inr (.inr ⟨rfl, rfl⟩)
  | outcome _ hs =>
    obtain ⟨_, _, _, rfl⟩ := replaceOutcome_eq_ok.mp hs
    exact .inr (.inr ⟨rfl, rfl⟩)
  | resolution _ hs =>
    obtain ⟨_, _, rfl⟩ := hs
    exact .inr (.inr ⟨rfl, rfl⟩)

end Shapes

section Heads

variable {φ : Footprint} {s s' : Store}

theorem Write.lineage (h : Write φ s s') (hs : s.Lineage) : s'.Lineage := by
  rcases h.units_cases with ⟨_, _, _, hc⟩ | ⟨_, _, _, hr⟩ | ⟨hu, hr⟩
  · exact hs.cas hc
  · exact hs.root hr
  · exact hs.congr hu hr

theorem Writes.lineage (h : Writes φ s s') : s.Lineage → s'.Lineage :=
  h.keeps Write.lineage

/-- Revision rows are only ever appended. -/
theorem Writes.revisions_prefix (h : Writes φ s s') : s.revisions.rows <+: s'.revisions.rows := by
  apply h.rel (R := fun s s' => s.revisions.rows <+: s'.revisions.rows)
    (fun _ => List.prefix_rfl) List.IsPrefix.trans
  intro s t hw
  rcases hw.units_cases with ⟨_, _, _, hc⟩ | ⟨_, _, _, hr⟩ | ⟨_, heq⟩
  · obtain ⟨_, _, _, hinsert, rfl⟩ := hc.written
    obtain ⟨_, rfl⟩ := Table.insert?_eq_some.mp hinsert
    exact List.prefix_append _ _
  · obtain ⟨_, _, _, hinsert, rfl⟩ := hr.written
    obtain ⟨_, rfl⟩ := Table.insert?_eq_some.mp hinsert
    exact List.prefix_append _ _
  · exact heq ▸ List.prefix_rfl

/-- A later version of a head: what no update writes is the same, and an equal revision
means nothing was written. -/
structure Descends (u u' : MemoryUnit) : Prop where
  id : u'.id = u.id
  principalId : u'.principalId = u.principalId
  run : u'.runId = u.runId ∧ u'.originAgent = u.originAgent
  le : u.revision ≤ u'.revision
  same : u'.revision = u.revision → u' = u

theorem Descends.refl (u : MemoryUnit) : Descends u u :=
  ⟨rfl, rfl, ⟨rfl, rfl⟩, le_rfl, fun _ => rfl⟩

theorem Descends.trans {u v w : MemoryUnit} (huv : Descends u v) (hvw : Descends v w) :
    Descends u w where
  id := hvw.id.trans huv.id
  principalId := hvw.principalId.trans huv.principalId
  run := ⟨hvw.run.1.trans huv.run.1, hvw.run.2.trans huv.run.2⟩
  le := huv.le.trans hvw.le
  same h := by
    have hv : v.revision = u.revision := le_antisymm (h ▸ hvw.le) huv.le
    rw [hvw.same (h.trans hv.symm), huv.same hv]

theorem descends_bumped (changes : MemoryUnitChanges) (u : MemoryUnit) :
    Descends u (s.bumped changes u) where
  id := rfl
  principalId := rfl
  run := ⟨rfl, rfl⟩
  le := Nat.le_succ _
  same h := by simp at h

/-- No head is ever deleted, and its revision only rises. -/
theorem Write.descends (h : Write φ s s') {id : Uuid} {u : MemoryUnit}
    (hu : s.units.get? id = some u) : ∃ u', s'.units.get? id = some u' ∧ Descends u u' := by
  rcases h.units_cases with ⟨command, current, _, hc⟩ | ⟨unit, row, _, hr⟩ | ⟨heq, _⟩
  · rw [hc.get?_units]
    split
    · next hid =>
      subst hid
      obtain rfl := Option.some.inj (hu.symm.trans hc.found)
      exact ⟨_, rfl, descends_bumped _ _⟩
    · exact ⟨u, hu, .refl u⟩
  · rw [hr.get?_units, if_neg]
    · exact ⟨u, hu, .refl u⟩
    · rintro rfl
      rw [hr.fresh] at hu
      cases hu
  · exact ⟨u, heq ▸ hu, .refl u⟩

theorem Writes.descends (h : Writes φ s s') {id : Uuid} {u : MemoryUnit}
    (hu : s.units.get? id = some u) : ∃ u', s'.units.get? id = some u' ∧ Descends u u' := by
  refine h.rel (R := fun s s' => ∀ u, s.units.get? id = some u →
    ∃ u', s'.units.get? id = some u' ∧ Descends u u') ?_ ?_ ?_ u hu
  · exact fun s u hu => ⟨u, hu, .refl u⟩
  · intro s t w hst htw u hu
    obtain ⟨v, hv, huv⟩ := hst u hu
    obtain ⟨w, hw, hvw⟩ := htw v hv
    exact ⟨w, hw, huv.trans hvw⟩
  · exact fun hw u hu => hw.descends hu

/-- A head no update names is left as it was. -/
theorem Writes.get?_units (h : Writes φ s s') {id : Uuid} {u : MemoryUnit}
    (hφ : ∀ v command, φ.head v command → command.memoryId ≠ id)
    (hu : s.units.get? id = some u) : s'.units.get? id = some u := by
  refine h.keeps (I := fun s => s.units.get? id = some u) ?_ hu
  intro s s' hw hu
  rcases hw.units_cases with ⟨command, current, hc, hs⟩ | ⟨unit, row, _, hs⟩ | ⟨heq, _⟩
  · rw [hs.get?_units, if_neg (hφ current command hc).symm, hu]
  · rw [hs.get?_units, if_neg, hu]
    rintro rfl
    rw [hs.fresh] at hu
    cases hu
  · rw [heq, hu]

/-- What every admitted update keeps true of a head, an operation keeps true of it. -/
theorem Writes.head_keeps {P : MemoryUnit → Prop} {id : Uuid} (h : Writes φ s s')
    (hφ : ∀ s u command, φ.head u command → command.memoryId = id → u.id = id → P u →
      P (Store.bumped s command.changes u)) {u : MemoryUnit} (hu : s.units.get? id = some u)
    (hP : P u) : ∃ u', s'.units.get? id = some u' ∧ P u' := by
  refine h.keeps (I := fun s => ∃ u, s.units.get? id = some u ∧ P u) ?_ ⟨u, hu, hP⟩
  rintro s s' hw ⟨u, hu, hP⟩
  rcases hw.units_cases with ⟨command, current, hc, hs⟩ | ⟨unit, row, _, hs⟩ | ⟨heq, _⟩
  · rw [hs.get?_units]
    split
    · next hid =>
      subst hid
      obtain rfl := Option.some.inj (hu.symm.trans hs.found)
      exact ⟨_, rfl, hφ s _ command hc rfl (Table.key_of_get? hu) hP⟩
    · exact ⟨u, hu, hP⟩
  · rw [hs.get?_units, if_neg]
    · exact ⟨u, hu, hP⟩
    · rintro rfl
      rw [hs.fresh] at hu
      cases hu
  · exact ⟨u, heq ▸ hu, hP⟩

end Heads

section Ledger

variable {φ : Footprint} {s s' : Store}

theorem Write.items_eq (h : Write φ s s') (hc : ∀ item, ¬φ.card item)
    (hd : ∀ d, ¬φ.decision d) : s'.items = s.items ∧ s'.decisions = s.decisions := by
  cases h with
  | head _ hs =>
    obtain ⟨_, _, _, _, rfl⟩ := hs.written
    exact ⟨rfl, rfl⟩
  | root _ hs =>
    obtain ⟨_, _, _, _, rfl⟩ := hs.written
    exact ⟨rfl, rfl⟩
  | quiet hq => exact ⟨hq.items, hq.decisions⟩
  | card hφ => exact absurd hφ (hc _)
  | decision hφ => exact absurd hφ (hd _)
  | record => exact ⟨rfl, rfl⟩
  | outcome _ hs =>
    obtain ⟨_, _, _, rfl⟩ := replaceOutcome_eq_ok.mp hs
    exact ⟨rfl, rfl⟩
  | resolution _ hs =>
    obtain ⟨_, _, rfl⟩ := hs
    exact ⟨rfl, rfl⟩

/-- An operation that files and decides no card leaves the queue as it was. -/
theorem Writes.items_eq (h : Writes φ s s') (hc : ∀ item, ¬φ.card item)
    (hd : ∀ d, ¬φ.decision d) : s'.items = s.items ∧ s'.decisions = s.decisions :=
  h.rel (R := fun s s' => s'.items = s.items ∧ s'.decisions = s.decisions) (fun _ => ⟨rfl, rfl⟩)
    (fun h k => ⟨k.1.trans h.1, k.2.trans h.2⟩) fun hw => hw.items_eq hc hd

theorem Write.events_eq (h : Write φ s s') (hr : ∀ e, ¬φ.record e) (ho : ∀ e o, ¬φ.outcome e o) :
    s'.events = s.events := by
  cases h with
  | head _ hs =>
    obtain ⟨_, _, _, _, rfl⟩ := hs.written
    rfl
  | root _ hs =>
    obtain ⟨_, _, _, _, rfl⟩ := hs.written
    rfl
  | quiet hq => exact hq.events
  | card _ hs =>
    obtain ⟨_, _, _, _, _, rfl⟩ := insertItem_eq_ok.mp hs
    rfl
  | decision _ hs =>
    obtain ⟨_, _, _, rfl⟩ := insertDecision_eq_ok.mp hs
    rfl
  | record hφ => exact absurd hφ (hr _)
  | outcome hφ => exact absurd hφ (ho _ _)
  | resolution _ hs =>
    obtain ⟨_, _, rfl⟩ := hs
    rfl

/-- An operation that records and decides no event leaves the log as it was. -/
theorem Writes.events_eq (h : Writes φ s s') (hr : ∀ e, ¬φ.record e)
    (ho : ∀ e o, ¬φ.outcome e o) : s'.events = s.events :=
  h.rel (R := fun s s' => s'.events = s.events) (fun _ => rfl) (fun h k => k.trans h)
    fun hw => hw.events_eq hr ho

theorem Write.configs_eq (h : Write φ s s') : s'.configs = s.configs := by
  cases h with
  | head _ hs =>
    obtain ⟨_, _, _, _, rfl⟩ := hs.written
    rfl
  | root _ hs =>
    obtain ⟨_, _, _, _, rfl⟩ := hs.written
    rfl
  | quiet hq => exact hq.configs
  | card _ hs =>
    obtain ⟨_, _, _, _, _, rfl⟩ := insertItem_eq_ok.mp hs
    rfl
  | decision _ hs =>
    obtain ⟨_, _, _, rfl⟩ := insertDecision_eq_ok.mp hs
    rfl
  | record => rfl
  | outcome _ hs =>
    obtain ⟨_, _, _, rfl⟩ := replaceOutcome_eq_ok.mp hs
    rfl
  | resolution _ hs =>
    obtain ⟨_, _, rfl⟩ := hs
    rfl

theorem Writes.configs_eq (h : Writes φ s s') : s'.configs = s.configs :=
  h.rel (R := fun s s' => s'.configs = s.configs) (fun _ => rfl) (fun h k => k.trans h)
    Write.configs_eq

/-- Only settling a run touches the resolutions, and it adds one. -/
theorem Write.resolutions_cases (h : Write φ s s') : s'.resolutions = s.resolutions ∨
    ∃ resolution, φ.resolution resolution ∧ s.Resolves resolution s' := by
  cases h with
  | head _ hs =>
    obtain ⟨_, _, _, _, rfl⟩ := hs.written
    exact .inl rfl
  | root _ hs =>
    obtain ⟨_, _, _, _, rfl⟩ := hs.written
    exact .inl rfl
  | quiet hq => exact .inl hq.resolutions
  | card _ hs =>
    obtain ⟨_, _, _, _, _, rfl⟩ := insertItem_eq_ok.mp hs
    exact .inl rfl
  | decision _ hs =>
    obtain ⟨_, _, _, rfl⟩ := insertDecision_eq_ok.mp hs
    exact .inl rfl
  | record => exact .inl rfl
  | outcome _ hs =>
    obtain ⟨_, _, _, rfl⟩ := replaceOutcome_eq_ok.mp hs
    exact .inl rfl
  | resolution hφ hs => exact .inr ⟨_, hφ, hs⟩

theorem Writes.resolutions_eq (h : Writes φ s s') (hr : ∀ r, ¬φ.resolution r) :
    s'.resolutions = s.resolutions := by
  apply h.rel (R := fun s s' => s'.resolutions = s.resolutions) (fun _ => rfl)
    (fun h k => k.trans h)
  intro s t hw
  rcases hw.resolutions_cases with heq | ⟨resolution, hφ, _⟩
  · exact heq
  · exact absurd hφ (hr resolution)

/-- A run once settled stays settled the same way. -/
theorem Writes.resolution_kept (h : Writes φ s s') {runId : String}
    {resolution : SymphonyRunResolution} (hr : s.resolutions.get? runId = some resolution) :
    s'.resolutions.get? runId = some resolution := by
  apply h.keeps (I := fun s => s.resolutions.get? runId = some resolution) ?_ hr
  intro s t hw hr
  rcases hw.resolutions_cases with heq | ⟨_, _, _, hinsert, rfl⟩
  · rw [heq, hr]
  · obtain ⟨hfresh, rfl⟩ := Table.insert?_eq_some.mp hinsert
    exact Table.get?_insert_of_some (h := hfresh) hr

theorem Write.threads (h : Write φ s s') {id : Uuid} {t : Thread}
    (ht : s.threads.get? id = some t) : ∃ snapshotTs,
      s'.threads.get? id = some { t with snapshotTs } ∧
        (t.snapshotTs.isSome → snapshotTs.isSome) := by
  cases h with
  | head _ hs =>
    obtain ⟨_, _, _, _, rfl⟩ := hs.written
    exact ⟨_, ht, fun h => h⟩
  | root _ hs =>
    obtain ⟨_, _, _, _, rfl⟩ := hs.written
    exact ⟨_, ht, fun h => h⟩
  | quiet hq => exact hq.threads ht
  | card _ hs =>
    obtain ⟨_, _, _, _, _, rfl⟩ := insertItem_eq_ok.mp hs
    exact ⟨_, ht, fun h => h⟩
  | decision _ hs =>
    obtain ⟨_, _, _, rfl⟩ := insertDecision_eq_ok.mp hs
    exact ⟨_, ht, fun h => h⟩
  | record => exact ⟨_, ht, fun h => h⟩
  | outcome _ hs =>
    obtain ⟨_, _, _, rfl⟩ := replaceOutcome_eq_ok.mp hs
    exact ⟨_, ht, fun h => h⟩
  | resolution _ hs =>
    obtain ⟨_, _, rfl⟩ := hs
    exact ⟨_, ht, fun h => h⟩

/-- A thread once prepared stays prepared. -/
theorem Writes.threads_prepared (h : Writes φ s s') {id : Uuid} :
    (∃ thread ∈ s.threads.get? id, thread.snapshotTs.isSome) →
      ∃ thread ∈ s'.threads.get? id, thread.snapshotTs.isSome := by
  refine h.keeps (I := fun s => ∃ thread ∈ s.threads.get? id, thread.snapshotTs.isSome) ?_
  rintro s s' hw ⟨thread, hthread, hsome⟩
  obtain ⟨snapshotTs, hthread', hkept⟩ := hw.threads hthread
  exact ⟨_, hthread', hkept hsome⟩

/-- A card once filed stays filed, and only its state and the time of it ever change. -/
theorem Write.item (h : Write φ s s') {uid : Ulid} {item : ApprovalQueueItem}
    (hitem : s.items.get? uid = some item) :
    ∃ state decidedAt, s'.items.get? uid = some { item with state, decidedAt } := by
  cases h with
  | head _ hs =>
    obtain ⟨_, _, _, _, rfl⟩ := hs.written
    exact ⟨_, _, hitem⟩
  | root _ hs =>
    obtain ⟨_, _, _, _, rfl⟩ := hs.written
    exact ⟨_, _, hitem⟩
  | quiet hq => exact ⟨_, _, hq.items ▸ hitem⟩
  | card _ hs =>
    obtain ⟨_, _, _, items, hinsert, rfl⟩ := insertItem_eq_ok.mp hs
    obtain ⟨hfresh, rfl⟩ := Table.insert?_eq_some.mp hinsert
    exact ⟨_, _, Table.get?_insert_of_some (h := hfresh) hitem⟩
  | decision _ hs =>
    obtain ⟨_, _, _, rfl⟩ := insertDecision_eq_ok.mp hs
    simp only [setItemState, Table.get?_modify, hitem]
    split
    · exact ⟨_, _, rfl⟩
    · exact ⟨_, _, rfl⟩
  | record => exact ⟨_, _, hitem⟩
  | outcome _ hs =>
    obtain ⟨_, _, _, rfl⟩ := replaceOutcome_eq_ok.mp hs
    exact ⟨_, _, hitem⟩
  | resolution _ hs =>
    obtain ⟨_, _, rfl⟩ := hs
    exact ⟨_, _, hitem⟩

theorem Writes.item (h : Writes φ s s') {uid : Ulid} {item : ApprovalQueueItem}
    (hitem : s.items.get? uid = some item) :
    ∃ state decidedAt, s'.items.get? uid = some { item with state, decidedAt } := by
  refine h.keeps (I := fun s => ∃ state decidedAt,
    s.items.get? uid = some { item with state, decidedAt }) ?_ ⟨_, _, hitem⟩
  rintro s s' hw ⟨_, _, hitem⟩
  obtain ⟨state, decidedAt, hitem'⟩ := hw.item hitem
  exact ⟨state, decidedAt, hitem'⟩

/-- A finding keeps its verdict, and stays on record once its pass has persisted it. -/
theorem Write.finding (h : Write φ s s') {uid : Ulid} {f : CuratorFinding}
    (hf : s.findings.get? uid = some f) : ∃ persisted : Bool,
      s'.findings.get? uid = some { f with persisted } ∧ (f.persisted → persisted) := by
  cases h with
  | head _ hs =>
    obtain ⟨_, _, _, _, rfl⟩ := hs.written
    exact ⟨f.persisted, hf, id⟩
  | root _ hs =>
    obtain ⟨_, _, _, _, rfl⟩ := hs.written
    exact ⟨f.persisted, hf, id⟩
  | quiet hq => exact hq.findings hf
  | card _ hs =>
    obtain ⟨_, _, _, _, _, rfl⟩ := insertItem_eq_ok.mp hs
    exact ⟨f.persisted, hf, id⟩
  | decision _ hs =>
    obtain ⟨_, _, _, rfl⟩ := insertDecision_eq_ok.mp hs
    exact ⟨f.persisted, hf, id⟩
  | record => exact ⟨f.persisted, hf, id⟩
  | outcome _ hs =>
    obtain ⟨_, _, _, rfl⟩ := replaceOutcome_eq_ok.mp hs
    exact ⟨f.persisted, hf, id⟩
  | resolution _ hs =>
    obtain ⟨_, _, rfl⟩ := hs
    exact ⟨f.persisted, hf, id⟩

theorem Writes.finding (h : Writes φ s s') {uid : Ulid} {f : CuratorFinding}
    (hf : s.findings.get? uid = some f) : ∃ persisted : Bool,
      s'.findings.get? uid = some { f with persisted } ∧ (f.persisted → persisted) := by
  induction h with
  | refl => exact ⟨f.persisted, hf, id⟩
  | tail _ hw ih =>
    obtain ⟨_, hf', hkept⟩ := ih
    obtain ⟨persisted, hf'', hkept'⟩ := hw.finding hf'
    exact ⟨persisted, hf'', fun hpersisted => hkept' (hkept hpersisted)⟩

/-- A card that waits waited before, or is one the footprint admits. -/
theorem Write.pending_cases (h : Write φ s s') {row : ApprovalQueueItem}
    (hrow : row ∈ s'.items.rows) (hpending : row.state = .pending) :
    row ∈ s.items.rows ∨ φ.card row := by
  cases h with
  | head _ hs =>
    obtain ⟨_, _, _, _, rfl⟩ := hs.written
    exact .inl hrow
  | root _ hs =>
    obtain ⟨_, _, _, _, rfl⟩ := hs.written
    exact .inl hrow
  | quiet hq => exact .inl (hq.items ▸ hrow)
  | card hφ hs =>
    rcases (mem_of_insertItem hs).mp hrow with hrow | rfl
    · exact .inl hrow
    · exact .inr hφ
  | @decision decision _ _ hs =>
    obtain ⟨_, _, _, rfl⟩ := insertDecision_eq_ok.mp hs
    simp only [setItemState, Table.rows_modify, List.mem_map] at hrow
    obtain ⟨item, hitem, rfl⟩ := hrow
    split at hpending
    · -- no decision leaves its card waiting
      have hstate : decision.decision.itemState = .pending := hpending
      cases hdecision : decision.decision <;> simp [hdecision, Decision.itemState] at hstate
    · next hne => exact .inl (by rwa [if_neg hne])
  | record => exact .inl hrow
  | outcome _ hs =>
    obtain ⟨_, _, _, rfl⟩ := replaceOutcome_eq_ok.mp hs
    exact .inl hrow
  | resolution _ hs =>
    obtain ⟨_, _, rfl⟩ := hs
    exact .inl hrow

theorem Writes.pending_cases (h : Writes φ s s') {row : ApprovalQueueItem}
    (hrow : row ∈ s'.items.rows) (hpending : row.state = .pending) :
    row ∈ s.items.rows ∨ φ.card row := by
  induction h with
  | refl => exact .inl hrow
  | tail _ hw ih => exact (hw.pending_cases hrow hpending).elim ih .inr

/-- Every card was filed before, or is one the footprint admits. -/
theorem Write.card_cases (h : Write φ s s') {row : ApprovalQueueItem}
    (hrow : row ∈ s'.items.rows) : ∃ item state decidedAt,
      row = { item with state, decidedAt } ∧ (item ∈ s.items.rows ∨ φ.card item) := by
  have hold (hrow : row ∈ s.items.rows) : ∃ item state decidedAt,
      row = { item with state, decidedAt } ∧ (item ∈ s.items.rows ∨ φ.card item) :=
    ⟨row, row.state, row.decidedAt, rfl, .inl hrow⟩
  cases h with
  | head _ hs =>
    obtain ⟨_, _, _, _, rfl⟩ := hs.written
    exact hold hrow
  | root _ hs =>
    obtain ⟨_, _, _, _, rfl⟩ := hs.written
    exact hold hrow
  | quiet hq => exact hold (hq.items ▸ hrow)
  | card hφ hs =>
    rcases (mem_of_insertItem hs).mp hrow with hrow | rfl
    · exact hold hrow
    · exact ⟨row, row.state, row.decidedAt, rfl, .inr hφ⟩
  | decision _ hs =>
    obtain ⟨_, _, _, rfl⟩ := insertDecision_eq_ok.mp hs
    simp only [setItemState, Table.rows_modify, List.mem_map] at hrow
    obtain ⟨item, hitem, rfl⟩ := hrow
    split
    · exact ⟨item, _, _, rfl, .inl hitem⟩
    · exact ⟨item, _, _, rfl, .inl hitem⟩
  | record => exact hold hrow
  | outcome _ hs =>
    obtain ⟨_, _, _, rfl⟩ := replaceOutcome_eq_ok.mp hs
    exact hold hrow
  | resolution _ hs =>
    obtain ⟨_, _, rfl⟩ := hs
    exact hold hrow

theorem Writes.card_cases (h : Writes φ s s') {row : ApprovalQueueItem}
    (hrow : row ∈ s'.items.rows) : ∃ item state decidedAt,
      row = { item with state, decidedAt } ∧ (item ∈ s.items.rows ∨ φ.card item) := by
  induction h generalizing row with
  | refl => exact ⟨row, row.state, row.decidedAt, rfl, .inl hrow⟩
  | tail _ hw ih =>
    obtain ⟨item, state, decidedAt, rfl, hitem | hφ⟩ := hw.card_cases hrow
    · obtain ⟨old, _, _, rfl, hold⟩ := ih hitem
      exact ⟨old, state, decidedAt, rfl, hold⟩
    · exact ⟨item, state, decidedAt, rfl, .inr hφ⟩

/-- A decision once recorded is never changed. -/
theorem Write.decision_kept (h : Write φ s s') {d : ApprovalDecision}
    (hd : d ∈ s.decisions.rows) : d ∈ s'.decisions.rows := by
  cases h with
  | head _ hs =>
    obtain ⟨_, _, _, _, rfl⟩ := hs.written
    exact hd
  | root _ hs =>
    obtain ⟨_, _, _, _, rfl⟩ := hs.written
    exact hd
  | quiet hq => exact hq.decisions ▸ hd
  | card _ hs =>
    obtain ⟨_, _, _, _, _, rfl⟩ := insertItem_eq_ok.mp hs
    exact hd
  | decision _ hs =>
    obtain ⟨_, _, hinsert, rfl⟩ := insertDecision_eq_ok.mp hs
    obtain ⟨_, rfl⟩ := Table.insert?_eq_some.mp hinsert
    exact List.mem_append_left _ hd
  | record => exact hd
  | outcome _ hs =>
    obtain ⟨_, _, _, rfl⟩ := replaceOutcome_eq_ok.mp hs
    exact hd
  | resolution _ hs =>
    obtain ⟨_, _, rfl⟩ := hs
    exact hd

theorem Writes.decision_kept (h : Writes φ s s') {d : ApprovalDecision}
    (hd : d ∈ s.decisions.rows) : d ∈ s'.decisions.rows :=
  h.keeps (I := fun s => d ∈ s.decisions.rows) (fun hw hd => hw.decision_kept hd) hd

end Ledger

section Operations

variable (φ : Footprint) {s : Store}

/-- A compare-and-set writes one head, or refuses for a reason other than its lineage. -/
theorem casUpdate_meets {command : CasUpdate} (h : s.Lineage)
    (hφ : ∀ u, s.units.get? command.memoryId = some u → u.revision = command.expectedRevision →
      φ.head u command) :
    Meets (fun r => Writes φ s r.2 ∧ ∃ current, s.CasStep command current r.2 ∧
      r.1 = s.bumped command.changes current)
      SpineError.Lineaged (s.casUpdateMemoryUnit command) := by
  have hmeets : Meets (fun _ => True) SpineError.Lineaged (s.casUpdateMemoryUnit command) := by
    unfold casUpdateMemoryUnit
    refine (Meets.ensure trivial).bind fun _ _ => ?_
    refine (Meets.require trivial).bind fun current hfound => ?_
    refine (Meets.ensure trivial).bind fun _ hexpected => ?_
    refine (Meets.ensure trivial).bind fun _ _ => ?_
    obtain ⟨_, last, _, hparent⟩ := h.parentUids_eq hfound
    rw [← hexpected, hparent]
    exact (Meets.require trivial).bind fun _ _ => .pure trivial
  refine hmeets.self.mono fun r hr => ?_
  obtain ⟨current, hstep, hu⟩ := casUpdate_eq_ok.mp hr.1
  exact ⟨.single (.head (hφ current hstep.found hstep.expected) hstep), current, hstep, hu⟩

theorem cas_meets {command : Ulid → CasUpdate} (h : s.Lineage)
    (hφ : ∀ u, s.units.get? (command s.freshUlid).memoryId = some u →
      u.revision = (command s.freshUlid).expectedRevision → φ.head u (command s.freshUlid)) :
    Meets (fun r => Writes φ s r.2 ∧ ∃ current, s.drawn.CasStep (command s.freshUlid) current r.2 ∧
      r.1 = s.drawn.bumped (command s.freshUlid).changes current)
      SpineError.Lineaged (s.cas command) :=
  (casUpdate_meets φ (s := s.drawn) (h.congr rfl rfl) hφ).mono fun _ hr =>
    ⟨(drawn_quiet.writes).trans hr.1, hr.2⟩

/-- A compare-and-set at the revision a head has is accepted, the label index allowing. -/
theorem cas_ok (command : Ulid → CasUpdate) {u : MemoryUnit} (h : s.Lineage)
    (hfound : s.units.get? (command s.freshUlid).memoryId = some u)
    (hexpected : u.revision = (command s.freshUlid).expectedRevision)
    (huid : (command s.freshUlid).revUid = s.freshUlid)
    (hchanged : (command s.freshUlid).changes ≠ {})
    (hlabel : s.drawn.ActiveLabelFree (s.drawn.bumped (command s.freshUlid).changes u)) :
    ∃ s', s.drawn.CasStep (command s.freshUlid) u s' ∧
      s.cas command = .ok (s.drawn.bumped (command s.freshUlid).changes u, s') := by
  have hfresh : s.revisions.get? s.freshUlid = none := get?_freshUlid_revisions
  obtain ⟨_, last, _, hparent⟩ := h.parentUids_eq hfound
  have hinsert : s.revisions.insert? (s.drawn.revisionOf (command s.freshUlid) u last.revUid) =
      some (s.revisions.insert _ (huid.symm ▸ hfresh)) := Table.insert?_of_get?_none _
  have hstep : s.drawn.CasStep (command s.freshUlid) u _ :=
    ⟨hchanged, hfound, hexpected, hlabel, last.revUid, _, hparent, hinsert, rfl⟩
  exact ⟨_, hstep, casUpdate_eq_ok.mpr ⟨u, hstep, rfl⟩⟩

theorem insertEdge_meets {fromMemoryId toMemoryId : Uuid} {edgeType : EdgeType} :
    Meets (s.Quiet ·) SpineError.Lineaged (s.insertEdge fromMemoryId toMemoryId edgeType) := by
  have hmeets : Meets (fun _ => True) SpineError.Lineaged
      (s.insertEdge fromMemoryId toMemoryId edgeType) := by
    unfold insertEdge
    refine (Meets.ensure trivial).bind fun _ _ => ?_
    exact (Meets.require trivial).bind fun _ _ => .pure trivial
  exact hmeets.self.mono fun s' h => insertEdge_quiet h.1

theorem insertItem_meets {item : ApprovalQueueItem} (hφ : φ.card item) :
    Meets (fun s' => Writes φ s s' ∧ s.insertItem item = .ok s') SpineError.Lineaged
      (s.insertItem item) := by
  have hmeets : Meets (fun _ => True) SpineError.Lineaged (s.insertItem item) := by
    unfold insertItem
    refine (Meets.ensure trivial).bind fun _ _ => ?_
    refine (Meets.ensure trivial).bind fun _ _ => ?_
    refine (Meets.ensure trivial).bind fun _ _ => ?_
    exact (Meets.require trivial).bind fun _ _ => .pure trivial
  exact hmeets.self.mono fun s' h => ⟨.single (.card hφ h.1), h.1⟩

theorem insertDecision_meets {decision : ApprovalDecision} :
    Meets (fun s' => s.insertDecision decision = .ok s') SpineError.Lineaged
      (s.insertDecision decision) := by
  have hmeets : Meets (fun _ => True) SpineError.Lineaged (s.insertDecision decision) := by
    unfold insertDecision
    refine (Meets.ensure trivial).bind fun _ _ => ?_
    exact (Meets.require trivial).bind fun _ _ => .pure trivial
  exact hmeets.self.mono fun s' h => h.1

theorem replaceOutcome_meets {event : InjectionEvent} {expected : Option Outcome}
    {desired : Outcome} (hφ : φ.outcome event desired) :
    Meets (fun s' => Writes φ s s' ∧ replaceOutcome s event expected desired = .ok s')
      SpineError.Lineaged (replaceOutcome s event expected desired) := by
  have hmeets : Meets (fun _ => True) SpineError.Lineaged
      (replaceOutcome s event expected desired) := by
    unfold replaceOutcome
    refine (Meets.require trivial).bind fun _ _ => ?_
    exact (Meets.ensure trivial).bind fun _ _ => .pure trivial
  exact hmeets.self.mono fun s' h => ⟨.single (.outcome hφ h.1), h.1⟩

end Operations

end Store

end Nocturne
