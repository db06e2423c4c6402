import Mathlib.Data.List.Dedup
import Mathlib.Tactic.Positivity
import Nocturne.Learner.Creation
import Nocturne.Store.Footprint

namespace Nocturne.Learner

open Nocturne.Inject Nocturne.Lib

/-- An entry tells that an event had an outcome. -/
def CreationOutcome.About (row : CreationOutcome) (eventUid : Ulid) (o : Outcome) : Prop :=
  row.eventKey = .decision eventUid o ∨ row.eventKey = .injection eventUid ∧ row.reason = o.text

namespace CreationStream

variable {c c' : CreationStream} {row : CreationOutcome}

/-- A row of an event is still one of an event with its uid, memory and owner. -/
def SameEvent (e e' : InjectionEvent) : Prop :=
  e'.eventUid = e.eventUid ∧ e'.memoryId = e.memoryId ∧ e'.principalId = e.principalId ∧
    e'.machineId = e.machineId

/-- What an entry says was so. -/
def Valid (c : CreationStream) (row : CreationOutcome) : Prop :=
  match row.eventKey with
  | .revision revUid => ∃ r ∈ c.revisions.rows, r.revUid = revUid ∧
      creationKind r = some row.outcome ∧ row.memoryId = r.memoryId ∧
      row.machineId = r.originMachineId ∧ row.reason = r.reason ∧ row.ts = r.ts ∧
      (c.units.get? r.memoryId).map (·.principalId) = some row.principalId
  | .injection eventUid => ∃ e ∈ c.events.rows, e.eventUid = eventUid ∧
      row.memoryId = e.memoryId ∧ row.principalId = e.principalId ∧
      row.machineId = e.machineId ∧
      ∃ o, Decisive o ∧ row.reason = o.text ∧ row.outcome = decisionKind o
  | .decision eventUid o => ∃ e ∈ c.events.rows, e.eventUid = eventUid ∧
      row.memoryId = e.memoryId ∧ row.principalId = e.principalId ∧
      row.machineId = e.machineId ∧
      Decisive o ∧ row.reason = o.text ∧ row.outcome = decisionKind o
  | .zero memoryId => row.memoryId = memoryId ∧ row.outcome = .zeroInjection ∧
      (c.units.get? memoryId).map (·.principalId) = some row.principalId ∧
      ∃ r ∈ c.revisions.rows, r.memoryId = memoryId ∧ r.revision = 1 ∧
        row.machineId = r.originMachineId

/-- Rows stay: revisions as they are, heads under their principal, events but for their
outcome. -/
structure Kept (c c' : CreationStream) : Prop where
  revisions : ∀ r ∈ c.revisions.rows, r ∈ c'.revisions.rows
  principals : ∀ id principalId, (c.units.get? id).map (·.principalId) = some principalId →
    (c'.units.get? id).map (·.principalId) = some principalId
  events : ∀ e ∈ c.events.rows, ∃ e' ∈ c'.events.rows, SameEvent e e'

theorem Kept.of_same (hunits : c'.units = c.units) (hrevisions : c'.revisions = c.revisions)
    (hevents : c'.events = c.events) : Kept c c' where
  revisions := by simp [hrevisions]
  principals := by simp [hunits]
  events e he := ⟨e, hevents ▸ he, rfl, rfl, rfl, rfl⟩

theorem Valid.kept (h : c.Valid row) (hkept : Kept c c') : c'.Valid row := by
  unfold Valid at h ⊢
  split at h
  · obtain ⟨r, hr, huid, hkind, hmemory, hmachine, hreason, hts, hprincipal⟩ := h
    exact ⟨r, hkept.revisions r hr, huid, hkind, hmemory, hmachine, hreason, hts,
      hkept.principals _ _ hprincipal⟩
  · obtain ⟨e, he, huid, hmemory, hprincipal, hmachine, hsays⟩ := h
    obtain ⟨e', he', huid', hmemory', hprincipal', hmachine'⟩ := hkept.events e he
    exact ⟨e', he', huid'.trans huid, hmemory.trans hmemory'.symm,
      hprincipal.trans hprincipal'.symm, hmachine.trans hmachine'.symm, hsays⟩
  · obtain ⟨e, he, huid, hmemory, hprincipal, hmachine, hsays⟩ := h
    obtain ⟨e', he', huid', hmemory', hprincipal', hmachine'⟩ := hkept.events e he
    exact ⟨e', he', huid'.trans huid, hmemory.trans hmemory'.symm,
      hprincipal.trans hprincipal'.symm, hmachine.trans hmachine'.symm, hsays⟩
  · obtain ⟨hmemory, houtcome, hprincipal, r, hr, hfirst⟩ := h
    exact ⟨hmemory, houtcome, hkept.principals _ _ hprincipal, r, hkept.revisions r hr, hfirst⟩

end CreationStream

section Captures

variable {units : Table Uuid MemoryUnit (·.id)} {revisions : List MemoryRevision}
  {log log' : CreationLog} {r : MemoryRevision} {e : InjectionEvent} {o : Outcome}
  {P : CreationOutcome → Prop}

theorem captureRevision_adds
    (h : ∀ row : CreationOutcome, row.eventKey = .revision r.revUid →
      creationKind r = some row.outcome → row.memoryId = r.memoryId →
      row.machineId = r.originMachineId → row.reason = r.reason → row.ts = r.ts →
      (units.get? r.memoryId).map (·.principalId) = some row.principalId →
      some row.source = some ((creationSource revisions r.memoryId).getD .unknown) → P row) :
    Table.Adds P log (captureRevision units revisions log r) := by
  unfold captureRevision
  split
  · next kind unit hkind hunit =>
    exact .insertNew (h _ rfl hkind rfl rfl rfl rfl (by rw [hunit]; rfl) rfl)
  · exact .refl P log

/-- A revision that says something has its entry. -/
theorem captureRevision_exists {kind : CreationKind} (hkind : creationKind r = some kind)
    (howned : (units.get? r.memoryId).isSome) :
    ∃ row ∈ (captureRevision units revisions log r).rows, row.eventKey = .revision r.revUid := by
  obtain ⟨unit, hunit⟩ := Option.isSome_iff_exists.mp howned
  simp only [captureRevision, hkind, hunit]
  exact Table.exists_insertNew _ _

theorem captureInjection_adds {reviewed : Bool}
    (h : ∀ o key, e.outcome = some o → Decisive o →
      (key = .decision e.eventUid o ∧ reviewed = true ∧
          (∀ row ∈ log.rows, row.eventKey = .injection e.eventUid → row.reason ≠ o.text) ∨
        key = .injection e.eventUid ∧ reviewed = false) →
      P (decisionEntry key revisions e o)) :
    Table.Adds P log (captureInjection reviewed revisions log e) := by
  unfold captureInjection
  split
  · next o ho =>
    split
    · exact .refl P log
    · next hdecisive =>
      have hdecisive := not_not.mp hdecisive
      split
      · next hreviewed =>
        split
        · exact .refl P log
        · next hnew =>
          refine .insertNew (h o _ ho hdecisive (.inl ⟨rfl, hreviewed, fun row hrow hkey => ?_⟩))
          exact fun hreason => hnew ⟨row, hrow, hkey, hreason⟩
      · next hreviewed =>
        exact .insertNew (h o _ ho hdecisive (.inr ⟨rfl, by simpa using hreviewed⟩))
  · exact .refl P log

/-- Under the second migration a decisive outcome has its entry. -/
theorem captureInjection_exists (ho : e.outcome = some o) (hdecisive : Decisive o) :
    ∃ row ∈ (captureInjection true revisions log e).rows, row.About e.eventUid o := by
  simp only [captureInjection, ho, hdecisive, not_true_eq_false, if_false, if_true]
  split
  · next h =>
    obtain ⟨row, hrow, hkey, hreason⟩ := h
    exact ⟨row, hrow, .inr ⟨hkey, hreason⟩⟩
  · obtain ⟨row, hrow, hkey⟩ := Table.exists_insertNew log
      (decisionEntry (.decision e.eventUid o) revisions e o)
    exact ⟨row, hrow, .inl hkey⟩

end Captures

section Separation

variable {revisions : List MemoryRevision} {log log' : CreationLog} {e : InjectionEvent}
  {reviewed : Bool}

/-- No entry of the second kind tells what one of the first kind tells, and there is none before
the second migration. -/
structure Separate (reviewed : Bool) (log : CreationLog) : Prop where
  early : reviewed = false → ∀ row ∈ log.rows, ∀ eventUid o, row.eventKey ≠ .decision eventUid o
  once : ∀ row ∈ log.rows, ∀ row' ∈ log.rows, ∀ eventUid o,
    row.eventKey = .injection eventUid → row'.eventKey = .decision eventUid o → row.reason ≠ o.text

/-- Whatever is not about an event. -/
def Aside (row : CreationOutcome) : Prop :=
  (∀ eventUid, row.eventKey ≠ .injection eventUid) ∧
    ∀ eventUid o, row.eventKey ≠ .decision eventUid o

theorem Separate.aside (h : Separate reviewed log) (hadds : Table.Adds Aside log log') :
    Separate reviewed log' where
  early hearly row hrow eventUid o := (hadds.cases hrow).elim
    (fun hold => h.early hearly row hold eventUid o) fun haside => haside.2 eventUid o
  once row hrow row' hrow' eventUid o hkey hkey' := by
    have hold := (hadds.cases hrow).resolve_right fun haside => haside.1 eventUid hkey
    have hold' := (hadds.cases hrow').resolve_right fun haside => haside.2 eventUid o hkey'
    exact h.once row hold row' hold' eventUid o hkey hkey'

theorem Separate.afterReview (h : Separate reviewed log) : Separate true log :=
  ⟨nofun, h.once⟩

theorem Separate.captureInjection (h : Separate reviewed log) :
    Separate reviewed (captureInjection reviewed revisions log e) := by
  have hadds : Table.Adds (fun row =>
      (∃ o, row.eventKey = .decision e.eventUid o ∧ reviewed = true ∧
        ∀ other ∈ log.rows, other.eventKey = .injection e.eventUid → other.reason ≠ o.text) ∨
      row.eventKey = .injection e.eventUid ∧ reviewed = false)
      log (Learner.captureInjection reviewed revisions log e) := by
    refine captureInjection_adds fun o key _ _ hcase => ?_
    rcases hcase with ⟨rfl, hreviewed, hnew⟩ | ⟨rfl, hreviewed⟩
    · exact .inl ⟨o, rfl, hreviewed, hnew⟩
    · exact .inr ⟨rfl, hreviewed⟩
  constructor
  · intro hearly row hrow eventUid o hkey
    rcases hadds.cases hrow with hold | ⟨_, _, hreviewed, _⟩ | ⟨hinjection, _⟩
    · exact h.early hearly row hold eventUid o hkey
    · rw [hearly] at hreviewed
      cases hreviewed
    · rw [hkey] at hinjection
      cases hinjection
  · intro row hrow row' hrow' eventUid o hkey hkey'
    rcases hadds.cases hrow with hold | ⟨_, hdecision, _⟩ | ⟨_, hearly⟩
    · rcases hadds.cases hrow' with hold' | ⟨o', hdecision, _, hnew⟩ | ⟨hinjection, _⟩
      · exact h.once row hold row' hold' eventUid o hkey hkey'
      · rw [hkey'] at hdecision
        cases hdecision
        exact hnew row hold hkey
      · rw [hkey'] at hinjection
        cases hinjection
    · rw [hkey] at hdecision
      cases hdecision
    · rcases hadds.cases hrow' with hold' | ⟨_, _, hreviewed, _⟩ | ⟨hinjection, _⟩
      · exact absurd hkey' (h.early hearly row' hold' eventUid o)
      · rw [hearly] at hreviewed
        cases hreviewed
      · rw [hkey'] at hinjection
        cases hinjection

end Separation

namespace CreationStream

variable {c c' : CreationStream} {row : CreationOutcome}

/-- What the stream tells is so, every revision that says something is told of, and so is every
decision once the second migration has run. -/
structure Recorded (c : CreationStream) : Prop where
  constrained : c.Constrained
  valid : ∀ row ∈ c.outcomes.rows, c.Valid row
  captured : ∀ r ∈ c.revisions.rows, ∀ kind, creationKind r = some kind →
    ∃ row ∈ c.outcomes.rows, row.eventKey = .revision r.revUid
  separate : Separate c.reviewed c.outcomes
  complete : c.reviewed = true → ∀ e ∈ c.events.rows, ∀ o, e.outcome = some o → Decisive o →
    ∃ row ∈ c.outcomes.rows, row.About e.eventUid o

theorem captureRevision_valid {log : CreationLog} {r : MemoryRevision} (hr : r ∈ c.revisions.rows) :
    Table.Adds (fun row => c.Valid row ∧ Aside row) log
      (captureRevision c.units c.revisions.rows log r) := by
  refine captureRevision_adds fun row hkey hkind hmemory hmachine hreason hts hprincipal _ => ?_
  constructor
  · rw [Valid, hkey]
    exact ⟨r, hr, rfl, hkind, hmemory, hmachine, hreason, hts, hprincipal⟩
  · simp [Aside, hkey]

theorem captureInjection_valid {log : CreationLog} {e e' : InjectionEvent} {reviewed : Bool}
    (he : e ∈ c.events.rows) (hsame : SameEvent e e') :
    Table.Adds c.Valid log (captureInjection reviewed c.revisions.rows log e') := by
  obtain ⟨huid, hmemory, hprincipal, hmachine⟩ := hsame
  refine captureInjection_adds fun o key _ hdecisive hkey => ?_
  rcases hkey with ⟨rfl, _⟩ | ⟨rfl, _⟩
  · exact ⟨e, he, huid.symm, hmemory, hprincipal, hmachine, hdecisive, rfl, rfl⟩
  · exact ⟨e, he, huid.symm, hmemory, hprincipal, hmachine, o, hdecisive, rfl, rfl⟩

theorem sweepUnit_valid {log : CreationLog} {unit : MemoryUnit} {now : Time}
    (hunit : unit ∈ c.units.rows) :
    Table.Adds (fun row => c.Valid row ∧ Aside row) log (c.sweepUnit now log unit) := by
  unfold sweepUnit
  split
  · next r hr =>
    obtain ⟨hmemory, hfirst⟩ : r.memoryId = unit.id ∧ r.revision = 1 := by
      simpa using List.find?_some hr
    refine .insertNew ⟨⟨rfl, rfl, ?_, r, List.mem_of_find?_eq_some hr, hmemory, hfirst, rfl⟩, ?_⟩
    · rw [Table.get?_of_mem hunit]
      rfl
    · simp [Aside]
  · exact .refl _ log

/-- What a step has to show: rows stay, what is added is so, new revisions are told of. -/
theorem Recorded.grow (h : c.Recorded) (hconstrained : c'.Constrained) (hkept : Kept c c')
    (hadds : Table.Adds c'.Valid c.outcomes c'.outcomes)
    (hrevisions : ∀ r ∈ c'.revisions.rows, r ∈ c.revisions.rows ∨ ∀ kind,
      creationKind r = some kind → ∃ row ∈ c'.outcomes.rows, row.eventKey = .revision r.revUid)
    (hseparate : Separate c'.reviewed c'.outcomes)
    (hcomplete : c'.reviewed = true → ∀ e ∈ c'.events.rows, ∀ o, e.outcome = some o →
      Decisive o → (c.reviewed = true ∧ e ∈ c.events.rows) ∨
        ∃ row ∈ c'.outcomes.rows, row.About e.eventUid o) : c'.Recorded where
  constrained := hconstrained
  valid row hrow := (hadds.cases hrow).elim (fun hold => (h.valid row hold).kept hkept) id
  captured r hr kind hkind := by
    rcases hrevisions r hr with hold | hnew
    · obtain ⟨row, hrow, hkey⟩ := h.captured r hold kind hkind
      exact ⟨row, hadds.mem hrow, hkey⟩
    · exact hnew kind hkind
  separate := hseparate
  complete hreviewed e he o ho hdecisive := by
    rcases hcomplete hreviewed e he o ho hdecisive with ⟨hold, hmem⟩ | hnew
    · obtain ⟨row, hrow, habout⟩ := h.complete hold e hmem o ho hdecisive
      exact ⟨row, hadds.mem hrow, habout⟩
    · exact hnew

/-- The log of a step, the rows as they end up, and the whole account of both. -/
structure Steps (c c' : CreationStream) : Prop where
  recorded : c'.Recorded
  kept : Kept c c'
  adds : Table.Adds c'.Valid c.outcomes c'.outcomes

section Actions

variable {unit : MemoryUnit} {r : MemoryRevision} {e : InjectionEvent}

theorem kept_insertUnit {units : Table Uuid MemoryUnit (·.id)}
    (hunits : c.units.insert? unit = some units) : Kept c { c with units } where
  revisions := fun _ => id
  principals id principalId h := by
    obtain ⟨_, rfl⟩ := Table.insert?_eq_some.mp hunits
    obtain ⟨old, hold, hprincipal⟩ := Option.map_eq_some_iff.mp h
    rw [Table.get?_insert_of_some hold]
    exact congrArg some hprincipal
  events e he := ⟨e, he, rfl, rfl, rfl, rfl⟩

theorem kept_updateUnit {old : MemoryUnit} (hold : c.units.get? unit.id = some old)
    (hprincipal : unit.principalId = old.principalId) : Kept c { c with
      units := c.units.modify unit.id (fun old => { unit with id := old.id }) fun _ => rfl } where
  revisions := fun _ => id
  principals id principalId h := by
    by_cases hid : id = unit.id
    · subst hid
      rw [hold] at h
      rw [Table.get?_modify_self, hold]
      exact (congrArg some hprincipal).trans h
    · rwa [Table.get?_modify_of_ne hid]
  events e he := ⟨e, he, rfl, rfl, rfl, rfl⟩

/-- A write of a head touches nothing the stream is captured from. -/
theorem Recorded.units (h : c.Recorded) {units : Table Uuid MemoryUnit (·.id)}
    (hkept : Kept c { c with units }) : Steps c { c with units } where
  recorded := h.grow
    { owned := fun r hr => by
        obtain ⟨u, hu⟩ := Option.isSome_iff_exists.mp (h.constrained.owned r hr)
        have hprincipal := hkept.principals r.memoryId u.principalId (by rw [hu]; rfl)
        obtain ⟨u', hu', _⟩ := Option.map_eq_some_iff.mp hprincipal
        exact Option.isSome_iff_exists.mpr ⟨u', hu'⟩
      uids := h.constrained.uids }
    hkept (.refl _ _) (fun _ => .inl) h.separate fun hreviewed _ he _ _ _ => .inl ⟨hreviewed, he⟩
  kept := hkept
  adds := .refl _ _

theorem Recorded.insertRevision (h : c.Recorded) (howned : (c.units.get? r.memoryId).isSome)
    {revisions : Table Ulid MemoryRevision (·.revUid)}
    (hrevisions : c.revisions.insert? r = some revisions) : Steps c { c with
      revisions
      outcomes := captureRevision c.units revisions.rows c.outcomes r } := by
  obtain ⟨_, rfl⟩ := Table.insert?_eq_some.mp hrevisions
  generalize hc : ({ c with
    revisions := c.revisions.insert r _
    outcomes := captureRevision c.units (c.revisions.insert r _).rows c.outcomes r } :
      CreationStream) = c'
  have hrows : c'.revisions.rows = c.revisions.rows ++ [r] := hc ▸ rfl
  have hkept : Kept c c' :=
    { revisions := fun r hr => by simp [hrows, hr]
      principals := hc ▸ fun _ _ => id
      events := hc ▸ fun e he => ⟨e, he, rfl, rfl, rfl, rfl⟩ }
  have hadds : Table.Adds (fun row => c'.Valid row ∧ Aside row) c.outcomes c'.outcomes := by
    have hvalid : Table.Adds (fun row => c'.Valid row ∧ Aside row) c.outcomes
        (captureRevision c'.units c'.revisions.rows c.outcomes r) :=
      captureRevision_valid (by simp [hrows])
    rwa [← hc] at hvalid ⊢
  refine ⟨h.grow ?_ hkept (hadds.mono fun _ => And.left) ?_ ?_ ?_, hkept,
    hadds.mono fun _ => And.left⟩
  · refine ⟨fun r' hr' => ?_, hc ▸ h.constrained.uids⟩
    have hunits : c'.units = c.units := hc ▸ rfl
    rw [hunits]
    rw [hrows, List.mem_append, List.mem_singleton] at hr'
    rcases hr' with hr' | rfl
    · exact h.constrained.owned r' hr'
    · exact howned
  · intro r' hr'
    rw [hrows, List.mem_append, List.mem_singleton] at hr'
    refine hr'.imp_right ?_
    rintro rfl kind hkind
    rw [← hc]
    exact captureRevision_exists hkind howned
  · have hreviewed : c'.reviewed = c.reviewed := hc ▸ rfl
    rw [hreviewed]
    exact h.separate.aside (hadds.mono fun _ => And.right)
  · intro hreviewed e he _ _ _
    rw [← hc] at hreviewed he
    exact .inl ⟨hreviewed, he⟩

theorem Recorded.insertEvent (h : c.Recorded)
    (hfresh : ∀ other ∈ c.events.rows, other.eventUid ≠ e.eventUid)
    {events : Table Nat InjectionEvent (·.id)} (hevents : c.events.insert? e = some events) :
    Steps c { c with
      events
      outcomes := captureInjection c.reviewed c.revisions.rows c.outcomes e } := by
  obtain ⟨_, rfl⟩ := Table.insert?_eq_some.mp hevents
  generalize hc : ({ c with
    events := c.events.insert e _
    outcomes := captureInjection c.reviewed c.revisions.rows c.outcomes e } :
      CreationStream) = c'
  have hrows : c'.events.rows = c.events.rows ++ [e] := hc ▸ rfl
  have hkept : Kept c c' :=
    { revisions := hc ▸ fun _ => id
      principals := hc ▸ fun _ _ => id
      events := fun e he => ⟨e, by simp [hrows, he], rfl, rfl, rfl, rfl⟩ }
  have hadds : Table.Adds c'.Valid c.outcomes c'.outcomes := by
    have hvalid : Table.Adds c'.Valid c.outcomes
        (captureInjection c.reviewed c'.revisions.rows c.outcomes e) :=
      captureInjection_valid (e := e) (by simp [hrows]) ⟨rfl, rfl, rfl, rfl⟩
    rwa [← hc] at hvalid ⊢
  refine ⟨h.grow ?_ hkept hadds ?_ ?_ ?_, hkept, hadds⟩
  · refine ⟨hc ▸ h.constrained.owned, ?_⟩
    rw [hrows, List.map_append, List.map_singleton, List.nodup_append]
    refine ⟨h.constrained.uids, List.nodup_singleton _, ?_⟩
    intro uid huid uid' huid'
    obtain ⟨other, hother, rfl⟩ := List.mem_map.mp huid
    rw [List.mem_singleton.mp huid']
    exact hfresh other hother
  · intro r hr
    rw [← hc] at hr
    exact .inl hr
  · rw [← hc]
    exact h.separate.captureInjection
  · intro hreviewed e' he' o ho hdecisive
    have hreviewed' : c.reviewed = true := by rwa [← hc] at hreviewed
    rw [hrows, List.mem_append, List.mem_singleton] at he'
    rcases he' with he' | rfl
    · exact .inl ⟨hreviewed', he'⟩
    · refine .inr ?_
      rw [← hc]
      simp only [hreviewed']
      exact captureInjection_exists ho hdecisive

theorem Recorded.updateOutcome (h : c.Recorded) {id : Nat} {outcome : Outcome} {now : Time}
    (he : c.events.get? id = some e) : Steps c { c with
      events := c.events.modify id (fun e => { e with outcome := some outcome }) fun _ => rfl
      outcomes :=
        if c.reviewed then
          captureInjection true c.revisions.rows c.outcomes
            { e with outcome := some outcome, ts := now }
        else c.outcomes } := by
  generalize hc : ({ c with
    events := c.events.modify id (fun e => { e with outcome := some outcome }) fun _ => rfl
    outcomes :=
      if c.reviewed then
        captureInjection true c.revisions.rows c.outcomes
          { e with outcome := some outcome, ts := now }
      else c.outcomes } : CreationStream) = c'
  have hrows : c'.events.rows =
      c.events.rows.map fun e => if e.id = id then { e with outcome := some outcome } else e :=
    hc ▸ rfl
  have hsame (e : InjectionEvent) :
      SameEvent e (if e.id = id then { e with outcome := some outcome } else e) := by
    split <;> exact ⟨rfl, rfl, rfl, rfl⟩
  have hkept : Kept c c' :=
    { revisions := hc ▸ fun _ hr => hr
      principals := hc ▸ fun _ _ hu => hu
      events := fun e he => ⟨_, hrows ▸ List.mem_map_of_mem he, hsame e⟩ }
  have hown : e ∈ c.events.rows ∧ e.id = id := ⟨Table.mem_of_get? he, Table.key_of_get? he⟩
  have hadds : Table.Adds c'.Valid c.outcomes c'.outcomes := by
    have hwritten : { e with outcome := some outcome } ∈ c'.events.rows := by
      rw [hrows]
      exact List.mem_map.mpr ⟨e, hown.1, if_pos hown.2⟩
    have hvalid : Table.Adds c'.Valid c.outcomes (captureInjection true c'.revisions.rows
        c.outcomes { e with outcome := some outcome, ts := now }) :=
      captureInjection_valid hwritten ⟨rfl, rfl, rfl, rfl⟩
    rw [← hc] at hvalid ⊢
    dsimp only at hvalid ⊢
    split
    · exact hvalid
    · exact .refl _ _
  refine ⟨h.grow ?_ hkept hadds ?_ ?_ ?_, hkept, hadds⟩
  · refine ⟨hc ▸ h.constrained.owned, ?_⟩
    have huids : c'.events.rows.map (·.eventUid) = c.events.rows.map (·.eventUid) := by
      rw [hrows, List.map_map]
      exact List.map_congr_left fun e _ => (hsame e).1
    rw [huids]
    exact h.constrained.uids
  · intro r hr
    rw [← hc] at hr
    exact .inl hr
  · rw [← hc]
    dsimp only
    split
    · next hreviewed =>
      have hseparate := h.separate
      rw [hreviewed] at hseparate ⊢
      exact hseparate.captureInjection
    · exact h.separate
  · intro hreviewed e' he' o ho hdecisive
    have hreviewed' : c.reviewed = true := by rwa [← hc] at hreviewed
    rw [hrows, List.mem_map] at he'
    obtain ⟨e₀, he₀, rfl⟩ := he'
    by_cases hid : e₀.id = id
    · obtain rfl : e₀ = e := Table.eq_of_key_eq he₀ hown.1 (hid.trans hown.2.symm)
      rw [if_pos hid] at ho ⊢
      obtain rfl := Option.some.inj ho
      refine .inr ?_
      rw [← hc]
      simp only [hreviewed', if_true]
      exact captureInjection_exists (e := { e₀ with outcome := some outcome, ts := now }) rfl
        hdecisive
    · rw [if_neg hid]
      exact .inl ⟨hreviewed', he₀⟩

theorem Recorded.sweep (h : c.Recorded) {principalId : String} {now : Time} : Steps c { c with
      outcomes := (c.units.rows.filter fun unit => c.Unused principalId unit).foldl
        (c.sweepUnit now) c.outcomes } := by
  have hadds := Table.Adds.foldl (f := c.sweepUnit now)
    (l := c.units.rows.filter fun unit => c.Unused principalId unit)
    (fun _ unit hunit => sweepUnit_valid (List.mem_of_mem_filter hunit)) c.outcomes
  exact ⟨h.grow ⟨h.constrained.owned, h.constrained.uids⟩ (.of_same rfl rfl rfl)
    (hadds.mono fun _ => And.left) (fun _ => .inl)
    (h.separate.aside (hadds.mono fun _ => And.right))
    (fun hreviewed _ he _ _ _ => .inl ⟨hreviewed, he⟩), .of_same rfl rfl rfl,
    hadds.mono fun _ => And.left⟩

theorem Recorded.review (h : c.Recorded) : Steps c { c with
      outcomes := (listing happened c.events.rows).foldl
        (captureInjection true c.revisions.rows) c.outcomes
      reviewed := true } := by
  have hturn (log : CreationLog) (e : InjectionEvent) (he : e ∈ listing happened c.events.rows) :
      Table.Adds c.Valid log (captureInjection true c.revisions.rows log e) :=
    captureInjection_valid (mem_listing.mp he) ⟨rfl, rfl, rfl, rfl⟩
  have hadds := Table.Adds.foldl hturn c.outcomes
  refine ⟨h.grow ⟨h.constrained.owned, h.constrained.uids⟩ (.of_same rfl rfl rfl) hadds
    (fun _ => .inl) ?_ ?_, .of_same rfl rfl rfl, hadds⟩
  · exact List.foldlRecOn _ _ h.separate.afterReview fun _ hlog _ _ => hlog.captureInjection
  · intro _ e he o ho hdecisive
    refine .inr (Table.Adds.foldl_exists (H := fun e => e.outcome = some o)
      (Q := fun e row => row.About e.eventUid o) hturn ?_ c.outcomes (mem_listing.mpr he) ho)
    exact fun log e _ ho => captureInjection_exists ho hdecisive

end Actions

theorem Recorded.step (h : c.Recorded) {action : CreationAction}
    (hstep : creations.step c action = .ok c') : Steps c c' := by
  cases action with
  | insertUnit unit =>
    obtain ⟨units, hunits, hc⟩ := bind_eq_ok.mp hstep
    rw [← pure_eq_ok.mp hc]
    exact h.units (kept_insertUnit (require_eq_ok.mp hunits))
  | updateUnit unit =>
    obtain ⟨old, hold, hc⟩ := bind_eq_ok.mp hstep
    obtain ⟨_, hprincipal, hc⟩ := bind_eq_ok.mp hc
    rw [← pure_eq_ok.mp hc]
    exact h.units (kept_updateUnit (require_eq_ok.mp hold) (ensure_eq_ok.mp hprincipal))
  | insertRevision r =>
    obtain ⟨_, howned, hc⟩ := bind_eq_ok.mp hstep
    obtain ⟨revisions, hrevisions, hc⟩ := bind_eq_ok.mp hc
    rw [← pure_eq_ok.mp hc]
    exact h.insertRevision (ensure_eq_ok.mp howned) (require_eq_ok.mp hrevisions)
  | insertEvent e =>
    obtain ⟨_, hfresh, hc⟩ := bind_eq_ok.mp hstep
    obtain ⟨events, hevents, hc⟩ := bind_eq_ok.mp hc
    rw [← pure_eq_ok.mp hc]
    exact h.insertEvent (ensure_eq_ok.mp hfresh) (require_eq_ok.mp hevents)
  | updateOutcome id outcome now =>
    obtain ⟨e, he, hc⟩ := bind_eq_ok.mp hstep
    rw [← pure_eq_ok.mp hc]
    exact h.updateOutcome (require_eq_ok.mp he)
  | sweepUnused principalId now =>
    obtain rfl := Except.ok.inj hstep
    exact h.sweep
  | review =>
    obtain ⟨_, _, hc⟩ := bind_eq_ok.mp hstep
    rw [← pure_eq_ok.mp hc]
    exact h.review

/-- Migration 0022 tells of all it finds. -/
theorem recorded_installed {units : Table Uuid MemoryUnit (·.id)}
    {revisions : Table Ulid MemoryRevision (·.revUid)} {events : Table Nat InjectionEvent (·.id)}
    (hconstrained : (installed units revisions events).Constrained) :
    (installed units revisions events).Recorded := by
  generalize hc : installed units revisions events = c at hconstrained ⊢
  have hrevisions : Table.Adds (fun row => c.Valid row ∧ Aside row) .empty
      (capturedRevisions units revisions.rows) := by
    refine Table.Adds.foldl (fun log r hr => ?_) _
    rw [mem_listing] at hr
    have hvalid : Table.Adds (fun row => c.Valid row ∧ Aside row) log
        (captureRevision c.units c.revisions.rows log r) := captureRevision_valid (hc ▸ hr)
    rwa [← hc] at hvalid ⊢
  have hevents : Table.Adds c.Valid (capturedRevisions units revisions.rows) c.outcomes := by
    have hturns := Table.Adds.foldl (P := c.Valid)
      (f := captureInjection false revisions.rows) (l := listing happened events.rows)
      (fun log e he => by
        rw [mem_listing] at he
        have hvalid : Table.Adds c.Valid log
            (captureInjection false c.revisions.rows log e) :=
          captureInjection_valid (e := e) (hc ▸ he) ⟨rfl, rfl, rfl, rfl⟩
        rwa [← hc] at hvalid ⊢)
      (capturedRevisions units revisions.rows)
    rwa [← hc] at hturns ⊢
  have hreviewed : c.reviewed = false := hc ▸ rfl
  constructor
  · exact hconstrained
  · intro row hrow
    rcases hevents.cases hrow with hrow | hvalid
    · rcases hrevisions.cases hrow with hrow | hvalid
      · cases hrow
      · exact hvalid.1
    · exact hvalid
  · intro r hr kind hkind
    have hr' : r ∈ revisions.rows := by rwa [← hc] at hr
    have howned : (units.get? r.memoryId).isSome := by
      have howned := hconstrained.owned r hr
      rwa [← hc] at howned
    obtain ⟨row, hrow, hkey⟩ := Table.Adds.foldl_exists (P := fun _ => True)
      (H := fun r => creationKind r = some kind ∧ (units.get? r.memoryId).isSome)
      (Q := fun r row => row.eventKey = .revision r.revUid)
      (f := captureRevision units revisions.rows) (l := listing written revisions.rows)
      (fun _ _ _ => captureRevision_adds fun _ _ _ _ _ _ _ _ _ => trivial)
      (fun _ _ _ hH => captureRevision_exists hH.1 hH.2) .empty (mem_listing.mpr hr')
      ⟨hkind, howned⟩
    exact ⟨row, hevents.mem hrow, hkey⟩
  · have hempty : Separate false (.empty : CreationLog) := by
      constructor <;> intros <;> contradiction
    have hstart : Separate false (capturedRevisions units revisions.rows) :=
      hempty.aside (hrevisions.mono fun _ => And.right)
    rw [hreviewed, ← hc]
    exact List.foldlRecOn _ _ hstart fun _ hlog _ _ => hlog.captureInjection
  · rw [hreviewed]
    exact nofun

theorem recorded_of_reachable (h : creations.Reachable c) : c.Recorded := by
  refine Machine.reachable_keeps ?_ (fun hs hstep => (hs.step hstep).recorded) h
  rintro c ⟨units, revisions, events, rfl, hconstrained⟩
  exact recorded_installed hconstrained

/-- An event's outcome is told of once, whichever migration's key the entry has. -/
theorem Recorded.about_unique (h : c.Recorded) {row row' : CreationOutcome} {eventUid : Ulid}
    {o : Outcome} (hrow : row ∈ c.outcomes.rows) (hrow' : row' ∈ c.outcomes.rows)
    (habout : row.About eventUid o) (habout' : row'.About eventUid o) : row = row' := by
  rcases habout with hkey | ⟨hkey, hreason⟩
  · rcases habout' with hkey' | ⟨hkey', hreason'⟩
    · exact Table.eq_of_key_eq hrow hrow' (hkey.trans hkey'.symm)
    · exact absurd hreason' (h.separate.once row' hrow' row hrow eventUid o hkey' hkey)
  · rcases habout' with hkey' | ⟨hkey', _⟩
    · exact absurd hreason (h.separate.once row hrow row' hrow' eventUid o hkey hkey')
    · exact Table.eq_of_key_eq hrow hrow' (hkey.trans hkey'.symm)

/-- The log is only ever added to. -/
theorem outcomes_only_added (h : c.Recorded) (actions : List CreationAction) :
    c.outcomes.rows <+: (creations.run c actions).outcomes.rows := by
  refine (Machine.run_keeps (M := creations)
    (I := fun c' => c'.Recorded ∧ c.outcomes.rows <+: c'.outcomes.rows) ?_ actions
    ⟨h, List.prefix_rfl⟩).2
  rintro t action t' ⟨ht, hprefix⟩ hstep
  have hsteps := ht.step hstep
  exact ⟨hsteps.recorded, hprefix.trans hsteps.adds.isPrefix⟩

/-- A head the owner saved, and was shown, before there was a creation stream. -/
def savedHead : MemoryUnit where
  id := 1
  principalId := "owner"
  label := "tea"
  body := "drinks tea"
  kind := .fact
  keywords := []
  embedding := [1]
  embeddingModel := "one-hot"
  projectKey := none
  threadOrigin := none
  originThreadId := none
  originPath := none
  originLocation := none
  originLocations := []
  runId := none
  originAgent := none
  pin := false
  status := .active
  revision := 1
  stats := .zero
  bias := 0
  createdAt := 1
  updatedAt := 1

def savedRevision : MemoryRevision where
  revUid := 10
  parentUid := none
  memoryId := 1
  revision := 1
  body := "drinks tea"
  label := "tea"
  editor := "user"
  originMachineId := "laptop"
  reason := "remember/tea"
  ts := 1

def keptEvent : InjectionEvent where
  id := 1
  eventUid := 20
  injectionId := 3
  threadId := 4
  agentId := "agent"
  machineId := "laptop"
  principalId := "owner"
  projectKey := none
  scorerVersion := "v1"
  memoryId := 1
  memoryKind := .fact
  features := ⟨0, 0, 0, 0, 0, 0, none, none, none, []⟩
  frozen := ⟨"tea", "drinks tea", false, ""⟩
  modelContextTokens := 1000
  allocation := ⟨1 / 10, 100, 10, 0, 10, 0⟩
  score := 1
  rank := 1
  shownAs := .injected
  actorClass := .human
  outcome := some .kept
  ts := 2

def savedStream : CreationStream :=
  .installed ⟨[savedHead], by decide⟩ ⟨[savedRevision], by decide⟩ ⟨[keptEvent], by decide⟩

theorem savedStream_start : creations.start savedStream :=
  ⟨_, _, _, rfl, ⟨by decide +kernel, by decide +kernel⟩⟩

end CreationStream

section Sources

variable {revisions : List MemoryRevision} {log : CreationLog} {r : MemoryRevision}
  {e : InjectionEvent} {id : Uuid}

theorem creationSource_eq_none :
    creationSource revisions id = none ↔ ∀ r ∈ revisions, r.memoryId ≠ id := by
  rw [creationSource, Option.map_eq_none_iff, List.head?_eq_none_iff,
    List.eq_nil_iff_forall_not_mem]
  simp

theorem creationSource_isSome (hr : r ∈ revisions) (hid : r.memoryId = id) :
    (creationSource revisions id).isSome := by
  rw [← Option.ne_none_iff_isSome, ne_eq, creationSource_eq_none]
  exact fun hnone => hnone r hr hid

/-- A later revision does not change who made a memory. -/
theorem creationSource_append {source : CreationSource}
    (huids : ((revisions ++ [r]).map (·.revUid)).Nodup)
    (hafter : ∀ old ∈ revisions, old.memoryId = r.memoryId → written old ≤ written r)
    (h : creationSource revisions id = some source) :
    creationSource (revisions ++ [r]) id = some source := by
  rw [← h]
  by_cases hid : r.memoryId = id
  · have hdistinct : ∀ a ∈ revisions.filter (·.memoryId = id) ++ [r],
        ∀ b ∈ revisions.filter (·.memoryId = id) ++ [r], written a = written b → a = b := by
      have hsub : ∀ a ∈ revisions.filter (·.memoryId = id) ++ [r], a ∈ revisions ++ [r] := by
        intro a ha
        simp only [List.mem_append, List.mem_filter] at ha ⊢
        exact ha.imp_left And.left
      intro a ha b hb hsame
      refine List.inj_on_of_nodup_map huids (hsub a ha) (hsub b hb) ?_
      exact congrArg (fun stamp => (ofLex stamp).2) hsame
    have hlast : ∀ a ∈ revisions.filter (·.memoryId = id), written a ≤ written r := by
      intro a ha
      obtain ⟨ha, hmemory⟩ := List.mem_filter.mp ha
      exact hafter a ha ((of_decide_eq_true hmemory).trans hid.symm)
    have hfilter : (revisions ++ [r]).filter (·.memoryId = id) =
        revisions.filter (·.memoryId = id) ++ [r] := by
      simp [List.filter_append, hid]
    have hne : listing written (revisions.filter (·.memoryId = id)) ≠ [] := by
      intro hnil
      rw [creationSource, hnil] at h
      cases h
    rw [creationSource, hfilter, listing_append hdistinct hlast, creationSource,
      List.head?_append_of_ne_nil _ hne]
  · have hfilter : (revisions ++ [r]).filter (·.memoryId = id) =
        revisions.filter (·.memoryId = id) := by
      simp [List.filter_append, hid]
    rw [creationSource, hfilter, creationSource]

/-- An entry names the one its memory came from. -/
def FromSource (revisions : List MemoryRevision) (row : CreationOutcome) : Prop :=
  creationSource revisions row.memoryId = some row.source

theorem fromSource_of_isSome {source : CreationSource}
    (h : (creationSource revisions id).isSome)
    (hsource : source = (creationSource revisions id).getD .unknown) :
    creationSource revisions id = some source := by
  obtain ⟨made, hmade⟩ := Option.isSome_iff_exists.mp h
  rw [hsource, hmade]
  rfl

theorem captureRevision_source {units : Table Uuid MemoryUnit (·.id)} (hr : r ∈ revisions) :
    Table.Adds (FromSource revisions) log (captureRevision units revisions log r) := by
  refine captureRevision_adds fun row _ _ hmemory _ _ _ _ hsource => ?_
  rw [FromSource, hmemory]
  exact fromSource_of_isSome (creationSource_isSome hr rfl) (Option.some.inj hsource)

theorem captureInjection_source {reviewed : Bool}
    (hhead : ∃ r ∈ revisions, r.memoryId = e.memoryId) :
    Table.Adds (FromSource revisions) log (captureInjection reviewed revisions log e) := by
  obtain ⟨r, hr, hmemory⟩ := hhead
  exact captureInjection_adds fun _ _ _ _ _ =>
    fromSource_of_isSome (creationSource_isSome hr hmemory) rfl

theorem sweepUnit_source {c : CreationStream} {unit : MemoryUnit} {now : Time} :
    Table.Adds (FromSource c.revisions.rows) log (c.sweepUnit now log unit) := by
  unfold CreationStream.sweepUnit
  split
  · next r hr =>
    have hmemory : r.memoryId = unit.id ∧ r.revision = 1 := by
      simpa using List.find?_some hr
    exact .insertNew (fromSource_of_isSome
      (creationSource_isSome (List.mem_of_find?_eq_some hr) hmemory.1) rfl)
  · exact .refl _ log

end Sources

namespace CreationStream

variable {c c' : CreationStream}

/-- A memory's revisions come in the order of their stamps, and a gate names memories that
have one. -/
def Timely (c : CreationStream) : CreationAction → Prop
  | .insertRevision r => ∀ old ∈ c.revisions.rows, old.memoryId = r.memoryId →
      written old ≤ written r
  | .insertEvent e => ∃ r ∈ c.revisions.rows, r.memoryId = e.memoryId
  | _ => True

instance (c : CreationStream) : DecidablePred c.Timely := fun action => by
  cases action <;> unfold Timely <;> infer_instance

/-- Every entry names its memory's source, and gates name memories that have a revision. -/
structure Sourced (c : CreationStream) : Prop where
  sources : ∀ row ∈ c.outcomes.rows, FromSource c.revisions.rows row
  heads : ∀ e ∈ c.events.rows, ∃ r ∈ c.revisions.rows, r.memoryId = e.memoryId

theorem Sourced.grow (h : c.Sourced) (hrevisions : c'.revisions = c.revisions)
    (hadds : Table.Adds (FromSource c.revisions.rows) c.outcomes c'.outcomes)
    (hheads : ∀ e ∈ c'.events.rows, ∃ r ∈ c.revisions.rows, r.memoryId = e.memoryId) :
    c'.Sourced := by
  constructor
  · intro row hrow
    rw [hrevisions]
    exact (hadds.cases hrow).elim (h.sources row) id
  · rwa [hrevisions]

theorem Sourced.step (h : c.Sourced) {action : CreationAction} (htimely : c.Timely action)
    (hstep : creations.step c action = .ok c') : c'.Sourced := by
  cases action with
  | insertUnit unit =>
    obtain ⟨units, _, hc⟩ := bind_eq_ok.mp hstep
    rw [← pure_eq_ok.mp hc]
    exact h.grow rfl (.refl _ _) h.heads
  | updateUnit unit =>
    obtain ⟨old, _, hc⟩ := bind_eq_ok.mp hstep
    obtain ⟨_, _, hc⟩ := bind_eq_ok.mp hc
    rw [← pure_eq_ok.mp hc]
    exact h.grow rfl (.refl _ _) h.heads
  | insertRevision r =>
    obtain ⟨_, _, hc⟩ := bind_eq_ok.mp hstep
    obtain ⟨revisions, hrevisions, hc⟩ := bind_eq_ok.mp hc
    rw [← pure_eq_ok.mp hc]
    obtain ⟨hfresh, rfl⟩ := Table.insert?_eq_some.mp (require_eq_ok.mp hrevisions)
    have huids := (c.revisions.insert r hfresh).nodup
    have hadds : Table.Adds (FromSource (c.revisions.insert r hfresh).rows) c.outcomes
        (captureRevision c.units (c.revisions.insert r hfresh).rows c.outcomes r) :=
      captureRevision_source (by simp)
    constructor
    · intro row hrow
      rcases hadds.cases hrow with hold | hnew
      · exact creationSource_append huids htimely (h.sources row hold)
      · exact hnew
    · intro e he
      obtain ⟨r', hr', hmemory⟩ := h.heads e he
      exact ⟨r', List.mem_append_left _ hr', hmemory⟩
  | insertEvent e =>
    obtain ⟨_, _, hc⟩ := bind_eq_ok.mp hstep
    obtain ⟨events, hevents, hc⟩ := bind_eq_ok.mp hc
    rw [← pure_eq_ok.mp hc]
    obtain ⟨_, rfl⟩ := Table.insert?_eq_some.mp (require_eq_ok.mp hevents)
    refine h.grow rfl (captureInjection_source htimely) fun e' he' => ?_
    rw [Table.rows_insert, List.mem_append, List.mem_singleton] at he'
    rcases he' with he' | rfl
    · exact h.heads e' he'
    · exact htimely
  | updateOutcome id outcome now =>
    obtain ⟨e, he, hc⟩ := bind_eq_ok.mp hstep
    rw [← pure_eq_ok.mp hc]
    refine h.grow rfl ?_ fun e' he' => ?_
    · dsimp only
      split
      · exact captureInjection_source (h.heads e (Table.mem_of_get? (require_eq_ok.mp he)))
      · exact .refl _ _
    · obtain ⟨e₀, he₀, rfl⟩ := List.mem_map.mp he'
      obtain ⟨r, hr, hmemory⟩ := h.heads e₀ he₀
      refine ⟨r, hr, hmemory.trans ?_⟩
      split <;> rfl
  | sweepUnused principalId now =>
    obtain rfl := Except.ok.inj hstep
    exact h.grow rfl (.foldl (fun _ _ _ => sweepUnit_source) _) h.heads
  | review =>
    obtain ⟨_, _, hc⟩ := bind_eq_ok.mp hstep
    rw [← pure_eq_ok.mp hc]
    refine h.grow rfl (.foldl (fun _ e he => ?_) _) h.heads
    exact captureInjection_source (h.heads e (mem_listing.mp he))

theorem sourced_installed {units : Table Uuid MemoryUnit (·.id)}
    {revisions : Table Ulid MemoryRevision (·.revUid)} {events : Table Nat InjectionEvent (·.id)}
    (hheads : ∀ e ∈ events.rows, ∃ r ∈ revisions.rows, r.memoryId = e.memoryId) :
    (installed units revisions events).Sourced := by
  have hrevisions : Table.Adds (FromSource revisions.rows) .empty
      (capturedRevisions units revisions.rows) :=
    .foldl (fun _ r hr => captureRevision_source (mem_listing.mp hr)) _
  have hevents : Table.Adds (FromSource revisions.rows) (capturedRevisions units revisions.rows)
      (installed units revisions events).outcomes :=
    .foldl (fun _ e he => captureInjection_source (hheads e (mem_listing.mp he))) _
  refine ⟨fun row hrow => ?_, hheads⟩
  rcases (hrevisions.trans hevents).cases hrow with hrow | hsource
  · cases hrow
  · exact hsource

end CreationStream

section Accounts

variable {events : List CreationOutcome} {source source' : CreationSource} {kind : CreationKind}
  {id : Uuid}

/-- Entries that count against a memory. -/
def CreationKind.Adverse (kind : CreationKind) : Prop :=
  kind ∈ [CreationKind.deleted, .rejected, .never, .curatorRetired]

instance : DecidablePred CreationKind.Adverse := fun _ => inferInstanceAs (Decidable (_ ∈ _))

/-- The memories a list of entries tells the creation of, each once. -/
def createdMemories (events : List CreationOutcome) : List Uuid :=
  ((events.filter (·.outcome = .created)).map (·.memoryId)).dedup

/-- Those of them nothing counts against. -/
def survivingMemories (events : List CreationOutcome) : List Uuid :=
  (createdMemories events).filter fun id =>
    ∀ row ∈ events, row.memoryId = id → ¬row.outcome.Adverse

/-- No memory is told of under two sources. -/
def OneSource (events : List CreationOutcome) : Prop :=
  ∀ row ∈ events, ∀ row' ∈ events, row.memoryId = row'.memoryId → row.source = row'.source

theorem mem_creationGroup : id ∈ creationGroup events source kind ↔
    ∃ row ∈ events, row.source = source ∧ row.outcome = kind ∧ row.memoryId = id := by
  simp [creationGroup, and_assoc]

theorem creationGroup_mem {row : CreationOutcome} (hrow : row ∈ events)
    (hkind : row.outcome = kind) (hmemory : row.memoryId = id) :
    id ∈ creationGroup events row.source kind := by
  rw [mem_creationGroup]
  exact ⟨row, hrow, rfl, hkind, hmemory⟩

theorem mem_createdMemories :
    id ∈ createdMemories events ↔ ∃ row ∈ events, row.outcome = .created ∧ row.memoryId = id := by
  simp [createdMemories, and_assoc]

theorem creationGroup_nodup : (creationGroup events source kind).Nodup := List.nodup_dedup _

theorem mem_allSources (source : CreationSource) : source ∈ allSources := by
  cases source <;> decide

theorem source_unique (h : OneSource events) {kind' : CreationKind}
    (hid : id ∈ creationGroup events source kind) (hid' : id ∈ creationGroup events source' kind') :
    source = source' := by
  rw [mem_creationGroup] at hid hid'
  obtain ⟨row, hrow, rfl, _, hmemory⟩ := hid
  obtain ⟨row', hrow', rfl, _, hmemory'⟩ := hid'
  exact h row hrow row' hrow' (hmemory.trans hmemory'.symm)

/-- The memories of a report that survive. -/
def survivorsOf (events : List CreationOutcome) (source : CreationSource) : List Uuid :=
  (creationGroup events source .created).filter fun id =>
    id ∉ creationGroup events source .deleted ++ creationGroup events source .rejected ++
      creationGroup events source .never ++ creationGroup events source .curatorRetired

/-- Where memories have one source, a memory survives in its report when nothing at all counts
against it. -/
theorem mem_survivorsOf (h : OneSource events) : id ∈ survivorsOf events source ↔
    id ∈ creationGroup events source .created ∧
      ∀ row ∈ events, row.memoryId = id → ¬row.outcome.Adverse := by
  rw [survivorsOf, List.mem_filter]
  refine and_congr_right fun hcreated => ?_
  simp only [List.mem_append, not_or, decide_eq_true_eq]
  constructor
  · rintro ⟨⟨⟨hdeleted, hrejected⟩, hnever⟩, hretired⟩ row hrow hmemory hadverse
    rw [mem_creationGroup] at hcreated
    obtain ⟨made, hmade, rfl, _, hid⟩ := hcreated
    have hsource : row.source = made.source := h row hrow made hmade (hmemory.trans hid.symm)
    have hin (kind : CreationKind) (hkind : row.outcome = kind) :
        id ∈ creationGroup events made.source kind := by
      rw [mem_creationGroup]
      exact ⟨row, hrow, hsource, hkind, hmemory⟩
    simp only [CreationKind.Adverse, List.mem_cons, List.not_mem_nil, or_false] at hadverse
    rcases hadverse with hkind | hkind | hkind | hkind
    · exact hdeleted (hin _ hkind)
    · exact hrejected (hin _ hkind)
    · exact hnever (hin _ hkind)
    · exact hretired (hin _ hkind)
  · intro hnone
    have hout (kind : CreationKind) (hadverse : kind.Adverse) :
        id ∉ creationGroup events source kind := by
      rw [mem_creationGroup]
      rintro ⟨row, hrow, _, rfl, hmemory⟩
      exact hnone row hrow hmemory hadverse
    exact ⟨⟨⟨hout _ (by decide), hout _ (by decide)⟩, hout _ (by decide)⟩, hout _ (by decide)⟩

/-- The sources a snapshot reports on. -/
def reportedSources (events : List CreationOutcome) : List CreationSource :=
  allSources.filter fun source => ∃ row ∈ events, row.source = source

theorem reportedSources_nodup : (reportedSources events).Nodup :=
  (by decide : allSources.Nodup).filter _

theorem mem_reportedSources :
    source ∈ reportedSources events ↔ ∃ row ∈ events, row.source = source := by
  simp [reportedSources, mem_allSources]

theorem reported_of_mem (hid : id ∈ creationGroup events source kind) :
    source ∈ reportedSources events := by
  rw [mem_creationGroup] at hid
  obtain ⟨row, hrow, hsource, _⟩ := hid
  rw [mem_reportedSources]
  exact ⟨row, hrow, hsource⟩

/-- Every created memory is counted under one source. -/
theorem sum_created (h : OneSource events) :
    ((reportedSources events).map fun source =>
      (creationGroup events source .created).length).sum = (createdMemories events).length := by
  refine sum_length_groups reportedSources_nodup (fun _ _ => creationGroup_nodup)
    (fun _ _ _ _ _ hid hid' => source_unique h hid hid') (List.nodup_dedup _) fun id => ?_
  rw [mem_createdMemories]
  constructor
  · rintro ⟨row, hrow, hkind, hmemory⟩
    have hid := creationGroup_mem hrow hkind hmemory
    exact ⟨row.source, reported_of_mem hid, hid⟩
  · rintro ⟨source, _, hid⟩
    rw [mem_creationGroup] at hid
    obtain ⟨row, hrow, _, hkind, hmemory⟩ := hid
    exact ⟨row, hrow, hkind, hmemory⟩

theorem sum_surviving (h : OneSource events) :
    ((reportedSources events).map fun source => (survivorsOf events source).length).sum =
      (survivingMemories events).length := by
  refine sum_length_groups reportedSources_nodup (fun _ _ => creationGroup_nodup.filter _)
    (fun _ _ _ _ _ hid hid' => source_unique h (List.mem_of_mem_filter hid)
      (List.mem_of_mem_filter hid')) ((List.nodup_dedup _).filter _) fun id => ?_
  simp only [survivingMemories, List.mem_filter, mem_createdMemories, decide_eq_true_eq]
  constructor
  · rintro ⟨⟨row, hrow, hkind, hmemory⟩, hnone⟩
    have hid := creationGroup_mem hrow hkind hmemory
    exact ⟨row.source, reported_of_mem hid, (mem_survivorsOf h).mpr ⟨hid, hnone⟩⟩
  · rintro ⟨source, _, hid⟩
    rw [mem_survivorsOf h, mem_creationGroup] at hid
    obtain ⟨⟨row, hrow, _, hkind, hmemory⟩, hnone⟩ := hid
    exact ⟨⟨row, hrow, hkind, hmemory⟩, hnone⟩

/-- A report's own figures agree. -/
theorem creationReport_bounds (events : List CreationOutcome) (source : CreationSource) :
    let report := creationReport events source
    report.surviving ≤ report.created ∧ report.used ≤ report.created ∧
      (report.survivalRate = none ↔ report.created = 0) ∧
      ∀ rate ∈ report.survivalRate, 0 ≤ rate ∧ rate ≤ 1 := by
  have hsurviving := List.length_filter_le (fun id => decide (id ∉
    creationGroup events source .deleted ++ creationGroup events source .rejected ++
      creationGroup events source .never ++ creationGroup events source .curatorRetired))
    (creationGroup events source .created)
  refine ⟨hsurviving, List.length_filter_le _ _, ?_, fun rate hrate => ?_⟩
  · simp [creationReport]
  · simp only [creationReport, Option.mem_def, Option.ite_none_left_eq_some,
      Option.some.injEq] at hrate
    obtain ⟨_, rfl⟩ := hrate
    refine ⟨by positivity, div_le_one_of_le₀ ?_ (by positivity)⟩
    exact_mod_cast hsurviving

variable {c c₀ : CreationStream} {actions : List CreationAction} {lower : String → String}
  {annotations : List InjectionEventAnnotation} {principal : Option String}

theorem creationKind_eq_created {r : MemoryRevision} :
    creationKind r = some .created ↔ r.revision = 1 := by
  unfold creationKind
  grind

theorem mem_creationRows {row : CreationOutcome} : row ∈ creationRows c principal ↔
    row ∈ c.outcomes.rows ∧ ∀ principalId ∈ principal, row.principalId = principalId := by
  simp [creationRows]

/-- The memories a stream tells the creation of are those with a first revision. -/
theorem exists_created_iff (h : c.Recorded) {id : Uuid} :
    (∃ row ∈ creationRows c principal, row.outcome = .created ∧ row.memoryId = id) ↔
      (∃ r ∈ c.revisions.rows, r.memoryId = id ∧ r.revision = 1) ∧
        ∀ principalId ∈ principal, (c.units.get? id).map (·.principalId) = some principalId := by
  constructor
  · rintro ⟨row, hrow, hkind, rfl⟩
    obtain ⟨hrow, hprincipal⟩ := mem_creationRows.mp hrow
    have hvalid := h.valid row hrow
    unfold CreationStream.Valid at hvalid
    split at hvalid
    · obtain ⟨r, hr, _, hsays, hmemory, _, _, _, hunit⟩ := hvalid
      rw [hkind] at hsays
      refine ⟨⟨r, hr, hmemory.symm, creationKind_eq_created.mp hsays⟩, fun principalId hp => ?_⟩
      rw [← hprincipal principalId hp, hmemory, hunit]
    · obtain ⟨_, _, _, _, _, _, o, _, _, houtcome⟩ := hvalid
      rw [hkind, decisionKind] at houtcome
      split at houtcome <;> cases houtcome
    · obtain ⟨_, _, _, _, _, _, _, _, houtcome⟩ := hvalid
      rw [hkind, decisionKind] at houtcome
      split at houtcome <;> cases houtcome
    · rw [hkind] at hvalid
      cases hvalid.2.1
  · rintro ⟨⟨r, hr, rfl, hfirst⟩, hprincipal⟩
    have hsays := creationKind_eq_created.mpr hfirst
    obtain ⟨row, hrow, hkey⟩ := h.captured r hr _ hsays
    have hvalid := h.valid row hrow
    rw [CreationStream.Valid, hkey] at hvalid
    obtain ⟨r', hr', huid, hsays', hmemory, _, _, _, hunit⟩ := hvalid
    obtain rfl : r' = r := Table.eq_of_key_eq hr' hr huid
    refine ⟨row, mem_creationRows.mpr ⟨hrow, fun principalId hp => ?_⟩,
      (Option.some.inj (hsays'.symm.trans hsays)), hmemory⟩
    have hboth := hunit.symm.trans (hprincipal principalId hp)
    exact Option.some.inj hboth

theorem sourced_run (hstart : creations.start c₀)
    (hheads : ∀ e ∈ c₀.events.rows, ∃ r ∈ c₀.revisions.rows, r.memoryId = e.memoryId)
    (htimely : creations.Along CreationStream.Timely c₀ actions) :
    (creations.run c₀ actions).Sourced := by
  refine Machine.along_run (fun hs hguard hstep => hs.step hguard hstep) htimely ?_
  obtain ⟨units, revisions, events, rfl, _⟩ := hstart
  exact CreationStream.sourced_installed hheads

theorem oneSource_of_sourced (h : c.Sourced) {events : List CreationOutcome}
    (hevents : ∀ row ∈ events, row ∈ c.outcomes.rows) : OneSource events := by
  intro row hrow row' hrow' hmemory
  have hsource := h.sources row (hevents row hrow)
  rw [FromSource, hmemory, h.sources row' (hevents row' hrow')] at hsource
  exact (Option.some.inj hsource).symm

/-- The console's creation figures add up in every run in which a memory's revisions come in
order: each memory that was created and is not excluded is counted under one source, it survives
there exactly when no entry of any source counts against it, and hygiene takes out all of a
memory's entries or none. -/
theorem creation_snapshot_accounts (lower : String → String)
    (annotations : List InjectionEventAnnotation) (principal : Option String)
    (hstart : creations.start c₀)
    (hheads : ∀ e ∈ c₀.events.rows, ∃ r ∈ c₀.revisions.rows, r.memoryId = e.memoryId)
    (htimely : creations.Along CreationStream.Timely c₀ actions) :
    let c := creations.run c₀ actions
    let excluded := creationExcluded lower c annotations principal (creationRows c principal)
    let snapshot := creationSnapshot lower c annotations principal
    (snapshot.sources.map (·.created)).sum = (createdMemories snapshot.events).length ∧
    (snapshot.sources.map (·.surviving)).sum = (survivingMemories snapshot.events).length ∧
    (∀ id, id ∈ createdMemories snapshot.events ↔ id ∉ excluded ∧
      (∃ r ∈ c.revisions.rows, r.memoryId = id ∧ r.revision = 1) ∧
      ∀ principalId ∈ principal, (c.units.get? id).map (·.principalId) = some principalId) ∧
    (∀ report ∈ snapshot.sources, report.surviving ≤ report.created ∧
      report.used ≤ report.created ∧ (report.survivalRate = none ↔ report.created = 0) ∧
      ∀ rate ∈ report.survivalRate, 0 ≤ rate ∧ rate ≤ 1) ∧
    snapshot.events.length + snapshot.hygieneExcludedEvents = (creationRows c principal).length ∧
    ∀ row ∈ creationRows c principal,
      row ∈ snapshot.events ∨ ∀ other ∈ snapshot.events, other.memoryId ≠ row.memoryId := by
  intro c excluded snapshot
  have hsourced : c.Sourced := sourced_run hstart hheads htimely
  have hrecorded : c.Recorded :=
    CreationStream.recorded_of_reachable ⟨c₀, actions, hstart, rfl⟩
  have hevents : ∀ row, row ∈ snapshot.events ↔
      row ∈ creationRows c principal ∧ row.memoryId ∉ excluded := by
    intro row
    simp only [snapshot, creationSnapshot, List.mem_filter, decide_eq_true_eq]
    exact Iff.rfl
  have hone : OneSource snapshot.events :=
    oneSource_of_sourced hsourced fun row hrow => (mem_creationRows.mp ((hevents row).mp hrow).1).1
  have hsources : snapshot.sources =
      (reportedSources snapshot.events).map (creationReport snapshot.events) := rfl
  refine ⟨?_, ?_, fun id => ?_, fun report hreport => ?_, ?_, fun row hrow => ?_⟩
  · rw [hsources, List.map_map]
    exact sum_created hone
  · rw [hsources, List.map_map]
    exact sum_surviving hone
  · rw [mem_createdMemories, ← exists_created_iff hrecorded]
    constructor
    · rintro ⟨row, hrow, hkind, rfl⟩
      obtain ⟨hrow, hexcluded⟩ := (hevents row).mp hrow
      exact ⟨hexcluded, row, hrow, hkind, rfl⟩
    · rintro ⟨hexcluded, row, hrow, hkind, rfl⟩
      exact ⟨row, (hevents row).mpr ⟨hrow, hexcluded⟩, hkind, rfl⟩
  · rw [hsources] at hreport
    obtain ⟨source, _, rfl⟩ := List.mem_map.mp hreport
    exact creationReport_bounds snapshot.events source
  · have hlength : snapshot.events.length ≤ (creationRows c principal).length :=
      List.length_filter_le _ _
    have hexcludes : snapshot.hygieneExcludedEvents =
        (creationRows c principal).length - snapshot.events.length := rfl
    omega
  · by_cases hexcluded : row.memoryId ∈ excluded
    · refine .inr fun other hother hsame => ((hevents other).mp hother).2 ?_
      rwa [hsame]
    · exact .inl ((hevents row).mpr ⟨hrow, hexcluded⟩)

theorem creation_snapshot_accounts_refused :
    ((creationSnapshot (fun text => text) (creations.run CreationStream.savedStream
      [.review, .updateOutcome 1 (.removed .never) 5]) [] none).sources.map (·.surviving)).sum =
        0 := by
  have hheads : ∀ e ∈ CreationStream.savedStream.events.rows,
      ∃ r ∈ CreationStream.savedStream.revisions.rows, r.memoryId = e.memoryId := by decide +kernel
  have htimely : creations.Along CreationStream.Timely CreationStream.savedStream
      [.review, .updateOutcome 1 (.removed .never) 5] := ⟨trivial, trivial, trivial⟩
  obtain ⟨_, hsurviving, _⟩ :=
    creation_snapshot_accounts (fun text => text) [] none CreationStream.savedStream_start
      hheads htimely
  rw [hsurviving]
  decide +kernel

end Accounts

section Palace

variable {s s' : Store} {φ : Footprint} {c : CreationStream}

/-- The stream is over the rows of a store. -/
structure Mirrors (c : CreationStream) (s : Store) : Prop where
  units : c.units = s.units
  revisions : c.revisions = s.revisions
  events : c.events = s.events

/-- An event keeps its uid, and a new one comes after those there are. -/
theorem eventUids_of_write (h : Store.Write φ s s') :
    s.events.rows.map (·.eventUid) <+: s'.events.rows.map (·.eventUid) := by
  cases h with
  | head _ hs =>
    obtain ⟨_, _, _, _, rfl⟩ := hs.written
    exact List.prefix_rfl
  | root _ hs =>
    obtain ⟨_, _, _, _, rfl⟩ := hs.written
    exact List.prefix_rfl
  | quiet hq => rw [hq.events]
  | card _ hs =>
    obtain ⟨_, _, _, _, _, rfl⟩ := Store.insertItem_eq_ok.mp hs
    exact List.prefix_rfl
  | decision _ hs =>
    obtain ⟨_, _, _, rfl⟩ := Store.insertDecision_eq_ok.mp hs
    exact List.prefix_rfl
  | record _ _ hinsert =>
    obtain ⟨_, rfl⟩ := Table.insert?_eq_some.mp hinsert
    simp
  | outcome _ hs =>
    obtain ⟨current, _, _, rfl⟩ := Store.replaceOutcome_eq_ok.mp hs
    rw [Table.rows_modify, List.map_map]
    refine (List.map_congr_left fun e _ => ?_).symm ▸ List.prefix_rfl
    simp only [Function.comp_apply]
    split <;> rfl
  | resolution _ hs =>
    obtain ⟨_, _, rfl⟩ := hs
    exact List.prefix_rfl

theorem modify_eq_of_get? {units : Table Uuid MemoryUnit (·.id)} {id : Uuid}
    {current : MemoryUnit} {f : MemoryUnit → MemoryUnit} (hf : ∀ u, (f u).id = u.id)
    (hcurrent : units.get? id = some current) :
    units.modify (f current).id (fun old => { f current with id := old.id }) (fun _ => rfl) =
      units.modify id f hf := by
  have hid : (f current).id = id := (hf current).trans (Table.key_of_get? hcurrent)
  apply Table.ext
  simp only [Table.rows_modify, hid]
  apply List.map_congr_left
  intro u hu
  by_cases hown : u.id = id
  · obtain rfl : u = current := Table.eq_of_key_eq hu (Table.mem_of_get? hcurrent)
      (hown.trans (Table.key_of_get? hcurrent).symm)
    simp only [hown, if_true]
    rw [← hown, ← hf u]
  · simp [hown]

theorem step_insertRevision {r : MemoryRevision}
    {revisions : Table Ulid MemoryRevision (·.revUid)}
    (howned : (c.units.get? r.memoryId).isSome) (hinsert : c.revisions.insert? r = some revisions) :
    ∃ c', creations.step c (.insertRevision r) = .ok c' ∧ c'.units = c.units ∧
      c'.revisions = revisions ∧ c'.events = c.events := by
  simp only [creations, CreationStream.step, ensure_pos howned, ok_bind, hinsert, require_some]
  exact ⟨_, rfl, rfl, rfl, rfl⟩

/-- A head rewritten and its revision after it. -/
theorem run_rewrite {unit old : MemoryUnit} {r : MemoryRevision}
    {revisions : Table Ulid MemoryRevision (·.revUid)} (hold : c.units.get? unit.id = some old)
    (hprincipal : unit.principalId = old.principalId) (hmemory : r.memoryId = unit.id)
    (hinsert : c.revisions.insert? r = some revisions) :
    let c' := creations.run c [.updateUnit unit, .insertRevision r]
    c'.units = c.units.modify unit.id (fun old => { unit with id := old.id }) (fun _ => rfl) ∧
      c'.revisions = revisions ∧ c'.events = c.events := by
  generalize hunits : c.units.modify unit.id (fun old => { unit with id := old.id })
    (fun _ => rfl) = units
  have hupdate : creations.step c (.updateUnit unit) = .ok { c with units } := by
    change (require (c.units.get? unit.id) _ >>= fun old =>
      ensure (unit.principalId = old.principalId) _ >>= _) = _
    rw [hold, require_some, ok_bind, ensure_pos hprincipal, ← hunits]
    rfl
  have howned : (units.get? r.memoryId).isSome := by
    rw [hmemory, ← hunits, Table.get?_modify_self, hold]
    rfl
  obtain ⟨c', hrevision, hc'⟩ := step_insertRevision (c := { c with units }) howned hinsert
  rw [Machine.run_cons, Machine.next_of_ok hupdate, Machine.run_cons, Machine.next_of_ok hrevision]
  exact hc'

/-- A new head and its first revision. -/
theorem run_root {unit : MemoryUnit} {r : MemoryRevision}
    {units : Table Uuid MemoryUnit (·.id)} {revisions : Table Ulid MemoryRevision (·.revUid)}
    (hunit : c.units.insert? unit = some units) (hmemory : r.memoryId = unit.id)
    (hinsert : c.revisions.insert? r = some revisions) :
    let c' := creations.run c [.insertUnit unit, .insertRevision r]
    c'.units = units ∧ c'.revisions = revisions ∧ c'.events = c.events := by
  have hnew : creations.step c (.insertUnit unit) = .ok { c with units } := by
    change (require (c.units.insert? unit) _ >>= _) = _
    rw [hunit]
    rfl
  have howned : (units.get? r.memoryId).isSome := by
    obtain ⟨_, rfl⟩ := Table.insert?_eq_some.mp hunit
    rw [hmemory, Table.get?_insert_self]
    rfl
  obtain ⟨c', hrevision, hc'⟩ := step_insertRevision (c := { c with units }) howned hinsert
  rw [Machine.run_cons, Machine.next_of_ok hnew, Machine.run_cons, Machine.next_of_ok hrevision]
  exact hc'

theorem run_record {e : InjectionEvent} {events : Table Nat InjectionEvent (·.id)}
    (hfresh : ∀ other ∈ c.events.rows, other.eventUid ≠ e.eventUid)
    (hinsert : c.events.insert? e = some events) :
    let c' := creations.run c [.insertEvent e]
    c'.units = c.units ∧ c'.revisions = c.revisions ∧ c'.events = events := by
  obtain ⟨c', hstep, hc'⟩ : ∃ c', creations.step c (.insertEvent e) = .ok c' ∧
      c'.units = c.units ∧ c'.revisions = c.revisions ∧ c'.events = events := by
    simp only [creations, CreationStream.step, ensure_pos hfresh, ok_bind, hinsert, require_some]
    exact ⟨_, rfl, rfl, rfl, rfl⟩
  rw [Machine.run_cons, Machine.next_of_ok hstep]
  exact hc'

theorem run_outcome {e : InjectionEvent} {id : Nat} (outcome : Outcome) (now : Time)
    (hfound : c.events.get? id = some e) :
    let c' := creations.run c [.updateOutcome id outcome now]
    c'.units = c.units ∧ c'.revisions = c.revisions ∧
      c'.events = c.events.modify id (fun e => { e with outcome := some outcome })
        fun _ => rfl := by
  obtain ⟨c', hstep, hc'⟩ : ∃ c', creations.step c (.updateOutcome id outcome now) = .ok c' ∧
      c'.units = c.units ∧ c'.revisions = c.revisions ∧
      c'.events = c.events.modify id (fun e => { e with outcome := some outcome })
        fun _ => rfl := by
    simp only [creations, CreationStream.step, hfound, ok_bind, require_some]
    exact ⟨_, rfl, rfl, rfl, rfl⟩
  rw [Machine.run_cons, Machine.next_of_ok hstep]
  exact hc'

/-- Each write of the store is made of row writes the stream takes. -/
theorem mirrors_of_write (h : Store.Write φ s s') (hmirrors : Mirrors c s)
    (huids : (s'.events.rows.map (·.eventUid)).Nodup) :
    ∃ actions, Mirrors (creations.run c actions) s' := by
  obtain ⟨hunits, hrevisions, hevents⟩ := hmirrors
  have hsame (heq : s'.units = s.units ∧ s'.revisions = s.revisions ∧ s'.events = s.events) :
      ∃ actions, Mirrors (creations.run c actions) s' :=
    ⟨[], hunits.trans heq.1.symm, hrevisions.trans heq.2.1.symm, hevents.trans heq.2.2.symm⟩
  cases h with
  | @head command current _ _ hs =>
    have hfound := hs.found
    have hid := hs.id_eq
    obtain ⟨parentUid, revisions, _, hinsert, rfl⟩ := hs.written
    have hold : c.units.get? (s.bumped command.changes current).id = some current := by
      rw [hunits, Store.bumped_id, hid, hfound]
    obtain ⟨hunits', hrevisions', hevents'⟩ := run_rewrite hold rfl hid.symm (hrevisions ▸ hinsert)
    refine ⟨_, hunits'.trans ?_, hrevisions', hevents'.trans hevents⟩
    rw [hunits]
    exact modify_eq_of_get? (s.bumped_id _) hfound
  | root _ hs =>
    have hmemory := hs.first.2.2.1
    obtain ⟨units, revisions, hunit, hinsert, rfl⟩ := hs.written
    obtain ⟨hunits', hrevisions', hevents'⟩ :=
      run_root (hunits ▸ hunit) hmemory (hrevisions ▸ hinsert)
    exact ⟨_, hunits', hrevisions', hevents'.trans hevents⟩
  | quiet hq => exact hsame ⟨hq.units, hq.revisions, hq.events⟩
  | card _ hs =>
    obtain ⟨_, _, _, _, _, rfl⟩ := Store.insertItem_eq_ok.mp hs
    exact hsame ⟨rfl, rfl, rfl⟩
  | decision _ hs =>
    obtain ⟨_, _, _, rfl⟩ := Store.insertDecision_eq_ok.mp hs
    exact hsame ⟨rfl, rfl, rfl⟩
  | @record event events _ _ hinsert =>
    have hfresh : ∀ other ∈ c.events.rows, other.eventUid ≠ event.eventUid := by
      obtain ⟨_, rfl⟩ := Table.insert?_eq_some.mp hinsert
      rw [Table.rows_insert, List.map_append, List.nodup_append] at huids
      intro other hother
      rw [hevents] at hother
      exact huids.2.2 _ (List.mem_map_of_mem hother) _ (by simp)
    obtain ⟨hunits', hrevisions', hevents'⟩ := run_record hfresh (hevents ▸ hinsert)
    exact ⟨_, hunits'.trans hunits, hrevisions'.trans hrevisions, hevents'⟩
  | @outcome event _ desired _ _ hs =>
    obtain ⟨current, hfound, _, rfl⟩ := Store.replaceOutcome_eq_ok.mp hs
    obtain ⟨hunits', hrevisions', hevents'⟩ :=
      run_outcome desired s.session.now (hevents ▸ hfound)
    exact ⟨_, hunits'.trans hunits, hrevisions'.trans hrevisions, hevents'.trans (by rw [hevents])⟩
  | resolution _ hs =>
    obtain ⟨_, _, rfl⟩ := hs
    exact hsame ⟨rfl, rfl, rfl⟩

/-- Whatever an operation writes, the stream has followed, event uids being unique. -/
theorem mirrors_of_writes (h : Store.Writes φ s s') (hmirrors : Mirrors c s)
    (huids : (s'.events.rows.map (·.eventUid)).Nodup) :
    ∃ actions, Mirrors (creations.run c actions) s' := by
  induction h with
  | refl => exact ⟨[], hmirrors⟩
  | tail _ hw ih =>
    obtain ⟨actions, hbefore⟩ := ih (huids.sublist (eventUids_of_write hw).sublist)
    obtain ⟨more, hafter⟩ := mirrors_of_write hw hbefore huids
    exact ⟨actions ++ more, by rwa [Machine.run_append]⟩

end Palace

end Nocturne.Learner
