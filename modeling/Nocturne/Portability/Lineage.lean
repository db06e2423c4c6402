import Nocturne.Portability.Service
import Nocturne.Store.Laws

namespace Nocturne.Portability

open Nocturne.Lib

variable {ρ : Type} {db db' : Database ρ} {id : Uuid}

section Cas

/-- The revision rows of one memory under one number. -/
def Database.numbered (db : Database ρ) (id : Uuid) (k : ℤ) : List (RevisionRow ρ) :=
  db.revisions.rows.filter fun row => row.memoryId = id ∧ row.revision = some k

theorem mem_numbered {k : ℤ} {row : RevisionRow ρ} :
    row ∈ db.numbered id k ↔ row ∈ db.revisions.rows ∧ row.memoryId = id ∧
      row.revision = some k := by
  simp [Database.numbered]

/-- The row a compare-and-set appends under `parentUid`. -/
def HeadUpdate.row (command : HeadUpdate ρ) (current : MemoryRow ρ) (parentUid : Ulid) :
    RevisionRow ρ :=
  { revUid := command.revUid
    parentUid := some parentUid
    memoryId := command.memoryId
    revision := some (current.revision + 1)
    body := (current.revised command.changes).body
    label := (current.revised command.changes).label
    rest := command.receipt }

/-- What an accepted compare-and-set found and wrote. -/
structure CasStep (db : Database ρ) (command : HeadUpdate ρ) (current : MemoryRow ρ)
    (db' : Database ρ) : Prop where
  found : db.memories.get? command.memoryId = some current
  memories : ∀ id, db'.memories.get? id = if id = command.memoryId then
    some (current.revised command.changes) else db.memories.get? id
  revisions : ∃ row : RevisionRow ρ, row.memoryId = command.memoryId ∧
    row.revision = some (current.revision + 1) ∧ db.revisions.get? row.revUid = none ∧
    db'.revisions.rows = db.revisions.rows ++ [row]
  labels : LabelsFree db'.memories.rows

theorem casStep_of_ok {command : HeadUpdate ρ} (h : casUpdateMemoryUnit db command = .ok db') :
    ∃ current, CasStep db command current db' := by
  simp only [casUpdateMemoryUnit, bind_eq_ok, ensure_eq_ok, require_eq_ok] at h
  obtain ⟨_, _, current, hfound, _, hexpected, _, hlabels, _, hchecked, h⟩ := h
  split at h
  · next parentUid _ =>
    simp only [bind_eq_ok, require_eq_ok, pure_eq_ok, Table.insert?_eq_some] at h
    obtain ⟨_, ⟨hfresh, rfl⟩, rfl⟩ := h
    refine ⟨current, hfound, ?_, ⟨command.row current parentUid, rfl, rfl, hfresh, rfl⟩, hlabels⟩
    intro id
    rw [Table.get?_modify]
    split
    · next hid =>
      rw [hid, hfound]
      rfl
    · rfl
  · cases h

/-- The lineage error is raised only where a head's own number has not one row. -/
theorem lineage_error {command : HeadUpdate ρ} {found : Nat}
    (h : casUpdateMemoryUnit db command = .error (.lineage found)) :
    ∃ current, db.memories.get? command.memoryId = some current ∧
      (db.numbered command.memoryId current.revision).length ≠ 1 := by
  have hmeets : Meets (fun _ => True) (fun e => ∀ found, e = .lineage found →
      ∃ current, db.memories.get? command.memoryId = some current ∧
        (db.numbered command.memoryId current.revision).length ≠ 1)
      (casUpdateMemoryUnit db command) := by
    refine (Meets.ensure (by simp)).bind fun _ _ => ?_
    refine (Meets.require (by simp)).bind fun current hfound => ?_
    refine (Meets.ensure (by simp)).bind fun _ hexpected => ?_
    refine (Meets.ensure (by simp)).bind fun _ _ => ?_
    refine (Meets.ensure (by simp)).bind fun _ _ => ?_
    dsimp only
    split
    · exact (Meets.require (by simp)).bind fun _ _ => .pure trivial
    · next hparents =>
      refine .error fun _ _ => ⟨current, hfound, fun hone => ?_⟩
      obtain ⟨row, hrow⟩ := List.length_eq_one_iff.mp hone
      apply hparents row.revUid
      rw [Database.parentUids, ← hexpected]
      exact congrArg (List.map _) hrow
  exact hmeets.of_error h found rfl

end Cas

section Safe

/-- A head's own number has one row, and no row of it has a greater number. -/
structure Database.Safe (db : Database ρ) (id : Uuid) : Prop where
  one : ∀ head, db.memories.get? id = some head →
    (db.numbered id head.revision).length = 1
  last : ∀ head, db.memories.get? id = some head → ∀ row ∈ db.revisions.rows,
    row.memoryId = id → ∀ k, row.revision = some k → k ≤ head.revision

theorem CasStep.numbered {command : HeadUpdate ρ} {current : MemoryRow ρ}
    (h : CasStep db command current db') (id : Uuid) (k : ℤ) :
    (db'.numbered id k).length = (db.numbered id k).length +
      if id = command.memoryId ∧ k = current.revision + 1 then 1 else 0 := by
  obtain ⟨row, hid, hrevision, _, hrows⟩ := h.revisions
  rw [Database.numbered, hrows, List.filter_append, List.length_append, Database.numbered]
  congr 1
  by_cases hrow : id = command.memoryId ∧ k = current.revision + 1
  · obtain ⟨rfl, rfl⟩ := hrow
    simp [hid, hrevision]
  · rw [if_neg hrow, List.length_eq_zero_iff, List.filter_eq_nil_iff]
    intro row' hrow'
    rw [List.mem_singleton.mp hrow', decide_eq_true_eq]
    rintro ⟨rfl, hk⟩
    rw [hrevision, Option.some.injEq] at hk
    exact hrow ⟨hid, hk.symm⟩

theorem Database.Safe.cas {command : HeadUpdate ρ} {current : MemoryRow ρ} (h : db.Safe id)
    (hstep : CasStep db command current db') : db'.Safe id := by
  obtain ⟨row, hid, hrevision, _, hrows⟩ := hstep.revisions
  by_cases hself : id = command.memoryId
  · subst hself
    have hhead : ∀ head, db'.memories.get? command.memoryId = some head →
        head.revision = current.revision + 1 := by
      intro head hget
      rw [hstep.memories, if_pos rfl] at hget
      rw [← Option.some.inj hget]
      rfl
    constructor
    · intro head hget
      have hnone : db.numbered command.memoryId (current.revision + 1) = [] := by
        rw [List.eq_nil_iff_forall_not_mem]
        intro row hrow
        obtain ⟨hmem, hown, hnumber⟩ := mem_numbered.mp hrow
        have hle := h.last current hstep.found row hmem hown _ hnumber
        omega
      rw [hhead head hget, hstep.numbered, hnone, if_pos ⟨rfl, rfl⟩]
      rfl
    · intro head hget row' hrow' hown k hk
      rw [hrows, List.mem_append, List.mem_singleton] at hrow'
      rw [hhead head hget]
      rcases hrow' with hrow' | rfl
      · have hle := h.last current hstep.found row' hrow' hown k hk
        omega
      · rw [hrevision, Option.some.injEq] at hk
        exact hk.symm.le
  · constructor
    · intro head hget
      rw [hstep.memories, if_neg hself] at hget
      rw [hstep.numbered, if_neg (fun h => hself h.1)]
      exact h.one head hget
    · intro head hget row' hrow' hown k hk
      rw [hstep.memories, if_neg hself] at hget
      rw [hrows, List.mem_append, List.mem_singleton] at hrow'
      rcases hrow' with hrow' | rfl
      · exact h.last head hget row' hrow' hown k hk
      · exact absurd (hown.symm.trans hid) hself

/-- No later compare-and-set on the head, after any others, can raise a lineage error. -/
def Database.Updatable (db : Database ρ) (id : Uuid) : Prop :=
  ∀ commands command found, command.memoryId = id →
    casUpdateMemoryUnit ((heads ρ).run db commands) command ≠ .error (.lineage found)

theorem Database.Safe.updatable (h : db.Safe id) : db.Updatable id := by
  rintro commands command found rfl herror
  have hsafe : ((heads ρ).run db commands).Safe command.memoryId := by
    apply Machine.run_keeps (I := fun db : Database ρ => db.Safe command.memoryId) ?_ commands h
    intro db update db' hsafe hstep
    obtain ⟨current, hstep⟩ := casStep_of_ok hstep
    exact hsafe.cas hstep
  obtain ⟨current, hfound, hnot⟩ := lineage_error herror
  exact hnot (hsafe.one current hfound)

end Safe

section Doomed

/-- A compare-and-set that writes neither label nor status meets the label index. -/
theorem labelsFree_modify {memories : Table Uuid (MemoryRow ρ) (·.id)} {changes : HeadChanges ρ}
    (hlabel : changes.label = none) (hstatus : changes.status = none)
    (hlabels : LabelsFree memories.rows) :
    LabelsFree (memories.modify id (·.revised changes) (MemoryRow.id_revised _)).rows := by
  have hkeeps : ∀ row : MemoryRow ρ,
      (if row.id = id then row.revised changes else row).status = row.status ∧
      (if row.id = id then row.revised changes else row).principalId = row.principalId ∧
      (if row.id = id then row.revised changes else row).label = row.label := by
    intro row
    split <;> simp [MemoryRow.revised, hlabel, hstatus]
  have hsame : ((memories.rows.map fun row =>
      if row.id = id then row.revised changes else row).filter (·.status = .active)).map
        (fun row => (row.principalId, row.label)) =
      (memories.rows.filter (·.status = .active)).map fun row => (row.principalId, row.label) := by
    rw [List.filter_map, List.map_map]
    congr 1
    · funext row
      simp only [Function.comp_apply]
      rw [(hkeeps row).2.1, (hkeeps row).2.2]
    · apply List.filter_congr
      intro row _
      simp only [Function.comp_apply]
      rw [(hkeeps row).1]
  rw [LabelsFree, Table.rows_modify, hsame]
  exact hlabels

variable {head : MemoryRow ρ}

theorem parentUids_length (db : Database ρ) (id : Uuid) (k : ℤ) :
    (db.parentUids id k).length = (db.numbered id k).length := by
  rw [Database.parentUids, List.length_map, Database.numbered]

/-- Only the count of parents can stop a compare-and-set that meets every other check. -/
theorem casUpdate_admitted {command : HeadUpdate ρ} (hempty : ¬command.changes.IsEmpty)
    (hfound : db.memories.get? command.memoryId = some head)
    (hexpected : head.revision = command.expectedRevision)
    (hlabels : LabelsFree (db.memories.modify command.memoryId (·.revised command.changes)
      (MemoryRow.id_revised _)).rows)
    (hchecked : (head.revised command.changes).Checked)
    (hfresh : db.revisions.get? command.revUid = none) :
    ((db.numbered command.memoryId head.revision).length = 1 →
      ∃ db', casUpdateMemoryUnit db command = .ok db') ∧
    ((db.numbered command.memoryId head.revision).length ≠ 1 →
      ∃ found, casUpdateMemoryUnit db command = .error (.lineage found)) := by
  rw [← parentUids_length, hexpected]
  simp only [casUpdateMemoryUnit, ensure_pos hempty, hfound, require_some, ok_bind,
    ensure_pos hexpected, ensure_pos hlabels, ensure_pos hchecked]
  constructor
  · intro hone
    obtain ⟨parentUid, hparent⟩ := List.length_eq_one_iff.mp hone
    rw [hparent]
    have hrow : db.revisions.get? (command.row head parentUid).revUid = none := hfresh
    have hinsert := Table.insert?_of_get?_none hrow
    simp only [HeadUpdate.row] at hinsert
    simp only [MemoryRow.revised] at hinsert ⊢
    rw [hinsert, require_some, ok_bind]
    exact ⟨_, rfl⟩
  · intro hnot
    split
    · next parentUid hparent => simp [hparent] at hnot
    · exact ⟨_, rfl⟩

/-- A compare-and-set at the head's own number that writes its body again, under a new uid. -/
def Database.repeat (db : Database ρ) (head : MemoryRow ρ) : HeadUpdate ρ :=
  { memoryId := head.id
    expectedRevision := head.revision
    revUid := Store.fresh (db.revisions.rows.map (·.revUid)) 0
    changes := { body := some head.body }
    receipt := head.rest }

theorem casUpdate_repeat (hlabels : LabelsFree db.memories.rows)
    (hhead : db.memories.get? head.id = some head) (hchecked : head.Checked) :
    ((db.numbered head.id head.revision).length = 1 →
      ∃ db', casUpdateMemoryUnit db (db.repeat head) = .ok db') ∧
    ((db.numbered head.id head.revision).length ≠ 1 →
      ∃ found, casUpdateMemoryUnit db (db.repeat head) = .error (.lineage found)) := by
  have hempty : ¬(db.repeat head).changes.IsEmpty := by
    simp [HeadChanges.IsEmpty, Database.repeat]
  apply casUpdate_admitted hempty hhead rfl
  · exact labelsFree_modify rfl rfl hlabels
  · exact hchecked
  · exact Store.get?_fresh (fun _ h => h) 0

/-- A row numbered past its head is met by some run of compare-and-sets. -/
theorem not_updatable_of_ahead (d : ℕ) (hlabels : LabelsFree db.memories.rows)
    (hhead : db.memories.get? head.id = some head) (hchecked : head.Checked)
    (hahead : ∃ row ∈ db.revisions.rows, row.memoryId = head.id ∧
      row.revision = some (head.revision + d))
    (hmany : d = 0 → (db.numbered head.id head.revision).length ≠ 1) :
    ¬db.Updatable head.id := by
  intro hupdatable
  induction d generalizing db head with
  | zero =>
    obtain ⟨found, herror⟩ := (casUpdate_repeat hlabels hhead hchecked).2 (hmany rfl)
    exact hupdatable [] _ found rfl herror
  | succ d ih =>
    have hcas := casUpdate_repeat hlabels hhead hchecked
    by_cases hone : (db.numbered head.id head.revision).length = 1
    · obtain ⟨db', hok⟩ := hcas.1 hone
      obtain ⟨current, hstep⟩ := casStep_of_ok hok
      obtain rfl : current = head := Option.some.inj (hstep.found.symm.trans hhead)
      obtain ⟨row, hrow, hown, hnumber⟩ := hahead
      obtain ⟨new, _, _, _, hrows⟩ := hstep.revisions
      have hrewritten : db'.memories.get? (current.revised (db.repeat current).changes).id =
          some (current.revised (db.repeat current).changes) := by
        rw [hstep.memories]
        exact if_pos rfl
      apply ih hstep.labels hrewritten hchecked
      · refine ⟨row, by simp [hrows, hrow], hown, ?_⟩
        rw [hnumber]
        simp only [MemoryRow.revised, Nat.cast_add, Nat.cast_one]
        congr 1
        ring
      · rintro rfl
        have hmem : row ∈ db.numbered current.id (current.revision + 1) :=
          mem_numbered.mpr ⟨hrow, hown, by simpa using hnumber⟩
        have hpos := List.length_pos_of_mem hmem
        have hcount := hstep.numbered current.id (current.revision + 1)
        rw [if_pos ⟨rfl, rfl⟩] at hcount
        simp only [MemoryRow.revised] at hcount ⊢
        omega
      · intro commands command found hcommand
        have hlater := hupdatable (db.repeat current :: commands) command found hcommand
        rw [Machine.run_cons, Machine.next_of_ok hok] at hlater
        exact hlater
    · obtain ⟨found, herror⟩ := hcas.2 hone
      exact hupdatable [] _ found rfl herror

theorem safe_of_updatable (hlabels : LabelsFree db.memories.rows)
    (hhead : db.memories.get? head.id = some head) (hchecked : head.Checked)
    (hupdatable : db.Updatable head.id) : db.Safe head.id := by
  constructor
  · intro head' hhead'
    obtain rfl := Option.some.inj (hhead.symm.trans hhead')
    by_contra hnot
    obtain ⟨found, herror⟩ := (casUpdate_repeat hlabels hhead hchecked).2 hnot
    exact hupdatable [] _ found rfl herror
  · intro head' hhead' row hrow hown k hk
    obtain rfl := Option.some.inj (hhead.symm.trans hhead')
    by_contra hlt
    obtain ⟨d, hd⟩ := Int.le.dest (Int.le_of_lt (not_le.mp hlt))
    apply not_updatable_of_ahead d hlabels hhead hchecked ⟨row, hrow, hown, by rw [hk, hd]⟩ ?_
      hupdatable
    rintro rfl
    omega

end Doomed

section Numbers

/-- The positive numbers of a memory's revision rows. -/
def numbers (revisions : List (RevisionRow ρ)) (id : Uuid) : List ℤ :=
  ((revisions.filter (·.memoryId = id)).filterMap (·.revision)).filter (0 < ·)

/-- `1, 2, …, n`. -/
def upTo (n : ℤ) : List ℤ := (List.range n.toNat).map fun k : ℕ => (k : ℤ) + 1

theorem mem_upTo {n k : ℤ} : k ∈ upTo n ↔ 1 ≤ k ∧ k ≤ n := by
  rw [upTo, List.mem_map]
  constructor
  · rintro ⟨m, hm, rfl⟩
    rw [List.mem_range] at hm
    omega
  · rintro ⟨hone, hle⟩
    refine ⟨(k - 1).toNat, ?_, by omega⟩
    rw [List.mem_range]
    omega

theorem count_upTo (n k : ℤ) : (upTo n).count k = if 1 ≤ k ∧ k ≤ n then 1 else 0 := by
  have hnodup : (upTo n).Nodup := by
    apply List.Nodup.map ?_ List.nodup_range
    intro m m' h
    simpa using h
  split
  · next h => exact List.count_eq_one_of_mem hnodup (mem_upTo.mpr h)
  · next h => exact List.count_eq_zero_of_not_mem fun hmem => h (mem_upTo.mp hmem)

theorem count_numbers (revisions : List (RevisionRow ρ)) (id : Uuid) {k : ℤ} (hk : 0 < k) :
    (numbers revisions id).count k =
      (revisions.filter fun row => row.memoryId = id ∧ row.revision = some k).length := by
  induction revisions with
  | nil => rfl
  | cons row revisions ih =>
    simp only [numbers] at ih ⊢
    by_cases hid : row.memoryId = id
    · cases hrevision : row.revision with
      | none => simp [hid, hrevision, ih]
      | some j =>
        by_cases hj : j = k
        · subst hj
          simp [hid, hrevision, hk, ih]
        · by_cases hpos : 0 < j
          · simp [hid, hrevision, hpos, hj, ih]
          · simp [hid, hrevision, hpos, hj, ih]
    · simp [hid, ih]

theorem numbers_pos {revisions : List (RevisionRow ρ)} {k : ℤ} (h : k ∈ numbers revisions id) :
    0 < k := by
  simpa using (List.mem_filter.mp h).2

/-- A memory's revisions are numbered `1, 2, …, n` exactly where each of these numbers has one
row and no greater number has any. -/
theorem numbers_perm_iff {revisions : List (RevisionRow ρ)} {n : ℤ} :
    (numbers revisions id).Perm (upTo n) ↔ ∀ k, 0 < k →
      (revisions.filter fun row => row.memoryId = id ∧ row.revision = some k).length =
        if k ≤ n then 1 else 0 := by
  rw [List.perm_iff_count]
  constructor
  · intro h k hk
    rw [← count_numbers revisions id hk, h, count_upTo]
    exact if_congr (by omega) rfl rfl
  · intro h k
    rw [count_upTo]
    by_cases hk : 0 < k
    · rw [count_numbers revisions id hk, h k hk]
      exact if_congr (by omega) rfl rfl
    · rw [if_neg (by omega)]
      exact List.count_eq_zero_of_not_mem fun hmem => hk (numbers_pos hmem)

end Numbers

section Import

/-- What the import owes a head: one row for each number up to its own, each hanging off the one
before, the newest carrying its text, and no lineage error at any later update. -/
structure Database.HeadLineage (db : Database ρ) (head : MemoryRow ρ) : Prop where
  numbered : ∀ k, 1 ≤ k → k ≤ head.revision → ∃ row, db.numbered head.id k = [row]
  chained : ∀ k, 1 ≤ k → k < head.revision → ∀ row ∈ db.numbered head.id k,
    ∀ next ∈ db.numbered head.id (k + 1), next.parentUid = some row.revUid
  newest : 1 ≤ head.revision ∧ ∀ row ∈ db.numbered head.id head.revision,
    row.body = head.body ∧ row.label = head.label
  updatable : db.Updatable head.id

/-- The revisions in an archive are a memory's whole history. -/
structure MemoryArchive.Complete (archive : MemoryArchive ρ) (head : MemoryRow ρ) : Prop where
  positive : 1 ≤ head.revision
  numbers : (numbers archive.revisions head.id).Perm (upTo head.revision)
  linked : ∀ row ∈ archive.revisions, row.memoryId = head.id → ∀ k, row.revision = some k →
    1 < k → ∃ parent ∈ archive.revisions, parent.memoryId = head.id ∧
      parent.revision = some (k - 1) ∧ row.parentUid = some parent.revUid
  newest : ∀ row ∈ archive.revisions, row.memoryId = head.id →
    row.revision = some head.revision → row.body = head.body ∧ row.label = head.label

/-- What an import into an empty palace leaves there. -/
structure Imported (archive : MemoryArchive ρ) (db : Database ρ) : Prop where
  memories : db.memories.rows = archive.memories
  revisions : db.revisions.rows = archive.revisions
  labels : LabelsFree db.memories.rows
  checked : ∀ head ∈ db.memories.rows, head.Checked

theorem imported_of_ok {principalId : String} {archive : MemoryArchive ρ}
    (h : importArchive .empty principalId archive = .ok db) : Imported archive db := by
  simp only [importArchive, validated, insertArchive, bind_eq_ok, ensure_eq_ok, require_eq_ok,
    pure_eq_ok, Table.insertAll?_eq_some] at h
  obtain ⟨_, ⟨_, _, rfl⟩, _, _, memories, hmemories, _, hlabels, _, hchecked, revisions,
    hrevisions, _, _, _, _, _, _, _, _, _, _, _, _, _, _, _, _, _, _, _, _, _, _, rfl⟩ := h
  have hrows : memories.rows = archive.memories := by
    simpa [Database.empty, Table.empty] using hmemories
  exact ⟨hrows, by simpa [Database.empty, Table.empty] using hrevisions, hlabels,
    by simpa [hrows] using hchecked⟩

theorem headLineage_iff {archive : MemoryArchive ρ} {head : MemoryRow ρ}
    (h : Imported archive db) (hhead : head ∈ archive.memories) :
    db.HeadLineage head ↔ archive.Complete head := by
  have hget : db.memories.get? head.id = some head :=
    Table.get?_of_mem (h.memories ▸ hhead)
  have hnumbered : ∀ k, (db.numbered head.id k).length =
      (archive.revisions.filter fun row => row.memoryId = head.id ∧
        row.revision = some k).length := by
    intro k
    rw [Database.numbered, h.revisions]
  constructor
  · intro hlineage
    have hsafe := safe_of_updatable h.labels hget
      (h.checked head (h.memories ▸ hhead)) hlineage.updatable
    have hnumbers : ∀ k, 0 < k → (db.numbered head.id k).length =
        if k ≤ head.revision then 1 else 0 := by
      intro k hk
      split
      · next hle =>
        obtain ⟨row, hrow⟩ := hlineage.numbered k hk hle
        rw [hrow]
        rfl
      · next hlt =>
        rw [List.length_eq_zero_iff, List.eq_nil_iff_forall_not_mem]
        intro row hrow
        obtain ⟨hmem, hown, hk⟩ := mem_numbered.mp hrow
        exact hlt (hsafe.last head hget row hmem hown k hk)
    constructor
    case positive => exact hlineage.newest.1
    case numbers =>
      rw [numbers_perm_iff]
      intro k hk
      rw [← hnumbered, hnumbers k hk]
    case linked =>
      intro row hrow hown k hk hlt
      rw [← h.revisions] at hrow ⊢
      have hle := hsafe.last head hget row hrow hown k hk
      obtain ⟨parent, hparent⟩ := hlineage.numbered (k - 1) (by omega) (by omega)
      have hmem : parent ∈ db.numbered head.id (k - 1) := hparent ▸ List.mem_singleton_self parent
      obtain ⟨hparentRow, hparentOwn, hparentNumber⟩ := mem_numbered.mp hmem
      refine ⟨parent, hparentRow, hparentOwn, hparentNumber, ?_⟩
      apply hlineage.chained (k - 1) (by omega) (by omega) parent hmem row
      exact mem_numbered.mpr ⟨hrow, hown, by rw [hk, sub_add_cancel]⟩
    case newest =>
      intro row hrow hown hk
      rw [← h.revisions] at hrow
      exact hlineage.newest.2 row (mem_numbered.mpr ⟨hrow, hown, hk⟩)
  · intro hcomplete
    have hnumbers : ∀ k, 0 < k → (db.numbered head.id k).length =
        if k ≤ head.revision then 1 else 0 := by
      intro k hk
      rw [hnumbered, numbers_perm_iff.mp hcomplete.numbers k hk]
    constructor
    case numbered =>
      intro k hk hle
      apply List.length_eq_one_iff.mp
      rw [hnumbers k (by omega), if_pos hle]
    case chained =>
      intro k hk hlt row hrow next hnext
      obtain ⟨hnextRow, hnextOwn, hnextNumber⟩ := mem_numbered.mp hnext
      rw [h.revisions] at hnextRow
      obtain ⟨parent, hparent, hown, hnumber, hlink⟩ :=
        hcomplete.linked next hnextRow hnextOwn (k + 1) hnextNumber (by omega)
      rw [← h.revisions] at hparent
      have hmem : parent ∈ db.numbered head.id k :=
        mem_numbered.mpr ⟨hparent, hown, by rw [hnumber, add_sub_cancel_right]⟩
      obtain ⟨only, honly⟩ := List.length_eq_one_iff.mp
        ((hnumbers k (by omega)).trans (if_pos hlt.le))
      rw [honly, List.mem_singleton] at hrow hmem
      rw [hlink, hmem, hrow]
    case newest =>
      refine ⟨hcomplete.positive, fun row hrow => ?_⟩
      obtain ⟨hmem, hown, hk⟩ := mem_numbered.mp hrow
      exact hcomplete.newest row (h.revisions ▸ hmem) hown hk
    case updatable =>
      apply Database.Safe.updatable
      constructor
      · intro head' hget'
        obtain rfl := Option.some.inj (hget.symm.trans hget')
        rw [hnumbers _ (by have := hcomplete.positive; omega), if_pos le_rfl]
      · intro head' hget' row hrow hown k hk
        obtain rfl := Option.some.inj (hget.symm.trans hget')
        by_contra hlt
        have hpos := hcomplete.positive
        have hnone := hnumbers k (by omega)
        rw [if_neg hlt, List.length_eq_zero_iff] at hnone
        have hmem : row ∈ db.numbered head.id k := mem_numbered.mpr ⟨hrow, hown, hk⟩
        rw [hnone] at hmem
        cases hmem

/-- An accepted import keeps the lineage of every head exactly where the archive holds the whole
history of each of its memories, which the import does not check. -/
theorem import_keeps_lineage_iff {principalId : String} {archive : MemoryArchive ρ}
    (h : importArchive .empty principalId archive = .ok db) :
    (∀ head ∈ db.memories.rows, db.HeadLineage head) ↔
      ∀ head ∈ archive.memories, archive.Complete head := by
  have himported := imported_of_ok h
  rw [himported.memories]
  constructor
  · intro hlineage head hhead
    exact (headLineage_iff himported hhead).mp (hlineage head hhead)
  · intro hcomplete head hhead
    exact (headLineage_iff himported hhead).mpr (hcomplete head hhead)

/-- A memory of one edit. -/
def editedRow (revision : ℤ) : MemoryRow Unit :=
  { id := 7, principalId := "owner", label := "tea", body := "drinks coffee", status := .active,
    runId := none, originAgent := none, revision, rest := () }

def editedArchive (revision : ℤ) : MemoryArchive Unit :=
  { principalId := "owner"
    memories := [editedRow revision]
    revisions :=
      [⟨70, none, 7, some 1, "drinks tea", "tea", ()⟩,
        ⟨71, some 70, 7, some 2, "drinks coffee", "tea", ()⟩]
    edges := []
    queue := []
    decisions := [] }

theorem import_keeps_lineage_edited :
    ∃ db, importArchive .empty "owner" (editedArchive 2) = .ok db ∧
      ∀ head ∈ db.memories.rows, db.HeadLineage head := by
  obtain ⟨db, hok, _⟩ : ∃ db, importArchive .empty "owner" (editedArchive 2) = .ok db ∧ True :=
    answers_iff.mp (by decide +kernel)
  refine ⟨db, hok, (import_keeps_lineage_iff hok).mpr fun head hhead => ?_⟩
  rw [List.mem_singleton.mp hhead]
  constructor
  case positive => decide
  case numbers => decide
  case linked =>
    intro row hrow _ k hk hlt
    simp only [editedArchive, List.mem_cons, List.not_mem_nil, or_false] at hrow
    rcases hrow with rfl | rfl
    · cases hk
      omega
    · cases hk
      exact ⟨⟨70, none, 7, some 1, "drinks tea", "tea", ()⟩, by simp [editedArchive], rfl, rfl, rfl⟩
  case newest => decide

/-- A head at revision 3 with two revision rows is let in, and its next update is a lineage
error. -/
theorem import_breaks_lineage :
    ∃ db, importArchive .empty "owner" (editedArchive 3) = .ok db ∧
      ∃ head ∈ db.memories.rows, ¬db.HeadLineage head := by
  obtain ⟨db, hok, head, hhead, herror⟩ :
      ∃ db, importArchive .empty "owner" (editedArchive 3) = .ok db ∧
        ∃ head ∈ db.memories.rows,
          casUpdateMemoryUnit db (db.repeat head) = .error (.lineage 0) :=
    answers_iff.mp (by decide +kernel)
  refine ⟨db, hok, head, hhead, fun hlineage => ?_⟩
  exact hlineage.updatable [] (db.repeat head) 0 rfl herror

end Import

end Nocturne.Portability
