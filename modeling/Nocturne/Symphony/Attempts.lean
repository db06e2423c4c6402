import Nocturne.Symphony.Closure

namespace Nocturne

open Nocturne.Lib Nocturne.Store Nocturne.Memory

namespace Symphony

/-- Where an attempt stands in the tree of its run, from the root down. -/
def address (originAgent : String) : List (List Char) := Text.splitOn '.' originAgent.toList

/-- The winner's attempt and those below it. -/
theorem isOriginPrefix_iff {winnerOriginAgent : String} {origin : Option String} :
    isOriginPrefix winnerOriginAgent origin ↔
      ∃ originAgent ∈ origin, address winnerOriginAgent <+: address originAgent := by
  simp only [isOriginPrefix, address, Text.splitOn_prefix, String.toList_append, String.toList_inj]
  rfl

section Staging

variable {env : Env} {s s' : Store} {request : StageMemoryRequest} {embedding : Embedding}

/-- The contract and the limits admit the request. -/
def StageMemoryRequest.Admissible (env : Env) (request : StageMemoryRequest) : Prop :=
  isAttempt request.runId request.originAgent ∧ request.label.length ≤ env.labelMax ∧
    env.cl100kTokenCount request.body ≤ env.memoryMaxTokens

instance (env : Env) (request : StageMemoryRequest) :
    Decidable (StageMemoryRequest.Admissible env request) :=
  inferInstanceAs (Decidable (_ ∧ _ ∧ _))

/-- A new head of this request's attempt. -/
structure Staged (s : Store) (request : StageMemoryRequest) (r : MemoryUnit × Store) : Prop where
  fresh : s.units.get? request.memoryId = none
  head : r.1.id = request.memoryId ∧ r.1.runId = some request.runId ∧ r.1.status = .staged
  units : ∀ id, r.2.units.get? id =
    if id = request.memoryId then some r.1 else s.units.get? id
  resolutions : r.2.resolutions = s.resolutions

theorem stageSymphony_cases {r : MemoryUnit × Store}
    (h : stageSymphony env s request embedding = .ok r) :
    StageMemoryRequest.Admissible env request ∧
      (r.2 = s ∧ s.units.get? request.memoryId = some r.1 ∨ Staged s request r) := by
  simp only [stageSymphony, validateLabel, validateBody, bind_eq_ok, ensure_eq_ok] at h
  obtain ⟨_, hattempt, _, hlabel, _, hbody, existing, hexisting, h⟩ := h
  refine ⟨⟨hattempt, hlabel, hbody⟩, ?_⟩
  cases hget : s.units.get? request.memoryId with
  | some row =>
    simp only [stagedReplayRow, hget, bind_eq_ok, pure_eq_ok] at hexisting
    obtain ⟨_, _, _, _, rfl⟩ := hexisting
    simp only [bind_eq_ok, pure_eq_ok] at h
    obtain ⟨_, _, rfl⟩ := h
    exact .inl ⟨rfl, rfl⟩
  | none =>
    simp only [stagedReplayRow, hget, Except.ok.injEq] at hexisting
    subst hexisting
    right
    simp only [insertRoot, insertUnit, insertRevision, bind_eq_ok, ensure_eq_ok, require_eq_ok,
      pure_eq_ok, Option.getD_some] at h
    obtain ⟨_, ⟨_, _, _, _, _, _, units, hunits, rfl⟩, _, ⟨_, _, _, _, rfl⟩, rfl⟩ := h
    obtain ⟨hfresh, rfl⟩ := Table.insert?_eq_some.mp hunits
    exact ⟨hget, ⟨rfl, rfl, rfl⟩, Table.get?_insert (h := hfresh), rfl⟩

/-- A new head of an admissible attempt is always taken. -/
theorem stageSymphony_fresh (embedding : Embedding)
    (hadmissible : StageMemoryRequest.Admissible env request)
    (hfresh : s.units.get? request.memoryId = none) :
    ∃ r, stageSymphony env s request embedding = .ok r ∧ Staged s request r := by
  have htotal : ∃ r, stageSymphony env s request embedding = .ok r := by
    obtain ⟨hattempt, hlabel, hbody⟩ := hadmissible
    simp only [stageSymphony, ensure_pos hattempt, validateLabel, ensure_pos hlabel, validateBody,
      ensure_pos hbody, stagedReplayRow, hfresh, ok_bind, insertRoot, Option.getD_some]
    -- a staged head takes no label from the active ones
    rw [insertUnit_ok rfl (by simp) (by simp [ActiveLabelFree]) hfresh, ok_bind,
      insertRevision_ok (by simp [StageMemoryRequest.command]) get?_freshUlid_revisions]
    exact ⟨_, rfl⟩
  obtain ⟨r, hr⟩ := htotal
  refine ⟨r, hr, ?_⟩
  obtain ⟨_, ⟨_, hfound⟩ | hstaged⟩ := stageSymphony_cases hr
  · rw [hfresh] at hfound
    cases hfound
  · exact hstaged

/-- The head answers this very request: its text and origin, and the row that staged it. -/
structure Replays (s : Store) (request : StageMemoryRequest) (u : MemoryUnit) : Prop where
  found : s.units.get? request.memoryId = some u
  staged : u.status = .staged
  text : u.label = request.label ∧ u.body = request.body ∧ u.kind = request.kind ∧
    u.keywords = request.keywords
  origin : u.principalId = request.principalId ∧ u.projectKey = request.projectKey ∧
    u.originThreadId = some request.originThreadId ∧ u.originPath = request.originPath ∧
    u.originLocation = request.originLocation
  attempt : u.runId = some request.runId ∧ u.originAgent = some request.originAgent
  provenance : ∃ row ∈
      s.revisions.rows.find? fun r => r.memoryId = request.memoryId ∧ r.revision = 1,
    row.editor = request.command.editor ∧ row.originMachineId = request.machineId ∧
      row.reason = request.command.revisionReason

/-- On a head that exists, staging answers exactly the request that staged it. -/
theorem stageSymphony_replays_iff {u : MemoryUnit} {r : MemoryUnit × Store}
    (hfound : s.units.get? request.memoryId = some u) :
    stageSymphony env s request embedding = .ok r ↔
      StageMemoryRequest.Admissible env request ∧ Replays s request u ∧ r = (u, s) := by
  simp only [stageSymphony, validateLabel, validateBody, stagedReplayRow, hfound, bind_eq_ok,
    ensure_eq_ok, pure_eq_ok]
  constructor
  · rintro ⟨_, hattempt, _, hlabel, _, hbody, existing, ⟨_, hhead, _, hfirst, rfl⟩, h⟩
    simp only [bind_eq_ok, ensure_eq_ok, pure_eq_ok] at h
    obtain ⟨_, hrun, rfl⟩ := h
    obtain ⟨hprincipal, hname, htext, hkind, hkeywords, hproject, hthread, hpath, hlocation,
      hstaged, hrevision⟩ := hhead
    obtain ⟨row, hrow⟩ := Option.isSome_iff_exists.mp hrevision
    exact ⟨⟨hattempt, hlabel, hbody⟩, ⟨hfound, hstaged, ⟨hname, htext, hkind, hkeywords⟩,
      ⟨hprincipal, hproject, hthread, hpath, hlocation⟩, hrun, row, hrow, hfirst row hrow⟩, rfl⟩
  · rintro ⟨⟨hattempt, hlabel, hbody⟩, hreplays, rfl⟩
    obtain ⟨hname, htext, hkind, hkeywords⟩ := hreplays.text
    obtain ⟨hprincipal, hproject, hthread, hpath, hlocation⟩ := hreplays.origin
    obtain ⟨row, hrow, hfirst⟩ := hreplays.provenance
    refine ⟨.unit, hattempt, .unit, hlabel, .unit, hbody, some u, ⟨.unit, ?_, .unit, ?_, rfl⟩, ?_⟩
    · exact ⟨hprincipal, hname, htext, hkind, hkeywords, hproject, hthread, hpath, hlocation,
        hreplays.staged, Option.isSome_of_mem hrow⟩
    · intro other hother
      obtain rfl := Option.some.inj (hrow.symm.trans hother)
      exact hfirst
    · simp only [bind_eq_ok, ensure_eq_ok, pure_eq_ok]
      exact ⟨.unit, hreplays.attempt, trivial⟩

/-- What staging accepts, it would answer again. -/
theorem stageSymphony_replays {r : MemoryUnit × Store} (hlineage : s.Lineage)
    (h : stageSymphony env s request embedding = .ok r) : Replays r.2 request r.1 := by
  cases hget : s.units.get? request.memoryId with
  | some u =>
    obtain ⟨_, hreplays, rfl⟩ := (stageSymphony_replays_iff hget).mp h
    exact hreplays
  | none =>
    -- no row of this id is on record yet
    have hfirst (row : MemoryRevision) (hid : row.memoryId = request.memoryId)
        (hnumber : row.revision = 1) : (s.revisions.rows ++ [row]).find?
          (fun r => r.memoryId = request.memoryId ∧ r.revision = 1) = some row := by
      rw [List.find?_append, List.find?_eq_none.mpr, Option.none_or]
      · exact List.find?_cons_of_pos (by simp [hid, hnumber])
      · intro other hother
        have hown := hlineage.owned other hother
        simp only [decide_eq_true_eq, not_and]
        intro hsame
        simp [hsame, hget] at hown
    simp only [stageSymphony, stagedReplayRow, hget, insertRoot, insertUnit, insertRevision,
      bind_eq_ok, ensure_eq_ok, Option.getD_some] at h
    obtain ⟨_, _, _, _, _, _, _, hnew, h⟩ := h
    obtain rfl := Except.ok.inj hnew
    simp only [bind_eq_ok, ensure_eq_ok, require_eq_ok, pure_eq_ok] at h
    obtain ⟨_, ⟨_, _, _, _, _, _, units, hunits, rfl⟩, _,
      ⟨_, _, revisions, hrevisions, rfl⟩, rfl⟩ := h
    obtain ⟨hfresh, rfl⟩ := Table.insert?_eq_some.mp hunits
    obtain ⟨_, rfl⟩ := Table.insert?_eq_some.mp hrevisions
    exact ⟨Table.get?_insert_self (h := hfresh), rfl, ⟨rfl, rfl, rfl, rfl⟩,
      ⟨rfl, rfl, rfl, rfl, rfl⟩, ⟨rfl, rfl⟩, _, hfirst _ rfl rfl, rfl, rfl, rfl⟩

end Staging

end Symphony

end Nocturne
