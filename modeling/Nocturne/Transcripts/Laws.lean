import Nocturne.Lib.Flight
import Nocturne.Lib.Record
import Nocturne.Transcripts.Service

namespace Nocturne.Transcripts

open Nocturne.Lib

section Rows

variable {visible rows : List TranscriptRecord} {row : TranscriptRecord} {principalId : String}
  {threadId : Uuid} {ts : Time} {record : TranscriptRecordInput}

/-- The key of the row a record of this principal asks for. -/
def TranscriptRecordInput.name (principalId : String) (record : TranscriptRecordInput) :
    String × Uuid × Nat :=
  (principalId, record.threadId, record.sequence)

/-- The row holds what the record sends. -/
def Agrees (row : TranscriptRecord) (record : TranscriptRecordInput) : Prop :=
  row.journalLine = record.journalLine ∧ row.sha256 = record.sha256

/-- The sequences of a thread, in the order they were stored. -/
def sequences (visible : List TranscriptRecord) (principalId : String) (threadId : Uuid) :
    List Nat :=
  (threadRows visible principalId threadId).map (·.sequence)

theorem sequences_append :
    sequences (visible ++ rows) principalId threadId =
      sequences visible principalId threadId ++ sequences rows principalId threadId := by
  simp [sequences, threadRows]

theorem sequences_eq_nil (h : ∀ row ∈ rows, row.principalId ≠ principalId) :
    sequences rows principalId threadId = [] := by
  simp only [sequences, threadRows, List.map_eq_nil_iff, List.filter_eq_nil_iff,
    decide_eq_true_eq]
  rintro row hrow ⟨hprincipal, _⟩
  exact h row hrow hprincipal

theorem appendRecord_replays (h : appendRecord visible principalId ts record = .ok none) :
    ∃ row ∈ visible, row.key = record.name principalId ∧ Agrees row record := by
  unfold appendRecord at h
  split at h
  · next existing hfind =>
    split at h
    · cases h
    · next hsame =>
      push Not at hsame
      exact ⟨existing, List.mem_of_find?_eq_some hfind,
        by simpa [TranscriptRecordInput.name] using List.find?_some hfind, hsame⟩
  · split at h
    · cases h
    · cases h

theorem appendRecord_adds (h : appendRecord visible principalId ts record = .ok (some row)) :
    (∀ other ∈ visible, other.key ≠ row.key) ∧ row.key = record.name principalId ∧
      Agrees row record ∧ row.sequence = (latest visible principalId row.threadId).getD 0 + 1 := by
  unfold appendRecord at h
  split at h
  · split at h
    · cases h
    · cases h
  · next hfind =>
    split at h
    · cases h
    · next hnext =>
      cases h
      push Not at hnext
      refine ⟨?_, rfl, ⟨rfl, rfl⟩, hnext⟩
      intro other hother
      have hne := List.find?_eq_none.mp hfind other hother
      rw [decide_eq_true_eq] at hne
      exact hne

/-- A record that its one row agrees with is a replay. -/
theorem appendRecord_of_mem {t : Table (String × Uuid × Nat) TranscriptRecord (·.key)}
    (hrow : row ∈ t.rows) (hkey : row.key = record.name principalId) (hagrees : Agrees row record) :
    appendRecord t.rows principalId ts record = .ok none := by
  have hfind : t.rows.find? (·.key = (principalId, record.threadId, record.sequence)) = some row :=
    Table.get?_eq_some_iff.mpr ⟨hrow, hkey⟩
  simp [appendRecord, hfind, hagrees.1, hagrees.2]

/-- Every thread of the principal is numbered from one, with no gap. -/
def Dense (visible : List TranscriptRecord) (principalId : String) : Prop :=
  ∀ threadId, ∃ n, sequences visible principalId threadId = List.range' 1 n

theorem latest_of_range {n : Nat}
    (h : sequences visible principalId threadId = List.range' 1 n) :
    (latest visible principalId threadId).getD 0 = n := by
  change (sequences visible principalId threadId).max?.getD 0 = n
  rw [h]
  cases n with
  | zero => rfl
  | succ n =>
    have hmax : (List.range' 1 (n + 1)).max? = some (n + 1) := by
      rw [List.max?_eq_some_iff]
      refine ⟨List.mem_range'_1.mpr ⟨by omega, by omega⟩, ?_⟩
      intro m hm
      have := List.mem_range'_1.mp hm
      omega
    rw [hmax, Option.getD_some]

theorem Dense.snoc (h : Dense visible principalId) (hprincipal : row.principalId = principalId)
    (hnext : row.sequence = (latest visible principalId row.threadId).getD 0 + 1) :
    Dense (visible ++ [row]) principalId := by
  intro threadId
  obtain ⟨n, hn⟩ := h threadId
  by_cases hthread : row.threadId = threadId
  · subst hthread
    refine ⟨n + 1, ?_⟩
    rw [latest_of_range hn] at hnext
    rw [sequences_append, hn, List.range'_concat]
    simp [sequences, threadRows, hprincipal, hnext, Nat.add_comm]
  · refine ⟨n, ?_⟩
    rw [sequences_append, hn]
    simp [sequences, threadRows, hthread]

end Rows

variable {lockKey : String → Int} {s s' : Journal}

/-- What each accepted step does. -/
inductive Stepped (lockKey : String → Int) (s : Journal) : Action → Journal → Prop
  | tick {elapsed : Time} : Stepped lockKey s (.tick elapsed) { s with clock := s.clock + elapsed }
  | begin {body : AppendTranscriptsRequest} :
    Stepped lockKey s (.begin body) { s with appends := s.appends ++ [⟨body, s.clock, .waiting⟩] }
  | lock {k : Nat} {append : Append} (hk : s.appends[k]? = some append)
    (hphase : append.phase = .waiting) (hfree : s.Unlocked lockKey append.body.principalId) :
    Stepped lockKey s (.lock k)
      (s.become k { append with phase := .locked ⟨append.body.records, [], 0, 0⟩ })
  | refuse {k : Nat} {append : Append} {work : AppendWork} {record : TranscriptRecordInput}
    {rest : List TranscriptRecordInput} {conflict : TranscriptConflict}
    (hk : s.appends[k]? = some append) (hphase : append.phase = .locked work)
    (hrest : work.rest = record :: rest)
    (hpass : appendRecord (s.visible work) append.body.principalId append.ts record =
      .error conflict) :
    Stepped lockKey s (.record k) (s.become k { append with phase := .over (.refused conflict) })
  | record {k : Nat} {append : Append} {work : AppendWork} {record : TranscriptRecordInput}
    {rest : List TranscriptRecordInput} {added : Option TranscriptRecord}
    (hk : s.appends[k]? = some append) (hphase : append.phase = .locked work)
    (hrest : work.rest = record :: rest)
    (hpass : appendRecord (s.visible work) append.body.principalId append.ts record = .ok added) :
    Stepped lockKey s (.record k)
      (s.become k { append with phase := .locked (work.advance rest added) })
  | commit {k : Nat} {append : Append} {work : AppendWork}
    {rows : Table (String × Uuid × Nat) TranscriptRecord (·.key)}
    (hk : s.appends[k]? = some append) (hphase : append.phase = .locked work)
    (hrest : work.rest = []) (hrows : rows.rows = s.visible work) :
    Stepped lockKey s (.commit k)
      { s.become k { append with
          phase := .over (.accepted
            ⟨work.accepted, work.replayed, status (s.visible work) append.body.principalId⟩) } with
        rows }
  | abort {k : Nat} {append : Append} (hk : s.appends[k]? = some append)
    (hphase : append.phase.outcome? = none) :
    Stepped lockKey s (.abort k) (s.become k { append with phase := .over .lost })

theorem AppendPhase.work?_eq_some {phase : AppendPhase} {work : AppendWork} :
    phase.work? = some work ↔ phase = .locked work := by
  cases phase with
  | waiting => simp [AppendPhase.work?]
  | locked work => simp [AppendPhase.work?]
  | «over» outcome => simp [AppendPhase.work?]

theorem stepped_of_step {a : Action} (h : (journal lockKey).step s a = .ok s') :
    Stepped lockKey s a s' := by
  simp only [journal] at h
  cases a with
  | tick elapsed =>
    simp only [step, Except.ok.injEq] at h
    exact h ▸ .tick
  | begin body =>
    simp only [step, Except.ok.injEq] at h
    exact h ▸ .begin
  | lock k =>
    simp only [step, appendAt, bind_eq_ok, require_eq_ok, ensure_eq_ok, pure_eq_ok] at h
    obtain ⟨append, hk, _, hphase, _, hfree, rfl⟩ := h
    exact .lock hk hphase hfree
  | record k =>
    simp only [step, appendAt, bind_eq_ok, require_eq_ok, AppendPhase.work?_eq_some] at h
    obtain ⟨append, hk, work, hphase, h⟩ := h
    cases hrest : work.rest with
    | nil => simp [hrest] at h
    | cons record rest =>
      simp only [hrest] at h
      cases hpass : appendRecord (s.visible work) append.body.principalId append.ts record with
      | error conflict =>
        simp only [hpass, Except.ok.injEq] at h
        exact h ▸ .refuse hk hphase hrest hpass
      | ok added =>
        simp only [hpass, Except.ok.injEq] at h
        exact h ▸ .record hk hphase hrest hpass
  | commit k =>
    simp only [step, appendAt, bind_eq_ok, require_eq_ok, ensure_eq_ok, pure_eq_ok,
      AppendPhase.work?_eq_some, Table.insertAll?_eq_some] at h
    obtain ⟨append, hk, work, hphase, _, hrest, rows, hrows, rfl⟩ := h
    exact .commit hk hphase hrest hrows
  | abort k =>
    simp only [step, appendAt, bind_eq_ok, require_eq_ok, ensure_eq_ok, pure_eq_ok] at h
    obtain ⟨append, hk, _, hphase, rfl⟩ := h
    exact .abort hk hphase

/-- An append once over stays as it ended. -/
theorem Stepped.outcome_stands {a : Action} {k : Nat} {append : Append} {outcome : AppendOutcome}
    (h : Stepped lockKey s a s') (hk : s.appends[k]? = some append)
    (hphase : append.phase = .over outcome) : s'.appends[k]? = some append := by
  have hkept {j : Nat} {other next : Append} (hj : s.appends[j]? = some other)
      (hother : other.phase ≠ .over outcome) : (s.appends.set j next)[k]? = some append := by
    have hne : j ≠ k := by
      rintro rfl
      rw [hj] at hk
      cases hk
      exact hother hphase
    exact set_other hne hk
  cases h with
  | tick => exact hk
  | begin => exact begun_other hk
  | lock hj hwaiting => exact hkept hj (by simp [hwaiting])
  | refuse hj hlocked => exact hkept hj (by simp [hlocked])
  | record hj hlocked => exact hkept hj (by simp [hlocked])
  | commit hj hlocked => exact hkept hj (by simp [hlocked])
  | abort hj hnone =>
    apply hkept hj
    intro hover
    simp [hover, AppendPhase.outcome?] at hnone

theorem outcome_stands_run {k : Nat} {append : Append} {outcome : AppendOutcome}
    (hk : s.appends[k]? = some append) (hphase : append.phase = .over outcome)
    (as : List Action) : ((journal lockKey).run s as).appends[k]? = some append :=
  Machine.run_keeps (I := fun s => s.appends[k]? = some append)
    (fun hk h => (stepped_of_step h).outcome_stands hk hphase) as hk

end Nocturne.Transcripts
