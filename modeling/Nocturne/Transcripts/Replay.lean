import Nocturne.Transcripts.Integrity

namespace Nocturne.Transcripts

open Nocturne.Lib

variable {lockKey : String → Int} {s s' : Journal}

/-- How far a batch may get that finds all its records on record. -/
inductive Replaying (records : List TranscriptRecordInput) : AppendPhase → Prop
  | waiting : Replaying records .waiting
  | locked {before rest : List TranscriptRecordInput} (hrecords : records = before ++ rest) :
    Replaying records (.locked ⟨rest, [], 0, before.length⟩)
  | accepted {status : TranscriptStatus} :
    Replaying records (.over (.accepted ⟨0, records.length, status⟩))
  | lost : Replaying records (.over .lost)

/-- The append under `n` sends a batch that is on record. -/
structure Resent (s : Journal) (n : Nat) (body : AppendTranscriptsRequest) : Prop where
  recorded : OnRecord (·.key) (·.name body.principalId) Agrees s.rows.rows body.records
  replaying : ∃ append, s.appends[n]? = some append ∧ append.body = body ∧
    Replaying body.records append.phase

section Steps

variable {n : Nat} {body : AppendTranscriptsRequest}

theorem Resent.grown (h : Resent s n body) (hrows : s'.rows.Extends s.rows)
    (happend : ∃ append, s'.appends[n]? = some append ∧ append.body = body ∧
      Replaying body.records append.phase) : Resent s' n body :=
  ⟨h.recorded.mono hrows.subset, happend⟩

/-- Each record still to come is a replay. -/
theorem Resent.pass (h : Resent s n body) {ts : Time} {record : TranscriptRecordInput}
    (hrecord : record ∈ body.records) :
    appendRecord s.rows.rows body.principalId ts record = .ok none := by
  obtain ⟨row, hrow, hkey, hagrees⟩ := h.recorded record hrecord
  exact appendRecord_of_mem hrow hkey hagrees

theorem Resent.become {k : Nat} {append next : Append} (h : Resent s n body)
    (hk : s.appends[k]? = some append) (hbody : next.body = append.body)
    (hnext : k = n → Replaying append.body.records append.phase →
      Replaying append.body.records next.phase) :
    ∃ append, (s.appends.set k next)[n]? = some append ∧ append.body = body ∧
      Replaying body.records append.phase := by
  obtain ⟨own, hown, rfl, hreplaying⟩ := h.replaying
  by_cases hkn : k = n
  · subst hkn
    rw [hk] at hown
    cases hown
    exact ⟨next, set_self hk, hbody, hnext rfl hreplaying⟩
  · exact ⟨own, set_other hkn hown, rfl, hreplaying⟩

theorem Resent.stepped {a : Action} (h : Resent s n body) (hstep : Stepped lockKey s a s') :
    Resent s' n body := by
  have hvisible {record : TranscriptRecordInput} {append : Append}
      {before rest : List TranscriptRecordInput} (hn : s.appends[n]? = some append)
      (hrecords : append.body.records = before ++ record :: rest) :
      appendRecord (s.visible ⟨record :: rest, [], 0, before.length⟩) append.body.principalId
        append.ts record = .ok none := by
    obtain ⟨own, hown, rfl, _⟩ := h.replaying
    rw [hn] at hown
    cases hown
    rw [Journal.visible, List.append_nil]
    exact h.pass (by simp [hrecords])
  cases hstep with
  | tick => exact ⟨h.recorded, h.replaying⟩
  | begin =>
    obtain ⟨own, hown, hbody, hreplaying⟩ := h.replaying
    exact h.grown (.refl s.rows) ⟨own, begun_other hown, hbody, hreplaying⟩
  | @lock k append hk hphase =>
    refine h.grown (.refl s.rows) (h.become hk rfl fun _ _ => ?_)
    exact .locked (List.nil_append append.body.records).symm
  | refuse hk hphase hrest hpass =>
    refine h.grown (.refl s.rows) (h.become hk rfl ?_)
    rintro rfl hreplaying
    rw [hphase] at hreplaying
    cases hreplaying with
    | locked hrecords =>
      dsimp only at hrest
      rw [hrest] at hrecords hpass
      rw [hvisible hk hrecords] at hpass
      cases hpass
  | @record k append work record rest added hk hphase hrest hpass =>
    refine h.grown (.refl s.rows) (h.become hk rfl ?_)
    rintro rfl hreplaying
    rw [hphase] at hreplaying
    cases hreplaying with
    | @locked before _ hrecords =>
      dsimp only at hrest
      rw [hrest] at hrecords hpass
      rw [hvisible hk hrecords] at hpass
      cases hpass
      have hsplit : append.body.records = (before ++ [record]) ++ rest := by simp [hrecords]
      simpa [AppendWork.advance] using Replaying.locked hsplit
  | @commit k append work rows hk hphase hrest hrows =>
    refine h.grown (Table.extends_of_append hrows) (h.become hk rfl ?_)
    rintro rfl hreplaying
    rw [hphase] at hreplaying
    cases hreplaying with
    | locked hrecords =>
      dsimp only at hrest
      rw [hrest, List.append_nil] at hrecords
      rw [← hrecords]
      exact .accepted
  | abort hk hphase => exact h.grown (.refl s.rows) (h.become hk rfl fun _ _ => .lost)

theorem resent_run (h : Resent s n body) (as : List Action) :
    Resent ((journal lockKey).run s as) n body :=
  Machine.run_keeps (I := fun s => Resent s n body)
    (fun h hstep => h.stepped (stepped_of_step hstep)) as h

/-- What is left to do for the append under `n`. -/
def Append.remaining (n : Nat) (append : Append) : List Action :=
  match append.phase with
  | .waiting =>
    .lock n :: (List.replicate append.body.records.length (.record n) ++ [.commit n])
  | .locked work => List.replicate work.rest.length (.record n) ++ [.commit n]
  | .over _ => []

/-- The append under `n` ended with every record of its batch replayed. -/
def Replayed (s : Journal) (n : Nat) (body : AppendTranscriptsRequest) : Prop :=
  ∃ append status, s.appends[n]? = some append ∧
    append.phase = .over (.accepted ⟨0, body.records.length, status⟩)

theorem step_record_replay {ts : Time} {record : TranscriptRecordInput}
    {rest : List TranscriptRecordInput} {replayed : Nat}
    (hn : s.appends[n]? = some ⟨body, ts, .locked ⟨record :: rest, [], 0, replayed⟩⟩)
    (hpass : appendRecord s.rows.rows body.principalId ts record = .ok none) :
    (journal lockKey).step s (.record n) =
      .ok (s.become n ⟨body, ts, .locked ⟨rest, [], 0, replayed + 1⟩⟩) := by
  simp [journal, step, appendAt, hn, AppendPhase.work?, Journal.visible, hpass,
    AppendWork.advance]

theorem step_commit_replay {ts : Time} {replayed : Nat}
    (hn : s.appends[n]? = some ⟨body, ts, .locked ⟨[], [], 0, replayed⟩⟩) :
    (journal lockKey).step s (.commit n) =
      .ok (s.become n
        ⟨body, ts, .over (.accepted ⟨0, replayed, status s.rows.rows body.principalId⟩)⟩) := by
  have hrows : s.rows.insertAll? [] = some s.rows := by simp [Table.insertAll?_eq_some]
  simp [journal, step, appendAt, hn, AppendPhase.work?, Journal.visible, hrows, ensure, pure,
    Except.pure, Journal.become]

/-- At work on a batch that is on record, an append ends by itself. -/
theorem Resent.finish {ts : Time} (before : List TranscriptRecordInput)
    {rest : List TranscriptRecordInput} (h : Resent s n body)
    (hn : s.appends[n]? = some ⟨body, ts, .locked ⟨rest, [], 0, before.length⟩⟩)
    (hrecords : body.records = before ++ rest) :
    let s' := (journal lockKey).run s (List.replicate rest.length (.record n) ++ [.commit n])
    s'.rows = s.rows ∧ Replayed s' n body := by
  induction rest generalizing s before with
  | nil =>
    have hstep : (journal lockKey).step s (.commit n) = .ok _ := step_commit_replay hn
    rw [List.append_nil] at hrecords
    simp only [List.length_nil, List.replicate_zero, List.nil_append, Machine.run_cons,
      Machine.run_nil, Machine.next_of_ok hstep]
    exact ⟨rfl, _, _, set_self hn, by rw [hrecords]⟩
  | cons record rest ih =>
    have hpass : appendRecord s.rows.rows body.principalId ts record = .ok none :=
      h.pass (by simp [hrecords])
    have hstep : (journal lockKey).step s (.record n) = .ok _ := step_record_replay hn hpass
    have hnext := h.stepped (stepped_of_step hstep)
    have hsplit : body.records = (before ++ [record]) ++ rest := by simp [hrecords]
    simp only [List.length_cons, List.replicate_succ, List.cons_append, Machine.run_cons,
      Machine.next_of_ok hstep]
    refine ih (before ++ [record]) hnext ?_ hsplit
    rw [List.length_append, List.length_singleton]
    exact set_self hn

/-- However far it has come, an append of a batch on record ends with every record replayed, once
it holds its lock. -/
theorem Resent.remaining (h : Resent s n body) {append : Append}
    (hn : s.appends[n]? = some append) (hkept : append.phase ≠ .over .lost)
    (hfree : append.phase = .waiting → s.Unlocked lockKey body.principalId) :
    let s' := (journal lockKey).run s (append.remaining n)
    s'.rows = s.rows ∧ Replayed s' n body := by
  obtain ⟨own, hown, hbody, hreplaying⟩ := h.replaying
  rw [hn] at hown
  cases hown
  obtain ⟨own, ts, phase⟩ := append
  dsimp only at hbody hreplaying hkept hfree
  subst hbody
  cases hreplaying with
  | waiting =>
    have hstep : (journal lockKey).step s (.lock n) =
        .ok (s.become n ⟨own, ts, .locked ⟨own.records, [], 0, 0⟩⟩) := by
      simp [journal, step, appendAt, hn, ensure, hfree rfl, pure, Except.pure]
    have hnext := h.stepped (stepped_of_step hstep)
    simp only [Append.remaining, Machine.run_cons, Machine.next_of_ok hstep]
    exact hnext.finish [] (set_self hn) rfl
  | locked hrecords => exact h.finish _ hn hrecords
  | accepted => exact ⟨rfl, _, _, hn, rfl⟩
  | lost => exact absurd rfl hkept

end Steps

theorem resent_begin {k : Nat} {append : Append} {result : TranscriptAppendResult}
    (h : Sound lockKey s) (hk : s.appends[k]? = some append)
    (hphase : append.phase = .over (.accepted result)) :
    Resent ((journal lockKey).next s (.begin append.body)) s.appends.length append.body where
  recorded := h.accepted k append result hk hphase
  replaying := ⟨⟨append.body, s.clock, .waiting⟩, begun_self, rfl, .waiting⟩

/-- However appends overlap, every thread is numbered from one with no gap, a row stays as it was
stored, only an append that ends accepted changes the rows, and a batch once accepted is accepted
again with all its records replayed. -/
theorem journal_integrity (h : (journal lockKey).Reachable s) :
    (∀ principalId threadId, ∃ n, sequences s.rows.rows principalId threadId = List.range' 1 n) ∧
    (∀ as key row, s.rows.get? key = some row →
      ((journal lockKey).run s as).rows.get? key = some row) ∧
    (∀ a s', (journal lockKey).step s a = .ok s' → s'.rows = s.rows ∨
      ∃ k append result, a = .commit k ∧ append.phase = .over (.accepted result) ∧
        ∀ as, ((journal lockKey).run s' as).appends[k]? = some append) ∧
    ∀ (k : Nat) append result, s.appends[k]? = some append →
      append.phase = .over (.accepted result) → ∀ as again,
        let n := s.appends.length
        let s₁ := (journal lockKey).run s (.begin append.body :: as)
        s₁.appends[n]? = some again → again.phase ≠ .over .lost →
        (again.phase = .waiting → s₁.Unlocked lockKey append.body.principalId) →
          let s₂ := (journal lockKey).run s₁ (again.remaining n)
          s₂.rows = s₁.rows ∧ Replayed s₂ n append.body := by
  have hsound := sound_of_reachable h
  refine ⟨hsound.dense, ?_, ?_, ?_⟩
  · intro as key row hrow
    exact (extends_of_run s as).get? hrow
  · intro a s' hstep
    rcases rows_of_step (stepped_of_step hstep) with hsame | ⟨_, k, append, result, rfl, hk, hphase⟩
    · exact .inl hsame
    · exact .inr ⟨k, append, result, rfl, hphase, outcome_stands_run hk hphase⟩
  · intro k append result hk hphase as again
    exact (resent_run (resent_begin hsound hk hphase) as).remaining

section Small

def firstLine : TranscriptRecordInput where
  threadId := 5701
  sequence := 1
  sequence_pos := by decide
  journalLine := "\x7b\"captured_at\":\"2026-08-14T01:00:00+00:00\"," ++
    "\"thread_id\":\"00000000-0000-0000-0000-000000001645\"\x7d"
  sha256 := "f85771670a49d967b18c02286d044fed9a39666df36fbdadfcd751a75d3e98ce"

def secondLine : TranscriptRecordInput where
  threadId := 5701
  sequence := 2
  sequence_pos := by decide
  journalLine := "\x7b\"captured_at\":\"2026-08-14T02:00:00+00:00\"," ++
    "\"thread_id\":\"00000000-0000-0000-0000-000000001645\"\x7d"
  sha256 := "015edb394e2eafd71d2bba6a4892f84431abff26ffcd9b73a7bcd7a7676e323c"

/-- Two lines of one thread. -/
def twoLines : AppendTranscriptsRequest where
  principalId := "owner"
  records := [firstLine, secondLine]
  minLength := by decide
  maxLength := by decide
  uniqueOrdered := by decide

/-- The lock key of `owner`, whose appends are the only ones here. -/
def ownerKey : String → Int := fun _ => 5480926279587027057

def noLines : Journal := ⟨.empty, [], 0⟩

def twoLinesStored : Journal :=
  (journal ownerKey).run noLines [.begin twoLines, .lock 0, .record 0, .record 0, .commit 0]

end Small

theorem journal_integrity_resent :
    Replayed ((journal ownerKey).run twoLinesStored
      [.begin twoLines, .lock 1, .record 1, .record 1, .commit 1]) 1 twoLines := by
  have hreachable : (journal ownerKey).Reachable twoLinesStored := ⟨noLines, _, ⟨rfl, rfl⟩, rfl⟩
  have hstored : twoLinesStored.appends[0]? =
      some ⟨twoLines, 0, .over (.accepted ⟨2, 0, ⟨"owner", 1, 2, some 0⟩⟩)⟩ := by decide
  have hagain := (journal_integrity hreachable).2.2.2 0 _ _ hstored rfl [] ⟨twoLines, 0, .waiting⟩
    (by decide) (by decide) (by decide)
  exact hagain.2

end Nocturne.Transcripts
