import Nocturne.Lib.Flight
import Nocturne.Transcripts.Laws

namespace Nocturne.Transcripts

open Nocturne.Lib

variable {lockKey : String → Int} {s s' : Journal}

/-- What an append at work has found and done so far. -/
structure Working (committed : List TranscriptRecord) (append : Append) (work : AppendWork) :
    Prop where
  own : ∀ row ∈ work.added, row.principalId = append.body.principalId
  dense : Dense (committed ++ work.added) append.body.principalId
  fresh : ((committed ++ work.added).map (·.key)).Nodup
  done : ∃ before, append.body.records = before ++ work.rest ∧
    OnRecord (·.key) (·.name append.body.principalId) Agrees (committed ++ work.added) before

/-- What holds of the journal however appends overlap. -/
structure Sound (lockKey : String → Int) (s : Journal) : Prop where
  dense : ∀ principalId, Dense s.rows.rows principalId
  working : ∀ (k : Nat) append work, s.appends[k]? = some append → append.phase = .locked work →
    Working s.rows.rows append work
  exclusive : ∀ (i j : Nat) append other work work', s.appends[i]? = some append →
    s.appends[j]? = some other → append.phase = .locked work → other.phase = .locked work' →
    lockKey append.body.principalId = lockKey other.body.principalId → i = j
  accepted : ∀ (k : Nat) append result, s.appends[k]? = some append →
    append.phase = .over (.accepted result) →
    OnRecord (·.key) (·.name append.body.principalId) Agrees s.rows.rows append.body.records

section Steps

variable {k : Nat} {append next : Append}

/-- A step of one append that writes nothing yet. -/
theorem Sound.become (h : Sound lockKey s) (hk : s.appends[k]? = some append)
    (hwork : ∀ work, next.phase = .locked work → Working s.rows.rows next work ∧
      ∀ (j : Nat) other work', j ≠ k → s.appends[j]? = some other → other.phase = .locked work' →
        lockKey other.body.principalId ≠ lockKey next.body.principalId)
    (haccepted : ∀ result, next.phase ≠ .over (.accepted result)) :
    Sound lockKey (s.become k next) where
  dense := h.dense
  working i other work hi hphase := by
    rcases set_cases hi with ⟨rfl, rfl⟩ | ⟨_, hi⟩
    · exact (hwork work hphase).1
    · exact h.working i other work hi hphase
  exclusive i j a b work work' hi hj hphase hphase' hlock := by
    rcases set_cases hi with ⟨rfl, rfl⟩ | ⟨hik, hi'⟩
    · rcases set_cases hj with ⟨rfl, rfl⟩ | ⟨hjk, hj⟩
      · rfl
      · exact absurd hlock.symm ((hwork work hphase).2 j b work' hjk hj hphase')
    · rcases set_cases hj with ⟨rfl, rfl⟩ | ⟨hjk, hj⟩
      · exact absurd hlock ((hwork work' hphase').2 i a work hik hi' hphase)
      · exact h.exclusive i j a b work work' hi' hj hphase hphase' hlock
  accepted i other result hi hphase := by
    rcases set_cases hi with ⟨rfl, rfl⟩ | ⟨_, hi⟩
    · exact absurd hphase (haccepted result)
    · exact h.accepted i other result hi hphase

/-- A fresh append at the start of its loop. -/
theorem Sound.working_start (h : Sound lockKey s) (append : Append) :
    Working s.rows.rows { append with phase := .locked ⟨append.body.records, [], 0, 0⟩ }
      ⟨append.body.records, [], 0, 0⟩ where
  own := by simp
  dense := by simpa using h.dense append.body.principalId
  fresh := by simpa using s.rows.nodup
  done := ⟨[], rfl, by simp [OnRecord]⟩

/-- One pass of the loop. -/
theorem Working.advance {work : AppendWork} {record : TranscriptRecordInput}
    {rest : List TranscriptRecordInput} {added : Option TranscriptRecord}
    (h : Working s.rows.rows append work) (hrest : work.rest = record :: rest)
    (hpass : appendRecord (s.visible work) append.body.principalId append.ts record = .ok added) :
    Working s.rows.rows { append with phase := .locked (work.advance rest added) }
      (work.advance rest added) := by
  obtain ⟨before, hrecords, hbefore⟩ := h.done
  have hsplit : append.body.records = (before ++ [record]) ++ rest := by
    rw [hrecords, hrest, List.append_assoc, List.singleton_append]
  cases added with
  | none =>
    refine ⟨h.own, h.dense, h.fresh, before ++ [record], hsplit, onRecord_append hbefore ?_⟩
    intro b hb
    rw [List.mem_singleton.mp hb]
    exact appendRecord_replays hpass
  | some row =>
    obtain ⟨hnew, hkey, hagrees, hnext⟩ := appendRecord_adds hpass
    have hprincipal : row.principalId = append.body.principalId := congrArg (·.1) hkey
    have hvisible : s.rows.rows ++ (work.advance rest (some row)).added =
        s.visible work ++ [row] := by
      simp [Journal.visible, AppendWork.advance]
    constructor
    · intro other hother
      rcases List.mem_append.mp hother with hother | hother
      · exact h.own other hother
      · rw [List.mem_singleton.mp hother]
        exact hprincipal
    · rw [hvisible]
      exact h.dense.snoc hprincipal (by rw [← hprincipal] at hnext ⊢; exact hnext)
    · rw [hvisible, List.map_append, List.map_singleton, List.nodup_append]
      refine ⟨h.fresh, by simp, ?_⟩
      intro key hkey' _ hrow
      obtain ⟨other, hother, rfl⟩ := List.mem_map.mp hkey'
      rw [List.mem_singleton.mp hrow]
      exact hnew other hother
    · refine ⟨before ++ [record], hsplit, ?_⟩
      rw [hvisible]
      apply onRecord_append (hbefore.mono (List.subset_append_left _ _))
      intro b hb
      rw [List.mem_singleton.mp hb]
      exact ⟨row, by simp, hkey, hagrees⟩

/-- Another principal's rows do not disturb an append at work. -/
theorem Working.commit {work : AppendWork} {added : List TranscriptRecord}
    {rows : Table (String × Uuid × Nat) TranscriptRecord (·.key)}
    (h : Working s.rows.rows append work)
    (hrows : rows.rows = s.rows.rows ++ added)
    (hother : ∀ row ∈ added, row.principalId ≠ append.body.principalId) :
    Working rows.rows append work where
  own := h.own
  dense threadId := by
    obtain ⟨n, hn⟩ := h.dense threadId
    refine ⟨n, ?_⟩
    simp only [hrows, sequences_append, sequences_eq_nil hother] at hn ⊢
    simpa using hn
  fresh := by
    have hcommitted := hrows ▸ rows.nodup
    have hfresh := h.fresh
    simp only [hrows, List.map_append, List.nodup_append] at hfresh ⊢
    refine ⟨by simpa [List.nodup_append] using hcommitted, hfresh.2.1, ?_⟩
    intro key hkey key' hkey'
    rcases List.mem_append.mp hkey with hkey | hkey
    · exact hfresh.2.2 key hkey key' hkey'
    · obtain ⟨row, hrow, rfl⟩ := List.mem_map.mp hkey
      obtain ⟨own, hown, rfl⟩ := List.mem_map.mp hkey'
      intro heq
      exact hother row hrow ((congrArg (·.1) heq).trans (h.own own hown))
  done := by
    obtain ⟨before, hrecords, hbefore⟩ := h.done
    refine ⟨before, hrecords, hbefore.mono ?_⟩
    intro row hrow
    simp only [hrows, List.mem_append] at hrow ⊢
    exact hrow.imp_left .inl

theorem Sound.stepped {a : Action} (h : Sound lockKey s) (hstep : Stepped lockKey s a s') :
    Sound lockKey s' := by
  cases hstep with
  | tick => exact ⟨h.dense, h.working, h.exclusive, h.accepted⟩
  | @begin body =>
    have hold {i : Nat} {append : Append}
        (hi : (s.appends ++ [⟨body, s.clock, .waiting⟩])[i]? = some append)
        (hphase : append.phase ≠ .waiting) : s.appends[i]? = some append := by
      rcases begun_cases hi with ⟨_, rfl⟩ | hi
      · exact absurd rfl hphase
      · exact hi
    constructor
    · exact h.dense
    · intro i append work hi hphase
      exact h.working i append work (hold hi (by simp [hphase])) hphase
    · intro i j a b work work' hi hj hphase hphase'
      exact h.exclusive i j a b work work' (hold hi (by simp [hphase]))
        (hold hj (by simp [hphase'])) hphase hphase'
    · intro i append result hi hphase
      exact h.accepted i append result (hold hi (by simp [hphase])) hphase
  | @lock k append hk hphase hfree =>
    apply h.become hk
    · intro work hwork
      cases hwork
      refine ⟨h.working_start append, ?_⟩
      intro j other work' _ hj hother
      exact hfree other (List.mem_of_getElem? hj) (by simp [hother, AppendPhase.work?])
    · simp
  | refuse hk => exact h.become hk (by simp) (by simp)
  | @record k append work record rest added hk hphase hrest hpass =>
    apply h.become hk
    · intro work' hwork
      cases hwork
      refine ⟨(h.working k append work hk hphase).advance hrest hpass, ?_⟩
      intro j other work' hne hj hother heq
      exact hne (h.exclusive j k other append work' work hj hk hother hphase heq)
    · simp
  | @commit k append work rows hk hphase hrest hrows =>
    have hwork := h.working k append work hk hphase
    constructor
    · intro principalId
      by_cases hp : append.body.principalId = principalId
      · subst hp
        change Dense rows.rows _
        rw [hrows]
        exact hwork.dense
      · intro threadId
        obtain ⟨n, hn⟩ := h.dense principalId threadId
        refine ⟨n, ?_⟩
        have hnone : sequences work.added principalId threadId = [] :=
          sequences_eq_nil fun row hrow heq => hp ((hwork.own row hrow).symm.trans heq)
        change sequences rows.rows principalId threadId = _
        rw [hrows, Journal.visible, sequences_append, hnone, List.append_nil, hn]
    · intro i other work' hi hphase'
      rcases set_cases hi with ⟨rfl, rfl⟩ | ⟨hik, hi⟩
      · cases hphase'
      · apply (h.working i other work' hi hphase').commit hrows
        intro row hrow heq
        apply hik
        apply h.exclusive i k other append work' work hi hk hphase' hphase
        rw [← heq, hwork.own row hrow]
    · intro i j a b work₁ work₂ hi hj hphase₁ hphase₂
      rcases set_cases hi with ⟨rfl, rfl⟩ | ⟨_, hi⟩
      · cases hphase₁
      · rcases set_cases hj with ⟨rfl, rfl⟩ | ⟨_, hj⟩
        · cases hphase₂
        · exact h.exclusive i j a b work₁ work₂ hi hj hphase₁ hphase₂
    · intro i other result hi hover
      change OnRecord _ _ _ rows.rows _
      rw [hrows]
      rcases set_cases hi with ⟨rfl, rfl⟩ | ⟨_, hi⟩
      · obtain ⟨before, hrecords, hbefore⟩ := hwork.done
        rw [hrest, List.append_nil] at hrecords
        rw [hrecords]
        exact hbefore
      · exact (h.accepted i other result hi hover).mono (List.subset_append_left _ _)
  | abort hk => exact h.become hk (by simp) (by simp)

end Steps

theorem sound_of_reachable (h : (journal lockKey).Reachable s) : Sound lockKey s := by
  refine Machine.reachable_keeps (I := Sound lockKey) ?_ ?_ h
  · rintro s ⟨hrows, happends⟩
    constructor
    · intro principalId threadId
      exact ⟨0, by simp [hrows, Table.empty, sequences, threadRows]⟩
    all_goals simp [happends]
  · exact fun hs hstep => hs.stepped (stepped_of_step hstep)

/-- Rows change where an append commits, and nowhere else. -/
theorem rows_of_step {a : Action} (h : Stepped lockKey s a s') :
    s'.rows = s.rows ∨ s'.rows.Extends s.rows ∧ ∃ k append result, a = .commit k ∧
      s'.appends[k]? = some append ∧ append.phase = .over (.accepted result) := by
  cases h with
  | commit hk hphase hrest hrows =>
    exact .inr ⟨Table.extends_of_append hrows, _, _, _, rfl, set_self hk, rfl⟩
  | tick => exact .inl rfl
  | begin => exact .inl rfl
  | lock => exact .inl rfl
  | refuse => exact .inl rfl
  | record => exact .inl rfl
  | abort => exact .inl rfl

theorem extends_of_run (s : Journal) (as : List Action) :
    ((journal lockKey).run s as).rows.Extends s.rows := by
  refine Machine.run_rel (R := fun s s' => s'.rows.Extends s.rows) (fun s => .refl s.rows)
    (fun h h' => .trans h h') ?_ s as
  intro s a s' h
  rcases rows_of_step (stepped_of_step h) with hsame | ⟨hext, _⟩
  · rw [hsame]
    exact .refl s.rows
  · exact hext

end Nocturne.Transcripts
