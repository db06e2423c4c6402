import Nocturne.Spend.Appends

namespace Nocturne.Spend

open Nocturne.Lib

variable {s s' : Receipts} {R : SpendEventInput → SpendEventInput → Prop}

section Backed

/-- The rows that calls past their comparison found, `R` relating row and event. -/
structure Backed (R : SpendEventInput → SpendEventInput → Prop) (s : Receipts) : Prop where
  checked : ∀ (k : Nat) events inserted, s.calls[k]? = some ⟨events, .checked inserted⟩ →
    Held R (s.rows.rows ++ inserted) events
  accepted : ∀ (k : Nat) events count, s.calls[k]? = some ⟨events, .over (.accepted count)⟩ →
    Held R s.rows.rows events

theorem startReceipts_cases (events : List SpendEventInput) :
    startReceipts events = .inserting events [] ∧ events ≠ [] ∧
        (events.map (·.eventUid)).Nodup ∨
      ∃ error, startReceipts events = .over (.refused error) := by
  unfold startReceipts
  split
  · exact .inr ⟨_, rfl⟩
  · next hne =>
    split
    · exact .inr ⟨_, rfl⟩
    · next hnodup => exact .inl ⟨rfl, hne, not_not.mp hnodup⟩

/-- A step of one call that is not past its comparison, or leaves nothing behind. -/
theorem Backed.become {k : Nat} {next : ReceiptCall} (h : Backed R s)
    (hchecked : ∀ inserted, next.phase = .checked inserted →
      Held R (s.rows.rows ++ inserted) next.events)
    (haccepted : ∀ count, next.phase ≠ .over (.accepted count)) : Backed R (s.become k next) where
  checked i events inserted hi := by
    rcases set_cases hi with ⟨_, rfl⟩ | ⟨_, hi⟩
    · exact hchecked inserted rfl
    · exact h.checked i events inserted hi
  accepted i events count hi := by
    rcases set_cases hi with ⟨_, rfl⟩ | ⟨_, hi⟩
    · exact absurd rfl (haccepted count)
    · exact h.accepted i events count hi

theorem Backed.stepped {a : ReceiptAction} (h : Backed R s) (hstep : ReceiptStepped s a s')
    (hpass : ∀ (k : Nat) events inserted, a = .check k →
      s.calls[k]? = some ⟨events, .inserting [] inserted⟩ →
      checkReceipts (s.rows.rows ++ inserted) events = .ok () →
      Held R (s.rows.rows ++ inserted) events) : Backed R s' := by
  cases hstep with
  | @begin events =>
    have hold {i : Nat} {call : ReceiptCall}
        (hi : (s.calls ++ [⟨events, startReceipts events⟩])[i]? = some call)
        (hphase : call.phase ≠ startReceipts call.events) : s.calls[i]? = some call := by
      rcases begun_cases hi with ⟨_, rfl⟩ | hi
      · exact absurd rfl hphase
      · exact hi
    constructor
    · intro i events' inserted hi
      refine h.checked i events' inserted (hold hi ?_)
      rcases startReceipts_cases events' with ⟨heq, _⟩ | ⟨_, heq⟩ <;> simp [heq]
    · intro i events' count hi
      refine h.accepted i events' count (hold hi ?_)
      rcases startReceipts_cases events' with ⟨heq, _⟩ | ⟨_, heq⟩ <;> simp [heq]
  | insert => exact h.become (by simp) (by simp)
  | refuse => exact h.become (by simp) (by simp)
  | @check k events inserted hk hcheck =>
    apply h.become
    · intro inserted' heq
      cases heq
      exact hpass k events inserted rfl hk hcheck
    · simp
  | @commit k events inserted rows hk hrows =>
    constructor
    · intro i events' inserted' hi
      rcases set_cases hi with ⟨_, heq⟩ | ⟨_, hi⟩
      · cases heq
      · apply (h.checked i events' inserted' hi).mono
        intro row hrow
        rw [hrows]
        simp only [List.mem_append] at hrow ⊢
        tauto
    · intro i events' count hi
      change Held R rows.rows events'
      rw [hrows]
      rcases set_cases hi with ⟨_, heq⟩ | ⟨_, hi⟩
      · cases heq
        exact h.checked k events inserted hk
      · exact (h.accepted i events' count hi).mono (List.subset_append_left _ _)
  | abort => exact h.become (by simp) (by simp)

theorem backed_start (hcalls : s.calls = []) : Backed R s := by
  constructor <;> simp [hcalls]

theorem backed_of_reachable (h : receipts.Reachable s) :
    Backed SpendEventInput.SameValues s := by
  refine Machine.reachable_keeps (I := Backed SpendEventInput.SameValues) ?_ ?_ h
  · exact fun hstart => backed_start hstart.2
  · intro s a s' hs hstep
    exact hs.stepped (receiptStepped_of_step hstep) fun _ _ _ _ _ => held_of_check

end Backed

section Distinct

variable {visible events inserted : List SpendEventInput} {k : Nat}

/-- A row under the uid of an event has other content. -/
def Differs (visible events : List SpendEventInput) : Prop :=
  ∃ event ∈ events, ∃ row ∈ visible, row.eventUid = event.eventUid ∧ row ≠ event

/-- Some event differs from its row by more than a truth value standing for a number in `meta`,
or none differs by that. -/
def Distinct (visible events : List SpendEventInput) : Prop :=
  (∃ event ∈ events, ∃ row ∈ visible, row.eventUid = event.eventUid ∧ ¬row.SameValues event) ∨
    ∀ event ∈ events, ∀ row ∈ visible, row.eventUid = event.eventUid →
      row.meta.PyEq event.meta → row.meta = event.meta

instance : Decidable (Distinct visible events) := inferInstanceAs (Decidable (_ ∨ _))

/-- Each comparison of a run meets the condition. -/
def DistinctAt (s : Receipts) : ReceiptAction → Prop
  | .check k =>
    match s.calls[k]? with
    | some ⟨events, .inserting [] inserted⟩ => Distinct (s.rows.rows ++ inserted) events
    | _ => True
  | .begin _ | .insert _ | .commit _ | .abort _ => True

instance (a : ReceiptAction) : Decidable (DistinctAt s a) := by
  unfold DistinctAt
  split
  · split <;> infer_instance
  all_goals infer_instance

/-- Rows that stand apart show one row under each uid. -/
theorem eq_of_uid (hnodup : (visible.map (·.eventUid)).Nodup) {row row' : SpendEventInput}
    (hrow : row ∈ visible) (hrow' : row' ∈ visible) (huid : row.eventUid = row'.eventUid) :
    row = row' :=
  List.inj_on_of_nodup_map hnodup hrow hrow' huid

theorem same_of_check (hnodup : (visible.map (·.eventUid)).Nodup)
    (h : checkReceipts visible events = .ok ()) {event row : SpendEventInput}
    (hevent : event ∈ events) (hrow : row ∈ visible) (huid : row.eventUid = event.eventUid) :
    row.SameValues event := by
  obtain ⟨found, hfound, hname, hsame⟩ := held_of_check h event hevent
  rwa [eq_of_uid hnodup hrow hfound (huid.trans hname.symm)]

/-- A batch that passes the comparison carries the contents on record, when it meets the
condition. -/
theorem held_of_distinct (hnodup : (visible.map (·.eventUid)).Nodup)
    (hdistinct : Distinct visible events) (h : checkReceipts visible events = .ok ()) :
    Held Eq visible events := by
  intro event hevent
  obtain ⟨row, hrow, huid, hsame⟩ := held_of_check h event hevent
  refine ⟨row, hrow, huid, ?_⟩
  rcases hdistinct with ⟨other, hother, found, hfound, hname, hdiffers⟩ | hmeta
  · exact absurd (same_of_check hnodup h hother hfound hname) hdiffers
  · have heq := hmeta event hevent row hrow huid hsame.2
    obtain ⟨columns, value⟩ := row
    obtain ⟨columns', value'⟩ := event
    cases hsame.1
    cases heq
    rfl

/-- Every event whose insert is done finds a row. -/
theorem Apart.found (h : Apart s) (hk : s.calls[k]? = some ⟨events, .inserting [] inserted⟩)
    {event : SpendEventInput} (hevent : event ∈ events) :
    ∃ row ∈ s.rows.rows ++ inserted, row.eventUid = event.eventUid := by
  obtain ⟨before, hevents, hbefore⟩ := h.placed k _ _ _ hk
  rw [List.append_nil] at hevents
  exact hbefore event (hevents ▸ hevent)

/-- The comparison refuses every batch of other content exactly under the condition. -/
theorem refuses_iff_distinct (h : Apart s)
    (hk : s.calls[k]? = some ⟨events, .inserting [] inserted⟩) :
    (Differs (s.rows.rows ++ inserted) events →
      ∃ error, checkReceipts (s.rows.rows ++ inserted) events = .error error) ↔
      Distinct (s.rows.rows ++ inserted) events := by
  have hnodup : ((s.rows.rows ++ inserted).map (·.eventUid)).Nodup := h.fresh k _ hk
  constructor
  · intro hrefuses
    by_cases hall : ∀ event ∈ events, ∀ row ∈ s.rows.rows ++ inserted,
        row.eventUid = event.eventUid → row.SameValues event
    · refine .inr fun event hevent row hrow huid _ => ?_
      by_contra hne
      have hdiffers : Differs (s.rows.rows ++ inserted) events :=
        ⟨event, hevent, row, hrow, huid, fun heq => hne (congrArg (·.meta) heq)⟩
      obtain ⟨error, herror⟩ := hrefuses hdiffers
      have hheld : Held SpendEventInput.SameValues (s.rows.rows ++ inserted) events := by
        intro event hevent
        obtain ⟨row, hrow, huid⟩ := h.found hk hevent
        exact ⟨row, hrow, huid, hall event hevent row hrow huid⟩
      rw [check_of_held hnodup hheld] at herror
      cases herror
    · push Not at hall
      exact .inl hall
  · rintro hdistinct ⟨event, hevent, row, hrow, huid, hne⟩
    cases hcheck : checkReceipts (s.rows.rows ++ inserted) events with
    | error error => exact ⟨error, rfl⟩
    | ok =>
      obtain ⟨found, hfound, hname, heq⟩ := held_of_distinct hnodup hdistinct hcheck event hevent
      exact absurd ((eq_of_uid hnodup hrow hfound (huid.trans hname.symm)).trans heq) hne

/-- In a run whose comparisons all meet the condition, what a call was told is on record. -/
theorem backed_of_reachableBy (h : receipts.ReachableBy DistinctAt s) : Backed Eq s := by
  have hboth : Apart s ∧ Backed Eq s := by
    refine Machine.reachableBy_keeps (I := fun s => Apart s ∧ Backed Eq s) ?_ ?_ h
    · rintro s ⟨hrows, hcalls⟩
      exact ⟨apart_of_reachable ⟨s, [], ⟨hrows, hcalls⟩, rfl⟩, backed_start hcalls⟩
    · intro s a s' hs hG hstep
      have hstepped := receiptStepped_of_step hstep
      refine ⟨hs.1.stepped hstepped, hs.2.stepped hstepped ?_⟩
      rintro k events inserted rfl hk hcheck
      simp only [DistinctAt, hk] at hG
      exact held_of_distinct (hs.1.fresh k _ hk) hG hcheck
  exact hboth.2

end Distinct

section Resent

/-- How far a batch may get that finds all its events on record. -/
inductive Replaying (events : List SpendEventInput) : ReceiptPhase → Prop
  | inserting {before rest : List SpendEventInput} (hevents : events = before ++ rest) :
    Replaying events (.inserting rest [])
  | checked : Replaying events (.checked [])
  | accepted : Replaying events (.over (.accepted events.length))
  | lost : Replaying events (.over .lost)

/-- The call under `n` sends a batch that is on record. -/
structure Resent (s : Receipts) (n : Nat) (events : List SpendEventInput) : Prop where
  recorded : Held SpendEventInput.SameValues s.rows.rows events
  replaying : ∃ phase, s.calls[n]? = some ⟨events, phase⟩ ∧ Replaying events phase

variable {n : Nat} {events : List SpendEventInput}

theorem Resent.insert (h : Resent s n events) {event : SpendEventInput} (hevent : event ∈ events)
    (k : Nat) : insertReceipt s k event [] = .ok [] := by
  obtain ⟨row, hrow, huid, _⟩ := h.recorded event hevent
  have hfound : ∃ row ∈ s.rows.rows ++ [], row.eventUid = event.eventUid :=
    ⟨row, by simpa using hrow, huid⟩
  simp only [insertReceipt, if_pos hfound]

theorem Resent.check (h : Resent s n events) :
    checkReceipts (s.rows.rows ++ []) events = .ok () := by
  rw [List.append_nil]
  exact check_of_held s.rows.nodup h.recorded

theorem Resent.become {k : Nat} {call next : ReceiptCall} (h : Resent s n events)
    (hk : s.calls[k]? = some call) (hevents : next.events = call.events)
    (hnext : k = n → Replaying call.events call.phase → Replaying call.events next.phase) :
    ∃ phase, (s.calls.set k next)[n]? = some ⟨events, phase⟩ ∧ Replaying events phase := by
  obtain ⟨phase, hn, hreplaying⟩ := h.replaying
  by_cases hkn : k = n
  · subst hkn
    rw [hk] at hn
    cases hn
    obtain ⟨own, nextPhase⟩ := next
    dsimp only at hevents hnext
    subst hevents
    exact ⟨nextPhase, set_self hk, hnext rfl hreplaying⟩
  · exact ⟨phase, set_other hkn hn, hreplaying⟩

theorem Resent.stepped {a : ReceiptAction} (h : Resent s n events) (hstep : ReceiptStepped s a s') :
    Resent s' n events := by
  have hown {events' : List SpendEventInput} {phase : ReceiptPhase}
      (hn : s.calls[n]? = some ⟨events', phase⟩) : events' = events := by
    obtain ⟨_, hn', _⟩ := h.replaying
    rw [hn] at hn'
    cases hn'
    rfl
  cases hstep with
  | begin =>
    obtain ⟨phase, hn, hreplaying⟩ := h.replaying
    exact ⟨h.recorded, phase, begun_other hn, hreplaying⟩
  | @insert k events' rest inserted inserted' event hk hinsert =>
    refine ⟨h.recorded, h.become hk rfl ?_⟩
    rintro rfl hreplaying
    cases hown hk
    cases hreplaying with
    | @inserting before _ hevents =>
      dsimp only at hevents
      have hmem : event ∈ events := by simp [hevents]
      rw [h.insert hmem] at hinsert
      cases hinsert
      exact .inserting (hevents.trans (List.append_cons before event rest))
  | refuse hk hcheck =>
    refine ⟨h.recorded, h.become hk rfl ?_⟩
    rintro rfl hreplaying
    cases hown hk
    cases hreplaying
    rw [h.check] at hcheck
    cases hcheck
  | check hk =>
    refine ⟨h.recorded, h.become hk rfl ?_⟩
    rintro rfl hreplaying
    cases hreplaying
    exact .checked
  | commit hk hrows =>
    refine ⟨h.recorded.mono (hrows ▸ List.subset_append_left _ _), h.become hk rfl ?_⟩
    exact fun _ _ => .accepted
  | abort hk => exact ⟨h.recorded, h.become hk rfl fun _ _ => .lost⟩

theorem resent_run (h : Resent s n events) (as : List ReceiptAction) :
    Resent (receipts.run s as) n events :=
  Machine.run_keeps (I := fun s => Resent s n events)
    (fun h hstep => h.stepped (receiptStepped_of_step hstep)) as h

/-- What is left to do for the call under `n`. -/
def ReceiptCall.remaining (n : Nat) (call : ReceiptCall) : List ReceiptAction :=
  match call.phase with
  | .inserting rest _ => List.replicate rest.length (.insert n) ++ [.check n, .commit n]
  | .checked _ => [.commit n]
  | .over _ => []

theorem commit_nothing (hn : s.calls[n]? = some ⟨events, .checked []⟩) :
    let s' := receipts.run s [.commit n]
    s'.rows = s.rows ∧ s'.calls[n]? = some ⟨events, .over (.accepted events.length)⟩ := by
  have hrows : s.rows.insertAll? [] = some s.rows := by simp [Table.insertAll?_eq_some]
  have hstep : receipts.step s (.commit n) =
      .ok (s.become n ⟨events, .over (.accepted events.length)⟩) := by
    simp [receipts, receiptStep, receiptCallAt, hn, hrows, pure, Except.pure, Receipts.become]
  simp only [Machine.run_cons, Machine.run_nil, Machine.next_of_ok hstep]
  exact ⟨rfl, set_self hn⟩

theorem Resent.finish {before rest : List SpendEventInput} (h : Resent s n events)
    (hn : s.calls[n]? = some ⟨events, .inserting rest []⟩) (hevents : events = before ++ rest) :
    let s' := receipts.run s (List.replicate rest.length (.insert n) ++ [.check n, .commit n])
    s'.rows = s.rows ∧ s'.calls[n]? = some ⟨events, .over (.accepted events.length)⟩ := by
  induction rest generalizing s before with
  | nil =>
    have hstep : receipts.step s (.check n) = .ok (s.become n ⟨events, .checked []⟩) := by
      simp only [receipts, receiptStep, receiptCallAt, hn, require_some, ok_bind, h.check]
    have hnext := h.stepped (receiptStepped_of_step hstep)
    simp only [List.length_nil, List.replicate_zero, List.nil_append, Machine.run_cons,
      Machine.next_of_ok hstep]
    exact commit_nothing (set_self hn)
  | cons event rest ih =>
    have hinsert : insertReceipt s n event [] = .ok [] := h.insert (by simp [hevents]) n
    have hstep : receipts.step s (.insert n) =
        .ok (s.become n ⟨events, .inserting rest []⟩) := by
      simp only [receipts, receiptStep, receiptCallAt, hn, require_some, ok_bind, hinsert]
      rfl
    have hnext := h.stepped (receiptStepped_of_step hstep)
    simp only [List.length_cons, List.replicate_succ, List.cons_append, Machine.run_cons,
      Machine.next_of_ok hstep]
    exact ih hnext (set_self hn) (hevents.trans (List.append_cons before event rest))

/-- However far it has come, a call whose batch is on record ends accepted. -/
theorem Resent.remaining (h : Resent s n events) {call : ReceiptCall}
    (hn : s.calls[n]? = some call) (hkept : call.phase ≠ .over .lost) :
    let s' := receipts.run s (call.remaining n)
    s'.rows = s.rows ∧ s'.calls[n]? = some ⟨events, .over (.accepted events.length)⟩ := by
  obtain ⟨phase, hn', hreplaying⟩ := h.replaying
  rw [hn] at hn'
  cases hn'
  cases hreplaying with
  | inserting hevents => exact h.finish hn hevents
  | checked => exact commit_nothing hn
  | accepted => exact ⟨rfl, hn⟩
  | lost => exact absurd rfl hkept

/-- A call either passed the checks before its transaction or was refused by them. -/
def Started (s : Receipts) : Prop :=
  ∀ (k : Nat) call, s.calls[k]? = some call →
    startReceipts call.events = .inserting call.events [] ∨
      ∃ error, call.phase = .over (.refused error)

theorem Started.stepped {a : ReceiptAction} (h : Started s) (hstep : ReceiptStepped s a s') :
    Started s' := by
  have hmoved {k : Nat} {call next : ReceiptCall} (hk : s.calls[k]? = some call)
      (hphase : ¬call.phase.Ended) (hevents : next.events = call.events) :
      Started (s.become k next) := by
    intro i other hi
    rcases set_cases hi with ⟨_, rfl⟩ | ⟨_, hi⟩
    · rcases h k call hk with hstart | ⟨error, herror⟩
      · exact .inl (hevents ▸ hstart)
      · exact absurd (herror ▸ trivial) hphase
    · exact h i other hi
  cases hstep with
  | @begin events =>
    intro i other hi
    rcases begun_cases hi with ⟨_, rfl⟩ | hi
    · exact (startReceipts_cases events).imp_left (·.1)
    · exact h i other hi
  | insert hk => exact hmoved hk id rfl
  | refuse hk => exact hmoved hk id rfl
  | check hk => exact hmoved hk id rfl
  | commit hk => exact hmoved hk id rfl
  | abort hk hphase => exact hmoved hk hphase rfl

theorem started_of_reachable (h : receipts.Reachable s) : Started s := by
  refine Machine.reachable_keeps (I := Started) ?_ ?_ h
  · rintro s ⟨_, hcalls⟩ k call hk
    simp [hcalls] at hk
  · exact fun hs hstep => hs.stepped (receiptStepped_of_step hstep)

theorem resent_begin (h : receipts.Reachable s) {k count : Nat}
    (hk : s.calls[k]? = some ⟨events, .over (.accepted count)⟩) :
    Resent (receipts.next s (.begin events)) s.calls.length events where
  recorded := (backed_of_reachable h).accepted k events count hk
  replaying := by
    rcases started_of_reachable h k _ hk with hstart | ⟨error, herror⟩
    · exact ⟨startReceipts events, begun_self,
        hstart ▸ .inserting (List.nil_append events).symm⟩
    · cases herror

end Resent

end Nocturne.Spend
