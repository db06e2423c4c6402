import Nocturne.Lib.Flight
import Nocturne.Lib.Record
import Nocturne.Spend.Receipts

namespace Nocturne.Spend

open Nocturne.Lib

variable {s s' : Receipts}

section Checks

variable {visible events : List SpendEventInput} {event : SpendEventInput}

/-- Each event of the batch finds a row under its uid that `R` relates it to. -/
abbrev Held (R : SpendEventInput → SpendEventInput → Prop) (visible events : List SpendEventInput) :
    Prop :=
  OnRecord (·.eventUid) (·.eventUid) R visible events

theorem checkReceipts_cons_eq_ok :
    checkReceipts visible (event :: events) = .ok () ↔
      (∃ row, visible.find? (·.eventUid = event.eventUid) = some row ∧ row.SameValues event) ∧
        checkReceipts visible events = .ok () := by
  simp only [checkReceipts, checkReceipt, bind_eq_ok, require_eq_ok, ensure_eq_ok]
  constructor
  · rintro ⟨_, ⟨row, hrow, hsame⟩, hrest⟩
    exact ⟨⟨row, hrow, hsame⟩, hrest⟩
  · rintro ⟨⟨row, hrow, hsame⟩, hrest⟩
    exact ⟨.unit, ⟨row, hrow, hsame⟩, hrest⟩

theorem held_of_check (h : checkReceipts visible events = .ok ()) :
    Held SpendEventInput.SameValues visible events := by
  induction events with
  | nil => simp [OnRecord]
  | cons event events ih =>
    obtain ⟨⟨row, hfind, hsame⟩, hrest⟩ := checkReceipts_cons_eq_ok.mp h
    intro b hb
    rcases List.mem_cons.mp hb with rfl | hb
    · exact ⟨row, List.mem_of_find?_eq_some hfind, by simpa using List.find?_some hfind, hsame⟩
    · exact ih hrest b hb

/-- Among rows of distinct uids the comparison passes when it should. -/
theorem check_of_held (hnodup : (visible.map (·.eventUid)).Nodup)
    (h : Held SpendEventInput.SameValues visible events) :
    checkReceipts visible events = .ok () := by
  induction events with
  | nil => rfl
  | cons event events ih =>
    rw [checkReceipts_cons_eq_ok]
    obtain ⟨row, hrow, huid, hsame⟩ := h event List.mem_cons_self
    have hfind : (⟨visible, hnodup⟩ : Table Ulid SpendEventInput (·.eventUid)).get?
        event.eventUid = some row := Table.get?_eq_some_iff.mpr ⟨hrow, huid⟩
    exact ⟨⟨row, hfind, hsame⟩, ih fun b hb => h b (List.mem_cons_of_mem _ hb)⟩

end Checks

/-- What each accepted step does. -/
inductive ReceiptStepped (s : Receipts) : ReceiptAction → Receipts → Prop
  | begin {events : List SpendEventInput} :
    ReceiptStepped s (.begin events) { s with calls := s.calls ++ [⟨events, startReceipts events⟩] }
  | insert {k : Nat} {events rest inserted inserted' : List SpendEventInput}
    {event : SpendEventInput}
    (hk : s.calls[k]? = some ⟨events, .inserting (event :: rest) inserted⟩)
    (hinsert : insertReceipt s k event inserted = .ok inserted') :
    ReceiptStepped s (.insert k) (s.become k ⟨events, .inserting rest inserted'⟩)
  | refuse {k : Nat} {events inserted : List SpendEventInput} {error : ReceiptError}
    (hk : s.calls[k]? = some ⟨events, .inserting [] inserted⟩)
    (hcheck : checkReceipts (s.rows.rows ++ inserted) events = .error error) :
    ReceiptStepped s (.check k) (s.become k ⟨events, .over (.refused error)⟩)
  | check {k : Nat} {events inserted : List SpendEventInput}
    (hk : s.calls[k]? = some ⟨events, .inserting [] inserted⟩)
    (hcheck : checkReceipts (s.rows.rows ++ inserted) events = .ok ()) :
    ReceiptStepped s (.check k) (s.become k ⟨events, .checked inserted⟩)
  | commit {k : Nat} {events inserted : List SpendEventInput}
    {rows : Table Ulid SpendEventInput (·.eventUid)}
    (hk : s.calls[k]? = some ⟨events, .checked inserted⟩)
    (hrows : rows.rows = s.rows.rows ++ inserted) :
    ReceiptStepped s (.commit k)
      { s.become k ⟨events, .over (.accepted events.length)⟩ with rows }
  | abort {k : Nat} {call : ReceiptCall} (hk : s.calls[k]? = some call)
    (hphase : ¬call.phase.Ended) :
    ReceiptStepped s (.abort k) (s.become k ⟨call.events, .over .lost⟩)

theorem receiptStepped_of_step {a : ReceiptAction} (h : receipts.step s a = .ok s') :
    ReceiptStepped s a s' := by
  simp only [receipts] at h
  cases a with
  | begin events =>
    simp only [receiptStep, Except.ok.injEq] at h
    exact h ▸ .begin
  | insert k =>
    simp only [receiptStep, receiptCallAt, bind_eq_ok, require_eq_ok] at h
    obtain ⟨⟨events, phase⟩, hk, h⟩ := h
    split at h
    · next hphase =>
      simp only [bind_eq_ok, pure_eq_ok] at h
      obtain ⟨inserted', hinsert, rfl⟩ := h
      dsimp only at hphase
      exact .insert (hphase ▸ hk) hinsert
    · cases h
  | check k =>
    simp only [receiptStep, receiptCallAt, bind_eq_ok, require_eq_ok] at h
    obtain ⟨⟨events, phase⟩, hk, h⟩ := h
    split at h
    · next hphase =>
      dsimp only at hphase
      subst hphase
      split at h
      · next hcheck =>
        cases h
        exact .refuse hk hcheck
      · next hcheck =>
        cases h
        exact .check hk hcheck
    · cases h
  | commit k =>
    simp only [receiptStep, receiptCallAt, bind_eq_ok, require_eq_ok] at h
    obtain ⟨⟨events, phase⟩, hk, h⟩ := h
    split at h
    · next hphase =>
      simp only [bind_eq_ok, pure_eq_ok, require_eq_ok, Table.insertAll?_eq_some] at h
      obtain ⟨rows, hrows, rfl⟩ := h
      dsimp only at hphase
      exact .commit (hphase ▸ hk) hrows
    · cases h
  | abort k =>
    simp only [receiptStep, receiptCallAt, bind_eq_ok, require_eq_ok, ensure_eq_ok,
      pure_eq_ok] at h
    obtain ⟨call, hk, _, hphase, rfl⟩ := h
    exact .abort hk hphase

/-- A call once over stays as it ended. -/
theorem ReceiptStepped.outcome_stands {a : ReceiptAction} {k : Nat} {events : List SpendEventInput}
    {outcome : ReceiptOutcome} (h : ReceiptStepped s a s')
    (hk : s.calls[k]? = some ⟨events, .over outcome⟩) :
    s'.calls[k]? = some ⟨events, .over outcome⟩ := by
  have hkept {j : Nat} {other next : ReceiptCall} (hj : s.calls[j]? = some other)
      (hother : ¬other.phase.Ended) :
      (s.calls.set j next)[k]? = some ⟨events, .over outcome⟩ := by
    apply set_other _ hk
    rintro rfl
    rw [hk] at hj
    cases hj
    exact hother trivial
  cases h with
  | begin => exact begun_other hk
  | insert hj => exact hkept hj id
  | refuse hj => exact hkept hj id
  | check hj => exact hkept hj id
  | commit hj => exact hkept hj id
  | abort hj hphase => exact hkept hj hphase

theorem receipt_outcome_run {k : Nat} {events : List SpendEventInput} {outcome : ReceiptOutcome}
    (hk : s.calls[k]? = some ⟨events, .over outcome⟩) (as : List ReceiptAction) :
    (receipts.run s as).calls[k]? = some ⟨events, .over outcome⟩ :=
  Machine.run_keeps (I := fun s => s.calls[k]? = some ⟨events, .over outcome⟩)
    (fun hk h => (receiptStepped_of_step h).outcome_stands hk) as hk

/-- Rows change where a call commits, and nowhere else. -/
theorem receipt_rows_of_step {a : ReceiptAction} (h : ReceiptStepped s a s') :
    s'.rows = s.rows ∨ s'.rows.Extends s.rows ∧ ∃ k events, a = .commit k ∧
      s'.calls[k]? = some ⟨events, .over (.accepted events.length)⟩ := by
  cases h with
  | commit hk hrows => exact .inr ⟨Table.extends_of_append hrows, _, _, rfl, set_self hk⟩
  | begin => exact .inl rfl
  | insert => exact .inl rfl
  | refuse => exact .inl rfl
  | check => exact .inl rfl
  | abort => exact .inl rfl

theorem receipts_extend (s : Receipts) (as : List ReceiptAction) :
    (receipts.run s as).rows.Extends s.rows := by
  refine Machine.run_rel (R := fun s s' => s'.rows.Extends s.rows) (fun s => .refl s.rows)
    (fun h h' => .trans h h') ?_ s as
  intro s a s' h
  rcases receipt_rows_of_step (receiptStepped_of_step h) with hsame | ⟨hext, _⟩
  · rw [hsame]
    exact .refl s.rows
  · exact hext

section Inserts

/-- Rows of the inserts in flight stay apart from each other and from the rows on record. -/
structure Apart (s : Receipts) : Prop where
  fresh : ∀ (k : Nat) call, s.calls[k]? = some call →
    ((s.rows.rows ++ call.phase.inserted).map (·.eventUid)).Nodup
  apart : ∀ (i j : Nat) call other, i ≠ j → s.calls[i]? = some call → s.calls[j]? = some other →
    ∀ row ∈ call.phase.inserted, ∀ row' ∈ other.phase.inserted, row.eventUid ≠ row'.eventUid
  placed : ∀ (k : Nat) events rest inserted,
    s.calls[k]? = some ⟨events, .inserting rest inserted⟩ →
    ∃ before, events = before ++ rest ∧ ∀ event ∈ before,
      ∃ row ∈ s.rows.rows ++ inserted, row.eventUid = event.eventUid

theorem insertReceipt_eq_ok {k : Nat} {event : SpendEventInput}
    {inserted inserted' : List SpendEventInput}
    (h : insertReceipt s k event inserted = .ok inserted') :
    (inserted' = inserted ∧ ∃ row ∈ s.rows.rows ++ inserted, row.eventUid = event.eventUid) ∨
      inserted' = inserted ++ [event] ∧
        (∀ row ∈ s.rows.rows ++ inserted, row.eventUid ≠ event.eventUid) ∧
        ∀ (j : Nat) call, j ≠ k → s.calls[j]? = some call → ∀ row ∈ call.phase.inserted,
          row.eventUid ≠ event.eventUid := by
  unfold insertReceipt at h
  split at h
  · next hfound =>
    cases h
    exact .inl ⟨rfl, hfound⟩
  · next hnew =>
    split at h
    · cases h
    · next hclear =>
      cases h
      push Not at hnew hclear
      refine .inr ⟨rfl, hnew, ?_⟩
      intro j call hne hj
      exact hclear j (List.getElem?_eq_some_iff.mp hj).1 hne call hj

theorem startReceipts_inserted (events : List SpendEventInput) :
    (startReceipts events).inserted = [] := by
  unfold startReceipts
  split
  · rfl
  · split <;> rfl

/-- A step of one call that leaves the rows on record. -/
theorem Apart.become {k : Nat} {next : ReceiptCall} (h : Apart s)
    (hfresh : ((s.rows.rows ++ next.phase.inserted).map (·.eventUid)).Nodup)
    (hother : ∀ (j : Nat) other, j ≠ k → s.calls[j]? = some other →
      ∀ row ∈ next.phase.inserted, ∀ row' ∈ other.phase.inserted, row.eventUid ≠ row'.eventUid)
    (hplaced : ∀ rest inserted, next.phase = .inserting rest inserted →
      ∃ before, next.events = before ++ rest ∧ ∀ event ∈ before,
        ∃ row ∈ s.rows.rows ++ inserted, row.eventUid = event.eventUid) :
    Apart (s.become k next) where
  fresh i other hi := by
    rcases set_cases hi with ⟨_, rfl⟩ | ⟨_, hi⟩
    · exact hfresh
    · exact h.fresh i other hi
  apart i j a b hne hi hj row hrow row' hrow' := by
    rcases set_cases hi with ⟨hik, rfl⟩ | ⟨hik, hi'⟩
    · rcases set_cases hj with ⟨hjk, _⟩ | ⟨hjk, hj⟩
      · exact absurd (hik.trans hjk.symm) hne
      · exact hother j b hjk hj row hrow row' hrow'
    · rcases set_cases hj with ⟨_, rfl⟩ | ⟨_, hj⟩
      · exact (hother i a hik hi' row' hrow' row hrow).symm
      · exact h.apart i j a b hne hi' hj row hrow row' hrow'
  placed i events rest inserted hi := by
    rcases set_cases hi with ⟨_, rfl⟩ | ⟨_, hi⟩
    · exact hplaced rest inserted rfl
    · exact h.placed i events rest inserted hi

theorem Apart.stepped {a : ReceiptAction} (h : Apart s) (hstep : ReceiptStepped s a s') :
    Apart s' := by
  have hsame {k : Nat} {call next : ReceiptCall} (hk : s.calls[k]? = some call)
      (hinserted : next.phase.inserted = call.phase.inserted ∨ next.phase.inserted = [])
      (hphase : ∀ rest inserted, next.phase ≠ .inserting rest inserted) :
      Apart (s.become k next) := by
    apply h.become
    · rcases hinserted with hinserted | hinserted
      · rw [hinserted]
        exact h.fresh k call hk
      · simpa [hinserted] using s.rows.nodup
    · intro j other hne hj row hrow
      rcases hinserted with hinserted | hinserted
      · exact h.apart k j call other hne.symm hk hj row (hinserted ▸ hrow)
      · rw [hinserted] at hrow
        cases hrow
    · intro rest inserted heq
      exact absurd heq (hphase rest inserted)
  cases hstep with
  | @begin events =>
    have hnone := startReceipts_inserted events
    constructor
    · intro k call hk
      rcases begun_cases hk with ⟨_, rfl⟩ | hk
      · simpa [hnone] using s.rows.nodup
      · exact h.fresh k call hk
    · intro i j a b hne hi hj row hrow row' hrow'
      rcases begun_cases hi with ⟨_, rfl⟩ | hi
      · simp [hnone] at hrow
      · rcases begun_cases hj with ⟨_, rfl⟩ | hj
        · simp [hnone] at hrow'
        · exact h.apart i j a b hne hi hj row hrow row' hrow'
    · intro k events' rest inserted hk
      rcases begun_cases hk with ⟨_, heq⟩ | hk
      · simp only [startReceipts, ReceiptCall.mk.injEq] at heq
        obtain ⟨rfl, heq⟩ := heq
        split at heq
        · cases heq
        · split at heq
          · cases heq
          · cases heq
            exact ⟨[], rfl, by simp⟩
      · exact h.placed k events' rest inserted hk
  | @insert k events rest inserted inserted' event hk hinsert =>
    have hfresh := h.fresh k _ hk
    obtain ⟨before, hevents, hbefore⟩ := h.placed k _ _ _ hk
    have hsplit : events = (before ++ [event]) ++ rest := by simp [hevents]
    rcases insertReceipt_eq_ok hinsert with ⟨rfl, hfound⟩ | ⟨rfl, hnew, hclear⟩
    · apply h.become
      · exact hfresh
      · intro j other hne hj row hrow
        exact h.apart k j _ other hne.symm hk hj row hrow
      · intro _ _ heq
        cases heq
        refine ⟨before ++ [event], hsplit, ?_⟩
        intro e he
        rcases List.mem_append.mp he with he | he
        · exact hbefore e he
        · rw [List.mem_singleton.mp he]
          exact hfound
    · apply h.become
      · change ((s.rows.rows ++ (inserted ++ [event])).map (·.eventUid)).Nodup
        rw [← List.append_assoc, List.map_append, List.map_singleton, List.nodup_append]
        refine ⟨hfresh, by simp, ?_⟩
        intro uid huid _ hevent
        obtain ⟨row, hrow, rfl⟩ := List.mem_map.mp huid
        rw [List.mem_singleton.mp hevent]
        exact hnew row hrow
      · intro j other hne hj row hrow row' hrow'
        rcases List.mem_append.mp hrow with hrow | hrow
        · exact h.apart k j _ other hne.symm hk hj row hrow row' hrow'
        · rw [List.mem_singleton.mp hrow]
          exact (hclear j other hne hj row' hrow').symm
      · intro _ _ heq
        cases heq
        refine ⟨before ++ [event], hsplit, ?_⟩
        intro e he
        rcases List.mem_append.mp he with he | he
        · obtain ⟨row, hrow, huid⟩ := hbefore e he
          exact ⟨row, by simp only [List.mem_append] at hrow ⊢; tauto, huid⟩
        · rw [List.mem_singleton.mp he]
          exact ⟨event, by simp, rfl⟩
  | refuse hk => exact hsame hk (.inr rfl) (by simp)
  | check hk => exact hsame hk (.inl rfl) (by simp)
  | @commit k events inserted rows hk hrows =>
    have hcommitted : ∀ (i : Nat) call, i ≠ k → s.calls[i]? = some call →
        ((rows.rows ++ call.phase.inserted).map (·.eventUid)).Nodup := by
      intro i call hne hi
      have hold := h.fresh i call hi
      have hnew := hrows ▸ rows.nodup
      simp only [hrows, List.map_append, List.nodup_append] at hold hnew ⊢
      refine ⟨hnew, hold.2.1, ?_⟩
      intro uid huid uid' huid'
      rcases List.mem_append.mp huid with huid | huid
      · exact hold.2.2 uid huid uid' huid'
      · obtain ⟨row, hrow, rfl⟩ := List.mem_map.mp huid
        obtain ⟨row', hrow', rfl⟩ := List.mem_map.mp huid'
        exact h.apart k i _ call hne.symm hk hi row hrow row' hrow'
    constructor
    · intro i call hi
      rcases set_cases hi with ⟨_, rfl⟩ | ⟨hik, hi⟩
      · simpa [ReceiptPhase.inserted] using rows.nodup
      · exact hcommitted i call hik hi
    · intro i j a b hne hi hj row hrow row' hrow'
      rcases set_cases hi with ⟨_, rfl⟩ | ⟨_, hi⟩
      · cases hrow
      · rcases set_cases hj with ⟨_, rfl⟩ | ⟨_, hj⟩
        · cases hrow'
        · exact h.apart i j a b hne hi hj row hrow row' hrow'
    · intro i events' rest inserted' hi
      rcases set_cases hi with ⟨_, heq⟩ | ⟨_, hi⟩
      · cases heq
      · obtain ⟨before, hevents, hbefore⟩ := h.placed i _ _ _ hi
        refine ⟨before, hevents, ?_⟩
        intro event hevent
        obtain ⟨row, hrow, huid⟩ := hbefore event hevent
        refine ⟨row, ?_, huid⟩
        rw [hrows]
        simp only [List.mem_append] at hrow ⊢
        tauto
  | abort hk => exact hsame hk (.inr rfl) (by simp)

theorem apart_of_reachable (h : receipts.Reachable s) : Apart s := by
  refine Machine.reachable_keeps (I := Apart) ?_ ?_ h
  · rintro s ⟨hrows, hcalls⟩
    constructor <;> simp [hcalls]
  · exact fun hs hstep => hs.stepped (receiptStepped_of_step hstep)

end Inserts

end Nocturne.Spend
