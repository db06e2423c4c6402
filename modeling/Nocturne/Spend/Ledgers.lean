import Nocturne.Inject.AnnotationReplay
import Nocturne.Lib.Interleaving
import Nocturne.Spend.Replay

namespace Nocturne.Spend

open Nocturne.Lib Nocturne.Inject

/-- The two append-only ledgers, their appends interleaved in any order. -/
def ledgers :
    Machine (Receipts × Annotations) (ReceiptAction ⊕ AnnotationAction)
      (StepError ⊕ AnnotationStepError) :=
  receipts.prod annotations

variable {s : Receipts × Annotations}

/-- What the receipt ledger promises in a state. -/
structure ReceiptsSafe (s : Receipts × Annotations) : Prop where
  /-- The content stored under a uid never changes. -/
  keeps : ∀ as uid row, s.1.rows.get? uid = some row →
    (ledgers.run s as).1.rows.get? uid = some row
  /-- Rows change only where a call ends accepted, all of its events on record. -/
  whole : ∀ a s', ledgers.step s a = .ok s' → s'.1.rows = s.1.rows ∨
    ∃ k events, a = .inl (.commit k) ∧
      (∀ event ∈ events, s'.1.rows.get? event.eventUid = some event) ∧
      ∀ as, (ledgers.run s' as).1.calls[k]? = some ⟨events, .over (.accepted events.length)⟩
  /-- An accepted call sent what is on record. -/
  stored : ∀ (k : Nat) events count, s.1.calls[k]? = some ⟨events, .over (.accepted count)⟩ →
    ∀ event ∈ events, s.1.rows.get? event.eventUid = some event
  /-- A batch that reuses a uid with other content is refused, exactly under the condition. -/
  refuses : ∀ (k : Nat) events inserted,
    s.1.calls[k]? = some ⟨events, .inserting [] inserted⟩ →
    ((Differs (s.1.rows.rows ++ inserted) events → ∃ s' error,
      ledgers.step s (.inl (.check k)) = .ok s' ∧ s'.1.rows = s.1.rows ∧
        s'.1.calls[k]? = some ⟨events, .over (.refused error)⟩) ↔
      Distinct (s.1.rows.rows ++ inserted) events)
  /-- A batch that names a uid twice is refused. -/
  repeated : ∀ events : List SpendEventInput, ¬(events.map (·.eventUid)).Nodup →
    (ledgers.next s (.inl (.begin events))).1.calls[s.1.calls.length]? =
      some ⟨events, .over (.refused .repeatedUid)⟩
  /-- A batch once accepted is accepted again, and its call changes nothing. -/
  resent : ∀ (k : Nat) events count, s.1.calls[k]? = some ⟨events, .over (.accepted count)⟩ →
    ∀ as call, let n := s.1.calls.length
      let s₁ := ledgers.run s (.inl (.begin events) :: as)
      s₁.1.calls[n]? = some call → call.phase ≠ .over .lost →
        let s₂ := ledgers.run s₁ ((call.remaining n).map .inl)
        s₂.1.rows = s₁.1.rows ∧
          s₂.1.calls[n]? = some ⟨events, .over (.accepted events.length)⟩

/-- What the annotation ledger promises in a state. -/
structure AnnotationsSafe (s : Receipts × Annotations) : Prop where
  /-- The content stored under a uid never changes. -/
  keeps : ∀ as uid row, s.2.rows.get? uid = some row →
    (ledgers.run s as).2.rows.get? uid = some row
  /-- Rows change only where a call ends accepted, all of its annotations on record. -/
  whole : ∀ a s', ledgers.step s a = .ok s' → s'.2.rows = s.2.rows ∨
    ∃ k batch ts, a = .inr (.commit k) ∧ Inject.Held s'.2.rows.rows batch ∧
      ∀ as, (ledgers.run s' as).2.calls[k]? = some ⟨batch, ts, .over (.accepted batch.length)⟩
  /-- An accepted call sent what is on record. -/
  stored : ∀ (k : Nat) batch ts count,
    s.2.calls[k]? = some ⟨batch, ts, .over (.accepted count)⟩ →
    ∀ entry ∈ batch, ∃ row, s.2.rows.get? entry.targetEventUid = some row ∧
      row.toAnnotationValues = requested entry
  /-- A batch that reuses a uid with other content is refused. -/
  refuses : ∀ (k : Nat) batch ts targets,
    s.2.calls[k]? = some ⟨batch, ts, .targeted targets⟩ →
    (∃ entry ∈ batch, ∃ row ∈ s.2.rows.rows,
      row.targetEventUid = entry.targetEventUid ∧
        row.toAnnotationValues ≠ requested entry) →
    ∃ s' error, ledgers.step s (.inr (.compare k)) = .ok s' ∧ s'.2.rows = s.2.rows ∧
      s'.2.calls[k]? = some ⟨batch, ts, .over (.refused error)⟩
  /-- A batch that names a uid twice is refused. -/
  repeated : ∀ batch : List InjectionEventAnnotationInput,
    ¬(batch.map (·.targetEventUid)).Nodup → ∃ ts,
    (ledgers.next s (.inr (.begin batch))).2.calls[s.2.calls.length]? =
      some ⟨batch, ts, .over (.refused .repeatedTarget)⟩
  /-- A batch once accepted is accepted again, and its call changes nothing. -/
  resent : ∀ (k : Nat) batch ts count,
    s.2.calls[k]? = some ⟨batch, ts, .over (.accepted count)⟩ →
    ∀ as call, let n := s.2.calls.length
      let s₁ := ledgers.run s (.inr (.begin batch) :: as)
      s₁.2.calls[n]? = some call → call.phase ≠ .over .lost →
      (call.phase = .waiting → ∀ other ∈ s₁.2.calls, ¬other.phase.HoldsLock) →
        let s₂ := ledgers.run s₁ ((call.remaining n).map .inr)
        s₂.2.rows = s₁.2.rows ∧ Inject.Accepted s₂.2 n batch

/-- The comparison of every receipt batch meets the condition. -/
def DistinctRun (s : Receipts × Annotations) (a : ReceiptAction ⊕ AnnotationAction) : Prop :=
  Sum.elim (DistinctAt s.1) (fun _ => True) a

instance : (a : ReceiptAction ⊕ AnnotationAction) → Decidable (DistinctRun s a)
  | .inl a => inferInstanceAs (Decidable (DistinctAt s.1 a))
  | .inr _ => isTrue trivial

theorem receiptsSafe (h : receipts.ReachableBy DistinctAt s.1) : ReceiptsSafe s where
  keeps as uid row hrow := by
    rw [ledgers, Machine.run_prod]
    exact (receipts_extend s.1 _).get? hrow
  whole a s' hstep := by
    cases a with
    | inr a => exact .inl (by rw [(Machine.step_prod_inr.mp hstep).2])
    | inl a =>
      have hleft := (Machine.step_prod_inl.mp hstep).1
      rcases receipt_rows_of_step (receiptStepped_of_step hleft) with
        hsame | ⟨_, k, events, rfl, hk⟩
      · exact .inl hsame
      · refine .inr ⟨k, events, rfl, ?_, ?_⟩
        · intro event hevent
          have hmeets : DistinctAt s.1 (.commit k) := trivial
          have hnext := backed_of_reachableBy (h.step hmeets hleft)
          obtain ⟨row, hrow, _, rfl⟩ := hnext.accepted k events _ hk event hevent
          exact Table.get?_of_mem hrow
        · intro as
          rw [ledgers, Machine.run_prod]
          exact receipt_outcome_run hk _
  stored k events count hk event hevent := by
    obtain ⟨row, hrow, _, rfl⟩ := (backed_of_reachableBy h).accepted k events count hk event hevent
    exact Table.get?_of_mem hrow
  refuses k events inserted hk := by
    rw [← refuses_iff_distinct (apart_of_reachable h.reachable) hk]
    have hcheck {error : ReceiptError}
        (herror : checkReceipts (s.1.rows.rows ++ inserted) events = .error error) :
        receipts.step s.1 (.check k) = .ok (s.1.become k ⟨events, .over (.refused error)⟩) := by
      simp only [receipts, receiptStep, receiptCallAt, hk, require_some, ok_bind, herror]
    constructor
    · intro hrefused hdiffers
      obtain ⟨s', error, hstep, _, hk'⟩ := hrefused hdiffers
      cases hpass : checkReceipts (s.1.rows.rows ++ inserted) events with
      | error error => exact ⟨error, rfl⟩
      | ok =>
        have hleft := (Machine.step_prod_inl.mp hstep).1
        simp only [receipts, receiptStep, receiptCallAt, hk, require_some, ok_bind, hpass,
          Except.ok.injEq] at hleft
        rw [← hleft, Receipts.become, set_self hk] at hk'
        cases hk'
    · intro hrefuses hdiffers
      obtain ⟨error, herror⟩ := hrefuses hdiffers
      exact ⟨(_, s.2), error, Machine.step_prod_inl.mpr ⟨hcheck herror, rfl⟩, rfl, set_self hk⟩
  repeated events hrepeated := by
    have hstart : startReceipts events = .over (.refused .repeatedUid) := by
      have hne : events ≠ [] := by
        rintro rfl
        exact hrepeated List.nodup_nil
      rw [startReceipts, if_neg hne, if_pos hrepeated]
    rw [ledgers, Machine.next_prod_inl, ← hstart]
    exact begun_self
  resent k events count hk as call := by
    have hresent := resent_run (resent_begin h.reachable hk) (Machine.lefts as)
    simp only [ledgers, Machine.run_prod, Machine.run_cons, Machine.lefts_map_inl]
    exact hresent.remaining

theorem annotationsSafe (h : annotations.Reachable s.2) : AnnotationsSafe s where
  keeps as uid row hrow := by
    rw [ledgers, Machine.run_prod]
    exact (annotations_extend s.2 _).get? hrow
  whole a s' hstep := by
    cases a with
    | inl a => exact .inl (by rw [(Machine.step_prod_inl.mp hstep).2])
    | inr a =>
      have hright := (Machine.step_prod_inr.mp hstep).1
      rcases annotation_rows_of_step (annotationStepped_of_step hright) with
        hsame | ⟨_, k, batch, ts, rfl, hk⟩
      · exact .inl hsame
      · refine .inr ⟨k, batch, ts, rfl, ?_, ?_⟩
        · have hnext := annotationsSound_of_reachable (h.step hright)
          exact (hnext.accepted k batch ts _ hk).1
        · intro as
          rw [ledgers, Machine.run_prod]
          exact annotation_outcome_run hk _
  stored k batch ts count hk entry hentry :=
    ((annotationsSound_of_reachable h).accepted k batch ts count hk).1.get? hentry
  refuses k batch ts targets hk := by
    rintro ⟨entry, hentry, row, hrow, huid, hvalues⟩
    obtain ⟨hcheck, _⟩ := (annotationsSound_of_reachable h).targeted k batch ts targets hk
    cases hpending : pendingRows targets
        (s.2.rows.rows.filter (·.targetEventUid ∈ batch.map (·.targetEventUid))) batch with
    | error error =>
      have hstep : annotations.step s.2 (.compare k) =
          .ok (s.2.become k ⟨batch, ts, .over (.refused error)⟩) := by
        simp only [annotations, annotationStep, annotationCallAt, hk, require_some, ok_bind,
          hpending]
      exact ⟨(s.1, _), error, Machine.step_prod_inr.mpr ⟨hstep, rfl⟩, rfl, set_self hk⟩
    | ok pending =>
      have hsame := values_of_pendingRows hcheck hpending (fun _ => List.mem_map_of_mem)
        hentry hrow huid
      exact absurd hsame hvalues
  repeated batch hrepeated := by
    have hstart : startAnnotations batch = .over (.refused .repeatedTarget) := by
      have hne : batch ≠ [] := by
        rintro rfl
        exact hrepeated List.nodup_nil
      rw [startAnnotations, if_neg hne, if_pos hrepeated]
    rw [ledgers, Machine.next_prod_inr, ← hstart]
    exact ⟨s.2.clock, begun_self⟩
  resent k batch ts count hk as call := by
    have hresent := Inject.resent_run (Inject.resent_begin h hk) (Machine.rights as)
    simp only [ledgers, Machine.run_prod, Machine.run_cons, Machine.rights_map_inr]
    exact hresent.remaining

/-- Both ledgers keep what they promise in every state of a run whose receipt batches meet the
condition. -/
theorem ledgers_replay_safe (h : ledgers.ReachableBy DistinctRun s) :
    ReceiptsSafe s ∧ AnnotationsSafe s := by
  obtain ⟨hleft, hright⟩ :=
    Machine.ReachableBy.sides (G := DistinctAt) (H := fun (_ : Annotations) _ => True) h
  exact ⟨receiptsSafe hleft, annotationsSafe hright.reachable⟩

section Small

/-- One line of input tokens, not priced yet; its broker detail says whether a cache answered. -/
def inputLine (cached : JsonValue) : SpendEventInput where
  eventUid := 2120569420323002473945023977581707265
  ts := 1785587696789
  productType := .llmRequest
  quantityType := "input_fresh"
  unitOfMeasure := "tokens"
  quantity := 125
  costUsd := none
  basis := .measured
  behavior := .variable
  purpose := .building
  principalId := some "owner"
  machineId := some "workstation"
  originAgent := some "harness-chat"
  threadId := some 22685491128062790912553268770669400337
  runId := none
  promptId := none
  memoryId := none
  model := some "anthropic/claude-sonnet-4.6"
  provider := some "anthropic"
  quantization := none
  ref := "gen-test-1"
  «meta» := .object [("cached", cached)]

def emptyLedgers : Receipts × Annotations := (⟨.empty, []⟩, ⟨.empty, .empty, [], 0⟩)

/-- A batch of one event, sent without a break. -/
def sendLine (k : Nat) (event : SpendEventInput) : List (ReceiptAction ⊕ AnnotationAction) :=
  [.inl (.begin [event]), .inl (.insert k), .inl (.check k), .inl (.commit k)]

def lineStored : Receipts × Annotations :=
  ledgers.run emptyLedgers (sendLine 0 (inputLine (.bool true)))

end Small

theorem ledgers_replay_safe_line :
    (ledgers.run lineStored (sendLine 1 (inputLine (.bool true)))).1.calls[1]? =
      some ⟨[inputLine (.bool true)], .over (.accepted 1)⟩ := by
  have hreachable : ledgers.ReachableBy DistinctRun lineStored :=
    ⟨emptyLedgers, _, ⟨⟨rfl, rfl⟩, rfl, rfl⟩, by decide, rfl⟩
  have hstored : lineStored.1.calls[0]? =
      some ⟨[inputLine (.bool true)], .over (.accepted 1)⟩ := by decide
  have hagain := (ledgers_replay_safe hreachable).1.resent 0 _ 1 hstored []
    ⟨[inputLine (.bool true)], .inserting [inputLine (.bool true)] []⟩ (by decide) (by decide)
  exact hagain.2

/-- A line whose broker detail says `1` where the stored receipt says `true` is accepted. -/
theorem ledgers_replay_diverges : ∃ s, ledgers.Reachable s ∧
    s.1.calls[1]? = some ⟨[inputLine (.number 1)], .over (.accepted 1)⟩ ∧
    s.1.rows.rows = [inputLine (.bool true)] ∧
    (inputLine (.number 1)).eventUid = (inputLine (.bool true)).eventUid ∧
    inputLine (.number 1) ≠ inputLine (.bool true) := by
  have hreachable : ledgers.Reachable lineStored := ⟨emptyLedgers, _, ⟨⟨rfl, rfl⟩, rfl, rfl⟩, rfl⟩
  refine ⟨_, hreachable.run (sendLine 1 (inputLine (.number 1))), ?_, ?_, rfl, ?_⟩
  · decide
  · decide
  · decide

end Nocturne.Spend
