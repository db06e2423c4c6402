import Mathlib.Algebra.BigOperators.Group.List.Basic
import Mathlib.Data.List.Dedup
import Nocturne.Lib.Flight
import Nocturne.Lib.Record
import Nocturne.Spend.Invoices

namespace Nocturne.Spend

open Nocturne.Lib Nocturne.Vitals

/-- The invoice a receipt is of. -/
def InvoiceReceipt.invoice (r : InvoiceReceipt) : InfrastructureInvoice where
  amountUsd := r.costUsd
  invoiceDate := r.ts / microsecondsPerDay
  invoiceId := r.invoiceId

def SpendLedger.invoices (s : SpendLedger) : List InvoiceReceipt :=
  s.rows.rows.filterMap LedgerRow.invoice?

/-- The invoices that were accepted, as often as they were. -/
def SpendLedger.accepted (s : SpendLedger) : List InfrastructureInvoice :=
  (s.calls.filter (·.phase = .over (.accepted 1))).map (·.invoice)

variable {w : SpendSettings} {s s' : SpendLedger} {call other : InvoiceCall}
  {r r' : InvoiceReceipt} {invoice invoice' : InfrastructureInvoice} {i j k n : Nat}

section Receipts

@[simp] theorem invoice_invoiceReceipt (uid : Ulid) (principal : String)
    (invoice : InfrastructureInvoice) :
    (invoiceReceipt uid principal invoice).invoice = invoice := by
  simp [InvoiceReceipt.invoice, invoiceReceipt, microsecondsPerDay]

theorem ref_inj : invoice.ref = invoice'.ref ↔ invoice.invoiceId = invoice'.invoiceId := by
  rw [InfrastructureInvoice.ref, InfrastructureInvoice.ref, String.append_right_inj]

@[simp] theorem invoice?_eq_some {row : LedgerRow} : row.invoice? = some r ↔ row = .invoice r := by
  cases row <;> simp [LedgerRow.invoice?]

theorem mem_invoices : r ∈ s.invoices ↔ .invoice r ∈ s.rows.rows := by
  simp [SpendLedger.invoices]

theorem invoices_append {rows : Table Ulid LedgerRow (·.eventUid)} {added : List LedgerRow}
    (h : rows.rows = s.rows.rows ++ added) (calls : List InvoiceCall) :
    (⟨rows, calls⟩ : SpendLedger).invoices =
      s.invoices ++ added.filterMap LedgerRow.invoice? := by
  rw [SpendLedger.invoices, h, List.filterMap_append, ← SpendLedger.invoices]

theorem invoices_lines (events : List SpendEventInput) :
    (events.map LedgerRow.line).filterMap LedgerRow.invoice? = [] := by
  rw [List.filterMap_eq_nil_iff]
  intro row hrow
  obtain ⟨event, _, rfl⟩ := List.mem_map.mp hrow
  rfl

end Receipts

/-- What each accepted step does. -/
inductive LedgerStepped (w : SpendSettings) (s : SpendLedger) : LedgerAction → SpendLedger → Prop
  | append {events : List SpendEventInput} {rows : Table Ulid LedgerRow (·.eventUid)}
    (hconforms : ∀ event ∈ events, event.Conforms)
    (hrows : rows.rows = s.rows.rows ++ events.map .line) :
    LedgerStepped w s (.append events) { s with rows }
  | begin {principalId : String} {invoice : InfrastructureInvoice} :
    LedgerStepped w s (.begin principalId invoice)
      { s with calls := s.calls ++ [⟨principalId, invoice, startInvoice w principalId invoice⟩] }
  | lock {k : Nat} {call : InvoiceCall} (hk : s.calls[k]? = some call)
    (hphase : call.phase = .waiting)
    (hfree : ∀ other ∈ s.calls, other.phase.HoldsLock →
      w.hashtextextended other.identity ≠ w.hashtextextended call.identity) :
    LedgerStepped w s (.lock k) (s.become k { call with phase := .locked })
  | read {k : Nat} {minted : Ulid} {call : InvoiceCall} (hk : s.calls[k]? = some call)
    (hphase : call.phase = .locked) :
    LedgerStepped w s (.read k minted)
      (s.become k { call with phase := readInvoice s call minted })
  | keep {k : Nat} {call : InvoiceCall} (hk : s.calls[k]? = some call)
    (hphase : call.phase = .found) :
    LedgerStepped w s (.commit k) (s.become k { call with phase := .over (.accepted 1) })
  | add {k : Nat} {call : InvoiceCall} {receipt : InvoiceReceipt}
    {rows : Table Ulid LedgerRow (·.eventUid)} (hk : s.calls[k]? = some call)
    (hphase : call.phase = .adding receipt)
    (hrows : rows.rows = s.rows.rows ++ [.invoice receipt]) :
    LedgerStepped w s (.commit k)
      { s.become k { call with phase := .over (.accepted 1) } with rows }
  | taken {k : Nat} {call : InvoiceCall} {receipt : InvoiceReceipt} (hk : s.calls[k]? = some call)
    (hphase : call.phase = .adding receipt)
    (hnone : s.rows.insert? (.invoice receipt) = none) :
    LedgerStepped w s (.commit k)
      (s.become k { call with phase := .over (.refused .integrity) })
  | abort {k : Nat} {call : InvoiceCall} (hk : s.calls[k]? = some call)
    (hphase : ¬call.phase.Ended) :
    LedgerStepped w s (.abort k) (s.become k { call with phase := .over .lost })

theorem ledgerStepped_of_step {a : LedgerAction} (h : (spendLedger w).step s a = .ok s') :
    LedgerStepped w s a s' := by
  simp only [spendLedger] at h
  cases a with
  | append events =>
    simp only [ledgerStep, bind_eq_ok, ensure_eq_ok, require_eq_ok, Table.insertAll?_eq_some,
      pure_eq_ok] at h
    obtain ⟨_, hconforms, rows, hrows, rfl⟩ := h
    exact .append hconforms hrows
  | begin principalId invoice =>
    simp only [ledgerStep, Except.ok.injEq] at h
    exact h ▸ .begin
  | lock k =>
    simp only [ledgerStep, invoiceCallAt, bind_eq_ok, require_eq_ok, ensure_eq_ok,
      pure_eq_ok] at h
    obtain ⟨call, hk, _, hphase, _, hfree, rfl⟩ := h
    exact .lock hk hphase hfree
  | read k minted =>
    simp only [ledgerStep, invoiceCallAt, bind_eq_ok, require_eq_ok, ensure_eq_ok,
      pure_eq_ok] at h
    obtain ⟨call, hk, _, hphase, rfl⟩ := h
    exact .read hk hphase
  | commit k =>
    simp only [ledgerStep, invoiceCallAt, bind_eq_ok, require_eq_ok] at h
    obtain ⟨call, hk, h⟩ := h
    split at h
    · next hphase =>
      cases h
      exact .keep hk hphase
    · next receipt hphase =>
      split at h
      · next rows hinsert =>
        cases h
        obtain ⟨_, rfl⟩ := Table.insert?_eq_some.mp hinsert
        exact .add hk hphase Table.rows_insert
      · next hinsert =>
        cases h
        exact .taken hk hphase hinsert
    · cases h
  | abort k =>
    simp only [ledgerStep, invoiceCallAt, bind_eq_ok, require_eq_ok, ensure_eq_ok,
      pure_eq_ok] at h
    obtain ⟨call, hk, _, hphase, rfl⟩ := h
    exact .abort hk hphase

/-- Rows are only ever added. -/
theorem ledger_extends (s : SpendLedger) (as : List LedgerAction) :
    ((spendLedger w).run s as).rows.Extends s.rows := by
  refine Machine.run_rel (R := fun s s' => s'.rows.Extends s.rows) (fun s => .refl s.rows)
    (fun h h' => .trans h h') ?_ s as
  intro s a s' h
  cases ledgerStepped_of_step h with
  | append _ hrows => exact Table.extends_of_append hrows
  | add _ _ hrows => exact Table.extends_of_append hrows
  | begin => exact .refl s.rows
  | lock => exact .refl s.rows
  | read => exact .refl s.rows
  | keep => exact .refl s.rows
  | taken => exact .refl s.rows
  | abort => exact .refl s.rows

/-- A call once over stays as it ended. -/
theorem invoice_outcome_run (hk : s.calls[k]? = some call) (hended : call.phase.Ended)
    (as : List LedgerAction) : ((spendLedger w).run s as).calls[k]? = some call := by
  refine Machine.run_keeps (I := fun s : SpendLedger => s.calls[k]? = some call) ?_ as hk
  intro s a s' hk hstep
  have hkept {j : Nat} {other next : InvoiceCall} (hj : s.calls[j]? = some other)
      (hother : ¬other.phase.Ended) : (s.calls.set j next)[k]? = some call := by
    apply set_other _ hk
    rintro rfl
    rw [hk] at hj
    cases hj
    exact hother hended
  cases ledgerStepped_of_step hstep with
  | append => exact hk
  | begin => exact begun_other hk
  | lock hj hphase => exact hkept hj (hphase ▸ id)
  | read hj hphase => exact hkept hj (hphase ▸ id)
  | keep hj hphase => exact hkept hj (hphase ▸ id)
  | add hj hphase => exact hkept hj (hphase ▸ id)
  | taken hj hphase => exact hkept hj (hphase ▸ id)
  | abort hj hphase => exact hkept hj hphase

section Safety

/-- The ledger holds one line for each invoice that was accepted, and none other. -/
structure SpendLedger.Sound (w : SpendSettings) (s : SpendLedger) : Prop where
  conforms : ∀ event, .line event ∈ s.rows.rows → event.Conforms
  once : ∀ r ∈ s.invoices, ∀ r' ∈ s.invoices, r.ref = r'.ref → r = r'
  named : ∀ r ∈ s.invoices, NonBlank r.principalId
  recorded : ∀ r ∈ s.invoices, ∃ (k : Nat) (call : InvoiceCall), s.calls[k]? = some call ∧
    call.phase = .over (.accepted 1) ∧ r = invoiceReceipt r.eventUid call.principalId call.invoice
  admitted : ∀ (k : Nat) (call : InvoiceCall), s.calls[k]? = some call →
    (∀ error, call.phase ≠ .over (.refused error)) →
    call.principalId = w.ownerPrincipalId ∧ call.invoice.Conforms
  alone : ∀ (i j : Nat) (call other : InvoiceCall), s.calls[i]? = some call →
    s.calls[j]? = some other → call.phase.HoldsLock → other.phase.HoldsLock →
    w.hashtextextended call.identity = w.hashtextextended other.identity → i = j
  adding : ∀ (k : Nat) (call : InvoiceCall) receipt, s.calls[k]? = some call →
    call.phase = .adding receipt → NonBlank call.principalId ∧
      receipt = invoiceReceipt receipt.eventUid call.principalId call.invoice ∧
      ∀ r ∈ s.invoices, r.ref ≠ call.invoice.ref
  /-- What a call found on the ledger or put there. -/
  present : ∀ (k : Nat) (call : InvoiceCall), s.calls[k]? = some call →
    (call.phase = .found ∨ ∃ count, call.phase = .over (.accepted count)) →
    ∃ uid, invoiceReceipt uid call.principalId call.invoice ∈ s.invoices
  one : ∀ (k : Nat) (call : InvoiceCall) count, s.calls[k]? = some call →
    call.phase = .over (.accepted count) → count = 1

/-- A step of one call that leaves the rows. -/
theorem SpendLedger.Sound.become (h : s.Sound w) {phase : InvoicePhase}
    (hk : s.calls[k]? = some call) (hlive : ¬call.phase.Ended)
    (hlock : phase.HoldsLock → call.phase.HoldsLock ∨
      ∀ other ∈ s.calls, other.phase.HoldsLock →
        w.hashtextextended other.identity ≠ w.hashtextextended call.identity)
    (hadding : ∀ receipt, phase = .adding receipt → NonBlank call.principalId ∧
      receipt = invoiceReceipt receipt.eventUid call.principalId call.invoice ∧
      ∀ r ∈ s.invoices, r.ref ≠ call.invoice.ref)
    (hpresent : phase = .found ∨ (∃ count, phase = .over (.accepted count)) →
      ∃ uid, invoiceReceipt uid call.principalId call.invoice ∈ s.invoices)
    (hone : ∀ count, phase = .over (.accepted count) → count = 1) :
    (s.become k { call with phase }).Sound w where
  conforms := h.conforms
  once := h.once
  named := h.named
  recorded r hr := by
    obtain ⟨i, earlier, hi, hphase, heq⟩ := h.recorded r hr
    refine ⟨i, earlier, set_other ?_ hi, hphase, heq⟩
    rintro rfl
    rw [hk] at hi
    cases hi
    exact hlive (hphase ▸ trivial)
  admitted i moved hi hphase := by
    rcases set_cases hi with ⟨_, rfl⟩ | ⟨_, hi⟩
    · refine h.admitted k call hk fun error herror => hlive ?_
      rw [herror]
      trivial
    · exact h.admitted i moved hi hphase
  alone i j a b hi hj ha hb hsame := by
    have hclash {m : Nat} {other : InvoiceCall} (hm : s.calls[m]? = some other)
        (hother : other.phase.HoldsLock) (hphase : phase.HoldsLock)
        (heq : w.hashtextextended other.identity = w.hashtextextended call.identity) : m = k := by
      rcases hlock hphase with hheld | hfree
      · exact h.alone m k other call hm hk hother hheld heq
      · exact absurd heq (hfree other (List.mem_of_getElem? hm) hother)
    rcases set_cases hi with ⟨rfl, rfl⟩ | ⟨_, hi⟩
    · rcases set_cases hj with ⟨rfl, _⟩ | ⟨_, hj⟩
      · rfl
      · exact (hclash hj hb ha hsame.symm).symm
    · rcases set_cases hj with ⟨rfl, rfl⟩ | ⟨_, hj⟩
      · exact hclash ‹s.calls[i]? = some a› ha hb hsame
      · exact h.alone i j a b hi hj ha hb hsame
  adding i moved receipt hi hphase := by
    rcases set_cases hi with ⟨_, rfl⟩ | ⟨_, hi⟩
    · exact hadding receipt hphase
    · exact h.adding i moved receipt hi hphase
  present i moved hi hphase := by
    rcases set_cases hi with ⟨_, rfl⟩ | ⟨_, hi⟩
    · exact hpresent hphase
    · exact h.present i moved hi hphase
  one i moved count hi hphase := by
    rcases set_cases hi with ⟨_, rfl⟩ | ⟨_, hi⟩
    · exact hone count hphase
    · exact h.one i moved count hi hphase

theorem startInvoice_cases (principal : String) (invoice : InfrastructureInvoice) :
    (∃ error, startInvoice w principal invoice = .over (.refused error)) ∨
      startInvoice w principal invoice = .waiting ∧ principal = w.ownerPrincipalId ∧
        invoice.Conforms := by
  unfold startInvoice
  split
  · exact .inl ⟨_, rfl⟩
  · next hvalid =>
    split
    · exact .inl ⟨_, rfl⟩
    · next howner => exact .inr ⟨rfl, not_not.mp howner, (not_not.mp hvalid).2⟩

theorem existingInvoice_eq_some {principal ref : String}
    (h : existingInvoice s principal ref = some r) :
    r ∈ s.invoices ∧ r.principalId = principal ∧ r.ref = ref := by
  have hfound := List.find?_some h
  rw [decide_eq_true_eq] at hfound
  exact ⟨List.mem_of_find?_eq_some h, hfound⟩

theorem existingInvoice_eq_none {principal ref : String}
    (h : existingInvoice s principal ref = none) :
    ∀ r ∈ s.invoices, r.principalId = principal → r.ref ≠ ref := by
  intro r hr hprincipal href
  have hnone := List.find?_eq_none.mp h r hr
  exact hnone (decide_eq_true ⟨hprincipal, href⟩)

/-- What a call may read under its lock. -/
inductive InvoiceRead (s : SpendLedger) (call : InvoiceCall) (minted : Ulid) : InvoicePhase → Prop
  | blank (hname : ¬NonBlank call.principalId) :
    InvoiceRead s call minted (.over (.refused .receipt))
  | conflict {row : InvoiceReceipt} (hname : NonBlank call.principalId) (hrow : row ∈ s.invoices)
    (hprincipal : row.principalId = call.principalId) (href : row.ref = call.invoice.ref)
    (hne : row ≠ invoiceReceipt row.eventUid call.principalId call.invoice) :
    InvoiceRead s call minted (.over (.refused (.conflict row.eventUid)))
  | found {row : InvoiceReceipt} (hname : NonBlank call.principalId) (hrow : row ∈ s.invoices)
    (heq : row = invoiceReceipt row.eventUid call.principalId call.invoice) :
    InvoiceRead s call minted .found
  | adding (hname : NonBlank call.principalId)
    (hnone : ∀ r ∈ s.invoices, r.principalId = call.principalId → r.ref ≠ call.invoice.ref) :
    InvoiceRead s call minted (.adding (invoiceReceipt minted call.principalId call.invoice))

theorem invoiceRead (s : SpendLedger) (call : InvoiceCall) (minted : Ulid) :
    InvoiceRead s call minted (readInvoice s call minted) := by
  unfold readInvoice
  dsimp only
  split
  · next hname => exact .blank hname
  · next hname =>
    rw [not_not] at hname
    cases hexisting : existingInvoice s call.principalId call.invoice.ref with
    | none => exact .adding hname (existingInvoice_eq_none hexisting)
    | some row =>
      obtain ⟨hrow, hprincipal, href⟩ := existingInvoice_eq_some hexisting
      dsimp only [Option.map_some, Option.getD_some]
      split
      · next hne => exact .conflict hname hrow hprincipal href hne
      · next heq => exact .found hname hrow (not_not.mp heq)

/-- All invoices are the owner's. -/
theorem SpendLedger.Sound.owned (h : s.Sound w) (hr : r ∈ s.invoices) :
    r.principalId = w.ownerPrincipalId := by
  obtain ⟨k, call, hk, hphase, heq⟩ := h.recorded r hr
  rw [heq, ← (h.admitted k call hk fun error herror => by simp [hphase] at herror).1]
  rfl

theorem SpendLedger.Sound.stepped {a : LedgerAction} (h : s.Sound w)
    (hstep : LedgerStepped w s a s') : s'.Sound w := by
  cases hstep with
  | @append events rows hconforms hrows =>
    have hinvoices : (⟨rows, s.calls⟩ : SpendLedger).invoices = s.invoices := by
      rw [invoices_append hrows, invoices_lines, List.append_nil]
    constructor
    · intro event hevent
      rw [hrows, List.mem_append, List.mem_map] at hevent
      rcases hevent with hold | ⟨_, hnew, heq⟩
      · exact h.conforms event hold
      · cases heq
        exact hconforms event hnew
    · rw [hinvoices]
      exact h.once
    · rw [hinvoices]
      exact h.named
    · rw [hinvoices]
      exact h.recorded
    · exact h.admitted
    · exact h.alone
    · rw [hinvoices]
      exact h.adding
    · rw [hinvoices]
      exact h.present
    · exact h.one
  | @begin principalId invoice =>
    have hstart := startInvoice_cases (w := w) principalId invoice
    constructor
    · exact h.conforms
    · exact h.once
    · exact h.named
    · intro r hr
      obtain ⟨k, call, hk, hphase, heq⟩ := h.recorded r hr
      exact ⟨k, call, begun_other hk, hphase, heq⟩
    · intro k call hk hphase
      rcases begun_cases hk with ⟨_, rfl⟩ | hk
      · rcases hstart with ⟨error, herror⟩ | ⟨_, howner, hconforms⟩
        · exact absurd herror (hphase error)
        · exact ⟨howner, hconforms⟩
      · exact h.admitted k call hk hphase
    · have hidle : ¬(startInvoice w principalId invoice).HoldsLock := by
        rcases hstart with ⟨error, herror⟩ | ⟨hwaiting, _⟩
        · rw [herror]
          exact id
        · rw [hwaiting]
          exact id
      intro i j a b hi hj ha hb hsame
      rcases begun_cases hi with ⟨_, rfl⟩ | hi
      · exact absurd ha hidle
      · rcases begun_cases hj with ⟨_, rfl⟩ | hj
        · exact absurd hb hidle
        · exact h.alone i j a b hi hj ha hb hsame
    · intro k call receipt hk hphase
      rcases begun_cases hk with ⟨_, rfl⟩ | hk
      · rcases hstart with ⟨error, herror⟩ | ⟨hwaiting, _⟩
        · simp [herror] at hphase
        · simp [hwaiting] at hphase
      · exact h.adding k call receipt hk hphase
    · intro k call hk hphase
      rcases begun_cases hk with ⟨_, rfl⟩ | hk
      · rcases hstart with ⟨error, herror⟩ | ⟨hwaiting, _⟩
        · simp [herror] at hphase
        · simp [hwaiting] at hphase
      · exact h.present k call hk hphase
    · intro k call count hk hphase
      rcases begun_cases hk with ⟨_, rfl⟩ | hk
      · rcases hstart with ⟨error, herror⟩ | ⟨hwaiting, _⟩
        · simp [herror] at hphase
        · simp [hwaiting] at hphase
      · exact h.one k call count hk hphase
  | lock hk hphase hfree =>
    refine h.become hk ?_ (fun _ => .inr hfree) ?_ ?_ ?_
    · rw [hphase]
      exact id
    · simp
    · simp
    · simp
  | @read k minted call hk hphase =>
    have hlive : ¬call.phase.Ended := by
      rw [hphase]
      exact id
    have hheld : call.phase.HoldsLock := by
      rw [hphase]
      trivial
    refine h.become hk hlive (fun _ => .inl hheld) ?_ ?_ ?_
    all_goals have hread := invoiceRead s call minted
    all_goals generalize readInvoice s call minted = phase at hread
    · intro receipt hadding
      cases hread with
      | adding hname hnone =>
        cases hadding
        refine ⟨hname, rfl, fun r hr => hnone r hr ?_⟩
        obtain ⟨howner, _⟩ := h.admitted k call hk (by simp [hphase])
        rw [h.owned hr, howner]
      | _ => cases hadding
    · intro hfound
      cases hread with
      | found hname hrow heq => exact ⟨_, heq ▸ hrow⟩
      | _ => simp at hfound
    · intro count haccepted
      cases hread <;> cases haccepted
  | keep hk hphase =>
    refine h.become hk ?_ (fun hlock => hlock.elim) ?_ ?_ ?_
    · rw [hphase]
      exact id
    · simp
    · exact fun _ => h.present _ _ hk (.inl hphase)
    · simp
  | @add k call receipt rows hk hphase hrows =>
    obtain ⟨hname, hreceipt, hnew⟩ := h.adding k call receipt hk hphase
    have hlive : ¬call.phase.Ended := by
      rw [hphase]
      exact id
    have howner := (h.admitted k call hk (by simp [hphase])).1
    have href : receipt.ref = call.invoice.ref := by rw [hreceipt]; rfl
    have hinvoices (calls : List InvoiceCall) :
        (⟨rows, calls⟩ : SpendLedger).invoices = s.invoices ++ [receipt] := invoices_append hrows _
    have hadded : invoiceReceipt receipt.eventUid call.principalId call.invoice ∈
        s.invoices ++ [receipt] := by
      rw [← hreceipt]
      exact List.mem_append_right _ List.mem_cons_self
    constructor
    · intro event hevent
      rw [hrows, List.mem_append, List.mem_singleton] at hevent
      exact h.conforms event (hevent.resolve_right (by simp))
    · rw [hinvoices]
      intro a ha b hb hsame
      rw [List.mem_append, List.mem_singleton] at ha hb
      rcases ha with ha | rfl
      · rcases hb with hb | rfl
        · exact h.once a ha b hb hsame
        · exact absurd (hsame.trans href) (hnew a ha)
      · rcases hb with hb | rfl
        · exact absurd (hsame.symm.trans href) (hnew b hb)
        · rfl
    · rw [hinvoices]
      intro r hr
      rcases List.mem_append.mp hr with hr | hr
      · exact h.named r hr
      · rw [List.mem_singleton.mp hr, hreceipt]
        exact hname
    · rw [hinvoices]
      intro r hr
      rcases List.mem_append.mp hr with hr | hr
      · obtain ⟨i, earlier, hi, hover, heq⟩ := h.recorded r hr
        refine ⟨i, earlier, set_other ?_ hi, hover, heq⟩
        rintro rfl
        rw [hk] at hi
        cases hi
        exact hlive (hover ▸ trivial)
      · rw [List.mem_singleton.mp hr]
        exact ⟨k, _, set_self hk, rfl, hreceipt⟩
    · intro i moved hi hrefused
      rcases set_cases hi with ⟨_, rfl⟩ | ⟨_, hi⟩
      · exact h.admitted k call hk (by simp [hphase])
      · exact h.admitted i moved hi hrefused
    · intro i j a b hi hj ha hb hsame
      rcases set_cases hi with ⟨_, rfl⟩ | ⟨_, hi⟩
      · exact ha.elim
      · rcases set_cases hj with ⟨_, rfl⟩ | ⟨_, hj⟩
        · exact hb.elim
        · exact h.alone i j a b hi hj ha hb hsame
    · rw [hinvoices]
      intro i moved receipt' hi hmoved
      rcases set_cases hi with ⟨_, rfl⟩ | ⟨hne, hi⟩
      · cases hmoved
      · obtain ⟨hname', hreceipt', hnew'⟩ := h.adding i moved receipt' hi hmoved
        refine ⟨hname', hreceipt', ?_⟩
        intro r hr hsame
        rcases List.mem_append.mp hr with hr | hr
        · exact hnew' r hr hsame
        · -- two calls about one invoice would both hold its lock
          rw [List.mem_singleton.mp hr, href] at hsame
          have howner' := (h.admitted i moved hi (by simp [hmoved])).1
          refine hne (h.alone i k moved call hi hk ?_ ?_ ?_)
          · rw [hmoved]
            trivial
          · rw [hphase]
            trivial
          · rw [InvoiceCall.identity, InvoiceCall.identity, howner, howner', hsame]
    · rw [hinvoices]
      intro i moved hi hmoved
      rcases set_cases hi with ⟨_, rfl⟩ | ⟨_, hi⟩
      · exact ⟨_, hadded⟩
      · obtain ⟨uid, huid⟩ := h.present i moved hi hmoved
        exact ⟨uid, List.mem_append_left _ huid⟩
    · intro i moved count hi hmoved
      rcases set_cases hi with ⟨_, rfl⟩ | ⟨_, hi⟩
      · cases hmoved
        rfl
      · exact h.one i moved count hi hmoved
  | taken hk hphase =>
    refine h.become hk ?_ (fun hlock => hlock.elim) ?_ ?_ ?_
    · rw [hphase]
      exact id
    · simp
    · simp
    · simp
  | abort hk hphase =>
    refine h.become hk hphase (fun hlock => hlock.elim) ?_ ?_ ?_
    · simp
    · simp
    · simp

theorem sound_of_ledger (h : (spendLedger w).Reachable s) : s.Sound w := by
  refine Machine.reachable_keeps (I := SpendLedger.Sound w) ?_ ?_ h
  · rintro s ⟨hrows, hcalls⟩
    constructor <;> simp [SpendLedger.invoices, hrows, hcalls, Table.empty]
  · exact fun hs hstep => hs.stepped (ledgerStepped_of_step hstep)

end Safety

section Once

theorem SpendLedger.Sound.ref_eq (h : s.Sound w) (hr : r ∈ s.invoices) :
    r.ref = r.invoice.ref := by
  obtain ⟨_, call, _, _, heq⟩ := h.recorded r hr
  rw [heq, invoice_invoiceReceipt]
  rfl

theorem nodup_invoices (s : SpendLedger) : s.invoices.Nodup := by
  refine List.Nodup.filterMap ?_ (List.Nodup.of_map _ s.rows.nodup)
  intro row row' r hr hr'
  rw [Option.mem_def, invoice?_eq_some] at hr hr'
  rw [hr, hr']

theorem mem_accepted (h : s.Sound w) :
    invoice ∈ s.accepted ↔ ∃ r ∈ s.invoices, r.invoice = invoice := by
  simp only [SpendLedger.accepted, List.mem_map, List.mem_filter, decide_eq_true_eq]
  constructor
  · rintro ⟨call, ⟨hcall, hphase⟩, rfl⟩
    obtain ⟨k, hk⟩ := List.mem_iff_getElem?.mp hcall
    obtain ⟨uid, hrow⟩ := h.present k call hk (.inr ⟨1, hphase⟩)
    exact ⟨_, hrow, invoice_invoiceReceipt _ _ _⟩
  · rintro ⟨r, hr, rfl⟩
    obtain ⟨k, call, hk, hphase, heq⟩ := h.recorded r hr
    refine ⟨call, ⟨List.mem_of_getElem? hk, hphase⟩, ?_⟩
    rw [heq, invoice_invoiceReceipt]

/-- The ledger holds the accepted invoices, each once. -/
theorem perm_accepted (h : s.Sound w) : (s.invoices.map (·.invoice)).Perm s.accepted.dedup := by
  rw [List.perm_ext_iff_of_nodup _ (List.nodup_dedup _)]
  · intro invoice
    rw [List.mem_dedup, mem_accepted h, List.mem_map]
  · refine List.Nodup.map_on ?_ (nodup_invoices s)
    intro r hr r' hr' heq
    exact h.once r hr r' hr' (by rw [h.ref_eq hr, h.ref_eq hr', heq])

/-- What the ledger of invoices promises in a state. -/
structure InvoicesSafe (w : SpendSettings) (s : SpendLedger) : Prop where
  /-- An accepted invoice is on the ledger once, however often it was sent. -/
  once : (s.invoices.map (·.invoice)).Perm s.accepted.dedup
  /-- No two lines have one invoice's name, and all are the owner's. -/
  ids : (s.invoices.map (·.invoiceId)).Nodup
  owned : ∀ r ∈ s.invoices, r.principalId = w.ownerPrincipalId
  /-- Nothing on the ledger changes or goes. -/
  keeps : ∀ as, ((spendLedger w).run s as).rows.Extends s.rows
  /-- After an invoice was accepted, its name is answered from the ledger. -/
  settled : ∀ (k : Nat) (call : InvoiceCall), s.calls[k]? = some call →
    call.phase = .over (.accepted 1) → ∀ as (n : Nat) (later : InvoiceCall) minted,
    let s₁ := (spendLedger w).run s as
    let s₂ := (spendLedger w).run s₁ [.read n minted, .commit n]
    s₁.calls[n]? = some later → later.phase = .locked →
    later.invoice.invoiceId = call.invoice.invoiceId →
    s₂.rows = s₁.rows ∧ ∃ uid, s₂.calls[n]? = some { later with
      phase := .over (if later.invoice = call.invoice then .accepted 1
        else .refused (.conflict uid)) }
  /-- A new name is recorded under a uid that is free. -/
  fresh : ∀ (n : Nat) (call : InvoiceCall) minted, s.calls[n]? = some call →
    call.phase = .locked → NonBlank w.ownerPrincipalId →
    (∀ r ∈ s.invoices, r.invoiceId ≠ call.invoice.invoiceId) →
    (∀ row ∈ s.rows.rows, row.eventUid ≠ minted) →
    let s₁ := (spendLedger w).run s [.read n minted, .commit n]
    s₁.rows.rows = s.rows.rows ++
        [.invoice (invoiceReceipt minted w.ownerPrincipalId call.invoice)] ∧
      s₁.calls[n]? = some { call with phase := .over (.accepted 1) }

theorem next_read {minted : Ulid} (hk : s.calls[k]? = some call) (hphase : call.phase = .locked) :
    (spendLedger w).next s (.read k minted) =
      s.become k { call with phase := readInvoice s call minted } := by
  refine Machine.next_of_ok ?_
  simp only [spendLedger, ledgerStep, invoiceCallAt, hk, require_some, ok_bind, ensure_pos hphase]
  rfl

theorem next_add (hk : s.calls[k]? = some call) (hphase : call.phase = .adding r)
    (hfree : s.rows.get? (LedgerRow.invoice r).eventUid = none) :
    (spendLedger w).next s (.commit k) =
      { s.become k { call with phase := .over (.accepted 1) } with
        rows := s.rows.insert (.invoice r) hfree } := by
  refine Machine.next_of_ok ?_
  simp only [spendLedger, ledgerStep, invoiceCallAt, hk, require_some, ok_bind, hphase,
    Table.insert?_of_get?_none hfree]
  rfl

/-- A ledger that holds the invoice's name answers the call and stays as it is. -/
theorem settles (h : s.Sound w) (hr : r ∈ s.invoices) (hk : s.calls[n]? = some call)
    (hphase : call.phase = .locked) (hid : call.invoice.invoiceId = r.invoiceId) (minted : Ulid) :
    let s₂ := (spendLedger w).run s [.read n minted, .commit n]
    s₂.rows = s.rows ∧ ∃ uid, s₂.calls[n]? = some { call with
      phase := .over (if call.invoice = r.invoice then .accepted 1
        else .refused (.conflict uid)) } := by
  have howner := (h.admitted n call hk (by simp [hphase])).1
  have hprincipal : r.principalId = call.principalId := by rw [h.owned hr, howner]
  have hread := invoiceRead s call minted
  have hsame : r.ref = call.invoice.ref := by
    rw [h.ref_eq hr, ref_inj]
    exact hid.symm
  simp only [Machine.run_cons, Machine.run_nil, next_read hk hphase]
  have hself (phase : InvoicePhase) :
      (s.become n { call with phase }).calls[n]? = some { call with phase } := set_self hk
  generalize readInvoice s call minted = phase at hread
  cases hread with
  | blank hname => exact absurd (hprincipal ▸ h.named r hr) hname
  | adding _ hnone => exact absurd hsame (hnone r hr hprincipal)
  | @conflict row _ hrow _ href hne =>
    obtain rfl : row = r := h.once row hrow r hr (href.trans hsame.symm)
    have hother : call.invoice ≠ row.invoice := by
      intro heq
      apply hne
      obtain ⟨_, earlier, hj, hover, hreceipt⟩ := h.recorded row hr
      have hearlier : earlier.invoice = call.invoice := by
        rw [heq, hreceipt, invoice_invoiceReceipt]
      have hone := (h.admitted _ earlier hj (by simp [hover])).1
      rw [← hearlier, howner, ← hone]
      exact hreceipt
    have hstep : (spendLedger w).next (s.become n { call with
        phase := .over (.refused (.conflict row.eventUid)) }) (.commit n) =
        s.become n { call with phase := .over (.refused (.conflict row.eventUid)) } := by
      refine Machine.next_of_error (e := .noSuchCall) ?_
      simp only [spendLedger, ledgerStep, invoiceCallAt, hself, require_some, ok_bind]
    rw [hstep]
    refine ⟨rfl, row.eventUid, ?_⟩
    rw [if_neg hother]
    exact hself _
  | @found row _ hrow heq =>
    have href : row.ref = call.invoice.ref := by rw [heq]; rfl
    obtain rfl : row = r := h.once row hrow r hr (href.trans hsame.symm)
    have hinvoice : call.invoice = row.invoice := by rw [heq, invoice_invoiceReceipt]
    have hstep : (spendLedger w).next (s.become n { call with phase := .found }) (.commit n) =
        (s.become n { call with phase := .found }).become n
          { call with phase := .over (.accepted 1) } := by
      refine Machine.next_of_ok ?_
      simp only [spendLedger, ledgerStep, invoiceCallAt, hself, require_some, ok_bind]
      rfl
    rw [hstep]
    refine ⟨rfl, 0, ?_⟩
    rw [if_pos hinvoice]
    exact set_self (hself .found)

/-- In every state of the ledger, whatever was sent and however the transactions interleaved. -/
theorem invoices_once (h : (spendLedger w).Reachable s) : InvoicesSafe w s where
  once := perm_accepted (sound_of_ledger h)
  ids := by
    have hsound := sound_of_ledger h
    refine List.Nodup.map_on ?_ (nodup_invoices s)
    intro r hr r' hr' heq
    refine hsound.once r hr r' hr' ?_
    rw [hsound.ref_eq hr, hsound.ref_eq hr', ref_inj]
    exact heq
  owned _ := (sound_of_ledger h).owned
  keeps := ledger_extends s
  settled := by
    intro k call hk hphase as n later minted s₁ s₂ hn hlater hid
    obtain ⟨uid, hrow⟩ := (sound_of_ledger h).present k call hk (.inr ⟨1, hphase⟩)
    have hkept : invoiceReceipt uid call.principalId call.invoice ∈ s₁.invoices :=
      mem_invoices.mpr ((ledger_extends s as).subset (mem_invoices.mp hrow))
    have hsettles := settles (sound_of_ledger (h.run as)) hkept hn hlater hid minted
    rwa [invoice_invoiceReceipt] at hsettles
  fresh := by
    intro n call minted hn hphase hname hid huid
    have hsound := sound_of_ledger h
    have howner := (hsound.admitted n call hn (by simp [hphase])).1
    have hread := invoiceRead s call minted
    simp only [Machine.run_cons, Machine.run_nil, next_read hn hphase]
    have hnew : ∀ r ∈ s.invoices, r.ref ≠ call.invoice.ref := by
      intro r hr
      rw [hsound.ref_eq hr, Ne, ref_inj]
      exact hid r hr
    generalize readInvoice s call minted = phase at hread
    cases hread with
    | blank hblank => exact absurd (howner ▸ hname) hblank
    | conflict _ hrow _ href => exact absurd href (hnew _ hrow)
    | found _ hrow heq => exact absurd (by rw [heq]; rfl) (hnew _ hrow)
    | adding =>
      have hfree : s.rows.get? minted = none := Table.get?_eq_none_iff.mpr huid
      have hadded := next_add (w := w) (s := s.become n { call with
        phase := .adding (invoiceReceipt minted call.principalId call.invoice) }) (set_self hn) rfl
        hfree
      rw [hadded, ← howner]
      exact ⟨rfl, set_self (set_self hn)⟩

end Once

section Small

/-- The test's owner and a September bill; the hash takes all identities for one. -/
def invoiceSettings : SpendSettings := ⟨"invoice-owner", fun _ => 0⟩

def septemberInvoice : InfrastructureInvoice := ⟨2515 / 100, 20697, "GCP-test-2026-09"⟩

/-- The bill is sent twice at once; one of the two waits for the other's lock. -/
def sentTwice : SpendLedger :=
  (spendLedger invoiceSettings).run ⟨.empty, []⟩ [.begin "invoice-owner" septemberInvoice,
    .begin "invoice-owner" septemberInvoice, .lock 0, .lock 1, .read 0 7, .commit 0, .lock 1]

end Small

theorem invoices_once_sent_twice :
    let s := (spendLedger invoiceSettings).run sentTwice [.read 1 8, .commit 1]
    s.invoices = [invoiceReceipt 7 "invoice-owner" septemberInvoice] ∧
      s.accepted = [septemberInvoice, septemberInvoice] := by
  have hreachable : (spendLedger invoiceSettings).Reachable sentTwice :=
    ⟨⟨.empty, []⟩, _, ⟨rfl, rfl⟩, rfl⟩
  have hsettled := (invoices_once hreachable).settled 0
    ⟨"invoice-owner", septemberInvoice, .over (.accepted 1)⟩ (by decide +kernel) rfl [] 1
    ⟨"invoice-owner", septemberInvoice, .locked⟩ 8 (by decide +kernel) rfl rfl
  refine ⟨?_, by decide +kernel⟩
  rw [Machine.run_nil] at hsettled
  rw [SpendLedger.invoices, hsettled.1]
  decide +kernel

end Nocturne.Spend
