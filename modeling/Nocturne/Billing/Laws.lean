import Nocturne.Billing.Breaker

namespace Nocturne.Billing

open Nocturne.Lib

namespace Value

variable {v : Value}

@[simp] theorem asStr_eq_some {value : Text} : v.asStr = some value ↔ v = str value := by
  cases v <;> simp [asStr]

@[simp] theorem asMapping_eq_some {items : List (Text × Value)} :
    v.asMapping = some items ↔ v = mapping items := by
  cases v <;> simp [asMapping]

@[simp] theorem asDecimal_eq_some {value : Decimal} :
    v.asDecimal = some value ↔ v = decimal value := by
  cases v <;> simp [asDecimal]

end Value

namespace Decimal

variable {d : Decimal}

theorem value_nonneg_iff : 0 ≤ d.value ↔ 0 ≤ d.signed := by
  rw [value, mul_nonneg_iff_of_pos_right (zpow_pos (by norm_num) _), Int.cast_nonneg_iff]

theorem value_pos_iff : 0 < d.value ↔ 0 ≤ d.signed ∧ d.signed ≠ 0 := by
  rw [value, mul_pos_iff_of_pos_right (zpow_pos (by norm_num) _), Int.cast_pos, lt_iff_le_and_ne]
  exact and_congr_right fun _ => ne_comm

end Decimal

variable (limit : ℕ) (eventData : Value) (account budget : Text)

/-- The event is an envelope of the schema, for the account and budget expected, and what it
carries decodes to `decoded`. -/
def Carries (decoded : Text) : Prop :=
  ∃ envelope message attributes encoded,
    eventData = .mapping envelope ∧ get envelope "message" = .mapping message ∧
    get message "attributes" = .mapping attributes ∧
    get attributes "schemaVersion" = .str (text "1.0") ∧
    get attributes "billingAccountId" = .str account ∧ get attributes "budgetId" = .str budget ∧
    get message "data" = .str encoded ∧ (b64decode encoded).bind utf8Decode = some decoded

/-- The text is a JSON budget in dollars, with a cost from zero on and a positive amount. -/
def Pays (decoded : Text) (cost amount : Decimal) : Prop :=
  ∃ payload, jsonLoads limit decoded = .ok (.mapping payload) ∧
    get payload "currencyCode" = .str (text "USD") ∧
    get payload "budgetAmountType" = .str (text "SPECIFIED_AMOUNT") ∧
    get payload "costAmount" = .decimal cost ∧ get payload "budgetAmount" = .decimal amount ∧
    0 ≤ cost.value ∧ 0 < amount.value

/-- A valid notification for the account and budget, of a cost and its budget. -/
def Notifies (cost amount : Decimal) : Prop :=
  ∃ decoded, Carries eventData account budget decoded ∧ Pays limit decoded cost amount

/-- Reading what the event carries meets no number an exact decimal cannot hold, and no nesting
past the recursion limit, before it ends or meets what is refused. -/
def Readable : Prop :=
  ∀ decoded, Carries eventData account budget decoded →
    jsonLoads limit decoded ≠ .error .invalidOperation ∧
      jsonLoads limit decoded ≠ .error .recursionError

section Parse

variable {limit eventData account budget} {decoded : Text} {cost budgetAmount : Decimal}

def IsInvalid (fault : ParseFault) : Prop := ∃ reason, fault = .invalidNotification reason

theorem budgetData_eq_ok :
    budgetData eventData account budget = .ok decoded ↔
      Carries eventData account budget decoded := by
  simp only [budgetData, mapping, bind_eq_ok, require_eq_ok, ensure_eq_ok,
    Value.asMapping_eq_some, Value.asStr_eq_some]
  constructor
  · rintro ⟨envelope, henvelope, message, hmessage, attributes, hattributes, _, hschema, _,
      haccount, _, hbudget, encoded, hencoded, hdecoded⟩
    exact ⟨envelope, message, attributes, encoded, henvelope, hmessage, hattributes, hschema,
      haccount, hbudget, hencoded, hdecoded⟩
  · rintro ⟨envelope, message, attributes, encoded, henvelope, hmessage, hattributes, hschema,
      haccount, hbudget, hencoded, hdecoded⟩
    exact ⟨envelope, henvelope, message, hmessage, attributes, hattributes, .unit, hschema, .unit,
      haccount, .unit, hbudget, encoded, hencoded, hdecoded⟩

theorem budgetData_refuses :
    Meets (fun _ => True) IsInvalid (budgetData eventData account budget) := by
  refine (Meets.require ⟨_, rfl⟩).bind fun envelope _ => ?_
  refine (Meets.require ⟨_, rfl⟩).bind fun message _ => ?_
  refine (Meets.require ⟨_, rfl⟩).bind fun attributes _ => ?_
  refine (Meets.ensure ⟨_, rfl⟩).bind fun _ _ => ?_
  refine (Meets.ensure ⟨_, rfl⟩).bind fun _ _ => ?_
  refine (Meets.ensure ⟨_, rfl⟩).bind fun _ _ => ?_
  refine (Meets.require ⟨_, rfl⟩).bind fun encoded _ => ?_
  exact (Meets.require ⟨_, rfl⟩).mono fun _ _ => trivial

theorem amount_eq_ok {value : Value} {field : String} {strictlyPositive : Bool} {d : Decimal} :
    amount value field strictlyPositive = .ok d ↔
      value = .decimal d ∧ 0 ≤ d.signed ∧ (strictlyPositive → d.signed ≠ 0) := by
  simp only [amount, bind_eq_ok, require_eq_ok, ensure_eq_ok, pure_eq_ok, Value.asDecimal_eq_some]
  constructor
  · rintro ⟨d, hvalue, _, hbounds, rfl⟩
    exact ⟨hvalue, hbounds⟩
  · rintro ⟨hvalue, hbounds⟩
    exact ⟨d, hvalue, .unit, hbounds, rfl⟩

theorem mapError_eq_ok {ε ε' α : Type} {m : Except ε α} {f : ε → ε'} {a : α} :
    m.mapError f = .ok a ↔ m = .ok a := by
  cases m <;> simp [Except.mapError]

theorem budgetPayload_eq_ok :
    budgetPayload limit decoded = .ok (cost, budgetAmount) ↔
      Pays limit decoded cost budgetAmount := by
  simp only [budgetPayload, mapping, bind_eq_ok, mapError_eq_ok, require_eq_ok, ensure_eq_ok,
    pure_eq_ok, amount_eq_ok, Value.asMapping_eq_some, Value.asStr_eq_some]
  constructor
  · rintro ⟨_, hload, payload, rfl, _, hcurrency, _, htype, _, ⟨hcost, hnonneg, _⟩, _,
      ⟨hbudget, hpos⟩, rfl, rfl⟩
    rw [← Decimal.value_nonneg_iff] at hnonneg
    refine ⟨payload, hload, hcurrency, htype, hcost, hbudget, hnonneg, ?_⟩
    rw [Decimal.value_pos_iff]
    exact ⟨hpos.1, hpos.2 trivial⟩
  · rintro ⟨payload, hload, hcurrency, htype, hcost, hbudget, hnonneg, hpos⟩
    rw [Decimal.value_nonneg_iff] at hnonneg
    rw [Decimal.value_pos_iff] at hpos
    obtain ⟨hle, hne⟩ := hpos
    exact ⟨_, hload, payload, rfl, .unit, hcurrency, .unit, htype, cost,
      ⟨hcost, hnonneg, fun h => absurd h Bool.false_ne_true⟩, budgetAmount,
      ⟨hbudget, hle, fun _ => hne⟩, rfl⟩

/-- Once the payload is read, only refusals are left. -/
theorem budgetPayload_refuses {payload : Value} (h : jsonLoads limit decoded = .ok payload) :
    Meets (fun _ => True) IsInvalid (budgetPayload limit decoded) := by
  have hamount {value : Value} {field : String} {strictlyPositive : Bool} :
      Meets (fun _ => True) IsInvalid (amount value field strictlyPositive) := by
    refine (Meets.require ⟨_, rfl⟩).bind fun d _ => ?_
    exact (Meets.ensure ⟨_, rfl⟩).bind fun _ _ => Meets.pure trivial
  unfold budgetPayload
  rw [h]
  refine (Meets.ok trivial).bind fun _ (_ : True) => ?_
  refine (Meets.require ⟨_, rfl⟩).bind fun payload _ => ?_
  refine (Meets.ensure ⟨_, rfl⟩).bind fun _ _ => ?_
  refine (Meets.ensure ⟨_, rfl⟩).bind fun _ _ => ?_
  refine hamount.bind fun costAmount _ => ?_
  exact hamount.bind fun budgetAmount _ => Meets.pure trivial

theorem carries_unique {decoded' : Text} (h : Carries eventData account budget decoded)
    (h' : Carries eventData account budget decoded') : decoded = decoded' := by
  rw [← budgetData_eq_ok] at h h'
  exact Except.ok.inj (h.symm.trans h')

theorem parse_eq_ok {notification : BudgetNotification} :
    parseBudgetNotification limit eventData account budget = .ok notification ↔
      Notifies limit eventData account budget notification.costAmount
        notification.budgetAmount ∧
      notification = ⟨messageId eventData, account, budget, notification.costAmount,
        notification.budgetAmount⟩ := by
  simp only [parseBudgetNotification, bind_eq_ok, pure_eq_ok, budgetData_eq_ok, Prod.exists,
    budgetPayload_eq_ok]
  constructor
  · rintro ⟨decoded, hcarries, cost, budgetAmount, hpays, rfl⟩
    exact ⟨⟨decoded, hcarries, hpays⟩, rfl⟩
  · rintro ⟨⟨decoded, hcarries, hpays⟩, hnotification⟩
    exact ⟨decoded, hcarries, _, _, hpays, hnotification.symm⟩

/-- What the parse raises beside a refusal comes from reading the text it was carried. -/
theorem parse_raises {fault : ParseFault}
    (h : parseBudgetNotification limit eventData account budget = .error fault) :
    IsInvalid fault ↔ Readable limit eventData account budget := by
  unfold parseBudgetNotification at h
  cases hdata : budgetData eventData account budget with
  | error refusal =>
    rw [hdata, error_bind] at h
    cases h
    refine iff_of_true (Meets.of_error budgetData_refuses hdata) fun decoded hcarries => ?_
    rw [← budgetData_eq_ok, hdata] at hcarries
    cases hcarries
  | ok decoded =>
    have hcarries : Carries eventData account budget decoded := by
      rw [← budgetData_eq_ok]
      exact hdata
    rw [hdata, ok_bind] at h
    cases hload : jsonLoads limit decoded with
    | ok payload =>
      have hpayload : budgetPayload limit decoded = .error fault := by
        cases hresult : budgetPayload limit decoded with
        | ok amounts =>
          rw [hresult] at h
          cases h
        | error refusal =>
          rw [hresult] at h
          cases h
          rfl
      refine iff_of_true ((budgetPayload_refuses hload).of_error hpayload) fun decoded' h' => ?_
      rw [← carries_unique hcarries h', hload]
      exact ⟨nofun, nofun⟩
    | error failure =>
      have hfault : budgetPayload limit decoded = .error failure.fault := by
        rw [budgetPayload, hload]
        rfl
      rw [hfault, error_bind] at h
      cases h
      have hreadable : Readable limit eventData account budget ↔
          failure ≠ .invalidOperation ∧ failure ≠ .recursionError := by
        constructor
        · intro hreadable
          have hloads := hreadable decoded hcarries
          rw [hload] at hloads
          exact ⟨fun hfailure => hloads.1 (by rw [hfailure]),
            fun hfailure => hloads.2 (by rw [hfailure])⟩
        · rintro ⟨hoperation, hrecursion⟩ decoded' h'
          rw [← carries_unique hcarries h', hload]
          exact ⟨fun heq => hoperation (Except.error.inj heq),
            fun heq => hrecursion (Except.error.inj heq)⟩
      rw [hreadable]
      cases failure with
      | decodeError => exact iff_of_true ⟨_, rfl⟩ ⟨nofun, nofun⟩
      | rejected constant => exact iff_of_true ⟨_, rfl⟩ ⟨nofun, nofun⟩
      | invalidOperation => exact iff_of_false nofun fun hne => hne.1 rfl
      | recursionError => exact iff_of_false nofun fun hne => hne.2 rfl

theorem readable_of_parse {notification : BudgetNotification}
    (h : parseBudgetNotification limit eventData account budget = .ok notification) :
    Readable limit eventData account budget := by
  rw [parse_eq_ok] at h
  obtain ⟨⟨decoded, hcarries, payload, hload, _⟩, _⟩ := h
  intro decoded' h'
  rw [← carries_unique hcarries h', hload]
  exact ⟨nofun, nofun⟩

end Parse

section Handle

/-- An attempt to have the gateway set the account. -/
def Effect.isDetach : Effect → Bool
  | setBillingAccount _ _ => true
  | emit _ => false

def detaches (effects : List Effect) : ℕ := effects.countP Effect.isDetach

/-- What the breaker is for: one detach at most, and one just where a valid notification reports
its budget reached; what is not valid is acknowledged; only the gateway's failure comes out. -/
structure Decides (gateway : Option String) : Prop where
  once : detaches (handleBudgetNotification limit eventData account budget gateway).1 ≤ 1
  requested : detaches (handleBudgetNotification limit eventData account budget gateway).1 = 1 ↔
    ∃ cost amount, Notifies limit eventData account budget cost amount ∧ amount.value ≤ cost.value
  acknowledged : (¬∃ cost amount, Notifies limit eventData account budget cost amount) →
    (handleBudgetNotification limit eventData account budget gateway).2 = .ok .invalidNotification
  raised : ∀ e, (handleBudgetNotification limit eventData account budget gateway).2 = .error e →
    ∃ errorType, gateway = some errorType ∧ e = .gateway errorType

variable {limit eventData account budget} {gateway : Option String}
  {notification : BudgetNotification}

theorem not_notifies {fault : ParseFault}
    (h : parseBudgetNotification limit eventData account budget = .error fault) :
    ¬∃ cost amount, Notifies limit eventData account budget cost amount := by
  rintro ⟨cost, amount, hnotifies⟩
  have hok : parseBudgetNotification limit eventData account budget =
      .ok ⟨messageId eventData, account, budget, cost, amount⟩ := by
    rw [parse_eq_ok]
    exact ⟨hnotifies, rfl⟩
  rw [hok] at h
  cases h

/-- The budget is reached just where the cost parsed is not below the amount parsed. -/
theorem reached_iff
    (h : parseBudgetNotification limit eventData account budget = .ok notification) :
    (∃ cost amount, Notifies limit eventData account budget cost amount ∧
        amount.value ≤ cost.value) ↔
      ¬notification.costAmount.lt notification.budgetAmount := by
  rw [Decimal.lt_iff, not_lt]
  constructor
  · rintro ⟨cost, amount, hnotifies, hle⟩
    have hok : parseBudgetNotification limit eventData account budget =
        .ok ⟨messageId eventData, account, budget, cost, amount⟩ := by
      rw [parse_eq_ok]
      exact ⟨hnotifies, rfl⟩
    rw [hok] at h
    cases h
    exact hle
  · intro hle
    rw [parse_eq_ok] at h
    exact ⟨_, _, h.1, hle⟩

/-- A parsed notification is decided as it should be. -/
theorem decides_of_parse
    (h : parseBudgetNotification limit eventData account budget = .ok notification) :
    Decides limit eventData account budget gateway := by
  have hnotifies := (parse_eq_ok.1 h).1
  have hreached := reached_iff h
  by_cases hbelow : notification.costAmount.lt notification.budgetAmount
  · have hrun : handleBudgetNotification limit eventData account budget gateway =
        ([.emit (notification.decision .belowBudget .info none)], .ok .belowBudget) := by
      rw [handleBudgetNotification, h]
      exact if_pos hbelow
    constructor
    · rw [hrun]
      exact Nat.zero_le 1
    · rw [hrun]
      exact iff_of_false (Nat.zero_ne_one) fun hpaid => hreached.mp hpaid hbelow
    · exact fun hnone => absurd ⟨_, _, hnotifies⟩ hnone
    · rw [hrun]
      exact nofun
  · have hdetaches :
        detaches (handleBudgetNotification limit eventData account budget gateway).1 = 1 := by
      rw [handleBudgetNotification, h]
      dsimp only
      rw [if_neg hbelow]
      cases gateway <;> rfl
    constructor
    · exact hdetaches.le
    · exact iff_of_true hdetaches (hreached.mpr hbelow)
    · exact fun hnone => absurd ⟨_, _, hnotifies⟩ hnone
    · intro e he
      rw [handleBudgetNotification, h] at he
      dsimp only at he
      rw [if_neg hbelow] at he
      cases gateway with
      | none => cases he
      | some errorType =>
        cases he
        exact ⟨errorType, rfl, rfl⟩

/-- The breaker decides every payload as it should but those whose reading fails with neither a
syntax error nor a refusal. -/
theorem breaker_decides (limit : ℕ) (eventData : Value) (account budget : Text)
    (gateway : Option String) :
    Decides limit eventData account budget gateway ↔
      Readable limit eventData account budget := by
  cases hparse : parseBudgetNotification limit eventData account budget with
  | ok notification => exact iff_of_true (decides_of_parse hparse) (readable_of_parse hparse)
  | error fault =>
    have hnone := not_notifies hparse
    have hraises := parse_raises hparse
    cases fault with
    | invalidNotification reason =>
      refine iff_of_true ?_ (hraises.mp ⟨reason, rfl⟩)
      constructor
      · rw [handleBudgetNotification, hparse]
        exact Nat.zero_le 1
      · rw [handleBudgetNotification, hparse]
        exact iff_of_false Nat.zero_ne_one fun ⟨cost, amount, hnotifies, _⟩ =>
          hnone ⟨cost, amount, hnotifies⟩
      · rw [handleBudgetNotification, hparse]
        exact fun _ => rfl
      · rw [handleBudgetNotification, hparse]
        exact nofun
    | invalidOperation =>
      refine iff_of_false (fun hdecides => ?_) fun hreadable => nomatch hraises.mpr hreadable
      obtain ⟨_, _, hgateway⟩ := hdecides.raised .invalidOperation
        (by rw [handleBudgetNotification, hparse])
      cases hgateway
    | recursionError =>
      refine iff_of_false (fun hdecides => ?_) fun hreadable => nomatch hraises.mpr hreadable
      obtain ⟨_, _, hgateway⟩ := hdecides.raised .recursionError
        (by rw [handleBudgetNotification, hparse])
      cases hgateway

theorem text_ofList (l : List Char) : text (.ofList l) = l.map Char.toNat := by
  rw [text, String.toList_ofList]

theorem text_append (s t : String) : text (s ++ t) = text s ++ text t := by
  rw [text, String.toList_append, List.map_append, text, text]

/-- An envelope around a payload in base64. -/
def event (encoded : String) : Value :=
  .mapping [(text "message", .mapping [
    (text "attributes", .mapping [(text "billingAccountId", .str (text "01D4EE-079462-DFD6EC")),
      (text "budgetId", .str (text "de72f49d")), (text "schemaVersion", .str (text "1.0"))]),
    (text "data", .str (text encoded)), (text "messageId", .str (text "fixture-message-1"))])]

/-- A cost of `1e1000000000000000000`, otherwise as a notification should be. -/
theorem breaker_decides_huge : ¬Decides 1000 (event ("eyJidWRnZXRBbW91bnQiOjEwMC4wLCJidWRnZXRBbW" ++
    "91bnRUeXBlIjoiU1BFQ0lGSUVEX0FNT1VOVCIsImNvc3RBbW91bnQiOjFlMTAwMDAwMDAwMDAwMDAwMDAwMCwiY3Vy" ++
    "cmVuY3lDb2RlIjoiVVNEIn0=")) (text "01D4EE-079462-DFD6EC") (text "de72f49d") none := by
  intro hdecides
  obtain ⟨_, hgateway, _⟩ := hdecides.raised .invalidOperation (by
    -- Evaluating a literal's characters costs its length squared; unfolding it does not.
    simp only [event, text_append]
    repeat rw [text_ofList]
    decide +kernel)
  cases hgateway

end Handle

end Nocturne.Billing
