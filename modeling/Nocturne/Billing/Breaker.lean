import Nocturne.Billing.Reader

namespace Nocturne.Billing

open Nocturne.Lib

def projectId : String := "n8-memory-palace"

def projectResource : String := "projects/" ++ projectId

namespace Value

def asStr : Value → Option Text
  | str value => some value
  | none | bool _ | decimal _ | list _ | mapping _ | other _ => Option.none

def asMapping : Value → Option (List (Text × Value))
  | mapping items => some items
  | none | bool _ | decimal _ | str _ | list _ | other _ => Option.none

def asDecimal : Value → Option Decimal
  | decimal value => some value
  | none | bool _ | str _ | list _ | mapping _ | other _ => Option.none

end Value

/-- `items.get(name)`. -/
def get (items : List (Text × Value)) (name : String) : Value :=
  (items.lookup (text name)).getD .none

/-- What the parse raises; only the first is an `InvalidNotification`. -/
inductive ParseFault
  | invalidNotification (reason : String)
  | invalidOperation
  | recursionError
  deriving DecidableEq

/-- Validated fields needed for the circuit-breaker decision. -/
structure BudgetNotification where
  messageId : Text
  billingAccountId : Text
  budgetId : Text
  costAmount : Decimal
  budgetAmount : Decimal
  deriving DecidableEq

section Parse

def mapping (value : Value) (reason : String) : Except ParseFault (List (Text × Value)) :=
  require value.asMapping (.invalidNotification reason)

def amount (value : Value) (field : String) (strictlyPositive : Bool) :
    Except ParseFault Decimal := do
  let d ← require value.asDecimal (.invalidNotification ("invalid_" ++ field))
  ensure (0 ≤ d.signed ∧ (strictlyPositive → d.signed ≠ 0))
    (.invalidNotification ("invalid_" ++ field))
  return d

def messageId (eventData : Value) : Text :=
  let message := eventData.asMapping.bind fun envelope => (get envelope "message").asMapping
  let value := message.bind fun message =>
    ((message.lookup (text "messageId")).getD (get message "message_id")).asStr
  match value with
  | some (c :: rest) => c :: rest
  | some [] | none => text "unknown"

/-- The envelope's checks, and the data it carries. -/
def budgetData (eventData : Value) (expectedBillingAccountId expectedBudgetId : Text) :
    Except ParseFault Text := do
  let envelope ← mapping eventData "event_data_not_object"
  let message ← mapping (get envelope "message") "message_missing"
  let attributes ← mapping (get message "attributes") "attributes_missing"
  ensure ((get attributes "schemaVersion").asStr = some (text "1.0"))
    (.invalidNotification "schema_version_mismatch")
  ensure ((get attributes "billingAccountId").asStr = some expectedBillingAccountId)
    (.invalidNotification "billing_account_mismatch")
  ensure ((get attributes "budgetId").asStr = some expectedBudgetId)
    (.invalidNotification "budget_id_mismatch")
  let encoded ← require (get message "data").asStr (.invalidNotification "message_data_missing")
  require ((b64decode encoded).bind utf8Decode)
    (.invalidNotification "message_data_not_base64_utf8")

/-- What becomes of a failure to read: the syntax error is caught, `_reject_json_constant` raises
the refusal itself, the rest passes through. -/
def JsonError.fault : JsonError → ParseFault
  | decodeError => .invalidNotification "message_data_not_json"
  | rejected constant => .invalidNotification ("non_finite_json_number:" ++ constant)
  | invalidOperation => .invalidOperation
  | recursionError => .recursionError

/-- The payload's checks. -/
def budgetPayload (limit : ℕ) (decoded : Text) : Except ParseFault (Decimal × Decimal) := do
  let payload ← (jsonLoads limit decoded).mapError JsonError.fault
  let payload ← mapping payload "budget_payload_not_object"
  ensure ((get payload "currencyCode").asStr = some (text "USD"))
    (.invalidNotification "currency_mismatch")
  ensure ((get payload "budgetAmountType").asStr = some (text "SPECIFIED_AMOUNT"))
    (.invalidNotification "budget_amount_type_mismatch")
  let costAmount ← amount (get payload "costAmount") "cost_amount" false
  let budgetAmount ← amount (get payload "budgetAmount") "budget_amount" true
  return (costAmount, budgetAmount)

/-- Validate a CloudEvent data object and decode its budget payload. -/
def parseBudgetNotification (limit : ℕ) (eventData : Value)
    (expectedBillingAccountId expectedBudgetId : Text) : Except ParseFault BudgetNotification := do
  let decoded ← budgetData eventData expectedBillingAccountId expectedBudgetId
  let (costAmount, budgetAmount) ← budgetPayload limit decoded
  return {
    messageId := messageId eventData
    billingAccountId := expectedBillingAccountId
    budgetId := expectedBudgetId
    costAmount
    budgetAmount }

end Parse

section Handle

inductive Action
  | invalidNotification | belowBudget | detachRequested | detachFailed | billingDetached
  deriving DecidableEq, Repr

inductive Severity
  | info | warning | error | critical
  deriving DecidableEq, Repr

/-- One structured decision line. -/
structure Decision where
  action : Action
  severity : Severity
  billingAccountId : Text
  budgetId : Text
  component : String := "billing-breaker"
  projectId : String := projectId
  messageId : Text
  costAmount : Option Decimal
  budgetAmount : Option Decimal
  reason : Option String
  errorType : Option String
  deriving DecidableEq

/-- What a handled notification does to the outside, in order. -/
inductive Effect
  | emit (decision : Decision)
  /-- `gateway_factory().set_billing_account(…)`. -/
  | setBillingAccount (projectName billingAccountName : String)
  deriving DecidableEq

inductive Answer
  | invalidNotification | belowBudget | billingDetached
  deriving DecidableEq, Repr

/-- What leaves the handler. -/
inductive Raised
  | invalidOperation
  | recursionError
  | gateway (errorType : String)
  deriving DecidableEq

/-- A decision on a parsed notification. -/
def BudgetNotification.decision (notification : BudgetNotification) (action : Action)
    (severity : Severity) (errorType : Option String) : Decision where
  action
  severity
  billingAccountId := notification.billingAccountId
  budgetId := notification.budgetId
  messageId := notification.messageId
  costAmount := some notification.costAmount
  budgetAmount := some notification.budgetAmount
  reason := none
  errorType

/-- Acknowledge one notification, detaching billing exactly at or over budget; `gateway` is the
type of what the gateway raises, if it does. -/
def handleBudgetNotification (limit : ℕ) (eventData : Value)
    (expectedBillingAccountId expectedBudgetId : Text) (gateway : Option String) :
    List Effect × Except Raised Answer :=
  match parseBudgetNotification limit eventData expectedBillingAccountId expectedBudgetId with
  | .error (.invalidNotification reason) =>
    ([.emit {
        action := .invalidNotification
        severity := .warning
        billingAccountId := expectedBillingAccountId
        budgetId := expectedBudgetId
        messageId := messageId eventData
        costAmount := none
        budgetAmount := none
        reason := some reason
        errorType := none }],
      .ok .invalidNotification)
  | .error .invalidOperation => ([], .error .invalidOperation)
  | .error .recursionError => ([], .error .recursionError)
  | .ok notification =>
    if notification.costAmount.lt notification.budgetAmount then
      ([.emit (notification.decision .belowBudget .info none)], .ok .belowBudget)
    else
      let requested := [.emit (notification.decision .detachRequested .critical none),
        .setBillingAccount projectResource ""]
      match gateway with
      | some errorType =>
        (requested ++ [.emit (notification.decision .detachFailed .error (some errorType))],
          .error (.gateway errorType))
      | none =>
        (requested ++ [.emit (notification.decision .billingDetached .critical none)],
          .ok .billingDetached)

end Handle

end Nocturne.Billing
