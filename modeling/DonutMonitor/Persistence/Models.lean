import DonutMonitor.Core.Config
import DonutMonitor.Domain.Hysteresis

/-!
# Rows of the database

The four mapped classes. The columns `created_at` and `updated_at` are set by the database and
read by no service, and are left out. Decimal values are taken to be stored exactly: the rounding of
a `Numeric` column to the digits of its scale is left out. Times are in seconds since the epoch; the
driver may drop their time zone, which `_cooldown_ready` puts back.

The values from which the services create a rule satisfy its three bounds, and no statement writes
these columns afterwards, so the bounds are fields of `WatchRule`.
-/

namespace DonutMonitor

/-- `User`. -/
structure User where
  discordUserId : ℤ
  encryptedDonutToken : String
  tokenFingerprint : String
  tokenStatus : TokenStatus := .valid
  lastSuccessfulRequestAt : Option ℚ := none
  invalidTokenNotifiedAt : Option ℚ := none
  dmErrorCount : ℤ := 0
  lastDmError : Option String := none
  deriving DecidableEq

/-- `WatchRule`. -/
structure WatchRule where
  id : ℕ
  discordUserId : ℤ
  itemId : String
  displayName : String
  condition : Condition
  threshold : ℚ
  priceType : PriceType
  hysteresisPercent : ℚ
  cooldownSeconds : ℤ
  enabled : Bool := true
  currentState : RuleState := .unknown
  lastObservedPrice : Option ℚ := none
  lastCheckedAt : Option ℚ := none
  lastTriggeredAt : Option ℚ := none
  threshold_pos : 0 < threshold
  hysteresis_nonneg : 0 ≤ hysteresisPercent
  cooldown_pos : 0 < cooldownSeconds
  deriving DecidableEq

/-- The arguments of `WatchRuleRepository.create`. -/
structure RuleDraft where
  discordUserId : ℤ
  itemId : String
  displayName : String
  condition : Condition
  threshold : ℚ
  priceType : PriceType
  hysteresisPercent : ℚ
  cooldownSeconds : ℤ
  threshold_pos : 0 < threshold
  hysteresis_nonneg : 0 ≤ hysteresisPercent
  cooldown_pos : 0 < cooldownSeconds
  deriving DecidableEq

/-- The row of a new rule, under the key that the database allocates. -/
def RuleDraft.row (draft : RuleDraft) (id : ℕ) : WatchRule where
  id := id
  discordUserId := draft.discordUserId
  itemId := draft.itemId
  displayName := draft.displayName
  condition := draft.condition
  threshold := draft.threshold
  priceType := draft.priceType
  hysteresisPercent := draft.hysteresisPercent
  cooldownSeconds := draft.cooldownSeconds
  threshold_pos := draft.threshold_pos
  hysteresis_nonneg := draft.hysteresis_nonneg
  cooldown_pos := draft.cooldown_pos

/-- A watch of user 1 for prices of elytras at or below 100. -/
def RuleDraft.elytra : RuleDraft where
  discordUserId := 1
  itemId := "elytra"
  displayName := "Elytra"
  condition := .priceDown
  threshold := 100
  priceType := .total
  hysteresisPercent := Settings.unset.defaultHysteresisPercent
  cooldownSeconds := Settings.unset.defaultNotificationCooldownSeconds
  threshold_pos := by decide
  hysteresis_nonneg := Settings.unset.hysteresis_nonneg
  cooldown_pos := Settings.unset.cooldown_pos

@[simp] theorem RuleDraft.row_id (draft : RuleDraft) (id : ℕ) : (draft.row id).id = id := rfl

@[simp] theorem RuleDraft.row_discordUserId (draft : RuleDraft) (id : ℕ) :
    (draft.row id).discordUserId = draft.discordUserId := rfl

/-- `PriceObservation`. -/
structure PriceObservation where
  id : ℕ
  discordUserId : ℤ
  itemId : String
  price : Option ℚ
  listingPrice : Option ℚ
  itemCount : Option ℤ
  sellerName : Option String
  observedAt : ℚ
  deriving DecidableEq

/-- `Notification`. -/
structure Notification where
  id : ℕ
  watchRuleId : ℕ
  price : ℚ
  previousPrice : Option ℚ
  deliveryStatus : DeliveryStatus := .pending
  discordMessageId : Option ℤ := none
  errorMessage : Option String := none
  deriving DecidableEq

namespace WatchRule

/-- The columns of a rule that the evaluator reads and no evaluation writes. -/
def thresholdRule (rule : WatchRule) : ThresholdRule where
  condition := rule.condition
  threshold := rule.threshold
  hysteresisPercent := rule.hysteresisPercent
  cooldownSeconds := rule.cooldownSeconds

/-- The columns that an evaluation feeds to the next one. -/
def watchState (rule : WatchRule) : WatchState where
  state := rule.currentState
  lastTriggeredAt := rule.lastTriggeredAt

/-- The pair of item and price type by which polls group the rules. -/
def request (rule : WatchRule) : String × PriceType := (rule.itemId, rule.priceType)

/-- `values(enabled=…)`, which on a resume also resets the state. -/
def withEnabled (rule : WatchRule) (enabled : Bool) : WatchRule :=
  if enabled then { rule with enabled := true, currentState := .unknown }
  else { rule with enabled := false }

/-- The columns that the processing of a snapshot assigns. -/
def withEvaluation (rule : WatchRule) (evaluation : Evaluation) (price : Option ℚ)
    (checkedAt : ℚ) : WatchRule :=
  { rule with
    currentState := evaluation.state
    lastObservedPrice := price
    lastCheckedAt := some checkedAt
    lastTriggeredAt :=
      if evaluation.triggered && price.isSome then some checkedAt else rule.lastTriggeredAt }

section Updates

variable (rule : WatchRule) (enabled : Bool) (evaluation : Evaluation) (price : Option ℚ)
  (checkedAt : ℚ)

@[simp] theorem withEnabled_id : (rule.withEnabled enabled).id = rule.id := by
  cases enabled <;> rfl

@[simp] theorem withEnabled_discordUserId :
    (rule.withEnabled enabled).discordUserId = rule.discordUserId := by
  cases enabled <;> rfl

@[simp] theorem withEnabled_enabled : (rule.withEnabled enabled).enabled = enabled := by
  cases enabled <;> rfl

@[simp] theorem withEnabled_request : (rule.withEnabled enabled).request = rule.request := by
  cases enabled <;> rfl

@[simp] theorem withEnabled_thresholdRule :
    (rule.withEnabled enabled).thresholdRule = rule.thresholdRule := by
  cases enabled <;> rfl

@[simp] theorem withEnabled_lastTriggeredAt :
    (rule.withEnabled enabled).lastTriggeredAt = rule.lastTriggeredAt := by
  cases enabled <;> rfl

@[simp] theorem withEnabled_lastObservedPrice :
    (rule.withEnabled enabled).lastObservedPrice = rule.lastObservedPrice := by
  cases enabled <;> rfl

@[simp] theorem withEvaluation_id :
    (rule.withEvaluation evaluation price checkedAt).id = rule.id := rfl

@[simp] theorem withEvaluation_discordUserId :
    (rule.withEvaluation evaluation price checkedAt).discordUserId = rule.discordUserId := rfl

@[simp] theorem withEvaluation_enabled :
    (rule.withEvaluation evaluation price checkedAt).enabled = rule.enabled := rfl

@[simp] theorem withEvaluation_request :
    (rule.withEvaluation evaluation price checkedAt).request = rule.request := rfl

@[simp] theorem withEvaluation_thresholdRule :
    (rule.withEvaluation evaluation price checkedAt).thresholdRule = rule.thresholdRule := rfl

end Updates

end WatchRule

end DonutMonitor
