import DonutMonitor.Application.System
import DonutMonitor.Foundations.Stateful

/-!
# The operations of a user

Each operation of the services as one computation on the store, with its transactions in order.
What comes back from outside is given by `Answers`, and the keys of new rows by `Keys`.

## Main definitions

* `Answers`, `Keys` — what the API, the clock, the sender and the database choose.
* `UserOperation`, `UserOperation.perform` — the operations that are done on behalf of a user.
* `Keys.FreshFor` — how the database allocates keys.
-/

namespace DonutMonitor

/-- What comes back from outside in the course of an operation. The clock is read by `get_price`,
and the snapshot has its time. -/
structure Answers where
  /-- What `validate_token` comes back with. -/
  validation : Except ServiceError Unit := .ok ()
  /-- The nonce of `TokenCipher.encrypt`. -/
  nonce : ℕ := 0
  price : PriceOutcome := .listing none 0 0
  /-- What `send_alert` comes back with, for each alert in the order of their delivery. -/
  delivery : ℕ → Except String ℤ := fun _ => .ok 0

/-- The keys that the database allocates to the rows of an operation. -/
structure Keys where
  rule : ℕ
  observation : ℕ
  /-- The key of the notification of a rule. -/
  notification : ℕ → ℕ

/-- The keys for an observation and for notifications are not in use. -/
structure Keys.Unused (keys : Keys) (s : Store) : Prop where
  observation : keys.observation ∉ s.observations.keys
  notification : ∀ ruleId, keys.notification ruleId ∉ s.notifications.keys
  injective : Function.Injective keys.notification

/-- The keys are those that a database allocates: no key is used twice, and the keys of rules
increase. -/
structure Keys.FreshFor (keys : Keys) (s : Store) : Prop extends keys.Unused s where
  rule : ∀ id ∈ s.watchRules.keys, id < keys.rule

/-- The operations that are done on behalf of a user. -/
inductive UserOperation where
  | authenticate (discordUserId : ℤ) (rawToken : String)
  | logout (discordUserId : ℤ)
  | add (call : AddCall)
  | list (discordUserId : ℤ)
  | delete (discordUserId displayId : ℤ)
  | setEnabled (discordUserId displayId : ℤ) (enabled : Bool)
  | deleteByDatabaseId (discordUserId : ℤ) (databaseId : ℕ)
  | setEnabledByDatabaseId (discordUserId : ℤ) (databaseId : ℕ) (enabled : Bool)
  | process (call : ProcessCall)

/-- What an operation returns. -/
inductive OperationResult where
  | fingerprint (fingerprint : String)
  | changed (changed : Bool)
  | added (displayedRule : DisplayedRule) (snapshot : PriceSnapshot)
  | rules (rules : List DisplayedRule)
  | alerts (events : List AlertEvent)

/-- A call of a service. -/
abbrev Service : Type → Type := Stateful Store ServiceError

namespace Service

open Stateful (transaction attempt)

variable (env : Environment) (answers : Answers) (keys : Keys)

/-- `AuthService.authenticate`. -/
def authenticate (discordUserId : ℤ) (rawToken : String) : Service String := do
  let token := strip rawToken
  if token = "" then throw (.donutApiError (.authentication "Token must not be empty"))
  else
    let fingerprint := env.tokenFingerprint (strip token)
    attempt answers.validation
    let encrypted ← attempt (TokenCipher.encrypt env answers.nonce token)
    transaction fun s =>
      .ok ((), UserRepository.saveValidToken s discordUserId encrypted fingerprint)
    return fingerprint

/-- `AuthService.logout`. -/
def logout (discordUserId : ℤ) : Service Bool :=
  transaction fun s => .ok (UserRepository.logout s discordUserId).swap

/-- The bookkeeping of `RuleProcessor._deliver`, after the sender has returned or raised. -/
def recordDelivery (discordUserId : ℤ) (notificationId : ℕ) (s : Store) :
    Except String ℤ → Store
  | .error name =>
    UserRepository.recordDmError (NotificationRepository.markFailed s notificationId name)
      discordUserId name
  | .ok messageId =>
    UserRepository.clearDmError (NotificationRepository.markSent s notificationId messageId)
      discordUserId

/-- `RuleProcessor._deliver`. -/
def deliver (event : AlertEvent) (notificationId : ℕ) (answer : Except String ℤ) :
    Service Unit :=
  transaction fun s => .ok ((), recordDelivery event.discordUserId notificationId s answer)

/-- `RuleProcessor.process`. -/
def process (call : ProcessCall) : Service (List AlertEvent) :=
  if call.ruleIds = [] then return []
  else do
    let events ← transaction fun s =>
      (RuleProcessor.process env.decimal call keys.notification keys.observation s).map
        fun progress => (progress.events, progress.store)
    events.zipIdx.forM fun e => deliver e.1.1 e.1.2 (answers.delivery e.2)
    return events.map (·.1)

/-- The call of `process` in `WatchService.add`. -/
def processCall (call : AddCall) (created : CreatedRule) (snapshot : PriceSnapshot) :
    ProcessCall where
  discordUserId := call.discordUserId
  ruleIds := [created.rule.id]
  snapshot := snapshot
  notifyInitialRuleId := some created.rule.id
  nodup := List.nodup_singleton _

/-- The handler of `WatchService.add` for a failed `get_price`. -/
def undoCreate (call : AddCall) (created : CreatedRule) (error : ServiceError) :
    Service OperationResult := do
  let _ ← transaction fun s =>
    .ok (WatchRuleRepository.delete s call.discordUserId created.rule.id).swap
  throw error

/-- `WatchService.add`. -/
def add (call : AddCall) : Service OperationResult := do
  let draft ← attempt (WatchService.draft env call)
  let created ← transaction (WatchService.create env draft keys.rule)
  match answers.price with
  | .listing listing checkedAt pagesScanned =>
    let snapshot := (AddPhase.request env call created).snapshot env listing checkedAt pagesScanned
    let _ ← process env answers keys (processCall call created snapshot)
    return .added created.displayedRule snapshot
  | .donutApiError error => undoCreate call created (.donutApiError error)
  | .exception name => undoCreate call created (.other name)

/-- `WatchService.list`. -/
def list (discordUserId : ℤ) : Service (List DisplayedRule) :=
  transaction fun s => (WatchService.list discordUserId s).map fun rules => (rules, s)

/-- The operations of `WatchService` that change a rule in one transaction. -/
def change (body : Store → Except ServiceError (Store × Bool)) : Service Bool :=
  transaction fun s => (body s).map Prod.swap

end Service

namespace UserOperation

/-- The user on whose behalf the operation is done. -/
def discordUserId : UserOperation → ℤ
  | authenticate discordUserId _ | logout discordUserId | list discordUserId
  | delete discordUserId _ | setEnabled discordUserId _ _ | deleteByDatabaseId discordUserId _
  | setEnabledByDatabaseId discordUserId _ _ => discordUserId
  | add call => call.discordUserId
  | process call => call.discordUserId

/-- The operation as a computation on the store. -/
def perform (env : Environment) (answers : Answers) (keys : Keys) :
    UserOperation → Service OperationResult
  | authenticate discordUserId rawToken =>
    .fingerprint <$> Service.authenticate env answers discordUserId rawToken
  | logout discordUserId => .changed <$> Service.logout discordUserId
  | add call => Service.add env answers keys call
  | list discordUserId => .rules <$> Service.list discordUserId
  | delete discordUserId displayId =>
    .changed <$> Service.change (WatchService.delete discordUserId displayId)
  | setEnabled discordUserId displayId enabled =>
    .changed <$> Service.change (WatchService.setEnabled discordUserId displayId enabled)
  | deleteByDatabaseId discordUserId databaseId =>
    .changed <$> Service.change (WatchService.deleteByDatabaseId discordUserId databaseId)
  | setEnabledByDatabaseId discordUserId databaseId enabled =>
    .changed <$>
      Service.change (WatchService.setEnabledByDatabaseId discordUserId databaseId enabled)
  | process call => .alerts <$> Service.process env answers keys call

end UserOperation

end DonutMonitor
