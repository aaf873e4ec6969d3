import DonutMonitor.Persistence.Store
import Mathlib.Data.List.Sort

/-!
# Repositories

The statements of the four repositories, as functions of the store within a transaction. The keys
of new rows are allocated by the database and are arguments; an insertion that violates a primary
or a foreign key is rejected.
-/

namespace DonutMonitor

/-- The exceptions of a statement that the database rejects: a key constraint, a value that does
not fit its column, or a failure of the database itself. -/
inductive DatabaseError where
  | integrityError
  | dataError
  | operationalError
  deriving DecidableEq, Repr

namespace UserRepository

variable (s : Store) (discordUserId : ℤ)

/-- `UserRepository.get`. -/
def get : Option User := s.users.get? discordUserId

/-- `UserRepository.save_valid_token`. -/
def saveValidToken (encryptedToken fingerprint : String) : Store :=
  if h : discordUserId ∈ s.users.keys then
    s.updateUsers (·.discordUserId = discordUserId)
      (fun user =>
        { user with
          encryptedDonutToken := encryptedToken
          tokenFingerprint := fingerprint
          tokenStatus := .valid
          invalidTokenNotifiedAt := none })
      fun _ => rfl
  else
    s.insertUser
      { discordUserId := discordUserId
        encryptedDonutToken := encryptedToken
        tokenFingerprint := fingerprint
        tokenStatus := .valid }
      h

/-- `UserRepository.logout`. -/
def logout : Store × Bool := (s.deleteUser discordUserId, discordUserId ∈ s.users.keys)

/-- `UserRepository.mark_invalid`. -/
def markInvalid : Store :=
  (s.updateUsers (·.discordUserId = discordUserId)
    (fun user => { user with tokenStatus := .invalid }) fun _ => rfl).updateRules
    (·.discordUserId = discordUserId) (·.withEnabled false) (fun r => r.withEnabled_id false)
    fun r => r.withEnabled_discordUserId false

/-- `UserRepository.mark_invalid_notified`. -/
def markInvalidNotified (at_ : ℚ) : Store :=
  s.updateUsers (·.discordUserId = discordUserId)
    (fun user => { user with invalidTokenNotifiedAt := some at_ }) fun _ => rfl

/-- `UserRepository.mark_api_success`. -/
def markApiSuccess (at_ : ℚ) : Store :=
  s.updateUsers (·.discordUserId = discordUserId)
    (fun user => { user with lastSuccessfulRequestAt := some at_ }) fun _ => rfl

/-- `message[:255]`. -/
def truncate (message : String) : String := .ofList (message.toList.take 255)

/-- `UserRepository.record_dm_error`. -/
def recordDmError (message : String) : Store :=
  s.updateUsers (·.discordUserId = discordUserId)
    (fun user =>
      { user with
        dmErrorCount := user.dmErrorCount + 1
        lastDmError := some (truncate message) })
    fun _ => rfl

/-- `UserRepository.clear_dm_error`. -/
def clearDmError : Store :=
  s.updateUsers (·.discordUserId = discordUserId)
    (fun user => { user with dmErrorCount := 0, lastDmError := none }) fun _ => rfl

/-- `UserRepository.valid_users_with_rules`: the users, each with its loaded rules. -/
def validUsersWithRules : List (User × List WatchRule) :=
  (s.users.rows.map fun user =>
    (user, s.watchRules.rows.filter (·.discordUserId = user.discordUserId))).filter
    fun (user, rules) => user.tokenStatus = .valid && rules.any (·.enabled)

theorem mem_validUsersWithRules {user : User} {rules : List WatchRule} :
    (user, rules) ∈ validUsersWithRules s ↔ user ∈ s.users.rows ∧ user.tokenStatus = .valid ∧
      rules = s.watchRules.rows.filter (·.discordUserId = user.discordUserId) ∧
        ∃ rule ∈ rules, rule.enabled = true := by
  simp only [validUsersWithRules, List.mem_filter, List.mem_map, Prod.mk.injEq, Bool.and_eq_true,
    decide_eq_true_eq, List.any_eq_true]
  constructor
  · rintro ⟨⟨_, hmem, rfl, rfl⟩, hvalid, henabled⟩
    exact ⟨hmem, hvalid, rfl, henabled⟩
  · rintro ⟨hmem, hvalid, rfl, henabled⟩
    exact ⟨⟨user, hmem, rfl, rfl⟩, hvalid, henabled⟩

end UserRepository

namespace WatchRuleRepository

variable (s : Store) (discordUserId : ℤ) (ruleId : ℕ)

/-- `WatchRuleRepository.create`, for the allocated key `ruleId`. -/
def create (draft : RuleDraft) : Except DatabaseError (WatchRule × Store) :=
  if h : ruleId ∉ s.watchRules.keys ∧ draft.discordUserId ∈ s.users.keys then
    .ok (draft.row ruleId, s.insertRule (draft.row ruleId) h.1 h.2)
  else .error .integrityError

/-- `WatchRuleRepository.get_owned`. -/
def getOwned : Option WatchRule :=
  (s.watchRules.get? ruleId).filter (·.discordUserId = discordUserId)

/-- `WatchRuleRepository.list_for_user`. -/
def listForUser : List WatchRule :=
  (s.watchRules.rows.filter (·.discordUserId = discordUserId)).insertionSort (·.id ≤ ·.id)

/-- The row that `set_enabled` and `delete` address. -/
def isOwned (rule : WatchRule) : Bool := rule.id = ruleId && rule.discordUserId = discordUserId

/-- `WatchRuleRepository.set_enabled`. -/
def setEnabled (enabled : Bool) : Store × Bool :=
  (s.updateRules (isOwned discordUserId ruleId) (·.withEnabled enabled)
    (fun r => r.withEnabled_id enabled) (fun r => r.withEnabled_discordUserId enabled),
    (getOwned s discordUserId ruleId).isSome)

/-- `WatchRuleRepository.delete`. -/
def delete : Store × Bool :=
  (s.deleteRules (isOwned discordUserId ruleId), (getOwned s discordUserId ruleId).isSome)

variable {s discordUserId ruleId}

theorem getOwned_eq_some {rule : WatchRule} :
    getOwned s discordUserId ruleId = some rule ↔
      s.watchRules.get? ruleId = some rule ∧ rule.discordUserId = discordUserId := by
  simp [getOwned, Option.filter_eq_some_iff]

end WatchRuleRepository

namespace ObservationRepository

variable (s : Store)

/-- `ObservationRepository.add`, on the row to be inserted. -/
def add (observation : PriceObservation) : Except DatabaseError Store :=
  if h : observation.id ∉ s.observations.keys ∧ observation.discordUserId ∈ s.users.keys then
    .ok (s.insertObservation observation h.1 h.2)
  else .error .integrityError

/-- `ObservationRepository.prune`, at the reading `now` of the clock. -/
def prune (now : ℚ) (retentionDays : ℤ) : Store :=
  s.deleteObservations (·.observedAt < now - retentionDays * 86400)

end ObservationRepository

namespace NotificationRepository

variable (s : Store)

/-- `NotificationRepository.create_pending`, for the allocated key `id`. -/
def createPending (id ruleId : ℕ) (price : ℚ) (previousPrice : Option ℚ) :
    Except DatabaseError Store :=
  if h : id ∉ s.notifications.keys ∧ ruleId ∈ s.watchRules.keys then
    .ok (s.insertNotification
      { id := id
        watchRuleId := ruleId
        price := price
        previousPrice := previousPrice
        deliveryStatus := .pending }
      h.1 h.2)
  else .error .integrityError

theorem createPending_ok {s s' : Store} {id ruleId : ℕ} {price : ℚ} {previousPrice : Option ℚ}
    (h : createPending s id ruleId price previousPrice = .ok s') :
    s'.users = s.users ∧ ∀ key, s'.view key = (s.view key).map fun v =>
      if ruleId = key then ⟨v.rule, v.alerts ++ [(price, previousPrice)]⟩ else v := by
  rw [createPending] at h
  split_ifs at h with hkeys
  obtain rfl := Except.ok.inj h
  exact ⟨rfl, fun key => s.view_insertNotification key _ hkeys.1 hkeys.2⟩

/-- `NotificationRepository.mark_sent`. -/
def markSent (notificationId : ℕ) (discordMessageId : ℤ) : Store :=
  s.updateNotifications (·.id = notificationId)
    (fun notification =>
      { notification with
        deliveryStatus := .sent
        discordMessageId := some discordMessageId
        errorMessage := none })
    (fun _ => rfl) fun _ => rfl

/-- `NotificationRepository.mark_failed`. -/
def markFailed (notificationId : ℕ) (error : String) : Store :=
  s.updateNotifications (·.id = notificationId)
    (fun notification =>
      { notification with
        deliveryStatus := .failed
        errorMessage := some (UserRepository.truncate error) })
    (fun _ => rfl) fun _ => rfl

end NotificationRepository

end DonutMonitor
