import DonutMonitor.Application.Transactions

/-!
# The effect of a transaction on a rule and on a user

A transaction does at most one thing to a given rule, and at most one to the credentials of a
given user. `Transaction.ruleEvent` and `Transaction.userEvent` name it from the store that the
transaction reads; the bodies of the transactions refine these events.

## Main results

* `Transaction.exec_view` — a transaction acts on each rule as its event does.
* `Transaction.exec_credentials` — a transaction acts on each user as its event does.
-/

namespace DonutMonitor

open Transition

/-! ### Rules -/

namespace Transaction

/-- An event of a rule that the user owns. -/
def ownedEvent (s : Store) (discordUserId : ℤ) (id : ℕ) (event : RuleEvent) : Option RuleEvent :=
  (WatchRuleRepository.getOwned s discordUserId id).map fun _ => event

/-- The key of the rule under a display number. -/
def displayedId (s : Store) (discordUserId displayId : ℤ) : Option ℕ :=
  (ruleByDisplayId (WatchRuleRepository.listForUser s discordUserId) displayId).map (·.id)

/-- What a transaction does to the rule with the given key. -/
def ruleEvent (s : Store) (id : ℕ) : Transaction → Option RuleEvent
  | logout discordUserId => ownedEvent s discordUserId id .deleted
  | create draft key => if id = key then some (.created key draft) else none
  | undoCreate discordUserId ruleId | deleteByDatabaseId discordUserId ruleId =>
    if id = ruleId then ownedEvent s discordUserId id .deleted else none
  | delete discordUserId displayId =>
    if displayedId s discordUserId displayId = some id then ownedEvent s discordUserId id .deleted
    else none
  | setEnabledByDatabaseId discordUserId ruleId enabled =>
    if id = ruleId then ownedEvent s discordUserId id (.enabledSet enabled) else none
  | setEnabled discordUserId displayId enabled =>
    if displayedId s discordUserId displayId = some id then
      ownedEvent s discordUserId id (.enabledSet enabled)
    else none
  | process call _ _ =>
    (s.watchRules.get? id).bind fun rule =>
      if RuleProcessor.Evaluates call rule then some (.evaluated (call.observation id)) else none
  | invalidate discordUserId _ => ownedEvent s discordUserId id (.enabledSet false)
  | _ => none

section View

variable (ctx : DecimalContext) (s : Store) (discordUserId : ℤ) (id : ℕ)

private theorem ownedEvent_cases (event : RuleEvent) :
    ownedEvent s discordUserId id event = none ∧
        (∀ v, s.view id = some v → v.rule.discordUserId ≠ discordUserId) ∨
      ownedEvent s discordUserId id event = some event ∧
        ∃ v, s.view id = some v ∧ v.rule.discordUserId = discordUserId := by
  cases hget : WatchRuleRepository.getOwned s discordUserId id with
  | none =>
    refine .inl ⟨by rw [ownedEvent, hget]; rfl, fun v hv howner => ?_⟩
    rw [WatchRuleRepository.getOwned_eq_some.mpr ⟨(Store.view_eq_some.mp hv).1, howner⟩] at hget
    cases hget
  | some rule =>
    obtain ⟨hrule, howner⟩ := WatchRuleRepository.getOwned_eq_some.mp hget
    exact .inr ⟨by rw [ownedEvent, hget]; rfl, ⟨rule, _⟩, Store.view_eq_some.mpr ⟨hrule, rfl⟩,
      howner⟩

variable {s discordUserId id} in
theorem ownedEvent_eq_some {event event' : RuleEvent} :
    ownedEvent s discordUserId id event = some event' ↔
      event = event' ∧ ∃ v, s.view id = some v ∧ v.rule.discordUserId = discordUserId := by
  rcases ownedEvent_cases s discordUserId id event with ⟨hnone, hother⟩ | ⟨hsome, hv⟩
  · rw [hnone]
    refine ⟨nofun, fun ⟨_, v, hv, howner⟩ => absurd howner (hother v hv)⟩
  · rw [hsome, Option.some.injEq]
    exact ⟨fun h => ⟨h, hv⟩, And.left⟩

/-- Deleting the rules of a user that satisfy a condition on the key. -/
private theorem run_deleted (p : Bool) :
    run (RuleLife.step ctx) (s.view id)
        (if p then ownedEvent s discordUserId id .deleted else none).toList =
      some ((s.view id).filter fun v => !(p && v.rule.discordUserId = discordUserId)) := by
  cases p with
  | false => cases s.view id <;> simp [Option.filter_some]
  | true =>
    rcases ownedEvent_cases s discordUserId id .deleted with
      ⟨hevent, hother⟩ | ⟨hevent, v, hv, howner⟩
    · rw [if_pos rfl, hevent]
      cases hv : s.view id with
      | none => rfl
      | some v => simp [hother v hv, Option.filter_some]
    · rw [if_pos rfl, hevent, hv]
      simp [run_singleton, howner, Option.filter_some]

/-- Setting `enabled` on the rules of a user that satisfy a condition on the key. -/
private theorem run_enabledSet (p enabled : Bool) :
    run (RuleLife.step ctx) (s.view id)
        (if p then ownedEvent s discordUserId id (.enabledSet enabled) else none).toList =
      some ((s.view id).map fun v => if p && v.rule.discordUserId = discordUserId then
        ⟨v.rule.withEnabled enabled, v.alerts⟩ else v) := by
  cases p with
  | false => cases s.view id <;> simp
  | true =>
    rcases ownedEvent_cases s discordUserId id (.enabledSet enabled) with
      ⟨hevent, hother⟩ | ⟨hevent, v, hv, howner⟩
    · rw [if_pos rfl, hevent]
      cases hv : s.view id with
      | none => rfl
      | some v => simp [hother v hv]
    · rw [if_pos rfl, hevent, hv]
      simp [run_singleton, howner]

/-- `WatchRuleRepository.delete`, on the view of each rule. -/
private theorem run_deleted_at (ruleId : ℕ) :
    run (RuleLife.step ctx) (s.view id)
        (if id = ruleId then ownedEvent s discordUserId id .deleted else none).toList =
      some ((WatchRuleRepository.delete s discordUserId ruleId).1.view id) := by
  have hrun := run_deleted ctx s discordUserId id (decide (id = ruleId))
  simp only [decide_eq_true_eq] at hrun
  rw [hrun, WatchRuleRepository.delete, Store.view_deleteRules]
  cases hv : s.view id with
  | none => rfl
  | some v => simp [Option.filter_some, WatchRuleRepository.isOwned, Store.id_of_view hv]

/-- `WatchRuleRepository.set_enabled`, on the view of each rule. -/
private theorem run_enabledSet_at (ruleId : ℕ) (enabled : Bool) :
    run (RuleLife.step ctx) (s.view id)
        (if id = ruleId then ownedEvent s discordUserId id (.enabledSet enabled)
          else none).toList =
      some ((WatchRuleRepository.setEnabled s discordUserId ruleId enabled).1.view id) := by
  have hrun := run_enabledSet ctx s discordUserId id (decide (id = ruleId)) enabled
  simp only [decide_eq_true_eq] at hrun
  rw [hrun, WatchRuleRepository.setEnabled, Store.view_updateRules]
  refine congrArg some (Option.map_congr fun v hv => ?_)
  simp only [WatchRuleRepository.isOwned, Store.id_of_view hv]

/-- `UserRepository.mark_invalid`, on the view of each rule. -/
private theorem run_markInvalid :
    run (RuleLife.step ctx) (s.view id)
        (ownedEvent s discordUserId id (.enabledSet false)).toList =
      some ((UserRepository.markInvalid s discordUserId).view id) := by
  have hrun := run_enabledSet ctx s discordUserId id true false
  simp only [if_true, Bool.true_and] at hrun
  rw [hrun, UserRepository.markInvalid, Store.view_updateRules, Store.view_updateUsers]

private theorem view_saveValidToken (token fingerprint : String) :
    (UserRepository.saveValidToken s discordUserId token fingerprint).view id = s.view id := by
  rw [UserRepository.saveValidToken]
  split_ifs
  · exact s.view_updateUsers id _ _ _
  · exact s.view_insertUser id _ _

end View

end Transaction

/-! ### Inversion of the bodies -/

theorem requireValidUser_eq_ok {s : Store} {discordUserId : ℤ} {user : User} :
    requireValidUser s discordUserId = .ok user ↔
      s.users.get? discordUserId = some user ∧ user.tokenStatus = .valid := by
  rw [requireValidUser, UserRepository.get]
  cases s.users.get? discordUserId with
  | none => simp
  | some user' =>
    by_cases hvalid : user'.tokenStatus = .valid
    · simp only [hvalid, if_true, Except.ok.injEq, Option.some.injEq]
      exact ⟨fun h => ⟨h, h ▸ hvalid⟩, And.left⟩
    · simp only [hvalid, if_false, reduceCtorEq, Option.some.injEq, false_iff, not_and]
      rintro rfl
      exact hvalid

namespace WatchService

variable {env : Environment} {s s' : Store}

/-- What the first transaction of `WatchService.add` does when it commits. -/
theorem create_ok {draft : RuleDraft} {key : ℕ} {created : CreatedRule}
    (h : create env draft key s = .ok (created, s')) :
    created.rule = draft.row key ∧
      (∃ user, s.users.get? draft.discordUserId = some user ∧ user.tokenStatus = .valid ∧
        env.decrypt user.encryptedDonutToken = some created.token) ∧
      ∃ hid huser, s' = s.insertRule (draft.row key) hid huser := by
  obtain ⟨user, huser, h⟩ := Except.bind_eq_ok.mp h
  obtain ⟨⟨rule, s₁⟩, hcreate, h⟩ := Except.bind_eq_ok.mp h
  obtain ⟨displayedRule, -, h⟩ := Except.bind_eq_ok.mp h
  rw [raiseDatabase_eq_ok, WatchRuleRepository.create] at hcreate
  split_ifs at hcreate with hkeys
  obtain ⟨rfl, rfl⟩ := Prod.mk.inj (Except.ok.inj hcreate)
  obtain ⟨huser, hvalid⟩ := requireValidUser_eq_ok.mp huser
  split at h
  · cases h
  · next token htoken =>
    obtain ⟨rfl, rfl⟩ := Prod.mk.inj (Except.ok.inj h)
    exact ⟨rfl, ⟨user, huser, hvalid, htoken⟩, hkeys.1, hkeys.2, rfl⟩

theorem delete_ok {discordUserId displayId : ℤ} {changed : Bool}
    (h : delete discordUserId displayId s = .ok (s', changed)) :
    Transaction.displayedId s discordUserId displayId = none ∧ s' = s ∨
      ∃ ruleId, Transaction.displayedId s discordUserId displayId = some ruleId ∧
        s' = (WatchRuleRepository.delete s discordUserId ruleId).1 := by
  obtain ⟨_, -, h⟩ := Except.bind_eq_ok.mp h
  simp only [Transaction.displayedId]
  split at h
  · next hrule =>
    exact .inl ⟨by rw [hrule]; rfl, (congrArg Prod.fst (Except.ok.inj h)).symm⟩
  · next rule hrule =>
    exact .inr ⟨rule.id, by rw [hrule]; rfl, (congrArg Prod.fst (Except.ok.inj h)).symm⟩

theorem setEnabled_ok {discordUserId displayId : ℤ} {enabled changed : Bool}
    (h : setEnabled discordUserId displayId enabled s = .ok (s', changed)) :
    Transaction.displayedId s discordUserId displayId = none ∧ s' = s ∨
      ∃ ruleId, Transaction.displayedId s discordUserId displayId = some ruleId ∧
        s' = (WatchRuleRepository.setEnabled s discordUserId ruleId enabled).1 := by
  obtain ⟨_, -, h⟩ := Except.bind_eq_ok.mp h
  simp only [Transaction.displayedId]
  split at h
  · next hrule =>
    exact .inl ⟨by rw [hrule]; rfl, (congrArg Prod.fst (Except.ok.inj h)).symm⟩
  · next rule hrule =>
    exact .inr ⟨rule.id, by rw [hrule]; rfl, (congrArg Prod.fst (Except.ok.inj h)).symm⟩

end WatchService

namespace Transaction

variable {env : Environment} {s s' : Store} {a : Answer}

/-- A transaction acts on each rule as its event does. -/
theorem exec_view {t : Transaction} (h : t.exec env s = .ok (a, s')) (id : ℕ) :
    run (RuleLife.step env.decimal) (s.view id) (t.ruleEvent s id).toList = some (s'.view id) := by
  cases t with
  | saveValidToken discordUserId token fingerprint =>
    obtain ⟨-, rfl⟩ := Prod.mk.inj (Except.ok.inj h)
    exact congrArg some (view_saveValidToken s discordUserId id token fingerprint).symm
  | logout discordUserId =>
    obtain ⟨-, rfl⟩ := Prod.mk.inj (Except.ok.inj h)
    exact (run_deleted env.decimal s discordUserId id true).trans
      (congrArg some (s.view_deleteUser id discordUserId).symm)
  | create draft key =>
    obtain ⟨⟨created, s₁⟩, hcreate, h⟩ := Except.bind_eq_ok.mp h
    obtain ⟨-, rfl⟩ := Prod.mk.inj (Except.ok.inj h)
    obtain ⟨-, -, hid, huser, rfl⟩ := WatchService.create_ok hcreate
    rw [Store.view_insertRule, ruleEvent]
    by_cases hkey : id = key
    · subst hkey
      rw [RuleDraft.row_id] at hid
      have hnone : s.view id = none := by
        rw [Store.view, Table.get?_eq_none.mpr hid, Option.map_none]
      simp [run_singleton, hnone]
    · simp [hkey]
  | undoCreate discordUserId ruleId =>
    obtain ⟨-, rfl⟩ := Prod.mk.inj (Except.ok.inj h)
    exact run_deleted_at env.decimal s discordUserId id ruleId
  | delete discordUserId displayId =>
    obtain ⟨⟨s₁, changed⟩, hdelete, h⟩ := Except.bind_eq_ok.mp h
    obtain ⟨-, rfl⟩ := Prod.mk.inj (Except.ok.inj h)
    rcases WatchService.delete_ok hdelete with ⟨hnone, rfl⟩ | ⟨ruleId, hsome, rfl⟩
    · simp [ruleEvent, hnone]
    · rw [← run_deleted_at env.decimal s discordUserId id ruleId]
      simp only [ruleEvent, hsome, Option.some.injEq, eq_comm (a := ruleId)]
  | setEnabled discordUserId displayId enabled =>
    obtain ⟨⟨s₁, changed⟩, hset, h⟩ := Except.bind_eq_ok.mp h
    obtain ⟨-, rfl⟩ := Prod.mk.inj (Except.ok.inj h)
    rcases WatchService.setEnabled_ok hset with ⟨hnone, rfl⟩ | ⟨ruleId, hsome, rfl⟩
    · simp [ruleEvent, hnone]
    · rw [← run_enabledSet_at env.decimal s discordUserId id ruleId enabled]
      simp only [ruleEvent, hsome, Option.some.injEq, eq_comm (a := ruleId)]
  | deleteByDatabaseId discordUserId ruleId =>
    obtain ⟨⟨s₁, changed⟩, hdelete, h⟩ := Except.bind_eq_ok.mp h
    obtain ⟨-, rfl⟩ := Prod.mk.inj (Except.ok.inj h)
    obtain ⟨_, -, hdelete⟩ := Except.bind_eq_ok.mp hdelete
    obtain rfl := congrArg Prod.fst (Except.ok.inj hdelete)
    exact run_deleted_at env.decimal s discordUserId id ruleId
  | setEnabledByDatabaseId discordUserId ruleId enabled =>
    obtain ⟨⟨s₁, changed⟩, hset, h⟩ := Except.bind_eq_ok.mp h
    obtain ⟨-, rfl⟩ := Prod.mk.inj (Except.ok.inj h)
    obtain ⟨_, -, hset⟩ := Except.bind_eq_ok.mp hset
    obtain rfl := congrArg Prod.fst (Except.ok.inj hset)
    exact run_enabledSet_at env.decimal s discordUserId id ruleId enabled
  | process call observationKey notificationKey =>
    obtain ⟨progress, hprocess, h⟩ := Except.bind_eq_ok.mp h
    obtain ⟨-, rfl⟩ := Prod.mk.inj (Except.ok.inj h)
    obtain ⟨-, -, hview⟩ := RuleProcessor.process_ok hprocess
    rw [hview, ruleEvent, ← Store.map_rule_view]
    cases hv : s.view id with
    | none => rfl
    | some v =>
      have hid := Store.id_of_view hv
      by_cases hevaluates : RuleProcessor.Evaluates call v.rule
      · simp [hevaluates, run_singleton, hevaluates.2.2, hid]
      · simp [hevaluates]
  | deliveryFailed notificationId discordUserId errorName =>
    obtain ⟨-, rfl⟩ := Prod.mk.inj (Except.ok.inj h)
    rw [UserRepository.recordDmError, Store.view_updateUsers, NotificationRepository.markFailed,
      Store.view_updateNotifications]
    · rfl
    · exact fun _ => rfl
    · exact fun _ => rfl
  | deliverySent notificationId discordUserId messageId =>
    obtain ⟨-, rfl⟩ := Prod.mk.inj (Except.ok.inj h)
    rw [UserRepository.clearDmError, Store.view_updateUsers, NotificationRepository.markSent,
      Store.view_updateNotifications]
    · rfl
    · exact fun _ => rfl
    · exact fun _ => rfl
  | markApiSuccess discordUserId now =>
    obtain ⟨-, rfl⟩ := Prod.mk.inj (Except.ok.inj h)
    rfl
  | invalidate discordUserId notifiedAt =>
    have hview : s'.view id = (UserRepository.markInvalid s discordUserId).view id := by
      cases notifiedAt with
      | none =>
        obtain ⟨-, rfl⟩ := Prod.mk.inj (Except.ok.inj h)
        rfl
      | some now =>
        obtain ⟨-, rfl⟩ := Prod.mk.inj (Except.ok.inj h)
        exact Store.view_updateUsers _ id _ _ _
    exact (run_markInvalid env.decimal s discordUserId id).trans (congrArg some hview.symm)
  | recordDmError discordUserId message =>
    obtain ⟨-, rfl⟩ := Prod.mk.inj (Except.ok.inj h)
    rfl
  | prune now =>
    obtain ⟨-, rfl⟩ := Prod.mk.inj (Except.ok.inj h)
    rfl

theorem ruleEvent_eq_created {t : Transaction} {id key : ℕ} {draft : RuleDraft}
    (h : t.ruleEvent s id = some (.created key draft)) : id = key ∧ t = .create draft key := by
  cases t with
  | create draft' key' =>
    rw [ruleEvent] at h
    split_ifs at h with hid
    obtain ⟨rfl, rfl⟩ := RuleEvent.created.inj (Option.some.inj h)
    exact ⟨hid, rfl⟩
  | process call observationKey notificationKey =>
    obtain ⟨rule, -, h⟩ := Option.bind_eq_some_iff.mp h
    split_ifs at h
    cases h
  | logout userId => cases (ownedEvent_eq_some.mp h).1
  | invalidate userId notifiedAt => cases (ownedEvent_eq_some.mp h).1
  | undoCreate userId ruleId =>
    rw [ruleEvent] at h
    split_ifs at h
    cases (ownedEvent_eq_some.mp h).1
  | deleteByDatabaseId userId ruleId =>
    rw [ruleEvent] at h
    split_ifs at h
    cases (ownedEvent_eq_some.mp h).1
  | delete userId displayId =>
    rw [ruleEvent] at h
    split_ifs at h
    cases (ownedEvent_eq_some.mp h).1
  | setEnabledByDatabaseId userId ruleId enabled =>
    rw [ruleEvent] at h
    split_ifs at h
    cases (ownedEvent_eq_some.mp h).1
  | setEnabled userId displayId enabled =>
    rw [ruleEvent] at h
    split_ifs at h
    cases (ownedEvent_eq_some.mp h).1
  | _ => cases h

/-- A rule after a transaction is one from before it, with the same terms, or the one that the
transaction creates. -/
theorem exec_rule {t : Transaction} (h : t.exec env s = .ok (a, s')) {id : ℕ} {v' : RuleView}
    (hv' : s'.view id = some v') :
    (∃ v, s.view id = some v ∧ v'.rule.discordUserId = v.rule.discordUserId ∧
        v'.rule.request = v.rule.request) ∨
      ∃ draft, t = .create draft id ∧ v'.rule = draft.row id := by
  have hview := exec_view h id
  cases hevent : t.ruleEvent s id with
  | none =>
    rw [hevent] at hview
    exact .inl ⟨v', (Option.some.inj hview).trans hv', rfl, rfl⟩
  | some e =>
    rw [hevent, Option.toList_some, run_singleton, hv'] at hview
    cases hv : s.view id with
    | none =>
      rw [hv] at hview
      cases e with
      | created key draft =>
        obtain ⟨rfl, rfl⟩ := ruleEvent_eq_created hevent
        obtain rfl := Option.some.inj ((RuleLife.step_created id draft).mp hview).2
        exact .inr ⟨draft, rfl, rfl⟩
      | _ => cases hview
    | some v =>
      rw [hv] at hview
      obtain ⟨-, huser, hrequest, -⟩ := RuleLife.step_terms hview
      exact .inl ⟨v, rfl, huser, hrequest⟩

end Transaction

/-! ### Users -/

/-- The columns of a user that its token determines. -/
structure Credentials where
  encryptedDonutToken : String
  tokenFingerprint : String
  tokenStatus : TokenStatus
  invalidTokenNotifiedAt : Option ℚ
  deriving DecidableEq

/-- What a transaction does to a user. -/
inductive UserEvent where
  | tokenSaved (encryptedToken fingerprint : String)
  | loggedOut
  | invalidated (notifiedAt : Option ℚ)
  deriving DecidableEq

/-- The credentials of a row. -/
def User.credentials (user : User) : Credentials where
  encryptedDonutToken := user.encryptedDonutToken
  tokenFingerprint := user.tokenFingerprint
  tokenStatus := user.tokenStatus
  invalidTokenNotifiedAt := user.invalidTokenNotifiedAt

/-- The credentials of a user. -/
def Store.credentials (s : Store) (discordUserId : ℤ) : Option Credentials :=
  (s.users.get? discordUserId).map User.credentials

namespace UserLife

/-- The effect of an event on the credentials of a user, when there are any. -/
def step : Option Credentials → UserEvent → Option (Option Credentials)
  | _, .tokenSaved encryptedToken fingerprint =>
    some (some ⟨encryptedToken, fingerprint, .valid, none⟩)
  | some _, .loggedOut => some none
  | some c, .invalidated notifiedAt =>
    some (some { c with
      tokenStatus := .invalid
      invalidTokenNotifiedAt := notifiedAt.or c.invalidTokenNotifiedAt })
  | none, _ => none

variable {credentials credentials' : Option Credentials}

@[simp] theorem step_tokenSaved (encryptedToken fingerprint : String) :
    step credentials (.tokenSaved encryptedToken fingerprint) = some credentials' ↔
      credentials' = some ⟨encryptedToken, fingerprint, .valid, none⟩ := by
  cases credentials <;> simp [step, eq_comm]

@[simp] theorem step_loggedOut :
    step credentials .loggedOut = some credentials' ↔
      (∃ c, credentials = some c) ∧ credentials' = none := by
  cases credentials <;> simp [step, eq_comm]

@[simp] theorem step_invalidated (notifiedAt : Option ℚ) :
    step credentials (.invalidated notifiedAt) = some credentials' ↔
      ∃ c, credentials = some c ∧ credentials' = some { c with
        tokenStatus := .invalid
        invalidTokenNotifiedAt := notifiedAt.or c.invalidTokenNotifiedAt } := by
  cases credentials <;> simp [step, eq_comm]

end UserLife

namespace Transaction

/-- What a transaction does to the user with the given id. -/
def userEvent (s : Store) (discordUserId : ℤ) : Transaction → Option UserEvent
  | saveValidToken userId encryptedToken fingerprint =>
    if discordUserId = userId then some (.tokenSaved encryptedToken fingerprint) else none
  | logout userId =>
    if discordUserId = userId ∧ discordUserId ∈ s.users.keys then some .loggedOut else none
  | invalidate userId notifiedAt =>
    if discordUserId = userId ∧ discordUserId ∈ s.users.keys then some (.invalidated notifiedAt)
    else none
  | _ => none

section Credentials

variable (s : Store) (discordUserId : ℤ)

private theorem credentials_updateUsers (p : User → Bool) (f : User → User)
    (hf : ∀ u, (f u).discordUserId = u.discordUserId)
    (hcredentials : ∀ u, (f u).credentials = u.credentials) :
    (s.updateUsers p f hf).credentials discordUserId = s.credentials discordUserId := by
  rw [Store.credentials, Store.updateUsers_users, Table.get?_update, Option.map_map,
    Store.credentials]
  refine Option.map_congr fun u _ => ?_
  simp only [Function.comp_apply]
  split_ifs
  · exact hcredentials u
  · rfl

private theorem credentials_recordDmError (userId : ℤ) (message : String) :
    (UserRepository.recordDmError s userId message).credentials discordUserId =
      s.credentials discordUserId := by
  rw [UserRepository.recordDmError, credentials_updateUsers]
  exact fun _ => rfl

private theorem credentials_clearDmError (userId : ℤ) :
    (UserRepository.clearDmError s userId).credentials discordUserId =
      s.credentials discordUserId := by
  rw [UserRepository.clearDmError, credentials_updateUsers]
  exact fun _ => rfl

private theorem credentials_markApiSuccess (userId : ℤ) (now : ℚ) :
    (UserRepository.markApiSuccess s userId now).credentials discordUserId =
      s.credentials discordUserId := by
  rw [UserRepository.markApiSuccess, credentials_updateUsers]
  exact fun _ => rfl

private theorem credentials_of_mem {s : Store} {discordUserId : ℤ}
    (h : discordUserId ∈ s.users.keys) : ∃ user, s.users.get? discordUserId = some user ∧
      s.credentials discordUserId = some user.credentials := by
  obtain ⟨user, huser⟩ := Table.mem_keys_iff.mp h
  exact ⟨user, huser, by rw [Store.credentials, huser, Option.map_some]⟩

private theorem credentials_of_notMem {s : Store} {discordUserId : ℤ}
    (h : discordUserId ∉ s.users.keys) : s.credentials discordUserId = none := by
  rw [Store.credentials, Table.get?_eq_none.mpr h, Option.map_none]

private theorem credentials_saveValidToken (userId : ℤ) (token fingerprint : String) :
    (UserRepository.saveValidToken s userId token fingerprint).credentials discordUserId =
      if discordUserId = userId then some ⟨token, fingerprint, .valid, none⟩
      else s.credentials discordUserId := by
  rw [UserRepository.saveValidToken]
  split_ifs with hmem huser huser
  · subst huser
    obtain ⟨user, huser, -⟩ := credentials_of_mem hmem
    simp [Store.credentials, Table.get?_update, huser, Table.key_of_get? huser, User.credentials]
  · rw [Store.credentials, Store.updateUsers_users, Table.get?_update, Option.map_map,
      Store.credentials]
    refine Option.map_congr fun u hu => ?_
    have hne : u.discordUserId ≠ userId := fun heq => huser ((Table.key_of_get? hu).symm.trans heq)
    simp [hne]
  · simp [Store.credentials, Table.get?_insert, huser, User.credentials]
  · simp [Store.credentials, Table.get?_insert, huser]

private theorem credentials_deleteUser (userId : ℤ) :
    (s.deleteUser userId).credentials discordUserId =
      if discordUserId = userId then none else s.credentials discordUserId := by
  rw [Store.credentials, Store.deleteUser_users, Table.get?_delete, Store.credentials]
  cases huser : s.users.get? discordUserId with
  | none => simp
  | some user =>
    have hid := Table.key_of_get? huser
    by_cases h : discordUserId = userId
    · simp [Option.filter_some, hid, h]
    · simp [Option.filter_some, hid, h]

private theorem credentials_invalidate (userId : ℤ) (notifiedAt : Option ℚ) {s' : Store}
    {env : Environment} {a : Answer}
    (h : (invalidate userId notifiedAt).exec env s = .ok (a, s')) :
    s'.credentials discordUserId = (s.credentials discordUserId).map fun c =>
      if discordUserId = userId then { c with
        tokenStatus := .invalid
        invalidTokenNotifiedAt := notifiedAt.or c.invalidTokenNotifiedAt }
      else c := by
  cases notifiedAt with
  | none =>
    obtain ⟨-, rfl⟩ := Prod.mk.inj (Except.ok.inj h)
    simp only [Store.credentials, UserRepository.markInvalid, Store.updateRules_users,
      Store.updateUsers_users, Table.get?_update, Option.map_map]
    refine Option.map_congr fun u hu => ?_
    by_cases hid : discordUserId = userId <;> simp [User.credentials, Table.key_of_get? hu, hid]
  | some now =>
    obtain ⟨-, rfl⟩ := Prod.mk.inj (Except.ok.inj h)
    simp only [Store.credentials, UserRepository.markInvalidNotified, UserRepository.markInvalid,
      Store.updateRules_users, Store.updateUsers_users, Table.get?_update, Option.map_map]
    refine Option.map_congr fun u hu => ?_
    by_cases hid : discordUserId = userId <;> simp [User.credentials, Table.key_of_get? hu, hid]

end Credentials

variable {env : Environment} {s s' : Store} {a : Answer}

private theorem run_none_of_users {s s' : Store} {discordUserId : ℤ} (h : s'.users = s.users) :
    run UserLife.step (s.credentials discordUserId) (none : Option UserEvent).toList =
      some (s'.credentials discordUserId) := by
  rw [Store.credentials, Store.credentials, h]
  rfl

/-- A transaction acts on each user as its event does. -/
theorem exec_credentials {t : Transaction} (h : t.exec env s = .ok (a, s')) (discordUserId : ℤ) :
    run UserLife.step (s.credentials discordUserId) (t.userEvent s discordUserId).toList =
      some (s'.credentials discordUserId) := by
  cases t with
  | saveValidToken userId token fingerprint =>
    obtain ⟨-, rfl⟩ := Prod.mk.inj (Except.ok.inj h)
    rw [credentials_saveValidToken, userEvent]
    split_ifs
    · simp [run_singleton]
    · rfl
  | logout userId =>
    obtain ⟨-, rfl⟩ := Prod.mk.inj (Except.ok.inj h)
    have hlogout := credentials_deleteUser s discordUserId userId
    change run UserLife.step _ _ = some ((s.deleteUser userId).credentials discordUserId)
    rw [hlogout, userEvent]
    by_cases hmem : discordUserId ∈ s.users.keys
    · obtain ⟨user, -, hc⟩ := credentials_of_mem hmem
      by_cases hid : discordUserId = userId
      · simp [hid ▸ hmem, hid ▸ hc, hid, run_singleton]
      · simp [hid]
    · simp [hmem, credentials_of_notMem hmem]
  | invalidate userId notifiedAt =>
    rw [credentials_invalidate s discordUserId userId notifiedAt h, userEvent]
    by_cases hmem : discordUserId ∈ s.users.keys
    · obtain ⟨user, -, hc⟩ := credentials_of_mem hmem
      by_cases hid : discordUserId = userId
      · simp [hid ▸ hmem, hid ▸ hc, hid, run_singleton]
      · simp [hid, hc]
    · simp [hmem, credentials_of_notMem hmem]
  | create draft key =>
    obtain ⟨⟨created, s₁⟩, hcreate, h⟩ := Except.bind_eq_ok.mp h
    obtain ⟨-, rfl⟩ := Prod.mk.inj (Except.ok.inj h)
    obtain ⟨-, -, hid, huser, rfl⟩ := WatchService.create_ok hcreate
    exact run_none_of_users rfl
  | undoCreate userId ruleId =>
    obtain ⟨-, rfl⟩ := Prod.mk.inj (Except.ok.inj h)
    exact run_none_of_users rfl
  | delete userId displayId =>
    obtain ⟨⟨s₁, changed⟩, hdelete, h⟩ := Except.bind_eq_ok.mp h
    obtain ⟨-, rfl⟩ := Prod.mk.inj (Except.ok.inj h)
    rcases WatchService.delete_ok hdelete with ⟨-, rfl⟩ | ⟨ruleId, -, rfl⟩ <;>
      exact run_none_of_users rfl
  | setEnabled userId displayId enabled =>
    obtain ⟨⟨s₁, changed⟩, hset, h⟩ := Except.bind_eq_ok.mp h
    obtain ⟨-, rfl⟩ := Prod.mk.inj (Except.ok.inj h)
    rcases WatchService.setEnabled_ok hset with ⟨-, rfl⟩ | ⟨ruleId, -, rfl⟩ <;>
      exact run_none_of_users rfl
  | deleteByDatabaseId userId ruleId =>
    obtain ⟨⟨s₁, changed⟩, hdelete, h⟩ := Except.bind_eq_ok.mp h
    obtain ⟨-, rfl⟩ := Prod.mk.inj (Except.ok.inj h)
    obtain ⟨_, -, hdelete⟩ := Except.bind_eq_ok.mp hdelete
    obtain rfl := congrArg Prod.fst (Except.ok.inj hdelete)
    exact run_none_of_users rfl
  | setEnabledByDatabaseId userId ruleId enabled =>
    obtain ⟨⟨s₁, changed⟩, hset, h⟩ := Except.bind_eq_ok.mp h
    obtain ⟨-, rfl⟩ := Prod.mk.inj (Except.ok.inj h)
    obtain ⟨_, -, hset⟩ := Except.bind_eq_ok.mp hset
    obtain rfl := congrArg Prod.fst (Except.ok.inj hset)
    exact run_none_of_users rfl
  | process call observationKey notificationKey =>
    obtain ⟨progress, hprocess, h⟩ := Except.bind_eq_ok.mp h
    obtain ⟨-, rfl⟩ := Prod.mk.inj (Except.ok.inj h)
    exact run_none_of_users (RuleProcessor.process_ok hprocess).1
  | deliveryFailed notificationId userId errorName =>
    obtain ⟨-, rfl⟩ := Prod.mk.inj (Except.ok.inj h)
    exact congrArg some (credentials_recordDmError _ _ _ _).symm
  | deliverySent notificationId userId messageId =>
    obtain ⟨-, rfl⟩ := Prod.mk.inj (Except.ok.inj h)
    exact congrArg some (credentials_clearDmError _ _ _).symm
  | markApiSuccess userId now =>
    obtain ⟨-, rfl⟩ := Prod.mk.inj (Except.ok.inj h)
    exact congrArg some (credentials_markApiSuccess _ _ _ _).symm
  | recordDmError userId message =>
    obtain ⟨-, rfl⟩ := Prod.mk.inj (Except.ok.inj h)
    exact congrArg some (credentials_recordDmError _ _ _ _).symm
  | prune now =>
    obtain ⟨-, rfl⟩ := Prod.mk.inj (Except.ok.inj h)
    exact run_none_of_users rfl

end Transaction

end DonutMonitor
