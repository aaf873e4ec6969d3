import DonutMonitor.Application.AddCalls
import DonutMonitor.Application.DisplayNumbers
import DonutMonitor.Application.UserOperations

/-!
# Operations leave the rows of other users alone

Every operation of a user leaves the users, rules, observations and notifications of all other users
as they are, whatever keys and ids it is given. A snapshot is processed for rules that are read
with their owner, and the notifications whose delivery is recorded belong to these rules.

## Main results

* `RuleProcessor.process_otherRows` — the transaction of `process`.
* `UserOperation.perform_otherRows` — every operation.
-/

namespace DonutMonitor

open Stateful (Keeps Triple)

variable {s s' : Store} {discordUserId : ℤ}

/-! ### Repositories -/

namespace UserRepository

theorem otherRows_saveValidToken (encryptedToken fingerprint : String) :
    (saveValidToken s discordUserId encryptedToken fingerprint).otherRows discordUserId =
      s.otherRows discordUserId := by
  rw [saveValidToken]
  split_ifs with h
  · exact Store.otherRows_updateUsers fun _ hq => of_decide_eq_true hq
  · exact Store.otherRows_insertUser

theorem otherRows_logout :
    (logout s discordUserId).1.otherRows discordUserId = s.otherRows discordUserId :=
  Store.otherRows_deleteUser

end UserRepository

/-- The notification with the given key is one of the user. -/
def Store.OwnsNotification (s : Store) (discordUserId : ℤ) (notificationId : ℕ) : Prop :=
  notificationId ∈ (s.ownRows discordUserId).notifications.map (·.id)

namespace Store.OwnsNotification

variable {notificationId : ℕ}

theorem notifies (h : s.OwnsNotification discordUserId notificationId) {n : Notification}
    (hn : n ∈ s.notifications.rows) (hid : n.id = notificationId) :
    s.notifies (· = discordUserId) n = true := by
  obtain ⟨n', hn', hid'⟩ := List.mem_map.mp h
  obtain ⟨hmem, hown⟩ := List.mem_filter.mp hn'
  have hsame : n' = n :=
    List.inj_on_of_nodup_map s.notifications.nodup hmem hn (hid'.trans hid.symm)
  exact hsame ▸ hown

theorem updateNotifications (h : s.OwnsNotification discordUserId notificationId)
    {q : Notification → Bool} {f : Notification → Notification} {hid : ∀ n, (f n).id = n.id}
    {hrule : ∀ n, (f n).watchRuleId = n.watchRuleId} :
    (s.updateNotifications q f hid hrule).OwnsNotification discordUserId notificationId := by
  have hkeys : ((fun n : Notification => n.id) ∘ fun n => if q n then f n else n) =
      fun n : Notification => n.id := by
    funext n
    simp only [Function.comp_apply]
    split_ifs
    · exact hid n
    · rfl
  rw [OwnsNotification, ownRows, rowsOf_updateNotifications, List.map_map, hkeys]
  exact h

theorem updateUsers (h : s.OwnsNotification discordUserId notificationId) {q : User → Bool}
    {f : User → User} {hf : ∀ u, (f u).discordUserId = u.discordUserId} :
    (s.updateUsers q f hf).OwnsNotification discordUserId notificationId := h

theorem updateRules (h : s.OwnsNotification discordUserId notificationId)
    {q : WatchRule → Bool} {f : WatchRule → WatchRule} {hid : ∀ r, (f r).id = r.id}
    {huser : ∀ r, (f r).discordUserId = r.discordUserId} :
    (s.updateRules q f hid huser).OwnsNotification discordUserId notificationId := by
  rw [OwnsNotification, ownRows, rowsOf_updateRules]
  exact h

theorem insertNotification (h : s.OwnsNotification discordUserId notificationId)
    {n : Notification} {hid : n.id ∉ s.notifications.keys}
    {hrule : n.watchRuleId ∈ s.watchRules.keys} :
    (s.insertNotification n hid hrule).OwnsNotification discordUserId notificationId := by
  rw [OwnsNotification, ownRows, rowsOf_insertNotification, List.map_append]
  exact List.mem_append_left _ h

end Store.OwnsNotification

/-! ### Processing a snapshot -/

namespace RuleProcessor

variable {ctx : DecimalContext} {call : ProcessCall} {displayed : List WatchRule}
  {notificationKey : ℕ → ℕ} {observationKey : ℕ} {progress progress' : Progress}

/-- The events go to the user, and so do their notifications. -/
def EventsOwned (discordUserId : ℤ) (progress : Progress) : Prop :=
  ∀ e ∈ progress.events, e.1.discordUserId = discordUserId ∧
    progress.store.OwnsNotification discordUserId e.2

private theorem writeEvaluation_otherRows {rule : WatchRule}
    (hget : WatchRuleRepository.getOwned s discordUserId rule.id = some rule) :
    (writeEvaluation ctx call s rule).otherRows discordUserId = s.otherRows discordUserId := by
  obtain ⟨hrow, howner⟩ := WatchRuleRepository.getOwned_eq_some.mp hget
  refine Store.otherRows_updateRules fun r hr hid => ?_
  have hsame : s.watchRules.get? r.id = some r := Table.mem_rows_iff.mp hr
  rw [of_decide_eq_true hid, hrow] at hsame
  rw [← Option.some.inj hsame]
  exact howner

theorem getOwned_writeEvaluation {rule : WatchRule}
    (hget : WatchRuleRepository.getOwned s discordUserId rule.id = some rule) :
    WatchRuleRepository.getOwned (writeEvaluation ctx call s rule) discordUserId rule.id =
      some (rule.withEvaluation (evaluation ctx call rule) call.snapshot.selectedPrice
        call.snapshot.checkedAt) := by
  obtain ⟨hrow, howner⟩ := WatchRuleRepository.getOwned_eq_some.mp hget
  refine WatchRuleRepository.getOwned_eq_some.mpr ⟨?_, howner⟩
  rw [writeEvaluation, Store.updateRules_watchRules, Table.get?_update, hrow]
  simp

private theorem writeEvaluation_owns {rule : WatchRule} {notificationId : ℕ}
    (h : s.OwnsNotification discordUserId notificationId) :
    (writeEvaluation ctx call s rule).OwnsNotification discordUserId notificationId := by
  rw [writeEvaluation]
  exact h.updateRules

private theorem createPending_otherRows {id ruleId : ℕ} {price : ℚ} {previousPrice : Option ℚ}
    {rule : WatchRule} (hget : WatchRuleRepository.getOwned s discordUserId ruleId = some rule)
    (h : NotificationRepository.createPending s id ruleId price previousPrice = .ok s') :
    s'.otherRows discordUserId = s.otherRows discordUserId ∧
      s'.OwnsNotification discordUserId id ∧
      ∀ notificationId, s.OwnsNotification discordUserId notificationId →
        s'.OwnsNotification discordUserId notificationId := by
  rw [NotificationRepository.createPending] at h
  split_ifs at h with hkeys
  obtain rfl := Except.ok.inj h
  obtain ⟨hrow, howner⟩ := WatchRuleRepository.getOwned_eq_some.mp hget
  have hown : s.notifies (· = discordUserId)
      { id := id, watchRuleId := ruleId, price := price, previousPrice := previousPrice } = true :=
    Store.notifies_eq_true.mpr ⟨rule, hrow, decide_eq_true howner⟩
  refine ⟨Store.otherRows_insertNotification hown, ?_, fun _ h => h.insertNotification⟩
  rw [Store.OwnsNotification, Store.ownRows, Store.rowsOf_insertNotification,
    List.filter_cons_of_pos hown, List.map_append]
  exact List.mem_append_right _ (List.mem_singleton_self _)

/-- The body of the loop. -/
private theorem processRule_otherRows {ruleId : ℕ}
    (h : processRule ctx call displayed notificationKey progress ruleId = .ok progress')
    (hevents : EventsOwned call.discordUserId progress) :
    progress'.store.otherRows call.discordUserId = progress.store.otherRows call.discordUserId ∧
      EventsOwned call.discordUserId progress' := by
  rcases processRule_cases h with rfl | ⟨rule, hget, -, hwritten⟩
  · exact ⟨rfl, hevents⟩
  · obtain rfl : rule.id = ruleId :=
      Table.key_of_get? (WatchRuleRepository.getOwned_eq_some.mp hget).1
    have hother : (writeEvaluation ctx call progress.store rule).otherRows call.discordUserId =
        progress.store.otherRows call.discordUserId := writeEvaluation_otherRows hget
    rcases hwritten with rfl | ⟨price, store, display, hcreate, -, rfl⟩
    · exact ⟨hother, fun e he => (hevents e he).imp_right writeEvaluation_owns⟩
    · obtain ⟨hpending, hnew, hkept⟩ :=
        createPending_otherRows (getOwned_writeEvaluation hget) hcreate
      refine ⟨hpending.trans hother, fun e he => ?_⟩
      rcases List.mem_append.mp he with hold | hlast
      · exact (hevents e hold).imp_right fun h => hkept _ (writeEvaluation_owns h)
      · obtain rfl := List.mem_singleton.mp hlast
        exact ⟨rfl, hnew⟩

/-- The transaction of `process` leaves the rows of other users alone, and its events are those of
the user. -/
theorem process_otherRows
    (h : process ctx call notificationKey observationKey s = .ok progress) :
    progress.store.otherRows call.discordUserId = s.otherRows call.discordUserId ∧
      EventsOwned call.discordUserId progress := by
  obtain ⟨s', hadd, hloop⟩ := Except.bind_eq_ok.mp h
  rw [raiseDatabase_eq_ok, ObservationRepository.add] at hadd
  split_ifs at hadd with hkeys
  obtain rfl := Except.ok.inj hadd
  refine Except.foldlM_invariant (I := fun progress =>
    progress.store.otherRows call.discordUserId = s.otherRows call.discordUserId ∧
      EventsOwned call.discordUserId progress) ?_ hloop ⟨?_, fun e he => absurd he (by simp)⟩
  · rintro progress ruleId progress' - ⟨hother, hevents⟩ hturn
    obtain ⟨hsame, hevents'⟩ := processRule_otherRows hturn hevents
    exact ⟨hsame.trans hother, hevents'⟩
  · exact @Store.otherRows_insertObservation s _ hkeys.1 hkeys.2

end RuleProcessor

/-! ### Services -/

namespace Service

variable {env : Environment} {answers : Answers} {keys : Keys} {rows : Rows}

/-- The rows of all other users are the given ones. -/
def Leaves (discordUserId : ℤ) (rows : Rows) (s : Store) : Prop := s.otherRows discordUserId = rows

private theorem recordDelivery_otherRows {notificationId : ℕ} {answer : Except String ℤ}
    (h : s.OwnsNotification discordUserId notificationId) :
    (recordDelivery discordUserId notificationId s answer).otherRows discordUserId =
        s.otherRows discordUserId ∧
      ∀ id, s.OwnsNotification discordUserId id →
        (recordDelivery discordUserId notificationId s answer).OwnsNotification discordUserId
          id := by
  cases answer with
  | error name =>
    refine ⟨?_, fun id hid => hid.updateNotifications.updateUsers⟩
    rw [recordDelivery, UserRepository.recordDmError, Store.otherRows_updateUsers
      fun _ hq => of_decide_eq_true hq, NotificationRepository.markFailed]
    exact Store.otherRows_updateNotifications fun n hn hid => h.notifies hn (of_decide_eq_true hid)
  | ok messageId =>
    refine ⟨?_, fun id hid => hid.updateNotifications.updateUsers⟩
    rw [recordDelivery, UserRepository.clearDmError, Store.otherRows_updateUsers
      fun _ hq => of_decide_eq_true hq, NotificationRepository.markSent]
    exact Store.otherRows_updateNotifications fun n hn hid => h.notifies hn (of_decide_eq_true hid)

/-- A transaction keeps the rows of other users when its body does. -/
private theorem transaction_leaves {α : Type} {body : Store → Except ServiceError (α × Store)}
    (h : ∀ s a s', body s = .ok (a, s') → s'.otherRows discordUserId = s.otherRows discordUserId) :
    Keeps (Leaves discordUserId rows) (Stateful.transaction body) :=
  .transaction fun s a s' hs hbody => (h s a s' hbody).trans hs

theorem authenticate_leaves {rawToken : String} :
    Keeps (Leaves discordUserId rows) (authenticate env answers discordUserId rawToken) := by
  rw [authenticate]
  split
  · exact .throw
  · refine .bind .attempt fun _ => .bind .attempt fun encrypted => ?_
    refine .bind (transaction_leaves ?_) fun _ => .pure
    intro s _ s' hbody
    obtain ⟨-, rfl⟩ := Prod.mk.inj (Except.ok.inj hbody)
    exact UserRepository.otherRows_saveValidToken _ _

theorem logout_leaves : Keeps (Leaves discordUserId rows) (logout discordUserId) := by
  refine transaction_leaves fun s changed s' hbody => ?_
  obtain ⟨-, rfl⟩ := Prod.mk.inj (Except.ok.inj hbody)
  exact UserRepository.otherRows_logout

/-- The deliveries record their outcome with the notifications of the user. -/
private theorem deliver_leaves {events : List ((AlertEvent × ℕ) × ℕ)} :
    Triple (fun s => Leaves discordUserId rows s ∧ ∀ e ∈ events,
        e.1.1.discordUserId = discordUserId ∧ s.OwnsNotification discordUserId e.1.2)
      (events.forM fun e => deliver e.1.1 e.1.2 (answers.delivery e.2))
      (fun _ => Leaves discordUserId rows) (Leaves discordUserId rows) := by
  refine (Triple.forM fun e he => ?_).weaken (fun _ hs => hs) (fun _ _ hs => hs.1) fun _ hs => hs.1
  refine Keeps.transaction fun s _ s' hs hbody => ?_
  obtain ⟨-, rfl⟩ := Prod.mk.inj (Except.ok.inj hbody)
  obtain ⟨howner, hown⟩ := hs.2 e he
  rw [howner]
  obtain ⟨hother, hkept⟩ := recordDelivery_otherRows hown
  exact ⟨hother.trans hs.1, fun e' he' => (hs.2 e' he').imp_right (hkept _)⟩

theorem process_leaves {call : ProcessCall} :
    Keeps (Leaves call.discordUserId rows) (process env answers keys call) := by
  rw [process]
  split
  · exact .pure
  · refine Triple.bind (Q := fun events s => Leaves call.discordUserId rows s ∧
      ∀ e ∈ events.zipIdx, e.1.1.discordUserId = call.discordUserId ∧
        s.OwnsNotification call.discordUserId e.1.2) ?_ fun events =>
          .bind deliver_leaves fun _ => Keeps.pure
    refine .transaction (fun s events s' hs hbody => ?_) fun _ hs => hs
    obtain ⟨progress, hprocess, heq⟩ := Except.map_eq_ok.mp hbody
    obtain ⟨rfl, rfl⟩ := Prod.mk.inj heq
    obtain ⟨hother, hevents⟩ := RuleProcessor.process_otherRows hprocess
    exact ⟨hother.trans hs, fun e he => hevents e.1 (List.fst_mem_of_mem_zipIdx he)⟩

private theorem undoCreate_leaves {call : AddCall} {created : CreatedRule} {error : ServiceError} :
    Keeps (Leaves call.discordUserId rows) (undoCreate call created error) := by
  refine .bind (transaction_leaves ?_) fun _ => .throw
  intro s changed s' hbody
  obtain ⟨-, rfl⟩ := Prod.mk.inj (Except.ok.inj hbody)
  exact WatchRuleRepository.otherRows_delete s call.discordUserId created.rule.id

theorem add_leaves {call : AddCall} :
    Keeps (Leaves call.discordUserId rows) (add env answers keys call) := by
  refine Triple.bind (Q := fun draft s => draft.discordUserId = call.discordUserId ∧
    Leaves call.discordUserId rows s)
    (.attempt (fun draft hdraft s hs => ⟨(WatchService.draft_ok hdraft).1, hs⟩) fun _ hs => hs)
    fun draft => ?_
  refine Triple.bind (Q := fun _ => Leaves call.discordUserId rows)
    (.transaction (fun s created s' hs hcreate => ?_) fun _ hs => hs.2) fun created => ?_
  · obtain ⟨-, -, hid, huser, rfl⟩ := WatchService.create_ok hcreate
    obtain ⟨howner, hleaves⟩ := hs
    rw [Leaves, ← howner] at hleaves ⊢
    exact (Store.otherRows_insertRule (r := draft.row keys.rule)).trans hleaves
  · split
    · exact Keeps.bind (@process_leaves env answers keys rows (processCall call created _))
        fun _ => .pure
    · exact undoCreate_leaves
    · exact undoCreate_leaves

theorem list_leaves : Keeps (Leaves discordUserId rows) (list discordUserId) := by
  refine transaction_leaves fun s rules s' hbody => ?_
  obtain ⟨_, -, heq⟩ := Except.map_eq_ok.mp hbody
  obtain ⟨-, rfl⟩ := Prod.mk.inj heq
  rfl

/-- A change of an owned rule. -/
private theorem change_leaves {body : Store → Except ServiceError (Store × Bool)}
    (h : ∀ s s' changed, body s = .ok (s', changed) →
      s'.otherRows discordUserId = s.otherRows discordUserId) :
    Keeps (Leaves discordUserId rows) (change body) := by
  refine transaction_leaves fun s changed s' hbody => ?_
  obtain ⟨⟨_, _⟩, hok, heq⟩ := Except.map_eq_ok.mp hbody
  obtain ⟨rfl, rfl⟩ := Prod.mk.inj heq
  exact h s _ _ hok

end Service

/-- What an operation leads to has the same rows of other users. -/
theorem UserOperation.perform_leaves (env : Environment) (answers : Answers) (keys : Keys)
    (rows : Rows) (operation : UserOperation) :
    Keeps (Service.Leaves operation.discordUserId rows) (operation.perform env answers keys) := by
  cases operation with
  | authenticate discordUserId rawToken => exact Service.authenticate_leaves.map
  | logout discordUserId => exact Service.logout_leaves.map
  | add call => exact Service.add_leaves
  | list discordUserId => exact Service.list_leaves.map
  | delete discordUserId displayId =>
    refine (Service.change_leaves fun s s' changed h => ?_).map
    obtain ⟨_, -, h⟩ := Except.bind_eq_ok.mp h
    split at h
    · obtain ⟨rfl, -⟩ := Prod.mk.inj (Except.ok.inj h)
      rfl
    · exact Prod.mk.inj (Except.ok.inj h) |>.1 ▸ WatchRuleRepository.otherRows_delete s _ _
  | setEnabled discordUserId displayId enabled =>
    refine (Service.change_leaves fun s s' changed h => ?_).map
    obtain ⟨_, -, h⟩ := Except.bind_eq_ok.mp h
    split at h
    · obtain ⟨rfl, -⟩ := Prod.mk.inj (Except.ok.inj h)
      rfl
    · exact Prod.mk.inj (Except.ok.inj h) |>.1 ▸ WatchRuleRepository.otherRows_setEnabled s _ _ _
  | deleteByDatabaseId discordUserId databaseId =>
    refine (Service.change_leaves fun s s' changed h => ?_).map
    obtain ⟨_, -, h⟩ := Except.bind_eq_ok.mp h
    exact Prod.mk.inj (Except.ok.inj h) |>.1 ▸ WatchRuleRepository.otherRows_delete s _ _
  | setEnabledByDatabaseId discordUserId databaseId enabled =>
    refine (Service.change_leaves fun s s' changed h => ?_).map
    obtain ⟨_, -, h⟩ := Except.bind_eq_ok.mp h
    exact Prod.mk.inj (Except.ok.inj h) |>.1 ▸ WatchRuleRepository.otherRows_setEnabled s _ _ _
  | process call => exact Service.process_leaves.map

/-- No operation touches the rows of other users. -/
theorem UserOperation.perform_otherRows (env : Environment) (answers : Answers) (keys : Keys)
    (operation : UserOperation) (s : Store) :
    ((operation.perform env answers keys).outcome s).2.otherRows operation.discordUserId =
      s.otherRows operation.discordUserId :=
  (operation.perform_leaves env answers keys _).holds rfl

end DonutMonitor
