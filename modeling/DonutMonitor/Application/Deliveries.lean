import DonutMonitor.Application.Tasks
import DonutMonitor.Application.Effects
import Mathlib.Data.List.DropRight
import Mathlib.Data.List.Forall2

/-!
# The deliveries of a call of `process`

`RuleProcessor.process` creates the notification rows of its events in one transaction. Then
`_deliver` takes the events one after the other: it calls `send_alert` and writes the outcome to the
row and to its user in one more transaction. In the gaps other transactions commit; they may delete
rules, and with them the rows of events that are still to be sent.

## Main definitions

* `ProcessRun`, `ProcessRun.step` — a call of `process` in progress among other transactions.
* `Announces` — an event and the row created for it.
* `Settles` — what the outcome of a delivery makes of its row.
* `dmErrorsAfter` — the errors since the last success of a series of deliveries.

## Main results

* `RuleProcessor.process_announces` — the rows that the transaction creates are those of its events.
* `ProcessRun.delivers` — a call that has returned has sent each event once, and each of its rows
  that is left has been settled by the outcome of its own event.
-/

namespace DonutMonitor

open Transition

/-! ### The rows of the events -/

/-- The row is the one created for the event. -/
structure Announces (event : AlertEvent × ℕ) (row : Notification) : Prop where
  id : row.id = event.2
  watchRuleId : row.watchRuleId = event.1.databaseRuleId
  price : row.price = event.1.currentPrice
  previousPrice : row.previousPrice = event.1.previousPrice
  deliveryStatus : row.deliveryStatus = .pending

theorem UserRepository.length_truncate_le (message : String) : (truncate message).length ≤ 255 := by
  rw [truncate, String.length_ofList, List.length_take]
  exact Nat.min_le_left 255 _

theorem NotificationRepository.createPending_rows {s s' : Store} {id ruleId : ℕ} {price : ℚ}
    {previousPrice : Option ℚ} (h : createPending s id ruleId price previousPrice = .ok s') :
    s'.notifications.rows = s.notifications.rows ++
      [{ id := id, watchRuleId := ruleId, price := price, previousPrice := previousPrice }] := by
  rw [createPending] at h
  split_ifs at h
  obtain rfl := Except.ok.inj h
  rfl

theorem Announces.exists_event {events : List (AlertEvent × ℕ)} {rows : List Notification}
    (h : List.Forall₂ Announces events rows) {row : Notification} (hrow : row ∈ rows) :
    ∃ event ∈ events, Announces event row := by
  induction h with
  | nil => cases hrow
  | cons hfirst _ ih =>
    rcases List.mem_cons.mp hrow with rfl | hrest
    · exact ⟨_, List.mem_cons_self, hfirst⟩
    · obtain ⟨event, hevent, hannounces⟩ := ih hrest
      exact ⟨event, List.mem_cons_of_mem _ hevent, hannounces⟩

theorem Announces.map_id {events : List (AlertEvent × ℕ)} {rows : List Notification}
    (h : List.Forall₂ Announces events rows) : events.map Prod.snd = rows.map (·.id) := by
  induction h with
  | nil => rfl
  | cons hfirst _ ih => rw [List.map_cons, List.map_cons, ih, hfirst.id]

namespace RuleProcessor

variable {ctx : DecimalContext} {call : ProcessCall} {displayed : List WatchRule}
  {notificationKey : ℕ → ℕ}

/-- The events and the rows of a loop that has started from the rows of `s`. -/
structure Announced (s : Store) (call : ProcessCall) (notificationKey : ℕ → ℕ)
    (progress : Progress) (rows : List Notification) : Prop where
  announces : List.Forall₂ Announces progress.events rows
  added : progress.store.notifications.rows = s.notifications.rows ++ rows
  events : ∀ event ∈ progress.events, event.1.discordUserId = call.discordUserId ∧
    ∃ ruleId ∈ call.ruleIds, notificationKey ruleId = event.2

/-- The new rows are those whose keys are new. -/
theorem Announced.filter_rows {s : Store} {progress : Progress} {rows : List Notification}
    (h : Announced s call notificationKey progress rows) :
    progress.store.notifications.rows.filter (·.id ∉ s.notifications.keys) = rows := by
  have hnodup := progress.store.notifications.nodup
  rw [h.added, List.map_append] at hnodup
  have hdisjoint := List.disjoint_of_nodup_append hnodup
  rw [h.added, List.filter_append, List.filter_eq_nil_iff.mpr, List.nil_append,
    List.filter_eq_self]
  · exact fun row hrow => decide_eq_true fun hold => hdisjoint hold (List.mem_map_of_mem hrow)
  · exact fun row hrow => by simpa using Table.mem_keys_of_mem hrow

private theorem processRule_announced {s : Store} {progress progress' : Progress} {ruleId : ℕ}
    (hrule : ruleId ∈ call.ruleIds)
    (hannounced : ∃ rows, Announced s call notificationKey progress rows)
    (h : processRule ctx call displayed notificationKey progress ruleId = .ok progress') :
    ∃ rows, Announced s call notificationKey progress' rows := by
  obtain ⟨rows, hannounced⟩ := hannounced
  rcases processRule_cases h with rfl |
    ⟨rule, hget, -, rfl | ⟨price, store, display, hcreate, -, rfl⟩⟩
  · exact ⟨rows, hannounced⟩
  · exact ⟨rows, hannounced.announces, hannounced.added, hannounced.events⟩
  · obtain ⟨hget, -⟩ := WatchRuleRepository.getOwned_eq_some.mp hget
    obtain rfl := Table.key_of_get? hget
    have hadded := NotificationRepository.createPending_rows hcreate
    refine ⟨rows ++ [⟨notificationKey rule.id, rule.id, price, rule.lastObservedPrice, .pending,
      none, none⟩], ?_, hadded.trans ?_, fun event hevent => ?_⟩
    · exact List.rel_append hannounced.announces (.cons ⟨rfl, rfl, rfl, rfl, rfl⟩ .nil)
    · rw [← List.append_assoc, ← hannounced.added]
      rfl
    · rcases List.mem_append.mp hevent with hold | hnew
      · exact hannounced.events event hold
      · obtain rfl := List.mem_singleton.mp hnew
        exact ⟨rfl, rule.id, hrule, rfl⟩

/-- A row after the transaction was there before, or it has the key of one of the rules. -/
theorem Announced.mem_rows {s : Store} {progress : Progress} {rows : List Notification}
    (h : Announced s call notificationKey progress rows) {row : Notification}
    (hrow : row ∈ progress.store.notifications.rows) :
    row ∈ s.notifications.rows ∨ ∃ ruleId ∈ call.ruleIds, notificationKey ruleId = row.id := by
  rw [h.added] at hrow
  refine (List.mem_append.mp hrow).imp_right fun hnew => ?_
  obtain ⟨event, hevent, hannounces⟩ := Announces.exists_event h.announces hnew
  obtain ⟨-, ruleId, hrule, hkey⟩ := h.events event hevent
  exact ⟨ruleId, hrule, hkey.trans hannounces.id.symm⟩

/-- The transaction adds one row for each of its events, in the same order. -/
theorem process_announces {observationKey : ℕ} {s : Store} {progress : Progress}
    (h : process ctx call notificationKey observationKey s = .ok progress) :
    ∃ rows, Announced s call notificationKey progress rows := by
  obtain ⟨s', hadd, h⟩ := Except.bind_eq_ok.mp h
  rw [raiseDatabase_eq_ok, ObservationRepository.add] at hadd
  split_ifs at hadd
  obtain rfl := Except.ok.inj hadd
  refine Except.foldlM_invariant (I := fun progress =>
    ∃ rows, Announced s call notificationKey progress rows) ?_ h ?_
  · exact fun progress ruleId progress' hrule hannounced hstep =>
      processRule_announced hrule hannounced hstep
  · exact ⟨[], .nil, (List.append_nil _).symm, fun event hnil => absurd hnil List.not_mem_nil⟩

end RuleProcessor

/-! ### What transactions do to notifications and to the count of errors -/

/-- The column `dm_error_count` of a user. -/
def Store.dmErrorCount (s : Store) (discordUserId : ℤ) : Option ℤ :=
  (s.users.get? discordUserId).map (·.dmErrorCount)

/-- The call of `send_alert` has raised. -/
def failed : Except String ℤ → Bool
  | .error _ => true
  | .ok _ => false

/-- The failures since the last success of a series of deliveries, with the errors from before it
when none has succeeded. -/
def dmErrorsAfter (before : ℤ) (outcomes : List (Except String ℤ)) : ℤ :=
  (outcomes.rtakeWhile failed).length + if outcomes.all failed then before else 0

/-- What one delivery makes of the count of errors. -/
def dmErrorCountAfter : Except String ℤ → ℤ → ℤ
  | .error _, count => count + 1
  | .ok _, _ => 0

@[simp] theorem dmErrorsAfter_nil (before : ℤ) : dmErrorsAfter before [] = before := by
  simp [dmErrorsAfter]

theorem dmErrorsAfter_concat (before : ℤ) (outcomes : List (Except String ℤ))
    (outcome : Except String ℤ) : dmErrorsAfter before (outcomes ++ [outcome]) =
      dmErrorCountAfter outcome (dmErrorsAfter before outcomes) := by
  rw [dmErrorsAfter, List.all_append]
  cases outcome with
  | error name =>
    rw [List.rtakeWhile_concat_pos _ _ _ rfl, List.length_append, dmErrorCountAfter, dmErrorsAfter]
    simp [failed]
    omega
  | ok messageId =>
    rw [List.rtakeWhile_concat_neg _ _ _ Bool.false_ne_true, dmErrorCountAfter]
    simp [failed]

/-- What a delivery makes of its row. -/
def Settles (outcome : Except String ℤ) (row : Notification) : Prop :=
  match outcome with
  | .ok messageId => row.deliveryStatus = .sent ∧ row.discordMessageId = some messageId
  | .error name =>
    row.deliveryStatus = .failed ∧ row.errorMessage = some (UserRepository.truncate name)

namespace Transaction

/-- The transaction creates the notification with the key, or writes the outcome of a delivery to
it. -/
def writesNotification (id : ℕ) : Transaction → Bool
  | process call _ notificationKey => call.ruleIds.any fun ruleId => notificationKey ruleId = id
  | deliveryFailed notificationId _ _ | deliverySent notificationId _ _ => notificationId = id
  | _ => false

/-- The transaction belongs to a message to the user. -/
def countsDelivery (discordUserId : ℤ) : Transaction → Bool
  | deliveryFailed _ userId _ | deliverySent _ userId _ | recordDmError userId _ =>
    userId = discordUserId
  | _ => false

/-- The transaction may insert the user. -/
def savesUser (discordUserId : ℤ) : Transaction → Bool
  | saveValidToken userId _ _ => userId = discordUserId
  | _ => false

variable {env : Environment} {s s' : Store} {a : Answer} {t : Transaction}

/-- What a transaction leaves of the notifications and of the errors of users. -/
structure KeepsDeliveries (t : Transaction) (s s' : Store) : Prop where
  rows : ∀ row ∈ s'.notifications.rows,
    row ∈ s.notifications.rows ∨ t.writesNotification row.id = true
  count : ∀ discordUserId, s'.dmErrorCount discordUserId = s.dmErrorCount discordUserId ∨
    s'.dmErrorCount discordUserId = none ∨ t.countsDelivery discordUserId = true ∨
      t.savesUser discordUserId = true ∧ discordUserId ∉ s.users.keys

theorem KeepsDeliveries.of_users (husers : s'.users = s.users)
    (hrows : ∀ row ∈ s'.notifications.rows, row ∈ s.notifications.rows) :
    t.KeepsDeliveries s s' :=
  ⟨fun row hrow => .inl (hrows row hrow),
    fun _ => .inl (by rw [Store.dmErrorCount, Store.dmErrorCount, husers])⟩

theorem dmErrorCount_updateUsers {p : User → Bool} {f : User → User}
    {hf : ∀ u, (f u).discordUserId = u.discordUserId} {discordUserId : ℤ}
    (hcount : ∀ u, u.discordUserId = discordUserId → p u = true →
      (f u).dmErrorCount = u.dmErrorCount) :
    (s.updateUsers p f hf).dmErrorCount discordUserId = s.dmErrorCount discordUserId := by
  rw [Store.dmErrorCount, Store.updateUsers_users, Table.get?_update, Option.map_map,
    Store.dmErrorCount]
  refine Option.map_congr fun u hu => ?_
  simp only [Function.comp_apply]
  split_ifs with hp
  · exact hcount u (Table.key_of_get? hu) hp
  · rfl

theorem dmErrorCount_updateUsers_self {discordUserId : ℤ} {f : User → User}
    {hf : ∀ u, (f u).discordUserId = u.discordUserId} {g : ℤ → ℤ}
    (hcount : ∀ u, (f u).dmErrorCount = g u.dmErrorCount) :
    (s.updateUsers (·.discordUserId = discordUserId) f hf).dmErrorCount discordUserId =
      (s.dmErrorCount discordUserId).map g := by
  rw [Store.dmErrorCount, Store.updateUsers_users, Table.get?_update, Option.map_map,
    Store.dmErrorCount, Option.map_map]
  refine Option.map_congr fun u hu => ?_
  simp only [Function.comp_apply, Table.key_of_get? hu, decide_true, if_true, hcount]

/-- The rows after one statement on the row with a key. -/
private theorem mem_map_row {rows : List Notification} {id : ℕ} {f : Notification → Notification}
    {row : Notification} (hrow : row ∈ rows.map fun n => if decide (n.id = id) then f n else n) :
    row ∈ rows ∧ row.id ≠ id ∨ ∃ row' ∈ rows, row'.id = id ∧ row = f row' := by
  obtain ⟨row', hrow', rfl⟩ := List.mem_map.mp hrow
  simp only [decide_eq_true_eq]
  split_ifs with hid
  · exact .inr ⟨row', hrow', hid, rfl⟩
  · exact .inl ⟨hrow', hid⟩

theorem mem_rows_markFailed {id : ℕ} {error : String} {row : Notification}
    (hrow : row ∈ (NotificationRepository.markFailed s id error).notifications.rows) :
    row ∈ s.notifications.rows ∧ row.id ≠ id ∨ row.id = id ∧ Settles (.error error) row := by
  rcases mem_map_row hrow with hold | ⟨row', -, hid, rfl⟩
  · exact .inl hold
  · exact .inr ⟨hid, rfl, rfl⟩

theorem mem_rows_markSent {id : ℕ} {messageId : ℤ} {row : Notification}
    (hrow : row ∈ (NotificationRepository.markSent s id messageId).notifications.rows) :
    row ∈ s.notifications.rows ∧ row.id ≠ id ∨ row.id = id ∧ Settles (.ok messageId) row := by
  rcases mem_map_row hrow with hold | ⟨row', -, hid, rfl⟩
  · exact .inl hold
  · exact .inr ⟨hid, rfl, rfl⟩

/-- The transaction of `_deliver` after an outcome. -/
def delivery (event : AlertEvent × ℕ) : Except String ℤ → Transaction
  | .error name => deliveryFailed event.2 event.1.discordUserId name
  | .ok messageId => deliverySent event.2 event.1.discordUserId messageId

theorem dmErrorCount_deleteUser (userId discordUserId : ℤ) :
    (s.deleteUser userId).dmErrorCount discordUserId = s.dmErrorCount discordUserId ∨
      (s.deleteUser userId).dmErrorCount discordUserId = none := by
  rw [Store.dmErrorCount, Store.deleteUser_users, Table.get?_delete, Store.dmErrorCount]
  cases s.users.get? discordUserId with
  | none => exact .inl rfl
  | some user =>
    rw [Option.filter_some]
    split_ifs
    · exact .inl rfl
    · exact .inr rfl

theorem dmErrorCount_markInvalid (userId discordUserId : ℤ) :
    (UserRepository.markInvalid s userId).dmErrorCount discordUserId =
      s.dmErrorCount discordUserId := by
  show (s.updateUsers (·.discordUserId = userId)
    (fun user => { user with tokenStatus := .invalid }) fun _ => rfl).dmErrorCount _ = _
  exact dmErrorCount_updateUsers fun _ _ _ => rfl

/-- An update of a user leaves the counts of the others. -/
private theorem dmErrorCount_updateUsers_of_ne {userId discordUserId : ℤ}
    (hid : discordUserId ≠ userId) {f : User → User}
    {hf : ∀ u, (f u).discordUserId = u.discordUserId} :
    (s.updateUsers (·.discordUserId = userId) f hf).dmErrorCount discordUserId =
      s.dmErrorCount discordUserId :=
  dmErrorCount_updateUsers fun _ hu hp => absurd (hu.symm.trans (of_decide_eq_true hp)) hid

private theorem notifications_saveValidToken (userId : ℤ) (token fingerprint : String) :
    (UserRepository.saveValidToken s userId token fingerprint).notifications = s.notifications := by
  rw [UserRepository.saveValidToken]
  split_ifs <;> rfl

/-- A new token leaves the counts of the others, and the count of a user that is there. -/
private theorem dmErrorCount_saveValidToken (userId discordUserId : ℤ)
    (token fingerprint : String) :
    (UserRepository.saveValidToken s userId token fingerprint).dmErrorCount discordUserId =
        s.dmErrorCount discordUserId ∨
      discordUserId = userId ∧ userId ∉ s.users.keys := by
  rw [UserRepository.saveValidToken]
  split_ifs with hmem
  · exact .inl (dmErrorCount_updateUsers fun _ _ _ => rfl)
  · by_cases hid : discordUserId = userId
    · exact .inr ⟨hid, hmem⟩
    · refine .inl ?_
      rw [Store.dmErrorCount, Store.insertUser_users, Table.get?_insert, if_neg,
        Store.dmErrorCount]
      exact fun heq => hid heq

/-- What the transaction of a delivery does to its row and to its user. -/
theorem exec_delivery {event : AlertEvent × ℕ} {outcome : Except String ℤ}
    (h : (delivery event outcome).exec env s = .ok (a, s')) :
    (∀ row ∈ s'.notifications.rows, row ∈ s.notifications.rows ∧ row.id ≠ event.2 ∨
      row.id = event.2 ∧ Settles outcome row) ∧
    s'.dmErrorCount event.1.discordUserId =
      (s.dmErrorCount event.1.discordUserId).map (dmErrorCountAfter outcome) := by
  cases outcome with
  | error name =>
    obtain ⟨-, rfl⟩ := Prod.mk.inj (Except.ok.inj h)
    exact ⟨fun row hrow => mem_rows_markFailed hrow, dmErrorCount_updateUsers_self fun _ => rfl⟩
  | ok messageId =>
    obtain ⟨-, rfl⟩ := Prod.mk.inj (Except.ok.inj h)
    exact ⟨fun row hrow => mem_rows_markSent hrow, dmErrorCount_updateUsers_self fun _ => rfl⟩

theorem exec_keepsDeliveries (h : t.exec env s = .ok (a, s')) : t.KeepsDeliveries s s' := by
  have hsame : ∀ {userId discordUserId : ℤ},
      (discordUserId = userId → t.countsDelivery discordUserId = true) → ∀ {f : User → User} {hf},
      (s.updateUsers (·.discordUserId = userId) f hf).dmErrorCount discordUserId =
        s.dmErrorCount discordUserId ∨ t.countsDelivery discordUserId = true := by
    intro userId discordUserId hcounts f hf
    by_cases hid : discordUserId = userId
    · exact .inr (hcounts hid)
    · exact .inl (dmErrorCount_updateUsers_of_ne hid)
  cases t with
  | saveValidToken userId token fingerprint =>
    obtain ⟨-, rfl⟩ := Prod.mk.inj (Except.ok.inj h)
    refine ⟨fun row hrow => .inl (notifications_saveValidToken userId token fingerprint ▸ hrow),
      fun discordUserId => ?_⟩
    rcases dmErrorCount_saveValidToken userId discordUserId token fingerprint
      with hkept | ⟨hid, hnew⟩
    · exact .inl hkept
    · exact .inr (.inr (.inr ⟨decide_eq_true hid.symm, hid ▸ hnew⟩))
  | logout userId =>
    obtain ⟨-, rfl⟩ := Prod.mk.inj (Except.ok.inj h)
    refine ⟨fun row hrow => .inl (List.mem_of_mem_filter hrow), fun discordUserId => ?_⟩
    exact (dmErrorCount_deleteUser userId discordUserId).imp_right .inl
  | invalidate userId notifiedAt =>
    cases notifiedAt with
    | none =>
      obtain ⟨-, rfl⟩ := Prod.mk.inj (Except.ok.inj h)
      exact ⟨fun row hrow => .inl hrow, fun _ => .inl (dmErrorCount_markInvalid userId _)⟩
    | some now =>
      obtain ⟨-, rfl⟩ := Prod.mk.inj (Except.ok.inj h)
      refine ⟨fun row hrow => .inl hrow,
        fun _ => .inl (Eq.trans ?_ (dmErrorCount_markInvalid userId _))⟩
      exact dmErrorCount_updateUsers fun _ _ _ => rfl
  | create draft key =>
    obtain ⟨⟨created, s₁⟩, hcreate, h⟩ := Except.bind_eq_ok.mp h
    obtain ⟨-, rfl⟩ := Prod.mk.inj (Except.ok.inj h)
    obtain ⟨-, -, hid, huser, rfl⟩ := WatchService.create_ok hcreate
    exact .of_users rfl fun row hrow => hrow
  | undoCreate userId ruleId =>
    obtain ⟨-, rfl⟩ := Prod.mk.inj (Except.ok.inj h)
    exact .of_users rfl fun row hrow => List.mem_of_mem_filter hrow
  | delete userId displayId =>
    obtain ⟨⟨s₁, changed⟩, hdelete, h⟩ := Except.bind_eq_ok.mp h
    obtain ⟨-, rfl⟩ := Prod.mk.inj (Except.ok.inj h)
    rcases WatchService.delete_ok hdelete with ⟨-, rfl⟩ | ⟨ruleId, -, rfl⟩
    · exact .of_users rfl fun row hrow => hrow
    · exact .of_users rfl fun row hrow => List.mem_of_mem_filter hrow
  | setEnabled userId displayId enabled =>
    obtain ⟨⟨s₁, changed⟩, hset, h⟩ := Except.bind_eq_ok.mp h
    obtain ⟨-, rfl⟩ := Prod.mk.inj (Except.ok.inj h)
    rcases WatchService.setEnabled_ok hset with ⟨-, rfl⟩ | ⟨ruleId, -, rfl⟩ <;>
      exact .of_users rfl fun row hrow => hrow
  | deleteByDatabaseId userId ruleId =>
    obtain ⟨⟨s₁, changed⟩, hdelete, h⟩ := Except.bind_eq_ok.mp h
    obtain ⟨-, rfl⟩ := Prod.mk.inj (Except.ok.inj h)
    obtain ⟨_, -, hdelete⟩ := Except.bind_eq_ok.mp hdelete
    obtain rfl := congrArg Prod.fst (Except.ok.inj hdelete)
    exact .of_users rfl fun row hrow => List.mem_of_mem_filter hrow
  | setEnabledByDatabaseId userId ruleId enabled =>
    obtain ⟨⟨s₁, changed⟩, hset, h⟩ := Except.bind_eq_ok.mp h
    obtain ⟨-, rfl⟩ := Prod.mk.inj (Except.ok.inj h)
    obtain ⟨_, -, hset⟩ := Except.bind_eq_ok.mp hset
    obtain rfl := congrArg Prod.fst (Except.ok.inj hset)
    exact .of_users rfl fun row hrow => hrow
  | process call observationKey notificationKey =>
    obtain ⟨progress, hprocess, h⟩ := Except.bind_eq_ok.mp h
    obtain ⟨-, rfl⟩ := Prod.mk.inj (Except.ok.inj h)
    obtain ⟨rows, hannounced⟩ := RuleProcessor.process_announces hprocess
    refine ⟨fun row hrow => ?_, fun _ => .inl ?_⟩
    · refine (hannounced.mem_rows hrow).imp_right ?_
      rintro ⟨ruleId, hrule, hkey⟩
      exact List.any_eq_true.mpr ⟨ruleId, hrule, decide_eq_true hkey⟩
    · rw [Store.dmErrorCount, Store.dmErrorCount, (RuleProcessor.process_ok hprocess).1]
  | deliveryFailed notificationId userId errorName =>
    obtain ⟨-, rfl⟩ := Prod.mk.inj (Except.ok.inj h)
    refine ⟨fun row hrow => ?_, fun _ => ?_⟩
    · exact (mem_rows_markFailed hrow).imp And.left fun hnew => decide_eq_true hnew.1.symm
    · exact (hsame fun hid => decide_eq_true hid.symm).imp_right (.inr ∘ .inl)
  | deliverySent notificationId userId messageId =>
    obtain ⟨-, rfl⟩ := Prod.mk.inj (Except.ok.inj h)
    refine ⟨fun row hrow => ?_, fun _ => ?_⟩
    · exact (mem_rows_markSent hrow).imp And.left fun hnew => decide_eq_true hnew.1.symm
    · exact (hsame fun hid => decide_eq_true hid.symm).imp_right (.inr ∘ .inl)
  | markApiSuccess userId now =>
    obtain ⟨-, rfl⟩ := Prod.mk.inj (Except.ok.inj h)
    exact ⟨fun row hrow => .inl hrow, fun _ => .inl (dmErrorCount_updateUsers fun _ _ _ => rfl)⟩
  | recordDmError userId message =>
    obtain ⟨-, rfl⟩ := Prod.mk.inj (Except.ok.inj h)
    refine ⟨fun row hrow => .inl hrow, fun _ => ?_⟩
    exact (hsame fun hid => decide_eq_true hid.symm).imp_right (.inr ∘ .inl)
  | prune now =>
    obtain ⟨-, rfl⟩ := Prod.mk.inj (Except.ok.inj h)
    exact .of_users rfl fun row hrow => hrow

end Transaction

/-! ### A call in progress -/

/-- A call of `process` in progress: the database, where the call is suspended (nowhere, when it has
returned), its list `events`, which it returns without the keys, the rows that its transaction has
created, the calls of `send_alert`, and the deliveries that are over. -/
structure ProcessRun where
  store : Store
  phase : Option ProcessPhase
  events : List (AlertEvent × ℕ) := []
  created : List Notification := []
  sends : List (AlertEvent × Except String ℤ) := []
  deliveries : List ((AlertEvent × ℕ) × Except String ℤ) := []

/-- What happens while a call of `process` is in progress. -/
inductive ProcessEvent where
  /-- Another transaction commits. -/
  | other (t : Transaction)
  /-- The pending transaction of the call commits. -/
  | committed (input : CommitInput)
  /-- `send_alert` returns the id of the message or raises. -/
  | sent (outcome : Except String ℤ)

namespace ProcessPhase

/-- The events whose deliveries are not over. -/
def left : Option ProcessPhase → List (AlertEvent × ℕ)
  | some (delivering event rest) | some (recording event _ rest) => event :: rest
  | some evaluating | none => []

/-- The call of `send_alert` whose outcome has not been written. -/
def unrecorded : Option ProcessPhase → List (AlertEvent × Except String ℤ)
  | some (recording event outcome _) => [(event.1, outcome)]
  | some evaluating | some (delivering _ _) | none => []

@[simp] theorem left_deliver (events : List (AlertEvent × ℕ)) : left (deliver events) = events := by
  cases events <;> rfl

@[simp] theorem unrecorded_deliver (events : List (AlertEvent × ℕ)) :
    unrecorded (deliver events) = [] := by
  cases events <;> rfl

end ProcessPhase

namespace ProcessRun

variable (env : Environment) (args : ProcessArgs)

/-- The call at its first suspension, or after the return of a call without rules. -/
def start (s : Store) : ProcessRun where
  store := s
  phase := ProcessPhase.start args

variable (m : ProcessRun)

/-- The call after its pending transaction. -/
def commit (phase : ProcessPhase) (answer : Answer) (store : Store) (next : Option ProcessPhase) :
    ProcessRun :=
  match phase, answer with
  | .evaluating, .alerts events => { m with
      store := store
      phase := next
      events := events
      created := store.notifications.rows.filter (·.id ∉ m.store.notifications.keys) }
  | .recording event outcome _, _ => { m with
      store := store
      phase := next
      deliveries := m.deliveries ++ [(event, outcome)] }
  | _, _ => { m with store := store, phase := next }

/-- One step of the call or of the other transactions. -/
def step : ProcessEvent → Option ProcessRun
  | .other t =>
    match t.exec env m.store with
    | .ok (_, store) => some { m with store := store }
    | .error _ => none
  | .committed input => do
    let phase ← m.phase
    let t ← phase.pending args input
    match t.exec env m.store with
    | .ok (answer, store) => (phase.resume answer).map (m.commit phase answer store)
    | .error _ => none
  | .sent outcome => do
    let phase ← m.phase
    let next ← phase.sent outcome
    some { m with
      phase := some next
      sends := m.sends ++ ProcessPhase.unrecorded (some next) }

variable {env args m} {m' : ProcessRun}

/-- A step of the call commits its first transaction, sends an event, or writes the outcome of a
delivery; any other step is one of the other transactions. -/
theorem step_cases {event : ProcessEvent} (h : m.step env args event = some m') :
    (∃ t a store, event = .other t ∧ t.exec env m.store = .ok (a, store) ∧
        m' = { m with store := store }) ∨
      (m.phase = some .evaluating ∧ ∃ call observationKey notificationKey progress,
        call.discordUserId = args.discordUserId ∧
        RuleProcessor.process env.decimal call notificationKey observationKey m.store =
          .ok progress ∧
        m' = { m with
          store := progress.store
          phase := ProcessPhase.deliver progress.events
          events := progress.events
          created := progress.store.notifications.rows.filter
            (·.id ∉ m.store.notifications.keys) }) ∨
      (∃ event rest outcome, m.phase = some (.delivering event rest) ∧ m' = { m with
        phase := some (.recording event outcome rest)
        sends := m.sends ++ [(event.1, outcome)] }) ∨
      ∃ event outcome rest store, m.phase = some (.recording event outcome rest) ∧
        (Transaction.delivery event outcome).exec env m.store = .ok (.done, store) ∧
        m' = { m with
          store := store
          phase := ProcessPhase.deliver rest
          deliveries := m.deliveries ++ [(event, outcome)] } := by
  cases event with
  | other t =>
    rw [step] at h
    split at h
    · next a store hexec => exact .inl ⟨t, a, store, rfl, hexec, (Option.some.inj h).symm⟩
    · cases h
  | committed input =>
    obtain ⟨phase, hphase, h⟩ := Option.bind_eq_some_iff.mp h
    obtain ⟨t, hpending, h⟩ := Option.bind_eq_some_iff.mp h
    split at h
    · next answer store hexec =>
      obtain ⟨next, hresume, rfl⟩ := Option.map_eq_some_iff.mp h
      cases phase with
      | evaluating =>
        obtain ⟨call, hcall, rfl⟩ := Option.map_eq_some_iff.mp hpending
        obtain ⟨progress, hprocess, hexec⟩ := Except.bind_eq_ok.mp hexec
        obtain ⟨rfl, rfl⟩ := Prod.mk.inj (Except.ok.inj hexec)
        obtain rfl := Option.some.inj hresume
        obtain ⟨-, -, huser, -⟩ := ProcessArgs.call_eq_some hcall
        exact .inr (.inl ⟨hphase, call, _, _, progress, huser, hprocess, rfl⟩)
      | delivering event rest => cases hpending
      | recording event outcome rest =>
        obtain rfl : Transaction.delivery event outcome = t := by
          cases outcome <;> exact Option.some.inj hpending
        cases answer with
        | done =>
          obtain rfl := Option.some.inj hresume
          exact .inr (.inr (.inr ⟨event, outcome, rest, store, hphase, hexec, rfl⟩))
        | _ => cases hresume
    · cases h
  | sent outcome =>
    obtain ⟨phase, hphase, h⟩ := Option.bind_eq_some_iff.mp h
    obtain ⟨next, hsent, h⟩ := Option.bind_eq_some_iff.mp h
    obtain rfl := Option.some.inj h
    cases phase with
    | delivering event rest =>
      obtain rfl := Option.some.inj hsent
      exact .inr (.inr (.inl ⟨event, rest, outcome, hphase, rfl⟩))
    | _ => cases hsent

/-- What is tied to where the call is suspended. -/
structure Staged (args : ProcessArgs) (m : ProcessRun) : Prop where
  events : m.events = m.deliveries.map Prod.fst ++ ProcessPhase.left m.phase
  sends : m.sends = (m.deliveries.map fun d => (d.1.1, d.2)) ++ ProcessPhase.unrecorded m.phase
  fresh : m.phase = some .evaluating → m.events = []
  announces : List.Forall₂ Announces m.events m.created
  nodup : (m.events.map Prod.snd).Nodup
  users : ∀ event ∈ m.events, event.1.discordUserId = args.discordUserId

theorem Staged.step (hm : m.Staged args) {event : ProcessEvent}
    (h : m.step env args event = some m') : m'.Staged args := by
  rcases step_cases h with ⟨t, a, store, -, -, rfl⟩ |
    ⟨hphase, call, observationKey, notificationKey, progress, huser, hprocess, rfl⟩ |
    ⟨event, rest, outcome, hphase, rfl⟩ | ⟨event, outcome, rest, store, hphase, -, rfl⟩
  · exact ⟨hm.events, hm.sends, hm.fresh, hm.announces, hm.nodup, hm.users⟩
  · obtain ⟨rows, hannounced⟩ := RuleProcessor.process_announces hprocess
    have hnone : m.deliveries = [] := by
      have hevents := hm.events
      rw [hm.fresh hphase, hphase] at hevents
      exact List.map_eq_nil_iff.mp (List.append_eq_nil_iff.mp hevents.symm).1
    refine ⟨?_, ?_, fun h => ?_, ?_, ?_, fun event hevent => ?_⟩
    · rw [hnone, ProcessPhase.left_deliver]
      rfl
    · rw [hm.sends, hphase, ProcessPhase.unrecorded_deliver]
      rfl
    · exact absurd h (ProcessPhase.deliver_ne_evaluating _)
    · exact hannounced.filter_rows ▸ hannounced.announces
    · rw [Announces.map_id hannounced.announces]
      have hnodup := progress.store.notifications.nodup
      rw [hannounced.added, List.map_append] at hnodup
      exact hnodup.of_append_right
    · exact (hannounced.events event hevent).1.trans huser
  · refine ⟨?_, ?_, nofun, hm.announces, hm.nodup, hm.users⟩
    · rw [hm.events, hphase]
      rfl
    · rw [hm.sends, hphase]
      exact List.append_nil _ ▸ rfl
  · refine ⟨?_, ?_, fun h => ?_, hm.announces, hm.nodup, hm.users⟩
    · rw [hm.events, hphase, ProcessPhase.left_deliver, List.map_append, List.append_assoc]
      rfl
    · rw [hm.sends, hphase, ProcessPhase.unrecorded_deliver, List.map_append, List.append_nil]
      rfl
    · exact absurd h (ProcessPhase.deliver_ne_evaluating rest)

theorem staged_start (s : Store) : (start args s).Staged args := by
  have hleft : ProcessPhase.left (ProcessPhase.start args) = [] := by
    rw [ProcessPhase.start]
    split_ifs <;> rfl
  have hunrecorded : ProcessPhase.unrecorded (ProcessPhase.start args) = [] := by
    rw [ProcessPhase.start]
    split_ifs <;> rfl
  exact ⟨hleft.symm, hunrecorded.symm, fun _ => rfl, .nil,
    List.nodup_nil, fun event hnil => absurd hnil List.not_mem_nil⟩

/-! ### The outcomes -/

/-- Another transaction neither creates a row with the key of one of the call nor writes the outcome
of another delivery to it. -/
def LeavesRows (m : ProcessRun) : ProcessEvent → Prop
  | .other t => ∀ event ∈ m.events, t.writesNotification event.2 = false
  | .committed _ | .sent _ => True

/-- Another transaction neither belongs to a message to the user nor inserts the user again. -/
def LeavesErrors (args : ProcessArgs) (m : ProcessRun) : ProcessEvent → Prop
  | .other t => t.countsDelivery args.discordUserId = false ∧
    (t.savesUser args.discordUserId = true → args.discordUserId ∈ m.store.users.keys)
  | .committed _ | .sent _ => True

instance (m : ProcessRun) (event : ProcessEvent) : Decidable (m.LeavesRows event) :=
  match event with
  | .other _ => inferInstanceAs (Decidable (∀ event ∈ m.events, _))
  | .committed _ | .sent _ => inferInstanceAs (Decidable True)

instance (m : ProcessRun) (event : ProcessEvent) : Decidable (m.LeavesErrors args event) :=
  match event with
  | .other _ => inferInstanceAs (Decidable (_ ∧ _))
  | .committed _ | .sent _ => inferInstanceAs (Decidable True)

/-- The rows of the deliveries that are over have been settled by them. -/
def Settled (m : ProcessRun) : Prop :=
  ∀ d ∈ m.deliveries, ∀ row ∈ m.store.notifications.rows, row.id = d.1.2 → Settles d.2 row

theorem Staged.mem_events (hm : m.Staged args) {d : (AlertEvent × ℕ) × Except String ℤ}
    (hd : d ∈ m.deliveries) : d.1 ∈ m.events := by
  rw [hm.events]
  exact List.mem_append_left _ (List.mem_map_of_mem hd)

theorem Settled.step (hsettled : m.Settled) (hm : m.Staged args) {event : ProcessEvent}
    (hleaves : m.LeavesRows event) (h : m.step env args event = some m') : m'.Settled := by
  rcases step_cases h with ⟨t, a, store, rfl, hexec, rfl⟩ |
    ⟨hphase, call, observationKey, notificationKey, progress, -, -, rfl⟩ |
    ⟨event, rest, outcome, -, rfl⟩ | ⟨event, outcome, rest, store, hphase, hexec, rfl⟩
  · intro d hd row hrow hid
    rcases (Transaction.exec_keepsDeliveries hexec).rows row hrow with hold | hwrites
    · exact hsettled d hd row hold hid
    · rw [hid, hleaves d.1 (hm.mem_events hd)] at hwrites
      cases hwrites
  · intro d hd
    have hnone := hm.mem_events hd
    rw [hm.fresh hphase] at hnone
    cases hnone
  · exact hsettled
  · have hother : ∀ d ∈ m.deliveries, d.1.2 ≠ event.2 := by
      have hnodup := hm.nodup
      rw [hm.events, hphase, List.map_append, List.map_map] at hnodup
      intro d hd hsame
      refine List.disjoint_of_nodup_append hnodup (List.mem_map_of_mem hd) ?_
      exact List.mem_map.mpr ⟨event, List.mem_cons_self, hsame.symm⟩
    intro d hd row hrow hid
    rcases List.mem_append.mp hd with hold | hnew
    · rcases (Transaction.exec_delivery hexec).1 row hrow with ⟨hbefore, -⟩ | ⟨hkey, -⟩
      · exact hsettled d hold row hbefore hid
      · exact absurd (hid.symm.trans hkey) (hother d hold)
    · obtain rfl := List.mem_singleton.mp hnew
      rcases (Transaction.exec_delivery hexec).1 row hrow with ⟨-, hne⟩ | ⟨-, hsettles⟩
      · exact absurd hid hne
      · exact hsettles

/-- The errors of the user are those of the deliveries that are over. -/
def Counted (args : ProcessArgs) (s : Store) (m : ProcessRun) : Prop :=
  ∀ count, m.store.dmErrorCount args.discordUserId = some count →
    ∃ before, s.dmErrorCount args.discordUserId = some before ∧
      count = dmErrorsAfter before (m.deliveries.map Prod.snd)

theorem Counted.step {s : Store} (hcounted : m.Counted args s) (hm : m.Staged args)
    {event : ProcessEvent} (hleaves : m.LeavesErrors args event)
    (h : m.step env args event = some m') : m'.Counted args s := by
  rcases step_cases h with ⟨t, a, store, rfl, hexec, rfl⟩ |
    ⟨hphase, call, observationKey, notificationKey, progress, -, hprocess, rfl⟩ |
    ⟨event, rest, outcome, -, rfl⟩ | ⟨event, outcome, rest, store, hphase, hexec, rfl⟩
  · intro count hcount
    rcases (Transaction.exec_keepsDeliveries hexec).count args.discordUserId with
      hsame | hnone | hcounts | ⟨hsaves, hnew⟩
    · exact hcounted count (hsame ▸ hcount)
    · cases hnone.symm.trans hcount
    · cases hleaves.1.symm.trans hcounts
    · exact absurd (hleaves.2 hsaves) hnew
  · intro count hcount
    refine hcounted count ?_
    rw [← hcount, Store.dmErrorCount, Store.dmErrorCount, (RuleProcessor.process_ok hprocess).1]
  · exact hcounted
  · have huser : event.1.discordUserId = args.discordUserId := by
      refine hm.users event ?_
      rw [hm.events, hphase]
      exact List.mem_append_right _ List.mem_cons_self
    have hafter := (Transaction.exec_delivery hexec).2
    rw [huser] at hafter
    intro count hcount
    obtain ⟨old, hold, rfl⟩ := Option.map_eq_some_iff.mp (hafter.symm.trans hcount)
    obtain ⟨before, hbefore, rfl⟩ := hcounted old hold
    exact ⟨before, hbefore, by rw [List.map_append, List.map_singleton, dmErrorsAfter_concat]⟩

/-- A call of `process` that has returned has created one row for each of its events, has sent the
events one after the other, each once, and each of its rows that is left holds the outcome of its
own event. When nobody else writes to the user meanwhile, its count of errors is that of the
failures since the last success. -/
theorem delivers {s : Store} {events : List ProcessEvent}
    (hrun : run (step env args) (start args s) events = some m)
    (hrows : Along (step env args) LeavesRows (start args s) events) (hreturned : m.phase = none) :
    List.Forall₂ Announces m.events m.created ∧
    m.events = m.deliveries.map Prod.fst ∧
    m.sends = (m.deliveries.map fun d => (d.1.1, d.2)) ∧
    (∀ d ∈ m.deliveries, ∀ row ∈ m.store.notifications.rows, row.id = d.1.2 → Settles d.2 row) ∧
    (Along (step env args) (LeavesErrors args) (start args s) events →
      ∀ count, m.store.dmErrorCount args.discordUserId = some count →
        ∃ before, s.dmErrorCount args.discordUserId = some before ∧
          count = dmErrorsAfter before (m.deliveries.map Prod.snd)) := by
  have hstart : (start args s).Staged args := staged_start s
  have hm : m.Staged args :=
    run_invariant _ (I := Staged args) (fun _ _ _ hs hstep => hs.step hstep) hrun hstart
  have hnone : (start args s).Settled := fun d hnil => absurd hnil List.not_mem_nil
  have hbefore : (start args s).Counted args s := fun count hcount =>
    ⟨count, hcount, (dmErrorsAfter_nil count).symm⟩
  have hsettled := run_invariant_along _ (I := fun m => m.Staged args ∧ m.Settled)
    (fun _ _ _ hs hleaves hstep => ⟨hs.1.step hstep, hs.2.step hs.1 hleaves hstep⟩) hrows hrun
    ⟨hstart, hnone⟩
  have hevents := hm.events
  have hsends := hm.sends
  rw [hreturned] at hevents hsends
  refine ⟨hm.announces, hevents.trans (List.append_nil _), hsends.trans (List.append_nil _),
    hsettled.2, fun herrors => ?_⟩
  exact (run_invariant_along _ (I := fun m => m.Staged args ∧ m.Counted args s)
    (fun _ _ _ hs hleaves hstep => ⟨hs.1.step hstep, hs.2.step hs.1 hleaves hstep⟩) herrors hrun
    ⟨hstart, hbefore⟩).2

/-- The store of a user that has just authenticated. -/
def authenticated : Store := UserRepository.saveValidToken .empty 1 "token" "key"

/-- A call that processes a price of 99 for the rules 1 and 2 of the user. -/
def bothRules : ProcessArgs where
  discordUserId := 1
  ruleIds := [1, 2]
  snapshot := .elytra (some ⟨99, by decide⟩) 10

/-- Two rules trigger. The message of the first is sent, then the user deletes the second rule, and
its message fails. -/
def deletedBetween : List ProcessEvent :=
  [.other (.create .elytra 1), .other (.create .elytra 2),
    .other (.process ⟨1, [1, 2], .elytra (some ⟨101, by decide⟩) 0, none, by decide⟩ 1 id),
    .committed { observationKey := 2, notificationKey := id, order := [1, 2] },
    .sent (.ok 7), .committed {}, .other (.deleteByDatabaseId 1 2), .sent (.error "Forbidden"),
    .committed {}]

theorem delivers_deletedBetween : ∃ m,
    run (step .plain bothRules) (start bothRules authenticated) deletedBetween = some m ∧
    m.phase = none ∧ m.created.map (·.id) = [1, 2] ∧
    m.deliveries.map Prod.snd = [.ok 7, .error "Forbidden"] ∧
    m.store.notifications.keys = [1] ∧ m.store.dmErrorCount 1 = some 1 ∧
    List.Forall₂ Announces m.events m.created ∧
    m.events = m.deliveries.map Prod.fst ∧
    m.sends = (m.deliveries.map fun d => (d.1.1, d.2)) ∧
    (∀ d ∈ m.deliveries, ∀ row ∈ m.store.notifications.rows, row.id = d.1.2 → Settles d.2 row) ∧
    ∃ before, authenticated.dmErrorCount 1 = some before ∧
      1 = dmErrorsAfter before (m.deliveries.map Prod.snd) := by
  have hrun : ((run (step .plain bothRules) (start bothRules authenticated) deletedBetween).map
      fun m => (m.phase.isNone, m.created.map (·.id), m.deliveries.map Prod.snd,
        m.store.notifications.keys, m.store.dmErrorCount 1)) =
      some (true, [1, 2], [.ok 7, .error "Forbidden"], [1], some 1) := by
    rfl
  have hrows : Along (step .plain bothRules) LeavesRows (start bothRules authenticated)
      deletedBetween := by
    decide +kernel
  have herrors : Along (step .plain bothRules) (LeavesErrors bothRules)
      (start bothRules authenticated) deletedBetween := by
    decide +kernel
  obtain ⟨m, hm, hfacts⟩ := Option.map_eq_some_iff.mp hrun
  simp only [Prod.mk.injEq, Option.isNone_iff_eq_none] at hfacts
  obtain ⟨hreturned, hcreated, houtcomes, hkeys, hcount⟩ := hfacts
  obtain ⟨hannounces, hevents, hsends, hsettles, hcounts⟩ := delivers hm hrows hreturned
  exact ⟨m, hm, hreturned, hcreated, houtcomes, hkeys, hcount, hannounces, hevents, hsends,
    hsettles, hcounts herrors 1 hcount⟩

/-- A name of 256 characters. -/
def longName : String := .ofList (List.replicate 256 'E')

private theorem length_longName : longName.length = 256 :=
  String.length_ofList.trans (List.length_replicate ..)

/-- The first rule triggers, and its message fails with an error of that name. -/
def longNameRaised : List ProcessEvent :=
  [.other (.create .elytra 1),
    .other (.process ⟨1, [1, 2], .elytra (some ⟨101, by decide⟩) 0, none, by decide⟩ 1 id),
    .committed { observationKey := 2, notificationKey := id, order := [1, 2] },
    .sent (.error longName), .committed {}]

/-- The row does not hold the name of its error, but the beginning of it that fits. -/
theorem not_recordsName : ∃ m,
    run (step .plain bothRules) (start bothRules authenticated) longNameRaised = some m ∧
    Along (step .plain bothRules) LeavesRows (start bothRules authenticated) longNameRaised ∧
    m.phase = none ∧ ∃ d ∈ m.deliveries, ∃ row ∈ m.store.notifications.rows,
      row.id = d.1.2 ∧ d.2 = .error longName ∧ row.errorMessage ≠ some longName := by
  have hrun : ((run (step .plain bothRules) (start bothRules authenticated) longNameRaised).map
      fun m => (m.phase.isNone, m.deliveries.map (fun d => (d.1.2, d.2)),
        m.store.notifications.rows.map fun row => (row.id, row.errorMessage))) =
      some (true, [(1, .error longName)], [(1, some (UserRepository.truncate longName))]) := by
    rfl
  have hrows : Along (step .plain bothRules) LeavesRows (start bothRules authenticated)
      longNameRaised := by
    decide +kernel
  obtain ⟨m, hm, hfacts⟩ := Option.map_eq_some_iff.mp hrun
  simp only [Prod.mk.injEq, Option.isNone_iff_eq_none] at hfacts
  obtain ⟨hreturned, hdeliveries, hstored⟩ := hfacts
  obtain ⟨d, hd, hdelivery⟩ := List.map_eq_singleton_iff.mp hdeliveries
  obtain ⟨row, hrow, hmessage⟩ := List.map_eq_singleton_iff.mp hstored
  obtain ⟨hid, houtcome⟩ := Prod.mk.inj hdelivery
  obtain ⟨hid', hmessage⟩ := Prod.mk.inj hmessage
  refine ⟨m, hm, hrows, hreturned, d, hd ▸ List.mem_singleton_self d, row,
    hrow ▸ List.mem_singleton_self row, hid'.trans hid.symm, houtcome, fun hname => ?_⟩
  rw [hmessage, Option.some.injEq] at hname
  have hshort := UserRepository.length_truncate_le longName
  rw [hname, length_longName] at hshort
  omega

end ProcessRun

end DonutMonitor
