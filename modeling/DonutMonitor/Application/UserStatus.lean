import DonutMonitor.Application.System
import DonutMonitor.Foundations.Latest
import Mathlib.Data.List.DropRight

/-!
# What the row of a user records

The row of a user counts the messages that could not be sent since the last one that was delivered,
with the name of the last exception, and has the time of the last poll that succeeded. Every
transaction since the insertion of the row contributes to it; what was before a logout does not.

## Main definitions

* `StatusEvent`, `Transaction.statusEvent` — what a transaction records for a user.
* `failuresSinceSent` — the messages that failed after the last one that was sent.
* `User.Records` — the row is what the events make of it.

## Main results

* `Database.Reachable.records` — the row of a user records what has happened since its insertion.
-/

namespace DonutMonitor

open Transition Latest

/-- What a transaction records in the row of a user. -/
inductive StatusEvent where
  /-- The row is inserted. -/
  | created
  /-- A message raised an exception of this name. -/
  | failed (name : String)
  /-- An alert was sent. -/
  | sent
  /-- A poll has succeeded. -/
  | succeeded (now : ℚ)
  deriving DecidableEq

namespace StatusEvent

/-- The name of the exception of a message. -/
def failure? : StatusEvent → Option String
  | failed name => some name
  | _ => none

/-- The time of a poll that has succeeded. -/
def success? : StatusEvent → Option ℚ
  | succeeded now => some now
  | _ => none

end StatusEvent

/-- The messages that failed after the last one that was sent. -/
def failuresSinceSent (events : List StatusEvent) : List String :=
  (events.rtakeWhile (· ≠ .sent)).filterMap StatusEvent.failure?

/-- The row is what the events since its insertion make of it. -/
structure User.Records (user : User) (events : List StatusEvent) : Prop where
  dmErrorCount : user.dmErrorCount = (failuresSinceSent events).length
  lastDmError : user.lastDmError =
    (failuresSinceSent events).getLast?.map UserRepository.truncate
  lastSuccessfulRequestAt : user.lastSuccessfulRequestAt = latest StatusEvent.success? events

/-- The row after one more event. -/
def User.record (user : User) : StatusEvent → User
  | .created => user
  | .failed name => { user with
      dmErrorCount := user.dmErrorCount + 1
      lastDmError := some (UserRepository.truncate name) }
  | .sent => { user with dmErrorCount := 0, lastDmError := none }
  | .succeeded now => { user with lastSuccessfulRequestAt := some now }

/-- The columns that record what happens. -/
structure User.SameStatus (user user' : User) : Prop where
  dmErrorCount : user'.dmErrorCount = user.dmErrorCount
  lastDmError : user'.lastDmError = user.lastDmError
  lastSuccessfulRequestAt : user'.lastSuccessfulRequestAt = user.lastSuccessfulRequestAt

theorem User.SameStatus.refl (user : User) : user.SameStatus user := ⟨rfl, rfl, rfl⟩

theorem User.Records.of_same {user user' : User} {events : List StatusEvent}
    (h : user.Records events) (hsame : user.SameStatus user') : user'.Records events :=
  ⟨hsame.dmErrorCount.trans h.dmErrorCount, hsame.lastDmError.trans h.lastDmError,
    hsame.lastSuccessfulRequestAt.trans h.lastSuccessfulRequestAt⟩

/-- One more event is recorded. -/
theorem User.Records.record {user : User} {events : List StatusEvent} (h : user.Records events)
    {e : StatusEvent} (he : e ≠ .created) : (user.record e).Records (events ++ [e]) := by
  obtain ⟨hcount, hlast, hsuccess⟩ := h
  cases e with
  | created => exact absurd rfl he
  | failed name =>
    have hfailures : failuresSinceSent (events ++ [.failed name]) =
        failuresSinceSent events ++ [name] := by
      rw [failuresSinceSent, List.rtakeWhile_concat_pos _ _ _ (by simp), List.filterMap_append]
      rfl
    refine ⟨?_, ?_, ?_⟩
    · rw [hfailures, List.length_append, User.record, hcount]
      simp
    · rw [hfailures, List.getLast?_concat]
      rfl
    · rw [latest_concat]
      exact hsuccess
  | sent =>
    have hfailures : failuresSinceSent (events ++ [.sent]) = [] := by
      rw [failuresSinceSent, List.rtakeWhile_concat_neg _ _ _ (by simp)]
      rfl
    refine ⟨by rw [hfailures]; rfl, by rw [hfailures]; rfl, ?_⟩
    rw [latest_concat]
    exact hsuccess
  | succeeded now =>
    have hfailures : failuresSinceSent (events ++ [.succeeded now]) = failuresSinceSent events := by
      rw [failuresSinceSent, List.rtakeWhile_concat_pos _ _ _ (by simp), List.filterMap_append]
      exact List.append_nil _
    refine ⟨by rw [hfailures]; exact hcount, by rw [hfailures]; exact hlast, ?_⟩
    rw [latest_concat]
    rfl

namespace Transaction

/-- What the transaction records for a user. -/
def statusEvent (s : Store) (discordUserId : ℤ) : Transaction → Option StatusEvent
  | saveValidToken userId _ _ =>
    if discordUserId = userId ∧ discordUserId ∉ s.users.keys then some .created else none
  | deliveryFailed _ userId name | recordDmError userId name =>
    if discordUserId = userId then some (.failed name) else none
  | deliverySent _ userId _ => if discordUserId = userId then some .sent else none
  | markApiSuccess userId now => if discordUserId = userId then some (.succeeded now) else none
  | _ => none

variable {env : Environment} {s s' : Store} {a : Answer} {t : Transaction} {discordUserId : ℤ}
  {user' : User}

/-- What an update of the users makes of a row. -/
private theorem get?_updateUsers {p : User → Bool} {f : User → User}
    {hf : ∀ u, (f u).discordUserId = u.discordUserId}
    (h : (s.updateUsers p f hf).users.get? discordUserId = some user') :
    ∃ user, s.users.get? discordUserId = some user ∧ user.discordUserId = discordUserId ∧
      user' = if p user then f user else user := by
  rw [Store.updateUsers_users, Table.get?_update] at h
  obtain ⟨user, huser, rfl⟩ := Option.map_eq_some_iff.mp h
  exact ⟨user, huser, Table.key_of_get? huser, rfl⟩

/-- The row of a user after a transaction: it has been inserted, or it was there and records what
the transaction does. -/
theorem exec_status (h : t.exec env s = .ok (a, s'))
    (hu : s'.users.get? discordUserId = some user') :
    (t.statusEvent s discordUserId = some .created ∧ user'.Records []) ∨
      ∃ user, s.users.get? discordUserId = some user ∧
        ((t.statusEvent s discordUserId = none ∧ user.SameStatus user') ∨
          ∃ e, t.statusEvent s discordUserId = some e ∧ e ≠ .created ∧ user' = user.record e) := by
  have hkept : ∀ {store : Store}, store.users = s.users →
      store.users.get? discordUserId = some user' → t.statusEvent s discordUserId = none →
      ∃ user, s.users.get? discordUserId = some user ∧
        ((t.statusEvent s discordUserId = none ∧ user.SameStatus user') ∨
          ∃ e, t.statusEvent s discordUserId = some e ∧ e ≠ .created ∧ user' = user.record e) :=
    fun husers hget hnone => ⟨user', husers ▸ hget, .inl ⟨hnone, .refl user'⟩⟩
  have hrecord : ∀ {store : Store} {userId : ℤ} {e : StatusEvent} {f : User → User}
      {hf : ∀ u, (f u).discordUserId = u.discordUserId}, store.users = s.users →
      (store.updateUsers (·.discordUserId = userId) f hf).users.get? discordUserId = some user' →
      t.statusEvent s discordUserId = (if discordUserId = userId then some e else none) →
      e ≠ .created → (∀ user, f user = user.record e) →
      ∃ user, s.users.get? discordUserId = some user ∧
        ((t.statusEvent s discordUserId = none ∧ user.SameStatus user') ∨
          ∃ e, t.statusEvent s discordUserId = some e ∧ e ≠ .created ∧ user' = user.record e) := by
    intro store userId e f hf husers hget hevent he hf'
    obtain ⟨user, huser, hid, rfl⟩ := get?_updateUsers hget
    refine ⟨user, husers ▸ huser, ?_⟩
    by_cases hsame : discordUserId = userId
    · refine .inr ⟨e, by rw [hevent, if_pos hsame], he, ?_⟩
      rw [if_pos (by simp [hid, hsame]), hf']
    · refine .inl ⟨by rw [hevent, if_neg hsame], ?_⟩
      rw [if_neg (by simp [hid, hsame])]
      exact .refl user
  cases t with
  | saveValidToken userId token fingerprint =>
    obtain ⟨-, rfl⟩ := Prod.mk.inj (Except.ok.inj h)
    rw [UserRepository.saveValidToken] at hu
    split_ifs at hu with hmem
    · obtain ⟨user, huser, -, rfl⟩ := get?_updateUsers hu
      refine .inr ⟨user, huser, .inl ⟨if_neg ?_, ?_⟩⟩
      · rintro ⟨rfl, hnew⟩
        exact hnew hmem
      · split_ifs <;> exact ⟨rfl, rfl, rfl⟩
    · rw [Store.insertUser_users, Table.get?_insert] at hu
      split_ifs at hu with hid
      · obtain rfl := Option.some.inj hu
        obtain rfl : discordUserId = userId := hid
        exact .inl ⟨if_pos ⟨rfl, hmem⟩, rfl, rfl, rfl⟩
      · exact .inr ⟨user', hu, .inl ⟨if_neg fun hnew => hid hnew.1, .refl user'⟩⟩
  | logout userId =>
    obtain ⟨-, rfl⟩ := Prod.mk.inj (Except.ok.inj h)
    have hget : (s.users.get? discordUserId).filter _ = some user' :=
      (Table.get?_delete _ _ _).symm.trans hu
    exact .inr ⟨user', (Option.filter_eq_some_iff.mp hget).1, .inl ⟨rfl, .refl user'⟩⟩
  | invalidate userId notifiedAt =>
    have hmark : ∀ {user : User},
        (UserRepository.markInvalid s userId).users.get? discordUserId = some user →
        ∃ before, s.users.get? discordUserId = some before ∧ before.SameStatus user := by
      intro user hget
      rw [UserRepository.markInvalid, Store.updateRules_users] at hget
      obtain ⟨before, hbefore, -, rfl⟩ := get?_updateUsers hget
      exact ⟨before, hbefore, by split_ifs <;> exact ⟨rfl, rfl, rfl⟩⟩
    cases notifiedAt with
    | none =>
      obtain ⟨-, rfl⟩ := Prod.mk.inj (Except.ok.inj h)
      obtain ⟨user, huser, hsame⟩ := hmark hu
      exact .inr ⟨user, huser, .inl ⟨rfl, hsame⟩⟩
    | some notifiedAt =>
      obtain ⟨-, rfl⟩ := Prod.mk.inj (Except.ok.inj h)
      obtain ⟨marked, hmarked, -, rfl⟩ := get?_updateUsers hu
      obtain ⟨user, huser, hsame⟩ := hmark hmarked
      refine .inr ⟨user, huser, .inl ⟨rfl, ?_⟩⟩
      split_ifs <;> exact ⟨hsame.1, hsame.2, hsame.3⟩
  | create draft key =>
    obtain ⟨⟨created, s₁⟩, hcreate, h⟩ := Except.bind_eq_ok.mp h
    obtain ⟨-, rfl⟩ := Prod.mk.inj (Except.ok.inj h)
    obtain ⟨-, -, hid, huser, rfl⟩ := WatchService.create_ok hcreate
    exact .inr (hkept rfl hu rfl)
  | undoCreate userId ruleId =>
    obtain ⟨-, rfl⟩ := Prod.mk.inj (Except.ok.inj h)
    exact .inr (hkept rfl hu rfl)
  | delete userId displayId =>
    obtain ⟨⟨s₁, changed⟩, hdelete, h⟩ := Except.bind_eq_ok.mp h
    obtain ⟨-, rfl⟩ := Prod.mk.inj (Except.ok.inj h)
    rcases WatchService.delete_ok hdelete with ⟨-, rfl⟩ | ⟨ruleId, -, rfl⟩ <;>
      exact .inr (hkept rfl hu rfl)
  | setEnabled userId displayId enabled =>
    obtain ⟨⟨s₁, changed⟩, hset, h⟩ := Except.bind_eq_ok.mp h
    obtain ⟨-, rfl⟩ := Prod.mk.inj (Except.ok.inj h)
    rcases WatchService.setEnabled_ok hset with ⟨-, rfl⟩ | ⟨ruleId, -, rfl⟩ <;>
      exact .inr (hkept rfl hu rfl)
  | deleteByDatabaseId userId ruleId =>
    obtain ⟨⟨s₁, changed⟩, hdelete, h⟩ := Except.bind_eq_ok.mp h
    obtain ⟨-, rfl⟩ := Prod.mk.inj (Except.ok.inj h)
    obtain ⟨_, -, hdelete⟩ := Except.bind_eq_ok.mp hdelete
    obtain rfl := congrArg Prod.fst (Except.ok.inj hdelete)
    exact .inr (hkept rfl hu rfl)
  | setEnabledByDatabaseId userId ruleId enabled =>
    obtain ⟨⟨s₁, changed⟩, hset, h⟩ := Except.bind_eq_ok.mp h
    obtain ⟨-, rfl⟩ := Prod.mk.inj (Except.ok.inj h)
    obtain ⟨_, -, hset⟩ := Except.bind_eq_ok.mp hset
    obtain rfl := congrArg Prod.fst (Except.ok.inj hset)
    exact .inr (hkept rfl hu rfl)
  | process call observationKey notificationKey =>
    obtain ⟨progress, hprocess, h⟩ := Except.bind_eq_ok.mp h
    obtain ⟨-, rfl⟩ := Prod.mk.inj (Except.ok.inj h)
    exact .inr (hkept (RuleProcessor.process_ok hprocess).1 hu rfl)
  | deliveryFailed notificationId userId name =>
    obtain ⟨-, rfl⟩ := Prod.mk.inj (Except.ok.inj h)
    exact .inr (hrecord rfl hu rfl (by simp) fun _ => rfl)
  | deliverySent notificationId userId messageId =>
    obtain ⟨-, rfl⟩ := Prod.mk.inj (Except.ok.inj h)
    exact .inr (hrecord rfl hu rfl (by simp) fun _ => rfl)
  | markApiSuccess userId now =>
    obtain ⟨-, rfl⟩ := Prod.mk.inj (Except.ok.inj h)
    exact .inr (hrecord rfl hu rfl (by simp) fun _ => rfl)
  | recordDmError userId message =>
    obtain ⟨-, rfl⟩ := Prod.mk.inj (Except.ok.inj h)
    exact .inr (hrecord rfl hu rfl (by simp) fun _ => rfl)
  | prune now =>
    obtain ⟨-, rfl⟩ := Prod.mk.inj (Except.ok.inj h)
    exact .inr (hkept rfl hu rfl)

end Transaction

/-- What the commit records for a user. -/
def Commit.statusEvent (c : Commit) (discordUserId : ℤ) : Option StatusEvent :=
  c.transaction.statusEvent c.before discordUserId

namespace Database

variable {env : Environment} {db : Database} {discordUserId : ℤ} {user : User}

/-- The row of a user records what has happened since its insertion, the last one. -/
theorem Reachable.records (h : Reachable env db)
    (huser : db.store.users.get? discordUserId = some user) :
    ∃ pre c post, db.history = pre ++ c :: post ∧ c.statusEvent discordUserId = some .created ∧
      (∀ c' ∈ post, c'.statusEvent discordUserId ≠ some .created) ∧
      user.Records (post.filterMap (·.statusEvent discordUserId)) := by
  refine h.invariant (I := fun db => ∀ user, db.store.users.get? discordUserId = some user →
    ∃ pre c post, db.history = pre ++ c :: post ∧ c.statusEvent discordUserId = some .created ∧
      (∀ c' ∈ post, c'.statusEvent discordUserId ≠ some .created) ∧
      user.Records (post.filterMap (·.statusEvent discordUserId))) ?_ (fun user huser => by cases huser) user
      huser
  rintro db ⟨origin, t⟩ db' hdb hstep user' hget
  obtain ⟨answer, hc⟩ := step_eq_some.mp hstep
  obtain ⟨hexec, hhistory⟩ := commit_eq_ok.mp hc
  rcases Transaction.exec_status hexec hget with ⟨hcreated, hrecords⟩ | ⟨user, hget, hevent⟩
  · exact ⟨db.history, _, [], hhistory, hcreated, by simp, hrecords⟩
  obtain ⟨pre, c, post, hsplit, hcreated, hlater, hrecords⟩ := hdb user hget
  have hnew : ∀ e, t.statusEvent db.store discordUserId = e → e ≠ some .created →
      ∀ c' ∈ post ++ [⟨origin, db.store, t⟩], c'.statusEvent discordUserId ≠ some .created := by
    rintro e he hne c' hc'
    rcases List.mem_append.mp hc' with hc' | hc'
    · exact hlater c' hc'
    · rw [List.mem_singleton.mp hc', Commit.statusEvent, he]
      exact hne
  refine ⟨pre, c, post ++ [⟨origin, db.store, t⟩], by simp [hhistory, hsplit], hcreated, ?_⟩
  rw [List.filterMap_append]
  rcases hevent with ⟨hnone, hsame⟩ | ⟨e, he, hne, rfl⟩
  · refine ⟨hnew none hnone (by simp), ?_⟩
    rw [List.filterMap_cons_none (by exact hnone), List.filterMap_nil, List.append_nil]
    exact hrecords.of_same hsame
  · refine ⟨hnew (some e) he (by simpa using hne), ?_⟩
    rw [List.filterMap_cons_some (by exact he), List.filterMap_nil]
    exact hrecords.record hne

/-- A watch has raised an alert, whose message could not be sent. -/
def undelivered : List Label :=
  [.operation (.authenticate 1 "token" 0), .startAdd .elytra, .commit 0 { ruleKey := 1 },
    .fetched 0 (.listing (some (.elytra 50)) 0 1), .commit 0 { order := [1] },
    .sent 0 (.error "Forbidden"), .commit 0 {}]

/-- One failure is recorded. -/
theorem Reachable.records_undelivered : ∃ s user,
    run (System.step .plain) {} undelivered = some s ∧
    s.database.store.users.get? 1 = some user ∧ user.dmErrorCount = 1 ∧
    ∃ pre c post, s.database.history = pre ++ c :: post ∧ c.statusEvent 1 = some .created ∧
      (∀ c' ∈ post, c'.statusEvent 1 ≠ some .created) ∧
      user.Records (post.filterMap (·.statusEvent 1)) := by
  have hrun : ((run (System.step .plain) {} undelivered).bind fun s : System =>
      (s.database.store.users.get? 1).map fun user => decide (user.dmErrorCount = 1)) =
        some true := by
    decide +kernel
  obtain ⟨s, hs, hrun⟩ := Option.bind_eq_some_iff.mp hrun
  obtain ⟨user, huser, hcount⟩ := Option.map_eq_some_iff.mp hrun
  have hreachable : System.Reachable .plain s := ⟨undelivered, hs⟩
  exact ⟨s, user, hs, huser, of_decide_eq_true hcount, hreachable.database.records huser⟩

end Database

end DonutMonitor
