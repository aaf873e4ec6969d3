import DonutMonitor.Application.Bot

/-!
# Rejected tokens

When a request of a poll is answered 401 or 403, the poll invalidates its user, pauses the rules and
sends one message. A call of `WatchService.add` or of `PriceService.get` that gets the same answer
only raises: the user stays `VALID`, its rules stay enabled and no message is sent.

## Main definitions

* `Bot.HandlesRejections` — every operation that has ended after such an answer, and whose token has
  not been replaced, has left its user invalid, paused and told once.
* `Bot.OnlyPollsRejected` — only polls get such an answer, and their invalidations are committed.

## Main results

* `Bot.handlesRejections` — the first holds after every run of which the second holds.
* `Bot.not_handlesRejections` — it fails after a rejected call of either of the other two.
-/

namespace DonutMonitor

open Transition

/-! ### Tokens that stay -/

/-- The event leaves the stored token in place. -/
def UserEvent.keepsToken : UserEvent → Bool
  | invalidated _ => true
  | tokenSaved _ _ | loggedOut => false

/-- The user has not replaced or removed its token since the history had the given length. -/
def Database.KeepsTokenSince (db : Database) (discordUserId : ℤ) (length : ℕ) : Prop :=
  ∀ c ∈ db.history.drop length, (c.userEvent discordUserId).all (·.keepsToken)

instance (db : Database) (discordUserId : ℤ) (length : ℕ) :
    Decidable (db.KeepsTokenSince discordUserId length) :=
  inferInstanceAs (Decidable (∀ c ∈ db.history.drop length, _))

/-- The user is stored with an invalid token. -/
def Store.IsInvalid (s : Store) (discordUserId : ℤ) : Prop :=
  ∃ c, s.credentials discordUserId = some c ∧ c.tokenStatus = .invalid

section Keeps

variable {env : Environment} {db db' : Database} {discordUserId : ℤ} {length : ℕ}
  {origin : Option ℕ} {t : Transaction} {answer : Answer}

/-- What a commit that keeps the token has done to the user. -/
private theorem keepsTokenSince_commit (h : db.commit env origin t = .ok (answer, db'))
    (hlength : length ≤ db.history.length) (hkeeps : db'.KeepsTokenSince discordUserId length) :
    db.KeepsTokenSince discordUserId length ∧
      ∀ e, t.userEvent db.store discordUserId = some e → ∃ at_, e = .invalidated at_ := by
  rw [Database.KeepsTokenSince, (Database.commit_eq_ok.mp h).2,
    List.drop_append_of_le_length hlength]
    at hkeeps
  refine ⟨fun c hc => hkeeps c (List.mem_append_left _ hc), fun e he => ?_⟩
  have hlast := hkeeps _ (List.mem_append_right _ (List.mem_singleton_self _))
  rw [Commit.userEvent, he, Option.all_some] at hlast
  cases e with
  | invalidated at_ => exact ⟨at_, rfl⟩
  | _ => cases hlast

/-- As long as the token stays, an invalid user stays invalid. -/
private theorem isInvalid_commit (h : db.commit env origin t = .ok (answer, db'))
    (hkeeps : ∀ e, t.userEvent db.store discordUserId = some e → ∃ at_, e = .invalidated at_)
    (hinvalid : db.store.IsInvalid discordUserId) : db'.store.IsInvalid discordUserId := by
  obtain ⟨c, hc, hstatus⟩ := hinvalid
  have hrun := Transaction.exec_credentials (Database.commit_eq_ok.mp h).1 discordUserId
  cases hevent : t.userEvent db.store discordUserId with
  | none =>
    rw [hevent, hc] at hrun
    exact ⟨c, (Option.some.inj hrun).symm, hstatus⟩
  | some e =>
    obtain ⟨at_, rfl⟩ := hkeeps e hevent
    rw [hevent, hc, Option.toList_some, run_singleton] at hrun
    obtain ⟨c', -, hrow⟩ := (UserLife.step_invalidated at_).mp hrun
    exact ⟨_, hrow, rfl⟩

/-- As long as the token stays, a stored user stays stored. -/
private theorem run_keepsToken {events : List UserEvent} {c : Credentials}
    {credentials : Option Credentials} (hrun : run UserLife.step (some c) events = some credentials)
    (hkeeps : ∀ e ∈ events, e.keepsToken = true) : ∃ c', credentials = some c' := by
  induction events generalizing c with
  | nil => exact ⟨c, (Option.some.inj hrun).symm⟩
  | cons e events ih =>
    obtain ⟨next, hstep, hrest⟩ := (run_cons _).mp hrun
    cases e with
    | invalidated at_ =>
      obtain ⟨c', -, rfl⟩ := (UserLife.step_invalidated at_).mp hstep
      exact ih hrest fun e he => hkeeps e (List.mem_cons_of_mem _ he)
    | _ => cases hkeeps _ List.mem_cons_self

/-- A user that a poll has loaded is stored as long as its token stays. -/
private theorem stored_of_loadedFrom (h : Database.Reachable env db) {p : Poll}
    (hloaded : p.LoadedFrom env db.history)
    (hkeeps : db.KeepsTokenSince p.user.discordUserId p.loadedAt) :
    p.user.discordUserId ∈ db.store.users.keys := by
  obtain ⟨pre, post, store, hhistory, hlength, hbefore, huser, -⟩ := hloaded
  have hcredentials := h.credentials_eq p.user.discordUserId
  rw [Database.userEvents, hhistory, List.filterMap_append] at hcredentials
  obtain ⟨credentials, hpre, hpost⟩ := (run_append _).mp hcredentials
  have hfirst : run UserLife.step none (pre.filterMap (·.userEvent p.user.discordUserId)) =
    some (store.credentials p.user.discordUserId) := hbefore.credentials_eq p.user.discordUserId
  rw [hfirst, Store.credentials, huser, Option.map_some] at hpre
  obtain rfl := Option.some.inj hpre
  obtain ⟨c', hc'⟩ := run_keepsToken hpost fun e he => by
    obtain ⟨c, hc, hevent⟩ := List.mem_filterMap.mp he
    rw [Database.KeepsTokenSince, hhistory, ← hlength, List.drop_left] at hkeeps
    have hkept := hkeeps c hc
    rwa [hevent, Option.all_some] at hkept
  rw [Store.credentials, Option.map_eq_some_iff] at hc'
  obtain ⟨user, hget, -⟩ := hc'
  exact Table.mem_keys_iff.mpr ⟨user, hget⟩

end Keeps

/-! ### A poll in a step of the system -/

namespace System

variable {env : Environment} {s s' : System} {label : Label} {i : ℕ} {p : Poll}
  {phase phase' : PollPhase}

/-- What a poll does in a step of its own. -/
inductive PollMoves (env : Environment) (s s' : System) (label : Label) (i : ℕ) (p : Poll)
    (phase phase' : PollPhase) : Prop where
  | committed (input : CommitInput) (t : Transaction) (answer : Answer)
      (hlabel : label = .commit i input) (hpending : phase.pending p input = some t)
      (hcommit : s.database.commit env (some i) t = .ok (answer, s'.database))
      (hresume : phase.resume p answer = some phase')
  | raised (input : CommitInput) (t : Transaction) (error : ServiceError)
      (hpending : phase.pending p input = some t)
      (hcommit : s.database.commit env (some i) t = .error error)
      (hfail : phase.fail error = some phase')
  | rejected (error : DatabaseError) (hlabel : label = .reject i error)
      (hfail : phase.fail (.databaseError error) = some phase')
  | fetched (outcome : PriceOutcome) (hlabel : label = .fetched i outcome)
      (hfetched : phase.fetched env p outcome = some phase')
  | sent (outcome : Except String ℤ) (hsent : phase.sent outcome = some phase')

/-- A poll after a step is as before, or it has moved. -/
theorem step_poll (h : s.step env label = some s')
    (htask : s.tasks[i]? = some (Task.poll p phase)) :
    s'.tasks[i]? = some (Task.poll p phase) ∨ ∃ phase', PollMoves env s s' label i p phase phase' ∧
      s'.tasks[i]? = some (Task.poll p phase') := by
  have hlt := (List.getElem?_eq_some_iff.mp htask).1
  have hset : ∀ {phase' : PollPhase},
      (s.tasks.set i (Task.poll p phase'))[i]? = some (Task.poll p phase') :=
    List.getElem?_set_self hlt
  cases label with
  | operation operation =>
    obtain ⟨t, answer, database, -, -, rfl⟩ := step_operation.mp h
    exact .inl htask
  | startAdd call =>
    obtain rfl := Option.some.inj h
    exact .inl ((List.getElem?_append_left hlt).trans htask)
  | startPoll discordUserId =>
    obtain ⟨poll, -, rfl⟩ := step_startPoll.mp h
    exact .inl ((List.getElem?_append_left hlt).trans htask)
  | commit j input =>
    obtain ⟨task, t, task', hmoved, hpending, hcase⟩ := step_commit.mp h
    by_cases hij : j = i
    · subst hij
      obtain rfl := Option.some.inj (htask.symm.trans hmoved)
      rcases hcase with ⟨error, hcommit, hfail, rfl⟩ | ⟨answer, database, hcommit, hresume, rfl⟩
      · obtain ⟨phase', hphase, rfl⟩ := Option.map_eq_some_iff.mp hfail
        exact .inr ⟨phase', .raised input t error hpending hcommit hphase, hset⟩
      · obtain ⟨phase', hphase, rfl⟩ := Option.map_eq_some_iff.mp hresume
        exact .inr ⟨phase', .committed input t answer rfl hpending hcommit hphase, hset⟩
    · rcases hcase with ⟨error, -, -, rfl⟩ | ⟨answer, database, -, -, rfl⟩
      · exact .inl ((List.getElem?_set_ne hij).trans htask)
      · exact .inl ((List.getElem?_set_ne hij).trans htask)
  | reject j error =>
    obtain ⟨task, task', hmoved, hfail, rfl⟩ := step_reject.mp h
    by_cases hij : j = i
    · subst hij
      obtain rfl := Option.some.inj (htask.symm.trans hmoved)
      obtain ⟨phase', hphase, rfl⟩ := Option.map_eq_some_iff.mp hfail
      exact .inr ⟨phase', .rejected error rfl hphase, hset⟩
    · exact .inl ((List.getElem?_set_ne hij).trans htask)
  | fetched j outcome =>
    obtain ⟨task, request, task', hmoved, -, hfetched, rfl⟩ := step_fetched.mp h
    by_cases hij : j = i
    · subst hij
      obtain rfl := Option.some.inj (htask.symm.trans hmoved)
      obtain ⟨phase', hphase, rfl⟩ := Option.map_eq_some_iff.mp hfetched
      exact .inr ⟨phase', .fetched outcome rfl hphase, hset⟩
    · exact .inl ((List.getElem?_set_ne hij).trans htask)
  | sent j outcome =>
    obtain ⟨task, task', hmoved, hsent, rfl⟩ := step_sent.mp h
    by_cases hij : j = i
    · subst hij
      obtain rfl := Option.some.inj (htask.symm.trans hmoved)
      obtain ⟨phase', hphase, rfl⟩ := Option.map_eq_some_iff.mp hsent
      exact .inr ⟨phase', .sent outcome hphase, hset⟩
    · exact .inl ((List.getElem?_set_ne hij).trans htask)

/-- A poll that is about to invalidate its user commits the invalidation and notifies the user,
unless the database rejects it. -/
theorem step_invalidating (hs : Reachable env s) (h : s.step env label = some s')
    (htask : s.tasks[i]? = some (Task.poll p .invalidating))
    (hreject : ∀ error, label ≠ .reject i error) :
    s'.tasks[i]? = some (Task.poll p .invalidating) ∨ ∃ input now answer, label = .commit i input ∧
      s.database.commit env (some i) (.invalidate p.user.discordUserId (some now)) =
        .ok (answer, s'.database) ∧ s'.tasks[i]? = some (Task.poll p .notifying) := by
  refine (step_poll h htask).imp_right ?_
  rintro ⟨phase', hmoves, htask'⟩
  have hnotify : PollPhase.shouldNotify p = true := by
    rw [PollPhase.shouldNotify, hs.settled.2 i p _ htask]
    rfl
  cases hmoves with
  | committed input t answer hlabel hpending hcommit hresume =>
    obtain rfl := Option.some.inj hpending
    rw [if_pos hnotify] at hcommit
    refine ⟨input, input.now, answer, hlabel, hcommit, ?_⟩
    cases answer with
    | done =>
      obtain rfl := Option.some.inj hresume
      rwa [if_pos hnotify] at htask'
    | _ => cases hresume
  | raised input t error hpending hcommit hfail =>
    obtain rfl := Option.some.inj hpending
    rw [if_pos hnotify] at hcommit
    cases hcommit
  | rejected error hlabel hfail => exact absurd hlabel (hreject error)
  | fetched outcome hlabel hfetched => cases hfetched
  | sent outcome hsent => cases hsent

/-- After the invalidation of a poll whose token has stayed, its user is stored with an invalid
one. -/
private theorem isInvalid_of_invalidate (hs : Reachable env s)
    (htask : s.tasks[i]? = some (Task.poll p phase)) {now : ℚ} {answer : Answer}
    (hcommit : s.database.commit env (some i) (.invalidate p.user.discordUserId (some now)) =
      .ok (answer, s'.database))
    (hkeeps : s'.database.KeepsTokenSince p.user.discordUserId p.loadedAt) :
    s'.database.store.IsInvalid p.user.discordUserId := by
  have hloaded := (hs.poll_sound htask).loaded
  have hbefore := (keepsTokenSince_commit hcommit hloaded.loadedAt_le hkeeps).1
  have hmem := stored_of_loadedFrom hs.database hloaded hbefore
  have hrun := Transaction.exec_credentials (Database.commit_eq_ok.mp hcommit).1
    p.user.discordUserId
  rw [Transaction.userEvent, if_pos ⟨rfl, hmem⟩, Option.toList_some, run_singleton] at hrun
  obtain ⟨c, -, hrow⟩ := (UserLife.step_invalidated _).mp hrun
  exact ⟨_, hrow, rfl⟩

/-- An authentication replaces the token. -/
private theorem not_keepsTokenSince_of_authenticate {discordUserId : ℤ} {rawToken : String}
    {nonce length : ℕ} (hlength : length ≤ s.database.history.length)
    (h : s.step env (.operation (.authenticate discordUserId rawToken nonce)) = some s') :
    ¬ s'.database.KeepsTokenSince discordUserId length := by
  intro hkeeps
  obtain ⟨t, answer, database, ht, hcommit, rfl⟩ := step_operation.mp h
  obtain ⟨-, hevents⟩ := keepsTokenSince_commit hcommit hlength hkeeps
  rw [Operation.transaction, AuthService.authenticate] at ht
  split_ifs at ht
  obtain ⟨encrypted, -, ht⟩ := Except.bind_eq_ok.mp ht
  obtain rfl := Except.ok.inj ht
  obtain ⟨at_, hevent⟩ := hevents _ (if_pos rfl)
  cases hevent

end System

/-! ### A poll in a step of the coordinator -/

namespace Coordinator

variable {api : DonutApiClient} {env : Environment} {s s' : Coordinator} {i : ℕ} {p : Poll}
  {phase : PollPhase} {messages : ℕ}

/-- What becomes of a poll after a rejection, for the number of messages that its user has been sent
since its last authentication: it invalidates the user, who is then invalid and has been told once,
as long as the token stays. -/
def Settles (s : Coordinator) (p : Poll) (phase : PollPhase) (messages : ℕ) : Prop :=
  phase = .invalidating ∨
    (s.system.database.KeepsTokenSince p.user.discordUserId p.loadedAt →
      s.system.database.store.IsInvalid p.user.discordUserId ∧ messages = 1)

private theorem eq_system_of_label {event : CoordinatorEvent} {label : Label}
    (h : event.label = some label) (hfetched : ∀ i outcome, label ≠ .fetched i outcome)
    (hprune : ∀ now, label ≠ .operation (.prune now)) : event = .system label := by
  cases event with
  | pruned utcNow => exact absurd (Option.some.inj h).symm (hprune utcNow)
  | system label' => rw [Option.some.inj h]
  | fetched i outcome => exact absurd (Option.some.inj h).symm (hfetched i outcome)
  | _ => cases h

private theorem eq_authenticate {event : CoordinatorEvent} {discordUserId : ℤ}
    (h : event.authenticates discordUserId = true) :
    ∃ rawToken nonce,
      event.label = some (.operation (.authenticate discordUserId rawToken nonce)) := by
  cases event with
  | system label =>
    cases label with
    | operation operation =>
      cases operation with
      | authenticate userId rawToken nonce =>
        obtain rfl := of_decide_eq_true h
        exact ⟨rawToken, nonce, rfl⟩
      | _ => cases h
    | _ => cases h
  | _ => cases h

/-- A settled poll stays settled. -/
private theorem settles_of_settled (hsolitary : s.Solitary)
    {event : CoordinatorEvent} (h : react api env s event = some s')
    (hmessages : messages + (s.system.mayBeNotified p.user.discordUserId).toNat ≤ 1)
    (hloadedAt : p.loadedAt ≤ s.system.database.history.length)
    (hsettled : s.system.database.KeepsTokenSince p.user.discordUserId p.loadedAt →
      s.system.database.store.IsInvalid p.user.discordUserId ∧ messages = 1)
    (hkeeps : s'.system.database.KeepsTokenSince p.user.discordUserId p.loadedAt) :
    s'.system.database.store.IsInvalid p.user.discordUserId ∧
      (if event.authenticates p.user.discordUserId then 0
        else messages + (s'.sendsInvalidToken p.user.discordUserId event).toNat) = 1 := by
  obtain ⟨hbefore, hafter⟩ : s.system.database.KeepsTokenSince p.user.discordUserId p.loadedAt ∧
      (s.system.database.store.IsInvalid p.user.discordUserId →
        s'.system.database.store.IsInvalid p.user.discordUserId) := by
    rcases react_cases h with ⟨label, -, hstep⟩ | ⟨-, hdatabase, -⟩
    · rcases System.step_database hstep with hdatabase | ⟨origin, t, answer, hcommit, -⟩
      · rw [← hdatabase]
        exact ⟨hkeeps, id⟩
      · obtain ⟨hbefore, hevents⟩ := keepsTokenSince_commit hcommit hloadedAt hkeeps
        exact ⟨hbefore, isInvalid_commit hcommit hevents⟩
    · rw [← hdatabase]
      exact ⟨hkeeps, id⟩
  obtain ⟨hinvalid, rfl⟩ := hsettled hbefore
  refine ⟨hafter hinvalid, ?_⟩
  have hauthenticates : event.authenticates p.user.discordUserId = false := by
    refine Bool.eq_false_iff.mpr fun hauthenticates => ?_
    obtain ⟨rawToken, nonce, hlabel⟩ := eq_authenticate hauthenticates
    rcases react_cases h with ⟨label, hlabel', hstep⟩ | ⟨hnone, -⟩
    · obtain rfl := Option.some.inj (hlabel.symm.trans hlabel')
      exact System.not_keepsTokenSince_of_authenticate hloadedAt hstep hkeeps
    · cases hlabel.symm.trans hnone
  have hsends : s'.sendsInvalidToken p.user.discordUserId event = false := by
    refine Bool.eq_false_iff.mpr fun hsends => ?_
    rw [(react_sendsInvalidToken hsolitary h hsends).1] at hmessages
    exact absurd hmessages (by decide)
  rw [hauthenticates, hsends]
  rfl

/-- A rejected poll in a step of the coordinator. -/
theorem react_settles (hs : System.Reachable env s.system) (hsolitary : s.Solitary)
    {event : CoordinatorEvent} (h : react api env s event = some s')
    (htask : s.system.tasks[i]? = some (Task.poll p phase))
    (hmessages : messages + (s.system.mayBeNotified p.user.discordUserId).toNat ≤ 1)
    (hsettles : s.Settles p phase messages)
    (hreject : phase = .invalidating → ∀ error, event ≠ .system (.reject i error)) :
    ∃ phase', s'.system.tasks[i]? = some (Task.poll p phase') ∧ s'.Settles p phase'
      (if event.authenticates p.user.discordUserId then 0
        else messages + (s'.sendsInvalidToken p.user.discordUserId event).toNat) := by
  have hloadedAt := (hs.poll_sound htask).loaded.loadedAt_le
  by_cases hphase : phase = .invalidating
  · subst hphase
    rcases react_cases h with ⟨label, hlabel, hstep⟩ | ⟨-, -, polls, -, htasks⟩
    · have hkept : ∀ error, label ≠ .reject i error := by
        rintro error rfl
        exact hreject rfl error (eq_system_of_label hlabel nofun nofun)
      rcases System.step_invalidating hs hstep htask hkept with hsame |
        ⟨input, now, answer, rfl, hcommit, htask'⟩
      · exact ⟨_, hsame, .inl rfl⟩
      · obtain rfl := eq_system_of_label hlabel nofun nofun
        have hmay : s.system.mayBeNotified p.user.discordUserId = true :=
          System.mayBeNotified_eq_true.mpr (.inl ⟨i, _, htask,
            Task.mayInvalidate_eq_true.mpr ⟨p, _, rfl, rfl, rfl⟩⟩)
        have hsends : s'.sendsInvalidToken p.user.discordUserId (.system (.commit i input)) =
            true := by
          rw [sendsInvalidToken, htask']
          exact decide_eq_true rfl
        rw [hmay] at hmessages
        obtain rfl : messages = 0 := Nat.le_zero.mp (Nat.le_of_add_le_add_right hmessages)
        rw [hsends]
        exact ⟨_, htask', .inr fun hkeeps =>
          ⟨System.isInvalid_of_invalidate hs htask hcommit hkeeps, rfl⟩⟩
    · refine ⟨.invalidating, ?_, .inl rfl⟩
      rw [htasks, List.getElem?_append_left (List.getElem?_eq_some_iff.mp htask).1, htask]
  · have hsettled := hsettles.resolve_left hphase
    have hafter := settles_of_settled hsolitary h hmessages hloadedAt hsettled
    rcases react_cases h with ⟨label, -, hstep⟩ | ⟨-, -, polls, -, htasks⟩
    · rcases System.step_poll hstep htask with hsame | ⟨phase', -, htask'⟩
      · exact ⟨_, hsame, .inr hafter⟩
      · exact ⟨_, htask', .inr hafter⟩
    · refine ⟨phase, ?_, .inr hafter⟩
      rw [htasks, List.getElem?_append_left (List.getElem?_eq_some_iff.mp htask).1, htask]

end Coordinator

/-! ### Operations that were rejected -/

/-- The call has returned or raised. -/
def AddPhase.ended : AddPhase → Bool
  | returned _ _ | raised _ _ => true
  | _ => false

/-- The call has returned or raised. -/
def PricePhase.ended : PricePhase → Bool
  | returned _ | raised _ => true
  | fetching _ => false

namespace Task

/-- The task has returned or raised. -/
def ended : Task → Bool
  | add _ phase => phase.ended
  | poll _ phase => phase.ended

/-- The user whose token the task uses. -/
def discordUserId : Task → ℤ
  | add call _ => call.discordUserId
  | poll p _ => p.user.discordUserId

/-- The length of the history when task `i` has read the token of its user: a call of
`WatchService.add` reads it in its first transaction. -/
def loadedAt (history : List Commit) (i : ℕ) : Task → ℕ
  | add _ _ => history.findIdx (·.origin = some i)
  | poll p _ => p.loadedAt

/-- The task is a poll. -/
def isPoll : Task → Bool
  | poll _ _ => true
  | add _ _ => false

theorem isPoll_eq_true {task : Task} : task.isPoll = true ↔ ∃ p phase, task = poll p phase := by
  cases task <;> simp [isPoll]

end Task

namespace Bot

variable (s : Bot)

/-- The operation has returned or raised. -/
def ended : TokenUse → Bool
  | .task i => s.coordinator.system.tasks[i]?.any Task.ended
  | .price i => s.prices[i]?.any (·.phase.ended)

/-- The user whose token the operation uses. -/
def userOf : TokenUse → Option ℤ
  | .task i => s.coordinator.system.tasks[i]?.map Task.discordUserId
  | .price i => s.prices[i]?.map (·.discordUserId)

/-- The length of the history when the operation has read the token of its user. -/
def loadedAt : TokenUse → Option ℕ
  | .task i => s.coordinator.system.tasks[i]?.map (Task.loadedAt s.history i)
  | .price i => s.prices[i]?.map (·.loadedAt)

/-- When the operation has ended and its token has not been replaced since it was read, the user is
invalid, all of its rules are paused, and it has been told so once since its last authentication. -/
def Handles (use : TokenUse) : Prop :=
  ∀ discordUserId loadedAt, s.userOf use = some discordUserId → s.loadedAt use = some loadedAt →
    s.ended use = true →
    s.coordinator.system.database.KeepsTokenSince discordUserId loadedAt →
      (∃ user ∈ s.store.users.rows, user.discordUserId = discordUserId ∧
        user.tokenStatus = .invalid) ∧
      (∀ rule ∈ s.store.watchRules.rows, rule.discordUserId = discordUserId →
        rule.enabled = false) ∧
      s.messages discordUserId = 1

/-- So it is for every operation that was answered 401 or 403. -/
def HandlesRejections : Prop := ∀ use ∈ s.rejected, s.Handles use

/-- Only polls are answered 401 or 403, and the database rejects no invalidation. -/
def onlyPollsRejected : BotEvent → Bool
  | .coordinator _ (.fetched i outcome) =>
    !outcome.rejects || s.coordinator.system.tasks[i]?.any Task.isPoll
  | .coordinator _ (.system (.reject i _)) =>
    (s.coordinator.system.tasks[i]?.bind Task.invalidates).isNone
  | .fetched _ outcome => !outcome.rejects
  | _ => true

/-- The condition on the steps of a run. -/
def OnlyPollsRejected (s : Bot) (event : BotEvent) : Prop := s.onlyPollsRejected event = true

instance (s : Bot) (event : BotEvent) : Decidable (s.OnlyPollsRejected event) :=
  inferInstanceAs (Decidable (_ = true))

variable {api : DonutApiClient} {env : Environment} {s s' : Bot}

/-- What holds of the bot in runs in which only polls are rejected. -/
structure Sound (api : DonutApiClient) (env : Environment) (s : Bot) : Prop where
  reachable : s.coordinator.Reachable api env
  solitary : s.coordinator.Solitary
  messages : ∀ discordUserId, s.messages discordUserId +
    (s.coordinator.system.mayBeNotified discordUserId).toNat ≤ 1
  rejected : ∀ use ∈ s.rejected, ∃ i p phase, use = .task i ∧
    s.coordinator.system.tasks[i]? = some (Task.poll p phase) ∧
      s.coordinator.Settles p phase (s.messages p.user.discordUserId)

private theorem eq_authentication {outcome : PriceOutcome} (h : outcome.rejects = true) :
    ∃ message, outcome = .donutApiError (.authentication message) := by
  cases outcome with
  | donutApiError error =>
    cases error with
    | authentication message => exact ⟨message, rfl⟩
    | _ => cases h
  | _ => cases h

/-- A poll that has just been rejected is about to invalidate its user. -/
private theorem invalidating_of_fetched {coordinator coordinator' : Coordinator} {i : ℕ}
    {outcome : PriceOutcome}
    (h : coordinator.react api env (.fetched i outcome) = some coordinator')
    (houtcome : outcome.rejects = true)
    (hpoll : (coordinator.system.tasks[i]?.any Task.isPoll) = true) :
    ∃ p, coordinator'.system.tasks[i]? = some (Task.poll p .invalidating) := by
  obtain ⟨message, rfl⟩ := eq_authentication houtcome
  obtain ⟨task, htask, hispoll⟩ := (Option.any_eq_true _ _).mp hpoll
  obtain ⟨p, phase, rfl⟩ := Task.isPoll_eq_true.mp hispoll
  obtain ⟨fetch, call, system, -, -, -, hstep, rfl⟩ := Coordinator.react_fetched.mp h
  obtain ⟨task, request, task', htask', -, hfetched, rfl⟩ := System.step_fetched.mp hstep
  obtain rfl := Option.some.inj (htask.symm.trans htask')
  obtain ⟨phase', hphase, rfl⟩ := Option.map_eq_some_iff.mp hfetched
  cases phase with
  | fetching token group rest anySuccess =>
    obtain rfl := Option.some.inj hphase
    exact ⟨p, List.getElem?_set_self (List.getElem?_eq_some_iff.mp htask).1⟩
  | _ => cases hphase

/-- A step of the coordinator, with what the bot records of it. -/
private theorem Sound.of_coordinator (hs : s.Sound api env) {now : ℚ} {event : CoordinatorEvent}
    (h : s.coordinator.step api env (now, event) = some s'.coordinator)
    (hevent : s.onlyPollsRejected (.coordinator now event) = true)
    (hrejected : s'.rejected = s.rejected ++ event.rejects)
    (hmessages : ∀ discordUserId, s'.messages discordUserId =
      if event.authenticates discordUserId then 0
      else s.messages discordUserId +
        (s'.coordinator.sendsInvalidToken discordUserId event).toNat) : s'.Sound api env := by
  obtain ⟨hnow, hreact⟩ := Coordinator.step_eq_some.mp h
  have haccountable : s.coordinator.Accountable env := ⟨hs.reachable.coherent, hs.solitary⟩
  have hsolitary : Coordinator.Solitary { s.coordinator with clock := now } := hs.solitary
  have hsystem := hs.reachable.parts.1
  refine ⟨?_, (Coordinator.accountable_step haccountable h).2, fun discordUserId => ?_, ?_⟩
  · obtain ⟨clock, hreachable⟩ := hs.reachable
    exact ⟨clock, hreachable.tail h⟩
  · have haccount := Coordinator.step_account discordUserId haccountable h
    simp only at haccount
    have hbefore := hs.messages discordUserId
    rw [hmessages]
    split_ifs with hauthenticates
    · have := Bool.toNat_le (s'.coordinator.system.mayBeNotified discordUserId)
      omega
    · rw [Bool.eq_false_iff.mpr hauthenticates, Bool.toNat_false] at haccount
      omega
  · intro use huse
    rw [hrejected] at huse
    rcases List.mem_append.mp huse with huse | huse
    · obtain ⟨i, p, phase, rfl, htask, hsettles⟩ := hs.rejected use huse
      have hreject : phase = .invalidating → ∀ error, event ≠ .system (.reject i error) := by
        rintro rfl error rfl
        rw [onlyPollsRejected, htask] at hevent
        cases hevent
      obtain ⟨phase', htask', hsettles'⟩ := Coordinator.react_settles
        (s := { s.coordinator with clock := now }) hsystem hsolitary hreact htask (hs.messages _)
        hsettles hreject
      exact ⟨i, p, phase', rfl, htask', (hmessages _).symm ▸ hsettles'⟩
    · cases event with
      | fetched i outcome =>
        cases houtcome : outcome.rejects with
        | false => simp [CoordinatorEvent.rejects, houtcome] at huse
        | true =>
          rw [CoordinatorEvent.rejects, if_pos houtcome] at huse
          obtain rfl := List.mem_singleton.mp huse
          rw [onlyPollsRejected, houtcome, Bool.not_true, Bool.false_or] at hevent
          obtain ⟨p, htask⟩ := invalidating_of_fetched hreact houtcome hevent
          exact ⟨i, p, _, rfl, htask, .inl rfl⟩
      | _ => cases huse

/-- A step that the coordinator does not take part in. -/
private theorem Sound.congr (hs : s.Sound api env) (hcoordinator : s'.coordinator = s.coordinator)
    (hrejected : s'.rejected = s.rejected) (hmessages : s'.messages = s.messages) :
    s'.Sound api env := by
  refine ⟨?_, ?_, ?_, ?_⟩ <;> rw [hcoordinator]
  · exact hs.reachable
  · exact hs.solitary
  · rw [hmessages]
    exact hs.messages
  · rw [hrejected, hmessages]
    exact hs.rejected

/-- A page that a call of `PriceService.get` requests is a step of the API client. -/
private theorem Sound.requestPage (hs : s.Sound api env) {now : ℚ} {i : ℕ} {page : ℤ}
    (h : s.requestPage api env now i page = some s') : s'.Sound api env := by
  obtain ⟨c, args, coordinator, -, -, hstep, rfl⟩ := requestPage_eq_some.mp h
  exact hs.of_coordinator hstep rfl (List.append_nil _).symm fun discordUserId => rfl

private theorem Sound.step (hs : s.Sound api env) {event : BotEvent}
    (hevent : s.OnlyPollsRejected event) (h : s.step api env event = some s') :
    s'.Sound api env := by
  cases event with
  | coordinator now event =>
    obtain ⟨coordinator, hstep, rfl⟩ := step_coordinator_event.mp h
    exact hs.of_coordinator hstep hevent rfl fun discordUserId => rfl
  | get discordUserId itemId priceType =>
    obtain rfl := Option.some.inj h
    exact hs.congr rfl rfl rfl
  | request now i =>
    obtain ⟨page, h⟩ := step_requestsPage (.inl rfl) h
    exact hs.requestPage h
  | nextPage now i =>
    obtain ⟨page, h⟩ := step_requestsPage (.inr rfl) h
    exact hs.requestPage h
  | fetched i outcome =>
    obtain ⟨c, fetch, call, phase, -, -, -, -, -, rfl⟩ := step_fetched.mp h
    have houtcome : outcome.rejects = false := by
      simpa [OnlyPollsRejected, onlyPollsRejected] using hevent
    refine hs.congr rfl ?_ rfl
    rw [houtcome]
    exact List.append_nil _

/-- A rejected poll that has ended, and whose token has stayed, has handled the rejection. -/
private theorem Sound.handles (hs : s.Sound api env) {use : TokenUse} (huse : use ∈ s.rejected) :
    s.Handles use := by
  obtain ⟨i, p, phase, rfl, htask, hsettles⟩ := hs.rejected use huse
  intro discordUserId loadedAt huser hloadedAt hended hkeeps
  rw [userOf, htask] at huser
  obtain rfl := Option.some.inj huser
  rw [Bot.loadedAt, htask] at hloadedAt
  obtain rfl := Option.some.inj hloadedAt
  rw [ended, htask] at hended
  have hphase : phase ≠ .invalidating := by
    rintro rfl
    cases hended
  obtain ⟨⟨c, hc, hstatus⟩, hmessages⟩ := hsettles.resolve_left hphase hkeeps
  obtain ⟨user, hget, rfl⟩ := Option.map_eq_some_iff.mp hc
  obtain ⟨hmem, hid⟩ := Table.get?_eq_some.mp hget
  have hstanding := hs.reachable.parts.1.settled.1.standing env hmem
  refine ⟨⟨user, hmem, hid, hstatus⟩, fun rule hrule howner => ?_, hmessages⟩
  exact hstanding.paused hstatus rule hrule (howner.trans hid.symm)

/-- In every run in which only polls are answered 401 or 403 and the database rejects no
invalidation, every operation that was answered so and has ended has left its user invalid, paused
and told once, unless the token has been replaced meanwhile. -/
theorem handlesRejections {clock : ℚ} {events : List BotEvent}
    (halong : Along (step api env) OnlyPollsRejected (initial env clock) events)
    (hrun : run (step api env) (initial env clock) events = some s) : s.HandlesRejections := by
  have hinitial : (initial env clock).Sound api env := by
    have hreachable : Coordinator.Reachable api env (.initial env clock) := ⟨clock, .refl _⟩
    refine ⟨hreachable, ?_, fun _ => Nat.zero_le _, fun use huse => absurd huse List.not_mem_nil⟩
    intro i j p q phase phase' hi
    cases hi
  have hsound := run_invariant_along (step api env) (I := Sound api env)
    (fun s event s' hs hevent hstep => hs.step hevent hstep) halong hrun hinitial
  exact fun use huse => hsound.handles huse

/-- A request of a poll is rejected; the poll ends after its message. -/
def rejectedPoll : List BotEvent :=
  (Coordinator.rejectedPoll.map fun event => .coordinator event.1 event.2) ++
    [.coordinator 3 (.system (.sent 1 (.ok 7)))]

theorem handlesRejections_rejectedPoll : ∃ s,
    run (step Coordinator.twoDigitClient .plain) (initial .plain 0) rejectedPoll = some s ∧
    s.rejected = [.task 1] ∧ s.ended (.task 1) = true ∧ s.messages 1 = 1 ∧
    s.HandlesRejections := by
  have hrun : (run (step Coordinator.twoDigitClient .plain) (initial .plain 0) rejectedPoll).map
      (fun s : Bot => decide (s.rejected = [.task 1] ∧ s.ended (.task 1) = true ∧
        s.messages 1 = 1)) = some true := by
    decide +kernel
  obtain ⟨s, hs, hfacts⟩ := Option.map_eq_some_iff.mp hrun
  obtain ⟨hrejected, hended, hmessages⟩ := of_decide_eq_true hfacts
  exact ⟨s, hs, hrejected, hended, hmessages, handlesRejections (by decide +kernel) hs⟩

/-- The price check of a call of `WatchService.add` is rejected; the call deletes its rule and
raises. -/
def rejectedAdd : List BotEvent :=
  [.coordinator 0 (.system (.operation (.authenticate 1 "a" 0))),
    .coordinator 0 (.system (.startAdd .elytra)),
    .coordinator 0 (.system (.commit 0 { ruleKey := 1 })), .coordinator 1 (.request 0),
    .coordinator 1 (.client (.tryAcquire 0)),
    .coordinator 2 (.client (.respond 0 (.response ⟨401, none, none⟩) 2)),
    .coordinator 2 (.fetched 0 (.donutApiError (.authentication "DonutSMP rejected the token"))),
    .coordinator 2 (.system (.commit 0 {}))]

/-- The request of a call of `PriceService.get` is rejected. -/
def rejectedGet : List BotEvent :=
  [.coordinator 0 (.system (.operation (.authenticate 1 "a" 0))), .get 1 "minecraft:elytra" .total,
    .request 1 0, .coordinator 1 (.client (.tryAcquire 0)),
    .coordinator 2 (.client (.respond 0 (.response ⟨401, none, none⟩) 2)),
    .fetched 0 (.donutApiError (.authentication "DonutSMP rejected the token"))]

/-- A rejected operation that has ended although its user, whose token has stayed, is `VALID`. -/
def LeavesValid (s : Bot) (use : TokenUse) (discordUserId : ℤ) (loadedAt : ℕ) : Prop :=
  use ∈ s.rejected ∧ s.userOf use = some discordUserId ∧ s.loadedAt use = some loadedAt ∧
    s.ended use = true ∧
    s.coordinator.system.database.KeepsTokenSince discordUserId loadedAt ∧
    ∀ user ∈ s.store.users.rows, user.tokenStatus = .valid

instance (s : Bot) (use : TokenUse) (discordUserId : ℤ) (loadedAt : ℕ) :
    Decidable (s.LeavesValid use discordUserId loadedAt) :=
  inferInstanceAs (Decidable (_ ∧ _))

private theorem LeavesValid.unhandled {use : TokenUse} {discordUserId : ℤ}
    {loadedAt : ℕ} (h : s.LeavesValid use discordUserId loadedAt) : ¬ s.HandlesRejections := by
  obtain ⟨hrejected, huser, hloadedAt, hended, hkeeps, hvalid⟩ := h
  intro hhandles
  obtain ⟨⟨user, hmem, -, hinvalid⟩, -⟩ :=
    hhandles use hrejected discordUserId loadedAt huser hloadedAt hended hkeeps
  cases (hvalid user hmem).symm.trans hinvalid

/-- A call of `WatchService.add` and one of `PriceService.get` that end in a rejection leave the user
`VALID`. -/
theorem not_handlesRejections :
    (∃ s, run (step Coordinator.twoDigitClient .plain) (initial .plain 0) rejectedAdd = some s ∧
      ¬ s.HandlesRejections) ∧
    ∃ s, run (step Coordinator.twoDigitClient .plain) (initial .plain 0) rejectedGet = some s ∧
      ¬ s.HandlesRejections := by
  have hadd : (run (step Coordinator.twoDigitClient .plain) (initial .plain 0) rejectedAdd).map
      (fun s : Bot => decide (s.LeavesValid (.task 0) 1 1)) = some true := by
    decide +kernel
  have hget : (run (step Coordinator.twoDigitClient .plain) (initial .plain 0) rejectedGet).map
      (fun s : Bot => decide (s.LeavesValid (.price 0) 1 1)) = some true := by
    decide +kernel
  obtain ⟨s, hs, hvalid⟩ := Option.map_eq_some_iff.mp hadd
  obtain ⟨s', hs', hvalid'⟩ := Option.map_eq_some_iff.mp hget
  exact ⟨⟨s, hs, (of_decide_eq_true hvalid).unhandled⟩,
    s', hs', (of_decide_eq_true hvalid').unhandled⟩

end Bot

end DonutMonitor
