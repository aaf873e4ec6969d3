import DonutMonitor.Application.TokenRace

/-!
# Users with an invalid token

A poll whose request is rejected sets the status of its user, the time of the notification and the
rules of the user in one transaction. The other operations enable or create a rule only while the
status is `VALID`. So a user with an invalid token has been notified, has no enabled rule, is not
polled, and no alert is created for it.

## Main definitions

* `Store.Settled` — status, time of the notification and rules of all users agree.
* `Store.TokenStanding` — what follows for the row of a user.

## Main results

* `System.Reachable.settled` — they agree in every reachable system.
-/

namespace DonutMonitor

open Transition

/-! ### Enabled rules -/

namespace Transaction

variable {env : Environment} {s s' : Store} {a : Answer} {t : Transaction}

/-- A transaction that enables a rule has found its owner `VALID`. -/
private theorem valid_of_enabledSet (h : t.exec env s = .ok (a, s')) {id : ℕ} {v : RuleView}
    (hv : s.view id = some v) (hevent : t.ruleEvent s id = some (.enabledSet true)) :
    t.userEvent s v.rule.discordUserId = none ∧
      ∃ c, s.credentials v.rule.discordUserId = some c ∧ c.tokenStatus = .valid := by
  have howned : ∀ {discordUserId : ℤ},
      ownedEvent s discordUserId id (.enabledSet true) = some (.enabledSet true) →
        v.rule.discordUserId = discordUserId := by
    intro discordUserId howned
    obtain ⟨-, w, hw, howner⟩ := ownedEvent_eq_some.mp howned
    obtain rfl := Option.some.inj (hv.symm.trans hw)
    exact howner
  have hvalid : ∀ {discordUserId : ℤ} {user : User},
      requireValidUser s discordUserId = .ok user →
        ∃ c, s.credentials discordUserId = some c ∧ c.tokenStatus = .valid := by
    intro discordUserId user huser
    obtain ⟨hget, hstatus⟩ := requireValidUser_eq_ok.mp huser
    exact ⟨user.credentials, by rw [Store.credentials, hget, Option.map_some], hstatus⟩
  cases t with
  | setEnabled discordUserId displayId enabled =>
    rw [ruleEvent] at hevent
    split_ifs at hevent
    obtain ⟨henabled, -⟩ := ownedEvent_eq_some.mp hevent
    rw [henabled] at hevent
    obtain ⟨⟨s₁, changed⟩, hset, -⟩ := Except.bind_eq_ok.mp h
    obtain ⟨user, huser, -⟩ := Except.bind_eq_ok.mp hset
    exact ⟨rfl, howned hevent ▸ hvalid huser⟩
  | setEnabledByDatabaseId discordUserId ruleId enabled =>
    rw [ruleEvent] at hevent
    split_ifs at hevent
    obtain ⟨henabled, -⟩ := ownedEvent_eq_some.mp hevent
    rw [henabled] at hevent
    obtain ⟨⟨s₁, changed⟩, hset, -⟩ := Except.bind_eq_ok.mp h
    obtain ⟨user, huser, -⟩ := Except.bind_eq_ok.mp hset
    exact ⟨rfl, howned hevent ▸ hvalid huser⟩
  | process call observationKey notificationKey =>
    obtain ⟨rule, -, hevent⟩ := Option.bind_eq_some_iff.mp hevent
    split_ifs at hevent
    cases hevent
  | create draft key =>
    rw [ruleEvent] at hevent
    split_ifs at hevent
    cases hevent
  | logout userId => cases (ownedEvent_eq_some.mp hevent).1
  | invalidate userId notifiedAt => cases (ownedEvent_eq_some.mp hevent).1
  | undoCreate userId ruleId =>
    rw [ruleEvent] at hevent
    split_ifs at hevent
    cases (ownedEvent_eq_some.mp hevent).1
  | deleteByDatabaseId userId ruleId =>
    rw [ruleEvent] at hevent
    split_ifs at hevent
    cases (ownedEvent_eq_some.mp hevent).1
  | delete userId displayId =>
    rw [ruleEvent] at hevent
    split_ifs at hevent
    cases (ownedEvent_eq_some.mp hevent).1
  | _ => cases hevent

/-- A rule that is enabled after a transaction has been so before, or its owner is `VALID`. -/
theorem exec_enabled (h : t.exec env s = .ok (a, s')) {id : ℕ} {v' : RuleView}
    (hv' : s'.view id = some v') (henabled : v'.rule.enabled = true) :
    (∃ v, s.view id = some v ∧ v.rule.enabled = true ∧
        v.rule.discordUserId = v'.rule.discordUserId ∧
        t.ruleEvent s id ≠ some (.enabledSet false)) ∨
      t.userEvent s v'.rule.discordUserId = none ∧
        ∃ c, s.credentials v'.rule.discordUserId = some c ∧ c.tokenStatus = .valid := by
  have hview := exec_view h id
  cases hevent : t.ruleEvent s id with
  | none =>
    rw [hevent] at hview
    exact .inl ⟨v', (Option.some.inj hview).trans hv', henabled, rfl, by simp⟩
  | some e =>
    rw [hevent, Option.toList_some, run_singleton, hv'] at hview
    cases e with
    | created key draft =>
      obtain ⟨rfl, rfl⟩ := ruleEvent_eq_created hevent
      obtain rfl := Option.some.inj ((RuleLife.step_created id draft).mp hview).2
      obtain ⟨⟨created, s₁⟩, hcreate, -⟩ := Except.bind_eq_ok.mp h
      obtain ⟨-, ⟨user, huser, hstatus, -⟩, -⟩ := WatchService.create_ok hcreate
      refine .inr ⟨rfl, user.credentials, ?_, hstatus⟩
      rw [RuleDraft.row_discordUserId, Store.credentials, huser, Option.map_some]
    | enabledSet enabled =>
      obtain ⟨v, hv, hrow⟩ := (RuleLife.step_enabledSet enabled).mp hview
      obtain rfl := Option.some.inj hrow
      obtain rfl : enabled = true := by simpa using henabled
      rw [WatchRule.withEnabled_discordUserId]
      exact .inr (valid_of_enabledSet h hv hevent)
    | deleted => cases (RuleLife.step_deleted.mp hview).2
    | evaluated o =>
      obtain ⟨v, hv, hbefore, hrow⟩ := (RuleLife.step_evaluated o).mp hview
      obtain rfl := Option.some.inj hrow
      exact .inl ⟨v, hv, hbefore, rfl, by simp⟩

/-- The only transaction that invalidates a user pauses all rules of this user. -/
theorem pauses_of_invalidated {discordUserId : ℤ} {notifiedAt : Option ℚ}
    (h : t.userEvent s discordUserId = some (.invalidated notifiedAt)) {id : ℕ} {v : RuleView}
    (hv : s.view id = some v) (howner : v.rule.discordUserId = discordUserId) :
    t.ruleEvent s id = some (.enabledSet false) := by
  cases t with
  | invalidate userId notifiedAt' =>
    rw [userEvent] at h
    split_ifs at h with hid
    exact ownedEvent_eq_some.mpr ⟨rfl, v, hv, howner.trans hid.1⟩
  | saveValidToken userId token fingerprint =>
    rw [userEvent] at h
    split_ifs at h
    cases Option.some.inj h
  | logout userId =>
    rw [userEvent] at h
    split_ifs at h
    cases Option.some.inj h
  | _ => cases h

end Transaction

/-! ### Settled stores -/

/-- Status, time of the notification and rules of all users agree. -/
structure Store.Settled (s : Store) : Prop where
  valid : ∀ id c, s.credentials id = some c → c.tokenStatus = .valid →
    c.invalidTokenNotifiedAt = none
  notified : ∀ id c, s.credentials id = some c → c.tokenStatus = .invalid →
    ∃ at_, c.invalidTokenNotifiedAt = some at_
  paused : ∀ id c, s.credentials id = some c → c.tokenStatus = .invalid →
    ∀ ruleId v, s.view ruleId = some v → v.rule.discordUserId = id → v.rule.enabled = false

/-- A transaction that notifies whomever it invalidates keeps a store settled. -/
theorem Store.Settled.exec {env : Environment} {s s' : Store} {a : Answer} {t : Transaction}
    (hs : s.Settled) (h : t.exec env s = .ok (a, s'))
    (hnotifies : ∀ id, t.userEvent s id ≠ some (.invalidated none)) : s'.Settled := by
  have hcredentials := Transaction.exec_credentials h
  -- what a transaction that leaves the user alone keeps, and how an invalidation comes about
  have hcases : ∀ id c', s'.credentials id = some c' →
      t.userEvent s id = none ∧ s.credentials id = some c' ∨
      c'.tokenStatus = .valid ∧ c'.invalidTokenNotifiedAt = none ∨
      ∃ at_, t.userEvent s id = some (.invalidated (some at_)) ∧ c'.tokenStatus = .invalid ∧
        c'.invalidTokenNotifiedAt = some at_ := by
    intro id c' hc'
    have hrun := hcredentials id
    rw [hc'] at hrun
    cases hevent : t.userEvent s id with
    | none =>
      rw [hevent] at hrun
      exact .inl ⟨rfl, Option.some.inj hrun⟩
    | some event =>
      rw [hevent, Option.toList_some, run_singleton] at hrun
      cases event with
      | tokenSaved token fingerprint =>
        obtain rfl := Option.some.inj ((UserLife.step_tokenSaved token fingerprint).mp hrun)
        exact .inr (.inl ⟨rfl, rfl⟩)
      | loggedOut => exact absurd (UserLife.step_loggedOut.mp hrun).2 nofun
      | invalidated notifiedAt =>
        obtain ⟨c, -, hrow⟩ := (UserLife.step_invalidated notifiedAt).mp hrun
        obtain rfl := Option.some.inj hrow
        cases notifiedAt with
        | none => exact absurd hevent (hnotifies id)
        | some at_ => exact .inr (.inr ⟨at_, rfl, rfl, rfl⟩)
  constructor
  · intro id c' hc' hvalid
    rcases hcases id c' hc' with ⟨-, hc⟩ | ⟨-, hnone⟩ | ⟨at_, -, hinvalid, -⟩
    · exact hs.valid id c' hc hvalid
    · exact hnone
    · cases hvalid.symm.trans hinvalid
  · intro id c' hc' hinvalid
    rcases hcases id c' hc' with ⟨-, hc⟩ | ⟨hvalid, -⟩ | ⟨at_, -, -, hnotified⟩
    · exact hs.notified id c' hc hinvalid
    · cases hvalid.symm.trans hinvalid
    · exact ⟨at_, hnotified⟩
  · rintro id c' hc' hinvalid ruleId v' hv' rfl
    refine Bool.eq_false_iff.mpr fun henabled => ?_
    rcases hcases _ c' hc' with ⟨-, hc⟩ | ⟨hvalid, -⟩ | ⟨at_, hevent, -, -⟩
    · rcases Transaction.exec_enabled h hv' henabled with
        ⟨v, hv, hbefore, howner, -⟩ | ⟨-, c, hvalid, hstatus⟩
      · rw [hs.paused _ c' hc hinvalid ruleId v hv howner] at hbefore
        cases hbefore
      · obtain rfl := Option.some.inj (hvalid.symm.trans hc)
        cases hstatus.symm.trans hinvalid
    · cases hvalid.symm.trans hinvalid
    · rcases Transaction.exec_enabled h hv' henabled with
        ⟨v, hv, -, howner, hkept⟩ | ⟨hnone, -⟩
      · exact hkept (Transaction.pauses_of_invalidated hevent hv howner)
      · cases hnone.symm.trans hevent

/-- What holds of the row of a user: with a valid token it has not been notified; with an invalid
one it has been, its rules are paused, no cycle polls it and no snapshot alerts it. -/
structure Store.TokenStanding (env : Environment) (s : Store) (user : User) : Prop where
  valid : user.tokenStatus = .valid → user.invalidTokenNotifiedAt = none
  notified : user.tokenStatus = .invalid → ∃ at_, user.invalidTokenNotifiedAt = some at_
  paused : user.tokenStatus = .invalid → ∀ rule ∈ s.watchRules.rows,
    rule.discordUserId = user.discordUserId → rule.enabled = false
  unpolled : user.tokenStatus = .invalid →
    ∀ rules, (user, rules) ∉ UserRepository.validUsersWithRules s
  silent : user.tokenStatus = .invalid → ∀ call observationKey notificationKey progress,
    call.discordUserId = user.discordUserId →
      RuleProcessor.process env.decimal call notificationKey observationKey s = .ok progress →
        progress.events = []

theorem Store.Settled.standing {s : Store} (hs : s.Settled) (env : Environment) {user : User}
    (huser : user ∈ s.users.rows) : s.TokenStanding env user := by
  have hcredentials : s.credentials user.discordUserId = some user.credentials := by
    rw [Store.credentials, Table.mem_rows_iff.mp huser, Option.map_some]
  have hpaused : user.tokenStatus = .invalid → ∀ id v, s.view id = some v →
      v.rule.discordUserId = user.discordUserId → v.rule.enabled = false :=
    hs.paused _ _ hcredentials
  refine ⟨hs.valid _ _ hcredentials, hs.notified _ _ hcredentials, ?_, ?_, ?_⟩
  · intro hinvalid rule hrule
    exact hpaused hinvalid rule.id ⟨rule, _⟩
      (Store.view_eq_some.mpr ⟨Table.mem_rows_iff.mp hrule, rfl⟩)
  · intro hinvalid rules hmem
    cases ((UserRepository.mem_validUsersWithRules s).mp hmem).2.1.symm.trans hinvalid
  · intro hinvalid call observationKey notificationKey progress howner hprocess
    obtain ⟨-, hevents, -⟩ := RuleProcessor.process_ok hprocess
    refine List.eq_nil_iff_forall_not_mem.mpr fun e he => ?_
    obtain ⟨id, v, hv, ⟨-, huser, henabled⟩, -⟩ := hevents e he
    cases (hpaused hinvalid id v hv (huser.trans howner)).symm.trans henabled

/-! ### Reachable systems -/

theorem valid_of_loadPoll {db : Database} {discordUserId : ℤ} {p : Poll}
    (h : loadPoll db discordUserId = some p) :
    p.user ∈ db.store.users.rows ∧ p.user.tokenStatus = .valid := by
  obtain ⟨⟨user, rules⟩, hfind, rfl⟩ := Option.map_eq_some_iff.mp h
  obtain ⟨hmem, hvalid, -⟩ :=
    (UserRepository.mem_validUsersWithRules _).mp (List.mem_of_find?_eq_some hfind)
  exact ⟨hmem, hvalid⟩

namespace System

variable {env : Environment} {s s' : System} {i : ℕ}

/-- A poll keeps the rows that it has loaded. -/
theorem Moves.poll {task : Task} {p : Poll} {phase' : PollPhase}
    (h : Moves env s s' i task (.poll p phase')) : ∃ phase, task = .poll p phase := by
  cases h with
  | committed input t answer hpending hcommit hresume hincidents =>
    obtain ⟨phase, rfl, -⟩ := Task.resume_eq_poll.mp hresume
    exact ⟨phase, rfl⟩
  | raised error hfail hdatabase hincidents =>
    obtain ⟨phase, rfl, -⟩ := Task.fail_eq_poll.mp hfail
    exact ⟨phase, rfl⟩
  | fetched request outcome hrequest hfetched hdatabase hincidents =>
    obtain ⟨phase, rfl, -⟩ := Task.fetched_eq_poll.mp hfetched
    exact ⟨phase, rfl⟩
  | sent outcome hsent hdatabase hincidents =>
    obtain ⟨phase, rfl, -⟩ := Task.sent_eq_poll.mp hsent
    exact ⟨phase, rfl⟩

/-- Every reachable store is settled, and every poll has loaded a user that had not been
notified. -/
theorem Reachable.settled (h : Reachable env s) : s.database.store.Settled ∧
    ∀ (i : ℕ) p phase, s.tasks[i]? = some (Task.poll p phase) →
      p.user.invalidTokenNotifiedAt = none := by
  refine h.invariant (I := fun s => s.database.store.Settled ∧ ∀ (i : ℕ) p phase,
    s.tasks[i]? = some (Task.poll p phase) → p.user.invalidTokenNotifiedAt = none) ?_ ?_
  · rintro s label s' ⟨hs, hpolls⟩ hstep
    refine ⟨?_, fun i p phase' htask' => ?_⟩
    · rcases step_database hstep with hsame | ⟨origin, t, answer, hcommit, hwho⟩
      · exact hsame ▸ hs
      · refine hs.exec (Database.commit_eq_ok.mp hcommit).1 fun id hevent => ?_
        rcases hwho with ⟨operation, -, ht⟩ | ⟨i, input, task, -, htask, hpending⟩
        · exact Operation.not_invalidated ht hevent
        · obtain ⟨p, rfl, -, hat⟩ := Task.userEvent_of_pending hpending hevent
          have hnotify : PollPhase.shouldNotify p = true := by
            rw [PollPhase.shouldNotify, hpolls i p _ htask]
            rfl
          rw [if_pos hnotify] at hat
          cases UserEvent.invalidated.inj hat
    · rcases step_tasks hstep htask' with ⟨-, -, -, hnew⟩ | ⟨hold, -⟩ | ⟨task, htask, hmoves⟩
      · rcases hnew with ⟨call, hcall⟩ | ⟨discordUserId, poll, hload, hpoll⟩
        · cases hcall
        · obtain ⟨rfl, -⟩ := Task.poll.inj hpoll
          obtain ⟨hmem, hvalid⟩ := valid_of_loadPoll hload
          exact (hs.standing env hmem).valid hvalid
      · exact hpolls i p phase' hold
      · obtain ⟨phase, rfl⟩ := hmoves.poll
        exact hpolls i p phase htask
  · refine ⟨⟨?_, ?_, ?_⟩, fun i p phase hnone => by simp at hnone⟩ <;>
      · intro id c hc
        cases hc

end System

end DonutMonitor
