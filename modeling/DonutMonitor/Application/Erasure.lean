import DonutMonitor.Application.System

/-!
# Logout erases the user

The deletion of a user cascades to the rules, their notifications and the observations. Polls, calls
of `WatchService.add` and deliveries that are in flight keep the id of the user, but nothing that
they write afterwards brings a row back: the foreign keys reject an insertion for a user that is not
there, and an update or a deletion matches no row. Only a new authentication does.

## Main definitions

* `Store.Erased` — no row refers to a user.

## Main results

* `Store.erased_iff` — by the foreign keys, this is so as soon as the user has no row.
* `System.Reachable.logout_erases` — from the commit of a logout until the next authentication.
-/

namespace DonutMonitor

open Transition

/-- No row of any table refers to the user, itself or through a rule. -/
structure Store.Erased (s : Store) (discordUserId : ℤ) : Prop where
  users : ∀ user ∈ s.users.rows, user.discordUserId ≠ discordUserId
  watchRules : ∀ rule ∈ s.watchRules.rows, rule.discordUserId ≠ discordUserId
  observations : ∀ o ∈ s.observations.rows, o.discordUserId ≠ discordUserId
  notifications : ∀ n ∈ s.notifications.rows, ∃ rule ∈ s.watchRules.rows,
    rule.id = n.watchRuleId ∧ rule.discordUserId ≠ discordUserId

theorem Store.erased_iff {s : Store} {discordUserId : ℤ} :
    s.Erased discordUserId ↔ discordUserId ∉ s.users.keys := by
  constructor
  · rintro ⟨husers, -, -, -⟩ hmem
    obtain ⟨user, huser, hid⟩ := Table.mem_keys.mp hmem
    exact husers user huser hid
  · intro hgone
    have hrules : ∀ rule ∈ s.watchRules.rows, rule.discordUserId ≠ discordUserId :=
      fun rule hrule howner => hgone (howner ▸ s.watchRules_user rule hrule)
    refine ⟨fun user huser hid => hgone (Table.mem_keys.mpr ⟨user, huser, hid⟩), hrules,
      fun o ho howner => hgone (howner ▸ s.observations_user o ho), fun n hn => ?_⟩
    obtain ⟨rule, hrule, hid⟩ := Table.mem_keys.mp (s.notifications_rule n hn)
    exact ⟨rule, hrule, hid, hrules rule hrule⟩

theorem Store.credentials_eq_none {s : Store} {discordUserId : ℤ} :
    s.credentials discordUserId = none ↔ discordUserId ∉ s.users.keys := by
  rw [Store.credentials, Option.map_eq_none_iff, Table.get?_eq_none]

/-- A user without a row stays so until its next authentication. -/
theorem UserLife.run_erased {events : List UserEvent} {credentials : Option Credentials}
    (hrun : run UserLife.step none events = some credentials)
    (hsaved : ∀ token fingerprint, .tokenSaved token fingerprint ∉ events) :
    credentials = none := by
  cases events with
  | nil => exact (Option.some.inj hrun).symm
  | cons e events =>
    obtain ⟨next, hstep, -⟩ := (run_cons _).mp hrun
    cases e with
    | tokenSaved token fingerprint => exact absurd List.mem_cons_self (hsaved token fingerprint)
    | loggedOut => cases hstep
    | invalidated notifiedAt => cases hstep

/-- No rule appears under a key without being created. -/
theorem RuleLife.run_absent {ctx : DecimalContext} {events : List RuleEvent}
    {view : Option RuleView} (hrun : run (RuleLife.step ctx) none events = some view)
    (hcreated : ∀ id draft, .created id draft ∉ events) : view = none := by
  cases events with
  | nil => exact (Option.some.inj hrun).symm
  | cons e events =>
    obtain ⟨next, hstep, -⟩ := (run_cons _).mp hrun
    cases e with
    | created id draft => exact absurd List.mem_cons_self (hcreated id draft)
    | _ => cases hstep

theorem Store.view_eq_none {s : Store} {id : ℕ} (h : s.view id = none) :
    id ∉ s.watchRules.keys ∧ ∀ n ∈ s.notifications.rows, n.watchRuleId ≠ id := by
  have hkey : id ∉ s.watchRules.keys := Table.get?_eq_none.mp (Option.map_eq_none_iff.mp h)
  exact ⟨hkey, fun n hn heq => hkey (heq ▸ s.notifications_rule n hn)⟩

/-- The processing of a snapshot for a user without a row is rejected as a whole: its first
statement stores the observation. -/
theorem Transaction.exec_process_erased {env : Environment} {s : Store} {call : ProcessCall}
    (h : s.Erased call.discordUserId) (observationKey : ℕ) (notificationKey : ℕ → ℕ) :
    (Transaction.process call observationKey notificationKey).exec env s =
      .error (.databaseError .integrityError) := by
  have hgone : ¬ (observationKey ∉ s.observations.keys ∧ call.discordUserId ∈ s.users.keys) :=
    fun hkeys => Store.erased_iff.mp h hkeys.2
  rw [Transaction.exec, RuleProcessor.process, ObservationRepository.add, dif_neg hgone]
  rfl

namespace System

variable {env : Environment} {s s₀ s' : System}

theorem step_logout {discordUserId : ℤ}
    (h : s.step env (.operation (.logout discordUserId)) = some s₀) :
    s₀.database.store = s.database.store.deleteUser discordUserId := by
  obtain ⟨t, answer, database, ht, hcommit, rfl⟩ := step_operation.mp h
  obtain rfl := Except.ok.inj ht
  exact (Prod.mk.inj (Except.ok.inj (Database.commit_eq_ok.mp hcommit).1)).2.symm

/-- After a logout has committed, and along any run without a later authentication of the user, no
row refers to the user; a rule that the user had is gone with its notifications, and nothing is
stored under its key before another rule is created there. A task that processes a snapshot for the
user leaves the database as it is. -/
theorem Reachable.logout_erases (h : Reachable env s) {discordUserId : ℤ}
    (hlogout : s.step env (.operation (.logout discordUserId)) = some s₀) {labels : List Label}
    (hrun : run (step env) s₀ labels = some s') {events : List UserEvent}
    (hevents : s'.database.userEvents discordUserId =
      s₀.database.userEvents discordUserId ++ events)
    (hsaved : ∀ token fingerprint, .tokenSaved token fingerprint ∉ events) :
    s'.database.store.Erased discordUserId ∧
      (∀ id v later, s.database.store.view id = some v → v.rule.discordUserId = discordUserId →
        s'.database.ruleEvents id = s₀.database.ruleEvents id ++ later →
        (∀ draft, .created id draft ∉ later) →
          id ∉ s'.database.store.watchRules.keys ∧
            ∀ n ∈ s'.database.store.notifications.rows, n.watchRuleId ≠ id) ∧
      ∀ i input task call observationKey notificationKey s'', s'.tasks[i]? = some task →
        task.pending input = some (.process call observationKey notificationKey) →
        call.discordUserId = discordUserId → s'.step env (.commit i input) = some s'' →
          s''.database = s'.database := by
  have hreachable : Reachable env s₀ := h.tail hlogout
  have hstore := step_logout hlogout
  have hgone : s₀.database.store.credentials discordUserId = none := by
    rw [Store.credentials_eq_none, hstore, ← Store.erased_iff]
    refine ⟨fun user huser => ?_, fun rule hrule => ?_, fun o ho => ?_, fun n hn => ?_⟩
    · simpa using (List.mem_filter.mp huser).2
    · simpa using (List.mem_filter.mp hrule).2
    · simpa using (List.mem_filter.mp ho).2
    · obtain ⟨rule, hrule, hid⟩ :=
        Table.mem_keys.mp ((s.database.store.deleteUser discordUserId).notifications_rule n hn)
      exact ⟨rule, hrule, hid, by simpa using (List.mem_filter.mp hrule).2⟩
  have herased : s'.database.store.Erased discordUserId := by
    have hlife := hreachable.run_credentials hrun hevents
    rw [hgone] at hlife
    exact Store.erased_iff.mpr (Store.credentials_eq_none.mp (UserLife.run_erased hlife hsaved))
  refine ⟨herased, fun id v later hv howner hlater hcreated => ?_,
    fun i input task call observationKey notificationKey s'' htask hpending hcall hstep => ?_⟩
  · have hnone : s₀.database.store.view id = none := by
      rw [hstore, Store.view_deleteUser, hv]
      simp [Option.filter_some, howner]
    have hlife := hreachable.run_between hrun hlater
    rw [hnone] at hlife
    refine Store.view_eq_none (RuleLife.run_absent hlife fun key draft hmem => ?_)
    -- an event of a rule creates it under its own key
    have hown : key = id := by
      have hall : .created key draft ∈ s'.database.ruleEvents id :=
        hlater ▸ List.mem_append_right _ hmem
      obtain ⟨c, -, hc⟩ := List.mem_filterMap.mp hall
      obtain ⟨rfl, -⟩ := Transaction.ruleEvent_eq_created hc
      rfl
    exact hcreated draft (hown ▸ hmem)
  · obtain ⟨task', t, moved, htask', hpending', ⟨error, -, -, rfl⟩ |
      ⟨answer, database, hcommit, -, -⟩⟩ := step_commit.mp hstep
    · rfl
    · obtain rfl := Option.some.inj (htask.symm.trans htask')
      obtain rfl := Option.some.inj (hpending.symm.trans hpending')
      have hexec := (Database.commit_eq_ok.mp hcommit).1
      rw [Transaction.exec_process_erased (hcall ▸ herased)] at hexec
      cases hexec

/-- A watch for elytras at or below 100 is added. A poll has loaded it and found an elytra at 50. -/
def fetchedInFlight : List Label :=
  [.operation (.authenticate 1 "token" 0), .startAdd .elytra, .commit 0 { ruleKey := 1 },
    .fetched 0 (.listing (some (.elytra 200)) 0 1),
    .commit 0 { observationKey := 1, order := [1] }, .startPoll 1,
    .fetched 1 (.listing (some (.elytra 50)) 10 1)]

/-- The user logs out, the poll processes its snapshot, and no row refers to the user. -/
theorem logout_erases_inFlight : ∃ s s₀ s', run (step .plain) {} fetchedInFlight = some s ∧
    (s.database.store.view 1).isSome = true ∧
    s.step .plain (.operation (.logout 1)) = some s₀ ∧
    run (step .plain) s₀ [.commit 1 { observationKey := 2, order := [1] }] = some s' ∧
    s'.database.store.Erased 1 ∧ 1 ∉ s'.database.store.watchRules.keys := by
  have hrun : ((run (step .plain) {} fetchedInFlight).bind fun s : System =>
      (s.step .plain (.operation (.logout 1))).bind fun s₀ : System =>
        (run (step .plain) s₀ [.commit 1 { observationKey := 2, order := [1] }]).bind
          fun s' : System =>
          (s.database.store.view 1).map fun v => decide (v.rule.discordUserId = 1 ∧
            s'.database.userEvents 1 = s₀.database.userEvents 1 ∧
            s'.database.ruleEvents 1 = s₀.database.ruleEvents 1)) = some true := by
    decide +kernel
  obtain ⟨s, hs, hrest⟩ := Option.bind_eq_some_iff.mp hrun
  obtain ⟨s₀, hs₀, hrest⟩ := Option.bind_eq_some_iff.mp hrest
  obtain ⟨s', hs', hview⟩ := Option.bind_eq_some_iff.mp hrest
  obtain ⟨v, hv, hfacts⟩ := Option.map_eq_some_iff.mp hview
  obtain ⟨howner, husers, hrules⟩ := of_decide_eq_true hfacts
  obtain ⟨herased, hformer, -⟩ := Reachable.logout_erases ⟨_, hs⟩ hs₀ hs'
    ((List.append_nil _).symm ▸ husers) fun _ _ => List.not_mem_nil
  exact ⟨s, s₀, s', hs, by rw [hv]; rfl, hs₀, hs', herased,
    (hformer 1 v [] hv howner (by rw [hrules, List.append_nil]) fun _ => List.not_mem_nil).1⟩

end System

end DonutMonitor
