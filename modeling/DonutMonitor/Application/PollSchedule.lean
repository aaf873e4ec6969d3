import DonutMonitor.Application.PollBudget
import DonutMonitor.Foundations.Latest

/-!
# Which users a cycle polls

A cycle polls the users with a valid token and an enabled rule whose next poll is due. The times of
the next polls are kept in a table that is not stored, and that each poll sets from the number of
its requests when it starts.

## Main definitions

* `Coordinator.pollDueAt` — when the next poll of a user is due, after the polls that have started.
* `Coordinator.Polled` — a cycle polls a user.

## Main results

* `Coordinator.nextPollAt_eq` — the table has the times at which the next polls are due.
* `Coordinator.polls` — a cycle polls exactly the users that it should.
-/

namespace DonutMonitor

open Latest Transition

namespace Coordinator

variable {api : DonutApiClient} {env : Environment} {s s' : Coordinator} (discordUserId : ℤ)

/-- When the next poll is due after the one that has started last, in seconds of the clock. -/
def pollDueAt (env : Environment) (starts : List PollStart) : Option ℚ :=
  latest (fun start => some (start.startedAt + start.poll.interval env.settings)) starts

/-- The rules that a poll of the user has when it starts in the state. -/
def enabledRules (s : Coordinator) (user : User) : List WatchRule :=
  (s.system.database.store.watchRules.rows.filter
    (·.discordUserId = user.discordUserId)).filter (·.enabled)

theorem timely_initial (clock : ℚ) : (initial env clock).Timely :=
  fun _ hcycle => hcycle.elim nofun nofun

/-- The table has the times at which the polls that follow those of the run are due. -/
theorem nextPollAt_of_run {labels : List (ℚ × CoordinatorEvent)}
    (hrun : run (step api env) s labels = some s') (hs : s.Timely) :
    s'.nextPollAt discordUserId = (pollDueAt env (pollStarts api env discordUserId s labels)).or
      (s.nextPollAt discordUserId) := by
  induction labels generalizing s with
  | nil =>
    obtain rfl := Option.some.inj hrun
    rfl
  | cons label labels ih =>
    obtain ⟨m, hstep, hrest⟩ := (run_cons _).mp hrun
    rw [ih hrest (hs.step hstep), pollStarts_cons discordUserId hstep, pollDueAt, pollDueAt,
      latest_append, Option.or_assoc]
    congr 1
    rcases step_starts discordUserId hs hstep with ⟨hnone, hnext⟩ | ⟨start, hstart, -, -, hnext⟩
    · rw [hnone, hnext]
      rfl
    · rw [hstart, hnext]
      rfl

/-- The table has the times at which the next polls are due. -/
theorem nextPollAt_eq {clock : ℚ} {labels : List (ℚ × CoordinatorEvent)}
    (hrun : run (step api env) (initial env clock) labels = some s) :
    s.nextPollAt discordUserId =
      pollDueAt env (pollStarts api env discordUserId (initial env clock) labels) := by
  rw [nextPollAt_of_run discordUserId hrun (timely_initial clock)]
  exact Option.or_none

/-- A cycle starts a poll of the user only when it is due. -/
theorem mem_duePolls_of_mem_startsBetween {now : ℚ} {start : PollStart}
    (hstart : start ∈ startsBetween discordUserId s (s.startPolls env now)) :
    start.poll ∈ s.duePolls now ∧ start.poll.user.discordUserId = discordUserId := by
  rw [startsBetween_of_append discordUserId rfl] at hstart
  obtain ⟨⟨task, i⟩, hmem, hstart⟩ := List.mem_filterMap.mp hstart
  obtain ⟨p, hp, rfl⟩ := List.mem_map.mp (List.fst_mem_of_mem_zipIdx hmem)
  rw [startOf_poll] at hstart
  split_ifs at hstart with huser
  obtain rfl := Option.some.inj hstart
  exact ⟨hp, huser⟩

/-- A cycle starts each of the due polls. -/
theorem exists_start_of_mem_duePolls {now : ℚ} {p : Poll} (hp : p ∈ s.duePolls now) :
    ∃ start ∈ startsBetween p.user.discordUserId s (s.startPolls env now),
      start.poll = p ∧ start.startedAt = s.clock := by
  obtain ⟨k, hk⟩ := List.mem_iff_getElem?.mp hp
  refine ⟨⟨s.system.tasks.length + k, p, s.clock⟩, ?_, rfl, rfl⟩
  rw [startsBetween_of_append p.user.discordUserId rfl, List.mem_filterMap]
  refine ⟨(.poll p (.start env p), s.system.tasks.length + k),
    List.mk_mem_zipIdx_iff_le_and_getElem?_sub.mpr ⟨Nat.le_add_right _ _, ?_⟩,
    (startOf_poll p.user.discordUserId).trans (if_pos rfl)⟩
  rw [Nat.add_sub_cancel_left, List.getElem?_map, hk]
  rfl

/-- The users that a cycle polls: the due ones with a valid token and an enabled rule. -/
theorem mem_duePolls {now : ℚ} {p : Poll} : p ∈ s.duePolls now ↔
    p.user ∈ s.system.database.store.users.rows ∧ p.user.tokenStatus = .valid ∧
      (∃ rule ∈ s.system.database.store.watchRules.rows,
        rule.discordUserId = p.user.discordUserId ∧ rule.enabled = true) ∧
      (s.nextPollAt p.user.discordUserId).getD 0 ≤ now ∧
      p.rules = s.enabledRules p.user ∧ p.loadedAt = s.system.database.history.length := by
  rw [duePolls, List.mem_map]
  constructor
  · rintro ⟨⟨user, rules⟩, hmem, rfl⟩
    obtain ⟨hloaded, hdue⟩ := List.mem_filter.mp hmem
    obtain ⟨hrow, hvalid, rfl, rule, hrule, henabled⟩ :=
      (UserRepository.mem_validUsersWithRules _).mp hloaded
    obtain ⟨hrule, howner⟩ := List.mem_filter.mp hrule
    exact ⟨hrow, hvalid, ⟨rule, hrule, of_decide_eq_true howner, henabled⟩,
      of_decide_eq_true hdue, rfl, rfl⟩
  · obtain ⟨user, rules, loadedAt⟩ := p
    rintro ⟨hrow, hvalid, ⟨rule, hrule, howner, henabled⟩, hdue, hrules, hloaded⟩
    dsimp only at hrow hvalid howner hdue hrules hloaded
    refine ⟨(user, s.system.database.store.watchRules.rows.filter
      (·.discordUserId = user.discordUserId)), List.mem_filter.mpr ⟨?_, decide_eq_true hdue⟩, ?_⟩
    swap
    · rw [hrules, hloaded]
      rfl
    exact (UserRepository.mem_validUsersWithRules _).mpr ⟨hrow, hvalid, rfl, rule,
      List.mem_filter.mpr ⟨hrule, decide_eq_true howner⟩, henabled⟩

/-- A cycle that reads the users at `now` should poll the user, whose next poll is due at `due`. -/
structure PollDue (s : Coordinator) (due : Option ℚ) (now : ℚ) (user : User) : Prop where
  row : user ∈ s.system.database.store.users.rows
  valid : user.tokenStatus = .valid
  rule : ∃ rule ∈ s.system.database.store.watchRules.rows,
    rule.discordUserId = user.discordUserId ∧ rule.enabled = true
  due : due.getD 0 ≤ now

/-- A poll of the user starts at `startedAt`, with the rules that are enabled in the state. -/
structure Polled (s : Coordinator) (user : User) (startedAt : ℚ) (start : PollStart) : Prop where
  row : start.poll.user = user
  rules : start.poll.rules = s.enabledRules user
  startedAt : start.startedAt = startedAt

/-- A cycle that has read the clock at `now` starts one poll of each user with a valid token and an
enabled rule whose next poll is due then, counted from the last poll of the user in the whole run,
and no poll of anyone else. -/
theorem polls {clock : ℚ} {labels : List (ℚ × CoordinatorEvent)}
    (hrun : run (step api env) (initial env clock) labels = some s) {now startedAt : ℚ}
    (hcycle : s.cycle = .loading now) (hstep : step api env s (startedAt, .loaded) = some s') :
    (∀ user, s.PollDue (pollDueAt env
          (pollStarts api env user.discordUserId (initial env clock) labels)) now user →
        ∃ start, startsBetween user.discordUserId s s' = [start] ∧
          s.Polled user startedAt start) ∧
      ∀ discordUserId, (∀ user, user.discordUserId = discordUserId → ¬s.PollDue (pollDueAt env
          (pollStarts api env discordUserId (initial env clock) labels)) now user) →
        startsBetween discordUserId s s' = [] := by
  have htimely : s.Timely :=
    run_invariant _ (fun _ _ _ hs => hs.step) hrun (timely_initial clock)
  have hone := fun id => step_starts id htimely hstep
  obtain ⟨-, hreact⟩ := step_eq_some.mp hstep
  obtain ⟨loadedAt, hloading, rfl⟩ := react_loaded.mp hreact
  obtain rfl : loadedAt = now := CyclePhase.loading.inj (hloading.symm.trans hcycle)
  constructor
  · intro user hdue
    have hdueAt := hdue.due
    rw [← nextPollAt_eq user.discordUserId hrun] at hdueAt
    have hmem : ⟨user, s.enabledRules user, s.system.database.history.length⟩ ∈
        s.duePolls loadedAt := mem_duePolls.mpr ⟨hdue.row, hdue.valid, hdue.rule, hdueAt, rfl, rfl⟩
    obtain ⟨start, hstart, hpoll, hat⟩ :=
      exists_start_of_mem_duePolls (s := { s with clock := startedAt }) hmem
    rcases hone user.discordUserId with ⟨hnone, -⟩ | ⟨first, hsingle, -⟩
    · exact absurd (hnone ▸ hstart) List.not_mem_nil
    · obtain rfl := List.mem_singleton.mp (hsingle ▸ hstart)
      exact ⟨start, hsingle, hpoll ▸ rfl, hpoll ▸ rfl, hat⟩
  · intro id hnone
    rw [List.eq_nil_iff_forall_not_mem]
    intro start hstart
    obtain ⟨hmem, rfl⟩ := mem_duePolls_of_mem_startsBetween id hstart
    obtain ⟨hrow, hvalid, hrule, hdue, -⟩ := mem_duePolls.mp hmem
    rw [nextPollAt_eq _ hrun] at hdue
    exact hnone start.poll.user rfl ⟨hrow, hvalid, hrule, hdue⟩

theorem polls_polledTwice : ∃ s s',
    run (step twoDigitClient .plain) (initial .plain 0) polledTwice.dropLast = some s ∧
    step twoDigitClient .plain s (3, .loaded) = some s' ∧
    (∀ user, s.PollDue (pollDueAt .plain (pollStarts twoDigitClient .plain user.discordUserId
          (initial .plain 0) polledTwice.dropLast)) 3 user →
        ∃ start, startsBetween user.discordUserId s s' = [start] ∧ s.Polled user 3 start) ∧
      ∀ discordUserId, (∀ user, user.discordUserId = discordUserId → ¬s.PollDue (pollDueAt .plain
          (pollStarts twoDigitClient .plain discordUserId (initial .plain 0)
            polledTwice.dropLast)) 3 user) →
        startsBetween discordUserId s s' = [] := by
  have hrun : ((run (step twoDigitClient .plain) (initial .plain 0) polledTwice.dropLast).bind
      fun s => (step twoDigitClient .plain s (3, .loaded)).map fun _ => s.cycle) =
        some (.loading 3) := by
    decide +kernel
  obtain ⟨s, hs, hstep⟩ := Option.bind_eq_some_iff.mp hrun
  obtain ⟨s', hs', hcycle⟩ := Option.map_eq_some_iff.mp hstep
  exact ⟨s, s', hs, hs', polls hs hcycle hs'⟩

end Coordinator

end DonutMonitor
