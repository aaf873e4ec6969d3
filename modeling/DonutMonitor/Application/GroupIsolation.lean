import DonutMonitor.Application.PollEnding

/-!
# A waiting poll holds up the other users

`run_once` waits for all polls it has started, and `run_forever` does not call it again before it
has returned. So a poll at work keeps every user that has become due in the meantime waiting: also
a user with another token, whose requests the limiter would grant, and for as long as the token of
the poll is blocked. When the poll is not among those at work, the other polls can end and the user
can be polled, unless one of them waits for ever.

## Main definitions

* `Coordinator.Ready` — a user that should be polled.
* `Coordinator.PollsWithout` — some steps start a poll of a user without advancing another user's
  poll.

## Main results

* `Coordinator.Reachable.pollsWithout_iff` — when this is so.
* `Coordinator.not_pollsWithout` — a poll whose token is blocked for a minute holds up a user with
  another token.
-/

namespace DonutMonitor

open Transition

namespace Coordinator

/-- The user has a valid token that is not blocked, an enabled rule and no poll at work, and is due
for its next poll. -/
structure Ready (s : Coordinator) (user : User) : Prop where
  stored : user ∈ s.system.database.store.users.rows
  valid : user.tokenStatus = .valid
  unblocked : (PyFloat.fin s.clock).lt
    (s.client.limiter.states user.tokenFingerprint).blockedUntil = false
  enabled : ∃ rule ∈ s.system.database.store.watchRules.rows,
    rule.discordUserId = user.discordUserId ∧ rule.enabled = true
  due : (s.nextPollAt user.discordUserId).getD 0 ≤ s.clock
  idle : ∀ task ∈ s.system.tasks, task.pollsFor user.discordUserId = false

instance (s : Coordinator) (user : User) : Decidable (s.Ready user) :=
  decidable_of_iff (user ∈ s.system.database.store.users.rows ∧ user.tokenStatus = .valid ∧
      (PyFloat.fin s.clock).lt
        (s.client.limiter.states user.tokenFingerprint).blockedUntil = false ∧
      (∃ rule ∈ s.system.database.store.watchRules.rows,
        rule.discordUserId = user.discordUserId ∧ rule.enabled = true) ∧
      (s.nextPollAt user.discordUserId).getD 0 ≤ s.clock ∧
      ∀ task ∈ s.system.tasks, task.pollsFor user.discordUserId = false)
    ⟨fun ⟨hstored, hvalid, hunblocked, henabled, hdue, hidle⟩ =>
      ⟨hstored, hvalid, hunblocked, henabled, hdue, hidle⟩,
    fun h => ⟨h.stored, h.valid, h.unblocked, h.enabled, h.due, h.idle⟩⟩

/-- A poll of the user has started between the two states. -/
def StartsPoll (s t : Coordinator) (discordUserId : ℤ) : Prop :=
  ∃ i p phase, s.system.tasks.length ≤ i ∧ t.system.tasks[i]? = some (Task.poll p phase) ∧
    p.user.discordUserId = discordUserId

/-- Some steps start a poll of the user, and none of them advances a poll of the other user. -/
def PollsWithout (api : DonutApiClient) (env : Environment) (s : Coordinator)
    (other user : User) : Prop :=
  ∃ t, Leads (step api env) (Spares other.discordUserId) s t ∧
    s.StartsPoll t user.discordUserId

variable {api : DonutApiClient} {env : Environment} {s s' : Coordinator} {i : ℕ}

/-! ### While a poll is at work -/

/-- A task that an event does not advance stays as it is. -/
theorem react_task_of_not_advances {event : CoordinatorEvent}
    (hstep : react api env s event = some s') (hevent : ¬ s.Advances i event) {task : Task}
    (htask : s.system.tasks[i]? = some task) : s'.system.tasks[i]? = some task := by
  refine react_task hstep htask fun h => absurd ?_ hevent
  cases event with
  | system label => exact h
  | fetched j outcome => exact Option.some.inj h
  | _ => cases h

/-- While a poll is at work, no poll starts. -/
theorem react_poll_of_pollsAt (hs : s.Coherent env) (hi : s.pollsAt i = true)
    {event : CoordinatorEvent} (hstep : react api env s event = some s') {j : ℕ} {p : Poll}
    {phase : PollPhase} (hpoll : s'.system.tasks[j]? = some (Task.poll p phase)) :
    ∃ phase', s.system.tasks[j]? = some (Task.poll p phase') := by
  have hevent : event ≠ .loaded := by
    rintro rfl
    obtain ⟨now, hcycle, -⟩ := react_loaded.mp hstep
    obtain ⟨polls, hpolls, -⟩ := hs.polling i hi
    cases hcycle.symm.trans hpolls
  rcases react_poll hstep hevent hpoll with hsame | ⟨phase', hbefore, -⟩
  · exact ⟨phase, hsame⟩
  · exact ⟨phase', hbefore⟩

/-- No poll has the number `n` or a later one. -/
private def NoneFrom (n : ℕ) (s : Coordinator) : Prop :=
  ∀ j p phase, n ≤ j → s.system.tasks[j]? ≠ some (Task.poll p phase)

private theorem not_startsPoll {t : Coordinator} {discordUserId : ℤ}
    (h : NoneFrom s.system.tasks.length t) : ¬ s.StartsPoll t discordUserId := by
  rintro ⟨j, p, phase, hj, hpoll, -⟩
  exact h j p phase hj hpoll

private theorem noneFrom_react (hs : s.Coherent env) (hi : s.pollsAt i = true) {n : ℕ}
    (h : NoneFrom n s) {event : CoordinatorEvent} (hstep : react api env s event = some s') :
    NoneFrom n s' := by
  intro j p phase hj hpoll
  obtain ⟨phase', hbefore⟩ := react_poll_of_pollsAt hs hi hstep hpoll
  exact h j p phase' hj hbefore

private theorem noneFrom_length (s : Coordinator) : NoneFrom s.system.tasks.length s := by
  intro j p phase hj hpoll
  exact absurd (List.getElem?_eq_some_iff.mp hpoll).1 (not_lt.mpr hj)

/-- As long as a poll of the other user is at work and not advanced, no poll starts. -/
theorem not_pollsWithout_of_pollsFor (hs : s.Coherent env) {other user : User} {task : Task}
    (htask : task ∈ s.system.tasks) (hpolls : task.pollsFor other.discordUserId = true) :
    ¬ PollsWithout api env s other user := by
  obtain ⟨i, hi⟩ := List.mem_iff_getElem?.mp htask
  obtain ⟨p, phase, rfl, hother, hphase⟩ := eq_poll_of_pollsFor hpolls
  rintro ⟨t, ⟨labels, hrun, hspares⟩, hstarts⟩
  have hinv := run_invariant_along (step api env)
    (I := fun t => t.Coherent env ∧ t.system.tasks[i]? = some (Task.poll p phase) ∧
      NoneFrom s.system.tasks.length t) ?_ hspares hrun ⟨hs, hi, noneFrom_length s⟩
  · exact not_startsPoll hinv.2.2 hstarts
  · rintro t ⟨now, event⟩ t' ⟨ht, hpoll, hnone⟩ hspare hstep
    obtain ⟨hnow, hreact⟩ := step_eq_some.mp hstep
    exact ⟨(ht.wait hnow).react hreact,
      react_task_of_not_advances hreact (hspare i p phase hpoll hother) hpoll,
      noneFrom_react (ht.wait hnow) (pollsAt_eq_true.mpr ⟨p, phase, hpoll, hphase⟩) hnone hreact⟩

theorem WaitsForever.pollsAt (h : s.WaitsForever api i) : s.pollsAt i = true := by
  obtain ⟨p, token, group, rest, anySuccess, hpoll, -⟩ := h
  exact pollsAt_eq_true.mpr ⟨p, _, hpoll, rfl⟩

/-- As long as a poll waits for ever, no poll starts. -/
theorem not_pollsWithout_of_waitsForever (hs : s.Coherent env) {other user : User}
    (hwaits : s.WaitsForever api i) : ¬ PollsWithout api env s other user := by
  rintro ⟨t, ⟨labels, hrun, -⟩, hstarts⟩
  have hinv := run_invariant (step api env)
    (I := fun t => t.Coherent env ∧ t.WaitsForever api i ∧ NoneFrom s.system.tasks.length t)
    ?_ hrun ⟨hs, hwaits, noneFrom_length s⟩
  · exact not_startsPoll hinv.2.2 hstarts
  · rintro t ⟨now, event⟩ t' ⟨ht, hwaits, hnone⟩ hstep
    obtain ⟨hnow, hreact⟩ := step_eq_some.mp hstep
    have hwaits' : WaitsForever api { t with clock := now } i := hwaits
    exact ⟨(ht.wait hnow).react hreact, waitsForever_react hwaits' hreact,
      noneFrom_react (ht.wait hnow) hwaits'.pollsAt hnone hreact⟩

/-! ### When no poll stands in the way -/

section

variable {discordUserId : ℤ}

/-- The polls of a list can end, when none waits for ever and the user has none at work. -/
private theorem exists_ends (polls : List ℕ) (hs : s.Coherent env)
    (hidle : ∀ task ∈ s.system.tasks, task.pollsFor discordUserId = false)
    (hwaits : ∀ i, ¬ s.WaitsForever api i) :
    ∃ t, Leads (step api env) (Spares discordUserId) s t ∧ Frame s t ∧ t.Coherent env ∧
      ∀ i, t.pollsAt i = true → s.pollsAt i = true ∧ i ∉ polls := by
  induction polls generalizing s with
  | nil => exact ⟨s, .refl s, .refl s, hs, fun i hi => ⟨hi, List.not_mem_nil⟩⟩
  | cons i polls ih =>
    by_cases hi : s.pollsAt i = true
    · obtain ⟨p, phase, hpoll, hphase⟩ := pollsAt_eq_true.mp hi
      have huser : p.user.discordUserId ≠ discordUserId := by
        intro huser
        have := hidle _ (List.mem_of_getElem? hpoll)
        simp [Task.pollsFor, huser, hphase] at this
      obtain ⟨t, hleads, hkeeps, ht, hend⟩ := At.ends ⟨hs, hpoll, huser, hidle⟩ (hwaits i)
      have hne : ∀ j, t.pollsAt j = true → j ≠ i := by
        rintro j hj rfl
        rw [hend] at hj
        cases hj
      have hbefore : ∀ j, t.pollsAt j = true → s.pollsAt j = true := by
        intro j hj
        have hsame := hkeeps.tasks j (hne j hj)
        rwa [pollsAt, hsame, ← pollsAt] at hj
      have hidle' : ∀ task ∈ t.system.tasks, task.pollsFor discordUserId = false := by
        intro task htask
        obtain ⟨j, hj⟩ := List.mem_iff_getElem?.mp htask
        by_contra hpolls
        obtain ⟨p', phase', rfl, -, hphase'⟩ := eq_poll_of_pollsFor (by simpa using hpolls)
        rw [hkeeps.tasks j (hne j (pollsAt_eq_true.mpr ⟨p', phase', hj, hphase'⟩))] at hj
        exact hpolls (hidle _ (List.mem_of_getElem? hj))
      obtain ⟨u, hleads', hframe, hu, hpolls⟩ := ih ht hidle' fun j hj =>
        hwaits j (hkeeps.waitsForever (hne j hj.pollsAt) hj)
      refine ⟨u, hleads.trans hleads', hkeeps.toFrame.trans hframe, hu, fun j hj => ?_⟩
      obtain ⟨hj, hmem⟩ := hpolls j hj
      exact ⟨hbefore j hj, List.not_mem_cons_of_ne_of_not_mem (hne j hj) hmem⟩
    · obtain ⟨t, hleads, hframe, ht, hpolls⟩ := ih hs hidle hwaits
      refine ⟨t, hleads, hframe, ht, fun j hj => ?_⟩
      obtain ⟨hj, hmem⟩ := hpolls j hj
      refine ⟨hj, List.not_mem_cons_of_ne_of_not_mem ?_ hmem⟩
      rintro rfl
      exact hi hj

private theorem leads_of_react {now : ℚ} (hnow : s.clock ≤ now) {event : CoordinatorEvent}
    (h : react api env { s with clock := now } event = some s')
    (hevent : ∀ i, ¬ s.Advances i event) : Leads (step api env) (Spares discordUserId) s s' :=
  .single (fun i _ _ _ _ => hevent i) (step_eq_some.mpr ⟨hnow, h⟩)

/-- Without polls at work, `run_once` returns or raises. -/
private theorem exists_sleeping (api : DonutApiClient) (env : Environment) (discordUserId : ℤ)
    (hnone : ∀ i, s.pollsAt i = false) :
    ∃ wakeAt, Leads (step api env) (Spares discordUserId) s
      { s with cycle := .sleeping wakeAt } := by
  cases hcycle : s.cycle with
  | sleeping wakeAt => exact ⟨wakeAt, by rw [← hcycle]; exact .refl s⟩
  | pruning now =>
    exact ⟨_, leads_of_react le_rfl (react_raised.mpr ⟨.inl ⟨now, hcycle⟩, rfl⟩) fun _ h => h⟩
  | loading now =>
    exact ⟨_, leads_of_react le_rfl (react_raised.mpr ⟨.inr ⟨now, hcycle⟩, rfl⟩) fun _ h => h⟩
  | polling polls =>
    exact ⟨_, leads_of_react le_rfl
      (react_returned.mpr ⟨polls, hcycle, fun i _ => hnone i, rfl⟩) fun _ h => h⟩

/-- The next `run_once` loads the users. -/
private theorem exists_loading (api : DonutApiClient) (env : Environment) (discordUserId : ℤ)
    {wakeAt : ℚ} (hcycle : s.cycle = .sleeping wakeAt) :
    ∃ t now, Leads (step api env) (Spares discordUserId) s t ∧ t.cycle = .loading now ∧
      s.clock ≤ now ∧ t.nextPollAt = s.nextPollAt ∧ t.system.tasks = s.system.tasks ∧
      UserRepository.validUsersWithRules t.system.database.store =
        UserRepository.validUsersWithRules s.system.database.store := by
  have hnow := le_max_left s.clock wakeAt
  have hleads : Leads (step api env) (Spares discordUserId) s _ := leads_of_react hnow
    (react_runOnce.mpr ⟨wakeAt, hcycle, le_max_right _ _, rfl⟩) fun _ h => h
  cases hprune : pruneDue { s with clock := max s.clock wakeAt } with
  | false =>
    rw [hprune] at hleads
    exact ⟨_, max s.clock wakeAt, hleads, rfl, hnow, rfl, rfl, rfl⟩
  | true =>
    rw [hprune] at hleads
    have hpruned : react api env
        { s with clock := max s.clock wakeAt, cycle := .pruning (max s.clock wakeAt) }
        (.pruned 0) = some _ :=
      react_pruned.mpr ⟨_, _, rfl, System.step_operation.mpr ⟨_, _, _, rfl, rfl, rfl⟩, rfl⟩
    exact ⟨_, max s.clock wakeAt, hleads.trans (leads_of_react le_rfl hpruned fun _ h => h), rfl,
      hnow, rfl, rfl, rfl⟩

/-- A user that is due is polled once the users have been loaded. -/
private theorem startsPoll_startPolls (env : Environment) {now : ℚ} {user : User}
    {rules : List WatchRule}
    (hloaded : (user, rules) ∈ UserRepository.validUsersWithRules s.system.database.store)
    (hdue : (s.nextPollAt user.discordUserId).getD 0 ≤ now) :
    s.StartsPoll (s.startPolls env now) user.discordUserId := by
  let p : Poll := ⟨user, rules.filter (·.enabled), s.system.database.history.length⟩
  have hmem : p ∈ s.duePolls now :=
    List.mem_map.mpr ⟨(user, rules), List.mem_filter.mpr ⟨hloaded, decide_eq_true hdue⟩, rfl⟩
  obtain ⟨i, hi⟩ := List.mem_iff_getElem?.mp hmem
  refine ⟨s.system.tasks.length + i, p, .start env p, Nat.le_add_right _ _,
    (List.getElem?_append_right (Nat.le_add_right _ _)).trans ?_, rfl⟩
  rw [Nat.add_sub_cancel_left, List.getElem?_map, hi]
  rfl

end

/-- A user that should be polled can be polled without a step of the other user's polls if and only
if the other user has no poll at work and no poll waits for ever. -/
theorem Reachable.pollsWithout_iff (h : Reachable api env s) {other user : User}
    (hready : s.Ready user) : PollsWithout api env s other user ↔
      (∀ task ∈ s.system.tasks, task.pollsFor other.discordUserId = false) ∧
        ∀ i, ¬ s.WaitsForever api i := by
  have hs := h.coherent
  constructor
  · intro hpolls
    refine ⟨fun task htask => ?_, fun i hwaits => not_pollsWithout_of_waitsForever hs hwaits hpolls⟩
    by_contra hat
    exact not_pollsWithout_of_pollsFor hs htask (by simpa using hat) hpolls
  · rintro ⟨hidle, hwaits⟩
    obtain ⟨t, hleads, hframe, ht, hpolls⟩ :=
      exists_ends s.cycle.polls hs hidle hwaits
    have hnone : ∀ i, t.pollsAt i = false := by
      intro i
      by_contra hi
      obtain ⟨polls, hcycle, hmem⟩ := ht.polling i (by simpa using hi)
      have := (hpolls i (by simpa using hi)).2
      rw [← hframe.cycle, hcycle] at this
      exact this hmem
    obtain ⟨wakeAt, hsleeps⟩ := exists_sleeping api env other.discordUserId hnone
    obtain ⟨u, now, hloads, hcycle, hnow, hnext, htasks, hstore⟩ :=
      exists_loading api env other.discordUserId (s := { t with cycle := .sleeping wakeAt }) rfl
    have hstarts : Leads (step api env) (Spares other.discordUserId) u (u.startPolls env now) :=
      leads_of_react le_rfl (react_loaded.mpr ⟨now, hcycle, rfl⟩) fun _ h => h
    refine ⟨_, ((hleads.trans hsleeps).trans hloads).trans hstarts, ?_⟩
    obtain ⟨rule, hrule, howner, henabled⟩ := hready.enabled
    have hloaded : (user, s.system.database.store.watchRules.rows.filter
        (·.discordUserId = user.discordUserId)) ∈
        UserRepository.validUsersWithRules u.system.database.store := by
      rw [hstore, hframe.database, UserRepository.mem_validUsersWithRules]
      exact ⟨hready.stored, hready.valid, rfl, rule, by simpa using ⟨hrule, howner⟩, henabled⟩
    have hdue : (u.nextPollAt user.discordUserId).getD 0 ≤ now := by
      rw [hnext]
      exact (hframe.nextPollAt ▸ hready.due).trans (hframe.clock.trans hnow)
    obtain ⟨i, p, phase, hi, hpoll, huser⟩ := startsPoll_startPolls env hloaded hdue
    refine ⟨i, p, phase, ?_, hpoll, huser⟩
    rw [htasks] at hi
    exact hframe.length ▸ hi

/-- A client that reads a `Retry-After` header of two digits. -/
def twoDigitClient : DonutApiClient where
  parsers := DonutApiClient.twoDigitHeaders

/-- The only request of a poll of user 1 is answered 429, and the poll is over. Then user 2
authenticates and adds a watch. -/
def blockedUser : List (ℚ × CoordinatorEvent) :=
  [(0, .system (.operation (.authenticate 1 "a" 0))), (0, .system (.startAdd .elytra)),
    (0, .system (.commit 0 { ruleKey := 1 })), (0, .runOnce), (0, .pruned 0), (0, .loaded),
    (1, .request 1), (1, .client (.tryAcquire 0)),
    (2, .client (.respond 0 (.response ⟨429, some "60", none⟩) 2)),
    (2, .fetched 1 (.donutApiError (.rateLimit (.fin 60)))),
    (3, .system (.operation (.authenticate 2 "b" 0))),
    (3, .system (.startAdd { AddCall.elytra with discordUserId := 2 })),
    (3, .system (.commit 2 { ruleKey := 2 }))]

/-- While the token of user 1 is blocked but no poll waits for it, user 2 can be polled. -/
theorem pollsWithout_iff_blockedUser : ∃ s a b,
    run (step twoDigitClient .plain) (initial .plain 0) blockedUser = some s ∧
    s.system.database.store.users.rows[0]? = some a ∧
    (s.client.limiter.states a.tokenFingerprint).blockedUntil = .fin 62 ∧
    PollsWithout twoDigitClient .plain s a b := by
  have hrun : (run (step twoDigitClient .plain) (initial .plain 0) blockedUser).bind
      (fun s : Coordinator => (s.system.database.store.users.rows[0]?).bind fun a =>
        (s.system.database.store.users.rows[1]?).map fun b =>
          decide (s.Ready b ∧ s.cycle = .polling [1] ∧ s.pollsAt 1 = false ∧
            (∀ task ∈ s.system.tasks, task.pollsFor a.discordUserId = false) ∧
            (s.client.limiter.states a.tokenFingerprint).blockedUntil = .fin 62)) = some true := by
    decide +kernel
  obtain ⟨s, hs, husers⟩ := Option.bind_eq_some_iff.mp hrun
  obtain ⟨a, ha, husers⟩ := Option.bind_eq_some_iff.mp husers
  obtain ⟨b, -, hfacts⟩ := Option.map_eq_some_iff.mp husers
  obtain ⟨hready, hcycle, hended, hidle, hblocked⟩ := of_decide_eq_true hfacts
  have hreachable : Reachable twoDigitClient .plain s := ⟨0, _, hs⟩
  refine ⟨s, a, b, hs, ha, hblocked,
    (Reachable.pollsWithout_iff hreachable hready).mpr ⟨hidle, fun i hwaits => ?_⟩⟩
  obtain ⟨polls, hpolls, hi⟩ := hreachable.coherent.polling i hwaits.pollsAt
  obtain rfl := CyclePhase.polling.inj (hcycle.symm.trans hpolls)
  obtain rfl := List.mem_singleton.mp hi
  rw [hwaits.pollsAt] at hended
  cases hended

/-- The first of two requests of a poll of user 1 is answered 429, and the second waits until the
block is over. Then user 2 authenticates and adds a watch. -/
def waitingPoll : List (ℚ × CoordinatorEvent) :=
  [(0, .system (.operation (.authenticate 1 "a" 0))), (0, .system (.startAdd .elytra)),
    (0, .system (.commit 0 { ruleKey := 1 })),
    (0, .system (.startAdd { AddCall.elytra with priceType := .perItem })),
    (0, .system (.commit 1 { ruleKey := 2 })), (0, .runOnce), (0, .pruned 0), (0, .loaded),
    (1, .request 2), (1, .client (.tryAcquire 0)),
    (2, .client (.respond 0 (.response ⟨429, some "60", none⟩) 2)),
    (2, .fetched 2 (.donutApiError (.rateLimit (.fin 60)))),
    (2, .request 2), (2, .client (.tryAcquire 1)),
    (3, .system (.operation (.authenticate 2 "b" 0))),
    (3, .system (.startAdd { AddCall.elytra with discordUserId := 2 })),
    (3, .system (.commit 3 { ruleKey := 3 }))]

/-- User 2 has another token and should be polled, but is not polled before the poll of user 1 goes
on, which waits for the end of the block of its own token. -/
theorem not_pollsWithout : ∃ s a b,
    run (step twoDigitClient .plain) (initial .plain 0) waitingPoll = some s ∧
    s.system.database.store.users.rows[0]? = some a ∧
    a.tokenFingerprint ≠ b.tokenFingerprint ∧ s.Ready b ∧
    s.client.calls.map (·.phase.wakeAt) = [none, some (.fin 62)] ∧
    ¬ PollsWithout twoDigitClient .plain s a b := by
  have hrun : (run (step twoDigitClient .plain) (initial .plain 0) waitingPoll).bind
      (fun s : Coordinator => (s.system.database.store.users.rows[0]?).bind fun a =>
        (s.system.database.store.users.rows[1]?).map fun b =>
          decide (a.tokenFingerprint ≠ b.tokenFingerprint ∧ s.Ready b ∧
            s.client.calls.map (·.phase.wakeAt) = [none, some (.fin 62)] ∧
            ∃ task ∈ s.system.tasks, task.pollsFor a.discordUserId = true)) = some true := by
    decide +kernel
  obtain ⟨s, hs, husers⟩ := Option.bind_eq_some_iff.mp hrun
  obtain ⟨a, ha, husers⟩ := Option.bind_eq_some_iff.mp husers
  obtain ⟨b, -, hfacts⟩ := Option.map_eq_some_iff.mp husers
  obtain ⟨hne, hready, hcalls, task, htask, hpolls⟩ := of_decide_eq_true hfacts
  have hreachable : Reachable twoDigitClient .plain s := ⟨0, _, hs⟩
  exact ⟨s, a, b, hs, ha, hne, hready, hcalls,
    not_pollsWithout_of_pollsFor hreachable.coherent htask hpolls⟩

end Coordinator

end DonutMonitor
