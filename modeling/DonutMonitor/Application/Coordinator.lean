import DonutMonitor.Application.Polls
import DonutMonitor.Infrastructure.DonutApi

/-!
# The monitoring coordinator

`MonitoringCoordinator.run_forever` calls `run_once` once a second, and never before the previous
call has returned. `run_once` reads the clock, prunes the observations once a day, loads the users,
starts a poll for every user that is due and waits for all of them. A `Coordinator` is the state of
this loop, together with the tasks of the system and the calls of the API client in which the tasks
wait for their prices.

What `get_price` makes of a page is left open: it may request the next page or come to any result
that it can return or raise for a payload.

## Main definitions

* `Fetch` — the progress of a task in `get_price`.
* `CyclePhase` — where the loop is suspended.
* `Coordinator`, `Coordinator.step` — the whole bot, and one step of it.
* `Coordinator.Coherent` — what ties the parts of a reachable coordinator together.

## Main results

* `Coordinator.Reachable.parts` — the parts of a reachable coordinator are a reachable system and a
  reachable API client.
* `Coordinator.Reachable.coherent` — the invariant.
-/

namespace DonutMonitor

open Transition

/-- Where a task is in `get_price`: the page it has requested, and the call that requests it. -/
structure Fetch where
  page : ℤ
  call : ℕ
  deriving DecidableEq

/-- Where `run_forever` is suspended: between two calls of `run_once`, or in one of them before its
pruning transaction, while it loads the users, or until the polls it has started are over. -/
inductive CyclePhase where
  | sleeping (wakeAt : ℚ)
  | pruning (now : ℚ)
  | loading (now : ℚ)
  | polling (polls : List ℕ)
  deriving DecidableEq

/-- The polls that `run_once` waits for. -/
def CyclePhase.polls : CyclePhase → List ℕ
  | polling polls => polls
  | sleeping _ | pruning _ | loading _ => []

/-- The bot: the tasks and their database, the calls of the API client, and the state of the
monitoring loop. -/
structure Coordinator where
  clock : ℚ
  system : System := {}
  client : ClientState
  fetches : ℕ → Option Fetch := fun _ => none
  nextPollAt : ℤ → Option ℚ := fun _ => none
  lastPruneAt : Option ℚ := none
  cycle : CyclePhase

/-- What happens in a step of the coordinator. -/
inductive CoordinatorEvent where
  /-- `run_forever` calls `run_once`, which reads the clock. -/
  | runOnce
  /-- The pruning transaction commits, at a reading of the wall clock. -/
  | pruned (utcNow : ℚ)
  /-- The users have been loaded, and the polls start. -/
  | loaded
  /-- A statement of `run_once` raises. -/
  | raised
  /-- All polls are over, and `run_once` returns. -/
  | returned
  /-- A command of a user, or a task at one of its transactions or messages. -/
  | system (label : Label)
  /-- A task calls `get_price`. -/
  | request (task : ℕ)
  /-- `get_price` goes on to the next page. -/
  | nextPage (task : ℕ)
  /-- `get_price` returns or raises. -/
  | fetched (task : ℕ) (outcome : PriceOutcome)
  /-- A call of the API client goes on, or another command starts one. -/
  | client (event : ClientEvent)

/-- The steps of the system that are not made by the coordinator itself. -/
def Label.ofServices : Label → Bool
  | .operation (.prune _) | .startPoll _ | .fetched _ _ => false
  | _ => true

/-- The task that a step of the system is about. -/
def Label.task : Label → Option ℕ
  | .commit i _ | .reject i _ | .fetched i _ | .sent i _ => some i
  | .operation _ | .startAdd _ | .startPoll _ => none

/-- The task that an event of a command or of a task is about, unless it is only one of the API
client. -/
def CoordinatorEvent.task : CoordinatorEvent → Option ℕ
  | system label => label.task
  | fetched i _ => some i
  | _ => none

/-- The step of the system in an event, when it is one of a command or of a task. -/
def CoordinatorEvent.label : CoordinatorEvent → Option Label
  | pruned utcNow => some (.operation (.prune utcNow))
  | system label => some label
  | fetched i outcome => some (.fetched i outcome)
  | runOnce | loaded | raised | returned | request _ | nextPage _ | client _ => none

/-- The arguments of `_request_page` for a page of the price that a task requests. Only
`WatchService.add` is interactive. -/
def Task.pageArgs (env : Environment) (page : ℤ) (task : Task) : Option PageArgs :=
  (task.request env).map fun request =>
    { token := request.token
      tokenKey := request.tokenKey
      page := page
      search := normalizeItemId env.lower request.itemId
      interactive := match task with
        | add _ _ => true
        | poll _ _ => false }

/-- `get_price` can come to the outcome when the call of `_request_page` for a page has ended so. -/
def PriceOutcome.comesFrom : CallPhase → PriceOutcome → Bool
  | .returned _, listing _ _ _ | .returned _, exception _ => true
  | .returned _, donutApiError error =>
    error = .response "DonutSMP response field 'result' is not a list"
  | .raised (.api error), donutApiError error' => error' = error
  | .raised (.transport error), exception name => name = error.name
  | .raised .overflowError, exception name => name = "OverflowError"
  | _, _ => false

/-- The poll has returned or raised. -/
def PollPhase.ended : PollPhase → Bool
  | returned | raised _ => true
  | _ => false

/-- The task is a poll of the user that is not over. -/
def Task.pollsFor (discordUserId : ℤ) : Task → Bool
  | add _ _ => false
  | poll p phase => p.user.discordUserId = discordUserId && !phase.ended

/-- The seconds until the next poll of the user. -/
def Poll.interval (settings : Settings) (p : Poll) : ℚ :=
  calculatePollInterval (groupRules p.rules).length settings.maxSearchPages
    settings.safeRequestsPerMinute settings.defaultPollIntervalSeconds

namespace Coordinator

variable (api : DonutApiClient) (env : Environment)

/-- The coordinator that `start` has started. -/
def initial (clock : ℚ) : Coordinator where
  clock := clock
  client := DonutApiClient.initial env.settings.rateLimits clock
  cycle := .sleeping clock

variable (s : Coordinator)

/-- `self._last_prune_at is None or now - self._last_prune_at >= 86400`. -/
def pruneDue : Bool :=
  match s.lastPruneAt with
  | none => true
  | some last => 86400 ≤ s.clock - last

/-- `due_users`, with the rules that each of them polls. -/
def duePolls (now : ℚ) : List Poll :=
  ((UserRepository.validUsersWithRules s.system.database.store).filter fun (user, _) =>
    (s.nextPollAt user.discordUserId).getD 0 ≤ now).map fun (user, rules) =>
      ⟨user, rules.filter (·.enabled), s.system.database.history.length⟩

/-- The polls start, and set the times of the next ones. -/
def startPolls (now : ℚ) : Coordinator :=
  let polls := s.duePolls now
  { s with
    system := { s.system with
      tasks := s.system.tasks ++ polls.map fun p => .poll p (.start env p) }
    nextPollAt := polls.foldl (fun next p => Function.update next p.user.discordUserId
      (some (s.clock + p.interval env.settings))) s.nextPollAt
    cycle := .polling (List.range' s.system.tasks.length polls.length) }

/-- The task `i` has not ended as a poll. -/
def pollsAt (i : ℕ) : Bool :=
  match s.system.tasks[i]? with
  | some (.poll _ phase) => !phase.ended
  | _ => false

/-- A task requests a page. -/
def requestPage (i : ℕ) (page : ℤ) : Option Coordinator := do
  let task ← s.system.tasks[i]?
  let args ← task.pageArgs env page
  let client ← api.step s.client (s.clock, .start args)
  some { s with
    client := client
    fetches := Function.update s.fetches i (some ⟨page, s.client.calls.length⟩) }

/-- The coordinator after an event at the time of its clock, when the event is possible. -/
def react : CoordinatorEvent → Option Coordinator
  | .runOnce =>
    match s.cycle with
    | .sleeping wakeAt =>
      if s.clock < wakeAt then none
      else some { s with cycle := if s.pruneDue then .pruning s.clock else .loading s.clock }
    | _ => none
  | .pruned utcNow =>
    match s.cycle with
    | .pruning now => (s.system.step env (.operation (.prune utcNow))).map fun system =>
      { s with system := system, lastPruneAt := some now, cycle := .loading now }
    | _ => none
  | .loaded =>
    match s.cycle with
    | .loading now => some (s.startPolls env now)
    | _ => none
  | .raised =>
    match s.cycle with
    | .pruning _ | .loading _ => some { s with cycle := .sleeping (s.clock + 1) }
    | _ => none
  | .returned =>
    match s.cycle with
    | .polling polls =>
      if polls.any s.pollsAt then none else some { s with cycle := .sleeping (s.clock + 1) }
    | _ => none
  | .system label =>
    if label.ofServices then
      (s.system.step env label).map fun system => { s with system := system }
    else none
  | .request i =>
    match s.fetches i with
    | none => s.requestPage api env i 1
    | some _ => none
  | .nextPage i => do
    let fetch ← s.fetches i
    let call ← s.client.calls[fetch.call]?
    match call.phase with
    | .returned _ =>
      if fetch.page < env.settings.maxSearchPages then s.requestPage api env i (fetch.page + 1)
      else none
    | _ => none
  | .fetched i outcome => do
    let fetch ← s.fetches i
    let call ← s.client.calls[fetch.call]?
    if outcome.comesFrom call.phase then
      (s.system.step env (.fetched i outcome)).map fun system =>
        { s with system := system, fetches := Function.update s.fetches i none }
    else none
  | .client event =>
    (api.step s.client (s.clock, event)).map fun client => { s with client := client }

/-- One step of the coordinator, at a clock reading that is not before the last one. -/
def step : ℚ × CoordinatorEvent → Option Coordinator
  | (now, event) => if now < s.clock then none else react api env { s with clock := now } event

/-- The coordinators that some interleaving leads to. -/
def Reachable (s : Coordinator) : Prop :=
  ∃ clock, Transition.Reachable (step api env) (initial env clock) s

variable {api env} {s s' : Coordinator} {i : ℕ}

/-! ### Inversion of steps -/

theorem step_eq_some {now : ℚ} {event : CoordinatorEvent} :
    step api env s (now, event) = some s' ↔
      s.clock ≤ now ∧ react api env { s with clock := now } event = some s' := by
  simp only [step, ite_eq_iff, reduceCtorEq, and_false, false_or, not_lt]

theorem react_runOnce :
    react api env s .runOnce = some s' ↔ ∃ wakeAt, s.cycle = .sleeping wakeAt ∧
      wakeAt ≤ s.clock ∧
        s' = { s with cycle := if s.pruneDue then .pruning s.clock else .loading s.clock } := by
  rw [react]
  cases s.cycle <;> simp [ite_eq_iff, eq_comm (a := s')]

theorem react_pruned {utcNow : ℚ} :
    react api env s (.pruned utcNow) = some s' ↔ ∃ now system, s.cycle = .pruning now ∧
      s.system.step env (.operation (.prune utcNow)) = some system ∧
        s' = { s with system := system, lastPruneAt := some now, cycle := .loading now } := by
  rw [react]
  cases s.cycle <;> simp [eq_comm (a := s')]

theorem react_loaded :
    react api env s .loaded = some s' ↔
      ∃ now, s.cycle = .loading now ∧ s' = s.startPolls env now := by
  rw [react]
  cases s.cycle <;> simp [eq_comm (a := s')]

theorem react_raised :
    react api env s .raised = some s' ↔
      ((∃ now, s.cycle = .pruning now) ∨ ∃ now, s.cycle = .loading now) ∧
        s' = { s with cycle := .sleeping (s.clock + 1) } := by
  rw [react]
  cases s.cycle <;> simp [eq_comm (a := s')]

theorem react_returned :
    react api env s .returned = some s' ↔ ∃ polls, s.cycle = .polling polls ∧
      (∀ i ∈ polls, s.pollsAt i = false) ∧ s' = { s with cycle := .sleeping (s.clock + 1) } := by
  rw [react]
  cases s.cycle <;> simp [ite_eq_iff, eq_comm (a := s')]

theorem react_system {label : Label} :
    react api env s (.system label) = some s' ↔ label.ofServices = true ∧
      ∃ system, s.system.step env label = some system ∧ s' = { s with system := system } := by
  simp only [react, ite_eq_iff, Option.map_eq_some_iff, reduceCtorEq, and_false, or_false,
    eq_comm (a := s')]

theorem requestPage_eq_some {page : ℤ} :
    s.requestPage api env i page = some s' ↔ ∃ task args client,
      s.system.tasks[i]? = some task ∧ task.pageArgs env page = some args ∧
        api.step s.client (s.clock, .start args) = some client ∧
          s' = { s with
            client := client
            fetches := Function.update s.fetches i (some ⟨page, s.client.calls.length⟩) } := by
  simp only [requestPage, bind, Option.bind_eq_some_iff, Option.some.injEq, eq_comm (a := s'),
    exists_and_left]

theorem react_request :
    react api env s (.request i) = some s' ↔
      s.fetches i = none ∧ s.requestPage api env i 1 = some s' := by
  rw [react]
  cases s.fetches i <;> simp

theorem react_nextPage :
    react api env s (.nextPage i) = some s' ↔ ∃ fetch call payload, s.fetches i = some fetch ∧
      s.client.calls[fetch.call]? = some call ∧ call.phase = .returned payload ∧
        fetch.page < env.settings.maxSearchPages ∧
          s.requestPage api env i (fetch.page + 1) = some s' := by
  simp only [react, bind, Option.bind_eq_some_iff]
  refine exists_congr fun fetch => ?_
  simp only [exists_and_left]
  refine and_congr_right fun _ => exists_congr fun call => and_congr_right fun _ => ?_
  cases call.phase <;> simp [ite_eq_iff]

theorem react_fetched {outcome : PriceOutcome} :
    react api env s (.fetched i outcome) = some s' ↔ ∃ fetch call system,
      s.fetches i = some fetch ∧ s.client.calls[fetch.call]? = some call ∧
        outcome.comesFrom call.phase = true ∧
          s.system.step env (.fetched i outcome) = some system ∧
            s' = { s with system := system, fetches := Function.update s.fetches i none } := by
  simp only [react, bind, Option.bind_eq_some_iff, ite_eq_iff, Option.map_eq_some_iff,
    reduceCtorEq, and_false, or_false, eq_comm (a := s'), exists_and_left]

theorem react_client {event : ClientEvent} :
    react api env s (.client event) = some s' ↔ ∃ client,
      api.step s.client (s.clock, event) = some client ∧ s' = { s with client := client } := by
  simp only [react, Option.map_eq_some_iff, eq_comm (a := s')]

/-- The polls of a cycle are those of different users. -/
theorem nodup_duePolls (s : Coordinator) (now : ℚ) :
    ((s.duePolls now).map (·.user.discordUserId)).Nodup := by
  rw [duePolls, List.map_map]
  refine List.Nodup.sublist (List.Sublist.map _ List.filter_sublist) ?_
  refine List.Nodup.sublist (List.Sublist.map _ List.filter_sublist) ?_
  rw [List.map_map]
  exact s.system.database.store.users.nodup

end Coordinator

/-! ### Tasks that move -/

namespace Task

variable {env : Environment} {task task' : Task}

/-- Only a task that waits for neither a price nor its end moves in a service step. -/
structure Busy (env : Environment) (task task' : Task) : Prop where
  request : task.request env = none
  polls : ∀ p phase', task' = .poll p phase' → ∃ phase, task = .poll p phase ∧ phase.ended = false

private theorem request_eq_none (h : ∀ request, task.request env = some request → False) :
    task.request env = none :=
  Option.eq_none_iff_forall_ne_some.mpr h

/-- A task that waits for a price is one in a fetching phase. -/
theorem request_eq_some {request : PriceRequest} (h : task.request env = some request) :
    (∃ call created, task = .add call (.fetching created)) ∨
      ∃ p token group rest anySuccess, task = .poll p (.fetching token group rest anySuccess) := by
  cases task with
  | add call phase =>
    cases phase with
    | fetching created => exact .inl ⟨call, created, rfl⟩
    | _ => cases h
  | poll p phase =>
    cases phase with
    | fetching token group rest anySuccess => exact .inr ⟨p, token, group, rest, anySuccess, rfl⟩
    | _ => cases h

/-- A way of moving that neither a task waiting for a price nor an ended poll has. -/
private theorem Busy.of_move {m : Task → Option Task}
    (hadd : ∀ call created, m (.add call (.fetching created)) = none)
    (hpoll : ∀ p token group rest any, m (.poll p (.fetching token group rest any)) = none)
    (hended : ∀ p phase, phase.ended = true → m (.poll p phase) = none)
    (hkeeps : ∀ p phase', m task = some (.poll p phase') → ∃ phase, task = .poll p phase)
    (h : m task = some task') : Busy env task task' := by
  refine ⟨request_eq_none fun request hrequest => ?_, ?_⟩
  · rcases request_eq_some hrequest with ⟨call, created, rfl⟩ | ⟨p, token, group, rest, any, rfl⟩
    · rw [hadd] at h
      cases h
    · rw [hpoll] at h
      cases h
  · rintro p phase' rfl
    obtain ⟨phase, rfl⟩ := hkeeps p phase' h
    refine ⟨phase, rfl, Bool.eq_false_iff.mpr fun hphase => ?_⟩
    rw [hended p phase hphase] at h
    cases h

private theorem eq_of_ended {phase : PollPhase} (h : phase.ended = true) :
    phase = .returned ∨ ∃ error, phase = .raised error := by
  cases phase with
  | returned => exact .inl rfl
  | raised error => exact .inr ⟨error, rfl⟩
  | _ => cases h

theorem Busy.of_resume {answer : Answer} (h : task.resume answer = some task') :
    Busy env task task' := by
  refine Busy.of_move (m := fun t => t.resume answer) (fun _ _ => rfl) (fun _ _ _ _ _ => rfl)
    ?_ ?_ h
  · intro p phase hphase
    rcases eq_of_ended hphase with rfl | ⟨error, rfl⟩ <;> rfl
  · intro p phase' hmove
    exact (resume_eq_poll.mp hmove).imp fun _ hphase => hphase.1

theorem Busy.of_fail {error : ServiceError} (h : task.fail error = some task') :
    Busy env task task' := by
  refine Busy.of_move (m := fun t => t.fail error) (fun _ _ => rfl) (fun _ _ _ _ _ => rfl) ?_ ?_ h
  · intro p phase hphase
    rcases eq_of_ended hphase with rfl | ⟨error, rfl⟩ <;> rfl
  · intro p phase' hmove
    exact (fail_eq_poll.mp hmove).imp fun _ hphase => hphase.1

theorem Busy.of_sent {outcome : Except String ℤ} (h : task.sent outcome = some task') :
    Busy env task task' := by
  refine Busy.of_move (m := fun t => t.sent outcome) (fun _ _ => rfl) (fun _ _ _ _ _ => rfl) ?_ ?_ h
  · intro p phase hphase
    rcases eq_of_ended hphase with rfl | ⟨error, rfl⟩ <;> rfl
  · intro p phase' hmove
    exact (sent_eq_poll.mp hmove).imp fun _ hphase => hphase.1

end Task

namespace System

variable {env : Environment} {s s' : System} {label : Label}

/-- A service step leaves the tasks, adds one that is not a poll, or moves one. -/
theorem step_ofServices (hlabel : label.ofServices = true) (h : s.step env label = some s') :
    (∃ new, s'.tasks = s.tasks ++ new ∧ ∀ task ∈ new, ∃ call phase, task = .add call phase) ∨
      ∃ i task task', label.task = some i ∧ s.tasks[i]? = some task ∧ Task.Busy env task task' ∧
        s'.tasks = s.tasks.set i task' := by
  cases label with
  | operation operation =>
    obtain ⟨t, answer, database, -, -, rfl⟩ := step_operation.mp h
    exact .inl ⟨[], (List.append_nil _).symm, fun task hnil => absurd hnil List.not_mem_nil⟩
  | startAdd call =>
    obtain rfl := Option.some.inj h
    exact .inl ⟨_, rfl, fun task htask => ⟨call, _, List.mem_singleton.mp htask⟩⟩
  | commit i input =>
    obtain ⟨task, t, task', htask, hpending, ⟨error, -, hfail, rfl⟩ |
      ⟨answer, database, -, hresume, rfl⟩⟩ := step_commit.mp h
    · exact .inr ⟨i, task, task', rfl, htask, .of_fail hfail, rfl⟩
    · exact .inr ⟨i, task, task', rfl, htask, .of_resume hresume, rfl⟩
  | reject i error =>
    obtain ⟨task, task', htask, hfail, rfl⟩ := step_reject.mp h
    exact .inr ⟨i, task, task', rfl, htask, .of_fail hfail, rfl⟩
  | sent i outcome =>
    obtain ⟨task, task', htask, hsent, rfl⟩ := step_sent.mp h
    exact .inr ⟨i, task, task', rfl, htask, .of_sent hsent, rfl⟩
  | startPoll discordUserId => cases hlabel
  | fetched i outcome => cases hlabel

end System

namespace Coordinator

variable {api : DonutApiClient} {env : Environment} {s s' : Coordinator} {i : ℕ}

/-- A step adds tasks, polls only when the users have been loaded, or moves one task, which waits
for no price unless it has come. -/
theorem react_tasks {event : CoordinatorEvent} (h : react api env s event = some s') :
    (∃ new, s'.system.tasks = s.system.tasks ++ new ∧
        ∀ p phase, Task.poll p phase ∈ new → event = .loaded) ∨
      ∃ j task task', event.task = some j ∧ s.system.tasks[j]? = some task ∧
        s'.system.tasks = s.system.tasks.set j task' ∧ (Task.Busy env task task' ∨
          ∃ outcome, event = .fetched j outcome ∧ task.fetched env outcome = some task') := by
  have hsame : s'.system.tasks = s.system.tasks → ∃ new, s'.system.tasks = s.system.tasks ++ new ∧
      ∀ p phase, Task.poll p phase ∈ new → event = .loaded := fun htasks =>
    ⟨[], by rw [htasks, List.append_nil], fun p phase hnil => absurd hnil List.not_mem_nil⟩
  cases event with
  | runOnce =>
    obtain ⟨wakeAt, -, -, rfl⟩ := react_runOnce.mp h
    exact .inl (hsame rfl)
  | pruned utcNow =>
    obtain ⟨now, system, -, hsystem, rfl⟩ := react_pruned.mp h
    obtain ⟨t, answer, database, -, -, rfl⟩ := System.step_operation.mp hsystem
    exact .inl (hsame rfl)
  | loaded =>
    obtain ⟨now, -, rfl⟩ := react_loaded.mp h
    exact .inl ⟨_, rfl, fun p phase _ => rfl⟩
  | raised =>
    obtain ⟨-, rfl⟩ := react_raised.mp h
    exact .inl (hsame rfl)
  | returned =>
    obtain ⟨polls, -, -, rfl⟩ := react_returned.mp h
    exact .inl (hsame rfl)
  | system label =>
    obtain ⟨hlabel, system, hsystem, rfl⟩ := react_system.mp h
    rcases System.step_ofServices hlabel hsystem with ⟨new, htasks, hnew⟩ |
      ⟨j, task, task', hj, htask, hbusy, htasks⟩
    · refine .inl ⟨new, htasks, fun p phase hpoll => ?_⟩
      obtain ⟨call, phase', hadd⟩ := hnew _ hpoll
      cases hadd
    · exact .inr ⟨j, task, task', hj, htask, htasks, .inl hbusy⟩
  | request j =>
    obtain ⟨-, h⟩ := react_request.mp h
    obtain ⟨task, args, client, -, -, -, rfl⟩ := requestPage_eq_some.mp h
    exact .inl (hsame rfl)
  | nextPage j =>
    obtain ⟨fetch, call, payload, -, -, -, -, h⟩ := react_nextPage.mp h
    obtain ⟨task, args, client, -, -, -, rfl⟩ := requestPage_eq_some.mp h
    exact .inl (hsame rfl)
  | fetched j outcome =>
    obtain ⟨fetch, call, system, -, -, -, hsystem, rfl⟩ := react_fetched.mp h
    obtain ⟨task, request, task', htask, -, hfetched, rfl⟩ := System.step_fetched.mp hsystem
    exact .inr ⟨j, task, task', rfl, htask, rfl, .inr ⟨outcome, rfl, hfetched⟩⟩
  | client event =>
    obtain ⟨client, -, rfl⟩ := react_client.mp h
    exact .inl (hsame rfl)

/-- A task stays as it is in a step that is not about it, or that finds it waiting for a price. -/
theorem react_task {event : CoordinatorEvent} (h : react api env s event = some s') {task : Task}
    (htask : s.system.tasks[i]? = some task)
    (hevent : event.task = some i → (∃ request, task.request env = some request) ∧
      ∀ outcome, event ≠ .fetched i outcome) : s'.system.tasks[i]? = some task := by
  rcases react_tasks h with ⟨new, htasks, -⟩ | ⟨j, moved, task', hj, hmoved, htasks, hmove⟩
  · rw [htasks, List.getElem?_append_left (List.getElem?_eq_some_iff.mp htask).1, htask]
  · rw [htasks, List.getElem?_set_ne, htask]
    rintro rfl
    obtain ⟨⟨request, hrequest⟩, hfetched⟩ := hevent hj
    obtain rfl := Option.some.inj (hmoved.symm.trans htask)
    rcases hmove with hbusy | ⟨outcome, rfl, -⟩
    · cases hbusy.request.symm.trans hrequest
    · exact hfetched outcome rfl

/-- Unless the users have been loaded, no poll starts, and none goes on that is over. -/
theorem react_poll {event : CoordinatorEvent} (h : react api env s event = some s')
    (hevent : event ≠ .loaded) {p : Poll} {phase' : PollPhase}
    (hpoll : s'.system.tasks[i]? = some (Task.poll p phase')) :
    s.system.tasks[i]? = some (Task.poll p phase') ∨
      ∃ phase, s.system.tasks[i]? = some (Task.poll p phase) ∧ phase.ended = false := by
  rcases react_tasks h with ⟨new, htasks, hnew⟩ | ⟨j, moved, task', hj, hmoved, htasks, hmove⟩
  · rw [htasks] at hpoll
    rcases System.task_of_append hpoll with hold | ⟨-, hstarted⟩
    · exact .inl hold
    · exact absurd (hnew p phase' (List.mem_of_getElem? hstarted)) hevent
  · rw [htasks] at hpoll
    rcases System.task_of_set hpoll with ⟨rfl, rfl⟩ | ⟨-, hold⟩
    · rcases hmove with hbusy | ⟨outcome, -, hfetched⟩
      · obtain ⟨phase, rfl, hphase⟩ := hbusy.polls p phase' rfl
        exact .inr ⟨phase, hmoved, hphase⟩
      · obtain ⟨phase, rfl, hphase⟩ := Task.fetched_eq_poll.mp hfetched
        cases phase with
        | fetching token group rest anySuccess => exact .inr ⟨_, hmoved, rfl⟩
        | _ => cases hphase
    · exact .inl hold

/-- A step is one of the system, or it leaves the database and at most starts the polls that are
due. -/
theorem react_cases {event : CoordinatorEvent} (h : react api env s event = some s') :
    (∃ label, event.label = some label ∧ s.system.step env label = some s'.system) ∨
      event.label = none ∧ s'.system.database = s.system.database ∧
        ∃ polls : List Poll, (∀ p ∈ polls, ∃ now, p ∈ s.duePolls now) ∧
          s'.system.tasks = s.system.tasks ++ polls.map fun p => .poll p (.start env p) := by
  have hquiet : s'.system = s.system → s'.system.database = s.system.database ∧
      ∃ polls : List Poll, (∀ p ∈ polls, ∃ now, p ∈ s.duePolls now) ∧
        s'.system.tasks = s.system.tasks ++ polls.map fun p => .poll p (.start env p) :=
    fun hsystem => ⟨by rw [hsystem], [], fun p hp => absurd hp List.not_mem_nil,
      by rw [hsystem, List.map_nil, List.append_nil]⟩
  cases event with
  | runOnce =>
    obtain ⟨wakeAt, -, -, rfl⟩ := react_runOnce.mp h
    exact .inr ⟨rfl, hquiet rfl⟩
  | pruned utcNow =>
    obtain ⟨now, system, -, hsystem, rfl⟩ := react_pruned.mp h
    exact .inl ⟨_, rfl, hsystem⟩
  | loaded =>
    obtain ⟨now, -, rfl⟩ := react_loaded.mp h
    exact .inr ⟨rfl, rfl, _, fun p hp => ⟨now, hp⟩, rfl⟩
  | raised =>
    obtain ⟨-, rfl⟩ := react_raised.mp h
    exact .inr ⟨rfl, hquiet rfl⟩
  | returned =>
    obtain ⟨polls, -, -, rfl⟩ := react_returned.mp h
    exact .inr ⟨rfl, hquiet rfl⟩
  | system label =>
    obtain ⟨-, system, hsystem, rfl⟩ := react_system.mp h
    exact .inl ⟨label, rfl, hsystem⟩
  | request i =>
    obtain ⟨-, h⟩ := react_request.mp h
    obtain ⟨task, args, client, -, -, -, rfl⟩ := requestPage_eq_some.mp h
    exact .inr ⟨rfl, hquiet rfl⟩
  | nextPage i =>
    obtain ⟨fetch, call, payload, -, -, -, -, h⟩ := react_nextPage.mp h
    obtain ⟨task, args, client, -, -, -, rfl⟩ := requestPage_eq_some.mp h
    exact .inr ⟨rfl, hquiet rfl⟩
  | fetched i outcome =>
    obtain ⟨fetch, call, system, -, -, -, hsystem, rfl⟩ := react_fetched.mp h
    exact .inl ⟨_, rfl, hsystem⟩
  | client event =>
    obtain ⟨client, -, rfl⟩ := react_client.mp h
    exact .inr ⟨rfl, hquiet rfl⟩

/-! ### The parts of the coordinator -/

private theorem run_startPolls {system : System} {loaded : List (User × List WatchRule)}
    (h : ∀ l ∈ loaded, l ∈ UserRepository.validUsersWithRules system.database.store) :
    run (System.step env) system (loaded.map fun l => .startPoll l.1.discordUserId) =
      some { system with
        tasks := system.tasks ++ (loaded.map fun l =>
          (⟨l.1, l.2.filter (·.enabled), system.database.history.length⟩ : Poll)).map
            fun p => .poll p (.start env p) } := by
  induction loaded generalizing system with
  | nil => simp
  | cons l loaded ih =>
    have hload := loadPoll_of_mem (h l List.mem_cons_self)
    refine (run_cons _).mpr ⟨_, System.step_startPoll.mpr ⟨_, hload, rfl⟩, ?_⟩
    refine (ih ?_).trans (by simp)
    exact fun l' hl' => h l' (List.mem_cons_of_mem _ hl')

/-- A step of the coordinator is a run of the system and a run of the API client. -/
theorem step_parts {label : ℚ × CoordinatorEvent} (h : step api env s label = some s') :
    Transition.Reachable (System.step env) s.system s'.system ∧
      Transition.Reachable api.step s.client s'.client := by
  obtain ⟨now, event⟩ := label
  obtain ⟨-, h⟩ := step_eq_some.mp h
  have hpage : ∀ {i : ℕ} {page : ℤ},
      requestPage api env { s with clock := now } i page = some s' →
        Transition.Reachable (System.step env) s.system s'.system ∧
          Transition.Reachable api.step s.client s'.client := by
    intro i page h
    obtain ⟨task, args, client, -, -, hclient, rfl⟩ := requestPage_eq_some.mp h
    exact ⟨.refl _, (Reachable.refl _).tail hclient⟩
  cases event with
  | runOnce =>
    obtain ⟨wakeAt, -, -, rfl⟩ := react_runOnce.mp h
    exact ⟨.refl _, .refl _⟩
  | pruned utcNow =>
    obtain ⟨now, system, -, hsystem, rfl⟩ := react_pruned.mp h
    exact ⟨(Reachable.refl _).tail hsystem, .refl _⟩
  | loaded =>
    obtain ⟨now, -, rfl⟩ := react_loaded.mp h
    exact ⟨⟨_, run_startPolls fun l hl => (List.mem_filter.mp hl).1⟩, .refl _⟩
  | raised =>
    obtain ⟨-, rfl⟩ := react_raised.mp h
    exact ⟨.refl _, .refl _⟩
  | returned =>
    obtain ⟨polls, -, -, rfl⟩ := react_returned.mp h
    exact ⟨.refl _, .refl _⟩
  | system label =>
    obtain ⟨-, system, hsystem, rfl⟩ := react_system.mp h
    exact ⟨(Reachable.refl _).tail hsystem, .refl _⟩
  | request i => exact hpage (react_request.mp h).2
  | nextPage i =>
    obtain ⟨fetch, call, payload, -, -, -, -, h⟩ := react_nextPage.mp h
    exact hpage h
  | fetched i outcome =>
    obtain ⟨fetch, call, system, -, -, -, hsystem, rfl⟩ := react_fetched.mp h
    exact ⟨(Reachable.refl _).tail hsystem, .refl _⟩
  | client event =>
    obtain ⟨client, hclient, rfl⟩ := react_client.mp h
    exact ⟨.refl _, (Reachable.refl _).tail hclient⟩

/-- The parts of a reachable coordinator are a reachable system and a reachable API client. -/
theorem Reachable.parts (h : Reachable api env s) : System.Reachable env s.system ∧
    ∃ clock, Transition.Reachable api.step
      (DonutApiClient.initial env.settings.rateLimits clock) s.client := by
  obtain ⟨clock, h⟩ := h
  have hinv := h.invariant (I := fun s => System.Reachable env s.system ∧
    Transition.Reachable api.step (DonutApiClient.initial env.settings.rateLimits clock) s.client)
    (fun s label s' ⟨hsystem, hclient⟩ hstep =>
      ⟨hsystem.trans (step_parts hstep).1, hclient.trans (step_parts hstep).2⟩)
    ⟨.refl _, .refl _⟩
  exact ⟨hinv.1, clock, hinv.2⟩

theorem pollsAt_eq_true : s.pollsAt i = true ↔
    ∃ p phase, s.system.tasks[i]? = some (Task.poll p phase) ∧ phase.ended = false := by
  rw [pollsAt]
  cases htask : s.system.tasks[i]? with
  | none => simp
  | some task => cases task <;> simp

theorem eq_poll_of_pollsFor {task : Task} {discordUserId : ℤ}
    (h : task.pollsFor discordUserId = true) :
    ∃ p phase, task = Task.poll p phase ∧ p.user.discordUserId = discordUserId ∧
      phase.ended = false := by
  cases task with
  | add call phase => cases h
  | poll p phase => exact ⟨p, phase, rfl, by simpa [Task.pollsFor] using h⟩

/-- What ties the parts of a coordinator together: the call of a fetch requests a page with the
token of its task, no two fetches share a call, and only the polls of the current cycle are not
over. -/
structure Coherent (env : Environment) (s : Coordinator) : Prop where
  clock : s.client.clock ≤ s.clock
  fetch : ∀ i fetch, s.fetches i = some fetch → ∃ task request call,
    s.system.tasks[i]? = some task ∧ task.request env = some request ∧
      s.client.calls[fetch.call]? = some call ∧ call.args.tokenKey = request.tokenKey
  distinct : ∀ i j fetch fetch', s.fetches i = some fetch → s.fetches j = some fetch' →
    fetch.call = fetch'.call → i = j
  polling : ∀ i, s.pollsAt i = true → ∃ polls, s.cycle = .polling polls ∧ i ∈ polls

namespace Coherent

theorem idle (h : s.Coherent env) (hcycle : ∀ polls, s.cycle ≠ .polling polls) :
    s.pollsAt i = false := by
  by_contra hi
  obtain ⟨polls, hpolls, -⟩ := h.polling i (by simpa using hi)
  exact hcycle polls hpolls

/-- Another cycle phase without polls does not matter while no poll is at work. -/
private theorem setCycle (h : s.Coherent env) (hidle : ∀ i, s.pollsAt i = false)
    (hclock : s'.clock = s.clock) (htasks : s'.system.tasks = s.system.tasks)
    (hclient : s'.client = s.client) (hfetches : s'.fetches = s.fetches) : s'.Coherent env := by
  refine ⟨by rw [hclient, hclock]; exact h.clock, ?_, by rw [hfetches]; exact h.distinct, ?_⟩
  · rw [hfetches, htasks, hclient]
    exact h.fetch
  · intro i hi
    have : s'.pollsAt i = s.pollsAt i := by rw [pollsAt, pollsAt, htasks]
    rw [this, hidle] at hi
    cases hi

private theorem requestPage (h : s.Coherent env) {page : ℤ}
    (hstep : s.requestPage api env i page = some s') : s'.Coherent env := by
  obtain ⟨task, args, client, htask, hargs, hclient, rfl⟩ := requestPage_eq_some.mp hstep
  obtain ⟨request, hrequest, rfl⟩ := Option.map_eq_some_iff.mp hargs
  obtain ⟨hclock, hclock'⟩ := api.step_clock hclient
  have hfresh : ∀ j fetch, s.fetches j = some fetch → fetch.call ≠ s.client.calls.length := by
    intro j fetch hj
    obtain ⟨-, -, call, -, -, hcall, -⟩ := h.fetch j fetch hj
    exact ((List.getElem?_eq_some_iff.mp hcall).1).ne
  refine ⟨hclock'.le, fun j fetch hj => ?_, fun j k fetch fetch' hj hk hcall => ?_, h.polling⟩
  · have hj : Function.update s.fetches i _ j = some fetch := hj
    rw [Function.update_apply] at hj
    split_ifs at hj with hij
    · obtain rfl := Option.some.inj hj
      exact ⟨task, request, _, hij ▸ htask, hrequest, api.step_start_call hclient,
        by rw [api.start_args]⟩
    · obtain ⟨task, request, call, htask, hrequest, hcall, hkey⟩ := h.fetch j fetch hj
      obtain ⟨call', hcall', hargs', -⟩ := api.step_call hclient hcall
      exact ⟨task, request, call', htask, hrequest, hcall', by rw [hargs', hkey]⟩
  · have hj : Function.update s.fetches i _ j = some fetch := hj
    have hk : Function.update s.fetches i _ k = some fetch' := hk
    rw [Function.update_apply] at hj hk
    split_ifs at hj hk with hji hki hki
    · rw [hji, hki]
    · obtain rfl := Option.some.inj hj
      exact absurd hcall.symm (hfresh k fetch' hk)
    · obtain rfl := Option.some.inj hk
      exact absurd hcall (hfresh j fetch hj)
    · exact h.distinct j k fetch fetch' hj hk hcall

/-- The polls at work are among those of the cycle while it lasts. -/
private theorem react_polling (h : s.Coherent env) {event : CoordinatorEvent}
    (hstep : react api env s event = some s') (hevent : event ≠ .loaded)
    (hcycle : s'.cycle = s.cycle) (i : ℕ) (hi : s'.pollsAt i = true) :
    ∃ polls, s'.cycle = .polling polls ∧ i ∈ polls := by
  obtain ⟨p, phase, hpoll, hphase⟩ := pollsAt_eq_true.mp hi
  rw [hcycle]
  refine h.polling i (pollsAt_eq_true.mpr ?_)
  rcases react_poll hstep hevent hpoll with hsame | ⟨phase', hbefore, hphase'⟩
  · exact ⟨p, phase, hsame, hphase⟩
  · exact ⟨p, phase', hbefore, hphase'⟩

/-- A command or a task that waits for no price. -/
private theorem service (h : s.Coherent env) {label : Label}
    (hstep : react api env s (.system label) = some s') : s'.Coherent env := by
  obtain ⟨hlabel, system, -, rfl⟩ := react_system.mp hstep
  refine ⟨h.clock, fun i fetch hi => ?_, h.distinct, h.react_polling hstep nofun rfl⟩
  obtain ⟨task, request, call, htask, hrequest, hcall, hkey⟩ := h.fetch i fetch hi
  exact ⟨task, request, call, react_task hstep htask fun _ => ⟨⟨request, hrequest⟩, nofun⟩,
    hrequest, hcall, hkey⟩

private theorem fetched (h : s.Coherent env) {outcome : PriceOutcome}
    (hstep : react api env s (.fetched i outcome) = some s') : s'.Coherent env := by
  obtain ⟨-, -, system, -, -, -, -, rfl⟩ := react_fetched.mp hstep
  have hrest : ∀ {j : ℕ} {fetch : Fetch}, Function.update s.fetches i none j = some fetch →
      j ≠ i ∧ s.fetches j = some fetch := by
    intro j fetch hj
    rw [Function.update_apply] at hj
    split_ifs at hj with hji
    exact ⟨hji, hj⟩
  refine ⟨h.clock, fun j fetch hj => ?_,
    fun j k fetch fetch' hj hk => h.distinct j k fetch fetch' (hrest hj).2 (hrest hk).2,
    h.react_polling hstep nofun rfl⟩
  obtain ⟨hji, hj⟩ := hrest hj
  obtain ⟨other, request, call, hother, hrest⟩ := h.fetch j fetch hj
  exact ⟨other, request, call,
    react_task hstep hother fun hij => absurd (Option.some.inj hij).symm hji, hrest⟩

private theorem startPolls (h : s.Coherent env) {now : ℚ} (hidle : ∀ i, s.pollsAt i = false) :
    (s.startPolls env now).Coherent env := by
  refine ⟨h.clock, fun i fetch hi => ?_, h.distinct, fun i hi => ⟨_, rfl, ?_⟩⟩
  · obtain ⟨task, request, call, htask, hrest⟩ := h.fetch i fetch hi
    exact ⟨task, request, call,
      (List.getElem?_append_left (List.getElem?_eq_some_iff.mp htask).1).trans htask, hrest⟩
  · obtain ⟨p, phase, hpoll, hphase⟩ := pollsAt_eq_true.mp hi
    have hpoll : (s.system.tasks ++ (s.duePolls now).map fun p => Task.poll p (.start env p))[i]? =
      some (Task.poll p phase) := hpoll
    have hlt := (List.getElem?_eq_some_iff.mp hpoll).1
    rcases System.task_of_append hpoll with hold | ⟨hnew, -⟩
    · have := hidle i
      rw [pollsAt_eq_true.mpr ⟨p, phase, hold, hphase⟩] at this
      cases this
    · rw [List.length_append, List.length_map] at hlt
      exact List.mem_range'_1.mpr ⟨hnew, hlt⟩

theorem react (h : s.Coherent env) {event : CoordinatorEvent}
    (hstep : s.react api env event = some s') : s'.Coherent env := by
  cases event with
  | runOnce =>
    obtain ⟨wakeAt, hcycle, -, rfl⟩ := react_runOnce.mp hstep
    exact h.setCycle (fun i => h.idle (by simp [hcycle])) rfl rfl rfl rfl
  | pruned utcNow =>
    obtain ⟨now, system, hcycle, hsystem, rfl⟩ := react_pruned.mp hstep
    obtain ⟨t, answer, database, -, -, rfl⟩ := System.step_operation.mp hsystem
    exact h.setCycle (fun i => h.idle (by simp [hcycle])) rfl rfl rfl rfl
  | loaded =>
    obtain ⟨now, hcycle, rfl⟩ := react_loaded.mp hstep
    exact h.startPolls fun i => h.idle (by simp [hcycle])
  | raised =>
    obtain ⟨hcycle, rfl⟩ := react_raised.mp hstep
    refine h.setCycle (fun i => h.idle ?_) rfl rfl rfl rfl
    rcases hcycle with ⟨now, hcycle⟩ | ⟨now, hcycle⟩ <;> simp [hcycle]
  | returned =>
    obtain ⟨polls, hcycle, hended, rfl⟩ := react_returned.mp hstep
    refine h.setCycle (fun i => ?_) rfl rfl rfl rfl
    by_contra hi
    obtain ⟨polls', hpolls, hmem⟩ := h.polling i (by simpa using hi)
    obtain rfl := CyclePhase.polling.inj (hcycle.symm.trans hpolls)
    exact hi (hended i hmem)
  | system label => exact h.service hstep
  | request i => exact h.requestPage (react_request.mp hstep).2
  | nextPage i =>
    obtain ⟨fetch, call, payload, -, -, -, -, hstep⟩ := react_nextPage.mp hstep
    exact h.requestPage hstep
  | fetched i outcome => exact h.fetched hstep
  | client event =>
    obtain ⟨client, hclient, rfl⟩ := react_client.mp hstep
    refine ⟨(api.step_clock hclient).2.le, fun i fetch hi => ?_, h.distinct, h.polling⟩
    obtain ⟨task, request, call, htask, hrequest, hcall, hkey⟩ := h.fetch i fetch hi
    obtain ⟨call', hcall', hargs, -⟩ := api.step_call hclient hcall
    exact ⟨task, request, call', htask, hrequest, hcall', by rw [hargs, hkey]⟩

/-- Time passes. -/
theorem wait (h : s.Coherent env) {now : ℚ} (hnow : s.clock ≤ now) :
    Coherent env { s with clock := now } :=
  ⟨h.clock.trans hnow, h.fetch, h.distinct, h.polling⟩

end Coherent

/-- Every reachable coordinator is coherent. -/
theorem Reachable.coherent (h : Reachable api env s) : s.Coherent env := by
  obtain ⟨clock, h⟩ := h
  refine h.invariant (I := Coherent env) ?_ ?_
  · rintro s ⟨now, event⟩ s' hs hstep
    obtain ⟨hnow, hreact⟩ := step_eq_some.mp hstep
    exact (hs.wait hnow).react hreact
  · exact ⟨le_rfl, nofun, nofun, fun i hi => by simp [pollsAt, initial] at hi⟩

end Coordinator

end DonutMonitor
