import DonutMonitor.Application.GroupIsolation
import Mathlib.Algebra.BigOperators.Ring.Finset
import Mathlib.Algebra.Order.BigOperators.Group.List
import Mathlib.Data.List.Chain

/-!
# The pages that the polls of a user request

`_poll_user` fixes the time of the next poll before it makes its requests: it allows for
`max_search_pages` pages of every group of rules. Whatever happens to the rules afterwards, the poll
works on the groups that it has loaded, and `get_price` goes through the pages of each of them once.
So the polls of a user never request more pages than the budget has for the time between their
starts.

## Main definitions

* `Task.groupsLeft` — the groups whose prices a task may still request.
* `Coordinator.pagesFetched` — the pages that a task has requested in a run.
* `Coordinator.pollStarts` — the polls of a user that a run starts, in order.

## Main results

* `Coordinator.pagesFetched_le` — a poll requests `max_search_pages` pages of each group at most.
* `Coordinator.isChain_pollStarts` — between the starts of two polls of a user lies the interval of
  the first.
* `Coordinator.pagesFetched_le_budget` — polls in a row stay within the budget.
-/

namespace DonutMonitor

open Transition

/-! ### The groups of a task -/

/-- The groups that the call may still request. -/
def AddPhase.groupsLeft : AddPhase → ℕ
  | creating _ | fetching _ => 1
  | undoing _ _ | processing _ _ _ | returned _ _ | raised _ _ => 0

/-- The groups that the poll may still request, with the one that it is requesting. -/
def PollPhase.groupsLeft : PollPhase → ℕ
  | fetching _ _ rest _ => rest.length + 1
  | processing _ _ _ rest _ => rest.length
  | markingSuccess | invalidating | notifying | recordingDmError _ | returned | raised _ => 0

namespace Task

/-- The poll that a task is. -/
def poll? : Task → Option Poll
  | add _ _ => none
  | poll p _ => some p

/-- The groups that a task has from its start on. A call of `WatchService.add` has one. -/
def groups (task : Task) : ℕ := task.poll?.elim 1 fun p => (groupRules p.rules).length

/-- The groups whose prices a task may still request. -/
def groupsLeft : Task → ℕ
  | add _ phase => phase.groupsLeft
  | poll _ phase => phase.groupsLeft

/-- What a task stays in a step of its own. -/
structure Advances (task task' : Task) : Prop where
  poll? : task'.poll? = task.poll?
  left : task'.groupsLeft ≤ task.groupsLeft

theorem Advances.groups {task task' : Task} (h : Advances task task') :
    task'.groups = task.groups := by
  rw [Task.groups, Task.groups, h.poll?]

end Task

namespace PollPhase

@[simp] theorem groupsLeft_next (token : String) (anySuccess : Bool) (groups : List PollGroup) :
    (next token anySuccess groups).groupsLeft = groups.length := by
  cases groups with
  | nil => cases anySuccess <;> rfl
  | cons group rest => rfl

@[simp] theorem groupsLeft_ofProcess (token : String) (group : PollGroup)
    (snapshot : PriceSnapshot) (rest : List PollGroup) (phase : Option ProcessPhase) :
    (ofProcess token group snapshot rest phase).groupsLeft = rest.length := by
  cases phase with
  | none => exact groupsLeft_next token true rest
  | some phase => rfl

theorem groupsLeft_start (env : Environment) (p : Poll) :
    (start env p).groupsLeft ≤ (groupRules p.rules).length := by
  rw [start]
  cases env.decrypt p.user.encryptedDonutToken with
  | none => exact Nat.zero_le _
  | some token => exact (groupsLeft_next token false _).le

theorem groupsLeft_resume {p : Poll} {answer : Answer} {phase phase' : PollPhase}
    (h : phase.resume p answer = some phase') : phase'.groupsLeft ≤ phase.groupsLeft := by
  cases phase with
  | processing token group snapshot rest phase =>
    obtain ⟨next, -, rfl⟩ := Option.map_eq_some_iff.mp h
    exact (groupsLeft_ofProcess token group snapshot rest next).le
  | markingSuccess =>
    cases answer with
    | done => exact (congrArg groupsLeft (Option.some.inj h)).ge
    | _ => cases h
  | invalidating =>
    cases answer with
    | done =>
      obtain rfl := Option.some.inj h
      split <;> exact le_rfl
    | _ => cases h
  | recordingDmError message =>
    cases answer with
    | done => exact (congrArg groupsLeft (Option.some.inj h)).ge
    | _ => cases h
  | _ => cases h

theorem groupsLeft_sent {outcome : Except String ℤ} {phase phase' : PollPhase}
    (h : phase.sent outcome = some phase') : phase'.groupsLeft ≤ phase.groupsLeft := by
  cases phase with
  | processing token group snapshot rest phase =>
    obtain ⟨next, -, rfl⟩ := Option.map_eq_some_iff.mp h
    exact le_rfl
  | notifying => cases outcome <;> exact (congrArg groupsLeft (Option.some.inj h)).ge
  | _ => cases h

/-- An answer of `get_price` is the end of a group. -/
theorem groupsLeft_fetched {env : Environment} {p : Poll} {outcome : PriceOutcome}
    {phase phase' : PollPhase} (h : phase.fetched env p outcome = some phase') :
    phase'.groupsLeft < phase.groupsLeft := by
  cases phase with
  | fetching token group rest anySuccess =>
    show phase'.groupsLeft < rest.length + 1
    rw [Nat.lt_succ_iff]
    cases outcome with
    | listing listing checkedAt pagesScanned =>
      obtain rfl := Option.some.inj h
      rw [groupsLeft_ofProcess]
    | donutApiError error =>
      cases error with
      | authentication message =>
        obtain rfl := Option.some.inj h
        exact Nat.zero_le _
      | _ =>
        obtain rfl := Option.some.inj h
        rw [groupsLeft_next]
    | exception name =>
      obtain rfl := Option.some.inj h
      exact Nat.zero_le _
  | _ => cases h

end PollPhase

namespace AddPhase

theorem groupsLeft_start (env : Environment) (call : AddCall) :
    (start env call).groupsLeft ≤ 1 := by
  rw [start]
  cases WatchService.draft env call with
  | error error => exact Nat.zero_le _
  | ok draft => exact le_rfl

@[simp] theorem groupsLeft_ofProcess (created : CreatedRule) (snapshot : PriceSnapshot)
    (phase : Option ProcessPhase) : (ofProcess created snapshot phase).groupsLeft = 0 := by
  cases phase <;> rfl

theorem groupsLeft_resume {answer : Answer} {phase phase' : AddPhase}
    (h : phase.resume answer = some phase') : phase'.groupsLeft ≤ phase.groupsLeft := by
  cases phase with
  | creating draft =>
    cases answer with
    | created created => exact (congrArg groupsLeft (Option.some.inj h)).ge
    | _ => cases h
  | undoing created error =>
    cases answer with
    | changed changed => exact (congrArg groupsLeft (Option.some.inj h)).ge
    | _ => cases h
  | processing created snapshot phase =>
    obtain ⟨next, -, rfl⟩ := Option.map_eq_some_iff.mp h
    exact (groupsLeft_ofProcess created snapshot next).le
  | _ => cases h

theorem groupsLeft_sent {outcome : Except String ℤ} {phase phase' : AddPhase}
    (h : phase.sent outcome = some phase') : phase'.groupsLeft ≤ phase.groupsLeft := by
  cases phase with
  | processing created snapshot phase =>
    obtain ⟨next, -, rfl⟩ := Option.map_eq_some_iff.mp h
    exact le_rfl
  | _ => cases h

theorem groupsLeft_fetched {env : Environment} {call : AddCall} {outcome : PriceOutcome}
    {phase phase' : AddPhase} (h : phase.fetched env call outcome = some phase') :
    phase'.groupsLeft < phase.groupsLeft := by
  cases phase with
  | fetching created =>
    show phase'.groupsLeft < 1
    rw [Nat.lt_one_iff]
    cases outcome with
    | listing listing checkedAt pagesScanned =>
      obtain rfl := Option.some.inj h
      exact groupsLeft_ofProcess _ _ _
    | donutApiError error => exact (congrArg groupsLeft (Option.some.inj h)).symm
    | exception name => exact (congrArg groupsLeft (Option.some.inj h)).symm
  | _ => cases h

end AddPhase

namespace Task

variable {env : Environment} {task task' : Task}

/-- A task that waits for a price has the group left that it is requesting. -/
theorem groupsLeft_pos {request : PriceRequest} (h : task.request env = some request) :
    0 < task.groupsLeft := by
  rcases request_eq_some h with ⟨call, created, rfl⟩ | ⟨p, token, group, rest, anySuccess, rfl⟩
  · exact Nat.one_pos
  · exact Nat.succ_pos _

theorem groupsLeft_fetched {outcome : PriceOutcome} (h : task.fetched env outcome = some task') :
    task'.groupsLeft < task.groupsLeft := by
  cases task with
  | add call phase =>
    obtain ⟨phase', hphase, rfl⟩ := Option.map_eq_some_iff.mp h
    exact AddPhase.groupsLeft_fetched hphase
  | poll p phase =>
    obtain ⟨phase', hphase, rfl⟩ := Option.map_eq_some_iff.mp h
    exact PollPhase.groupsLeft_fetched hphase

theorem groupsLeft_fail {error : ServiceError} (h : task.fail error = some task') :
    task'.groupsLeft = 0 := by
  cases task with
  | add call phase =>
    obtain ⟨phase', hphase, rfl⟩ := Option.map_eq_some_iff.mp h
    obtain ⟨created, rfl⟩ := AddPhase.fail_raises hphase
    rfl
  | poll p phase =>
    obtain ⟨phase', hphase, rfl⟩ := Option.map_eq_some_iff.mp h
    obtain rfl := PollPhase.fail_raises hphase
    rfl

theorem groupsLeft_resume {answer : Answer} (h : task.resume answer = some task') :
    task'.groupsLeft ≤ task.groupsLeft := by
  cases task with
  | add call phase =>
    obtain ⟨phase', hphase, rfl⟩ := Option.map_eq_some_iff.mp h
    exact AddPhase.groupsLeft_resume hphase
  | poll p phase =>
    obtain ⟨phase', hphase, rfl⟩ := Option.map_eq_some_iff.mp h
    exact PollPhase.groupsLeft_resume hphase

theorem groupsLeft_sent {outcome : Except String ℤ} (h : task.sent outcome = some task') :
    task'.groupsLeft ≤ task.groupsLeft := by
  cases task with
  | add call phase =>
    obtain ⟨phase', hphase, rfl⟩ := Option.map_eq_some_iff.mp h
    exact AddPhase.groupsLeft_sent hphase
  | poll p phase =>
    obtain ⟨phase', hphase, rfl⟩ := Option.map_eq_some_iff.mp h
    exact PollPhase.groupsLeft_sent hphase

/-- A continuation of the task's own phase is the task of the same poll. -/
private theorem poll?_of_move {add : AddCall → AddPhase → Option AddPhase}
    {poll : Poll → PollPhase → Option PollPhase} {move : Task → Option Task}
    (hadd : ∀ call phase, move (.add call phase) = (add call phase).map (.add call))
    (hpoll : ∀ p phase, move (.poll p phase) = (poll p phase).map (.poll p))
    (h : move task = some task') : task'.poll? = task.poll? := by
  cases task with
  | add call phase =>
    rw [hadd] at h
    obtain ⟨phase', -, rfl⟩ := Option.map_eq_some_iff.mp h
    rfl
  | poll p phase =>
    rw [hpoll] at h
    obtain ⟨phase', -, rfl⟩ := Option.map_eq_some_iff.mp h
    rfl

theorem Advances.of_fetched {outcome : PriceOutcome} (h : task.fetched env outcome = some task') :
    Advances task task' :=
  ⟨poll?_of_move (fun _ _ => rfl) (fun _ _ => rfl) h, (groupsLeft_fetched h).le⟩

theorem Advances.of_moves {s s' : System} {i : ℕ} (h : System.Moves env s s' i task task') :
    Advances task task' := by
  cases h with
  | committed input t answer hpending hcommit hresume =>
    exact ⟨poll?_of_move (fun _ _ => rfl) (fun _ _ => rfl) hresume, groupsLeft_resume hresume⟩
  | raised error hfail =>
    refine ⟨poll?_of_move (fun _ _ => rfl) (fun _ _ => rfl) hfail, ?_⟩
    rw [groupsLeft_fail hfail]
    exact Nat.zero_le _
  | fetched request outcome hrequest hfetched =>
    exact .of_fetched hfetched
  | sent outcome hsent =>
    exact ⟨poll?_of_move (fun _ _ => rfl) (fun _ _ => rfl) hsent, groupsLeft_sent hsent⟩

end Task

namespace Coordinator

variable {api : DonutApiClient} {env : Environment} {s s' : Coordinator} {i : ℕ}

/-- A task after a step is a new one, the one before, or this one after a step of its own. -/
theorem react_advances {event : CoordinatorEvent} (h : react api env s event = some s')
    {task' : Task} (htask' : s'.system.tasks[i]? = some task') :
    (s.system.tasks.length ≤ i ∧ task'.groupsLeft ≤ task'.groups) ∨
      s.system.tasks[i]? = some task' ∨
      ∃ task, s.system.tasks[i]? = some task ∧ Task.Advances task task' := by
  rcases react_cases h with ⟨label, -, hlabel⟩ | ⟨-, -, polls, -, htasks⟩
  · rcases System.step_tasks hlabel htask' with ⟨hlength, -, -, hnew⟩ | ⟨hsame, -⟩ |
      ⟨task, htask, hmoves⟩
    · refine .inl ⟨hlength.ge, ?_⟩
      rcases hnew with ⟨call, rfl⟩ | ⟨-, p, -, rfl⟩
      · exact AddPhase.groupsLeft_start env call
      · exact PollPhase.groupsLeft_start env p
    · exact .inr (.inl hsame)
    · exact .inr (.inr ⟨task, htask, .of_moves hmoves⟩)
  · rw [htasks] at htask'
    rcases System.task_of_append htask' with hold | ⟨hlength, hnew⟩
    · exact .inr (.inl hold)
    · rw [List.getElem?_map, Option.map_eq_some_iff] at hnew
      obtain ⟨p, -, rfl⟩ := hnew
      exact .inl ⟨hlength, PollPhase.groupsLeft_start env p⟩

/-- No step removes a task. -/
theorem length_tasks_le {event : CoordinatorEvent} (h : react api env s event = some s') :
    s.system.tasks.length ≤ s'.system.tasks.length := by
  rcases react_tasks h with ⟨new, htasks, -⟩ | ⟨j, task, task', -, -, htasks, -⟩
  · rw [htasks, List.length_append]
    omega
  · rw [htasks, List.length_set]

/-- A poll goes on as the poll that it is. -/
theorem react_poll? {event : CoordinatorEvent} (h : react api env s event = some s') {p : Poll}
    (hpoll : s.system.tasks[i]?.bind Task.poll? = some p) :
    s'.system.tasks[i]?.bind Task.poll? = some p := by
  obtain ⟨task, htask, hp⟩ := Option.bind_eq_some_iff.mp hpoll
  have hlt := (List.getElem?_eq_some_iff.mp htask).1
  have htask' := List.getElem?_eq_getElem (hlt.trans_le (length_tasks_le h))
  rw [htask', Option.bind_some]
  rcases react_advances h htask' with ⟨hlength, -⟩ | hsame | ⟨before, hbefore, hadvances⟩
  · omega
  · obtain rfl := Option.some.inj (htask.symm.trans hsame)
    exact hp
  · obtain rfl := Option.some.inj (htask.symm.trans hbefore)
    rw [hadvances.poll?, hp]

/-! ### The pages of a task -/

end Coordinator

/-- The task that requests a page in an event. An attempt that is made again belongs to the API
client and requests no page. -/
def CoordinatorEvent.pageOf : CoordinatorEvent → Option ℕ
  | request i | nextPage i => some i
  | _ => none

namespace Coordinator

/-- The pages that a task has requested in a run. -/
def pagesFetched (labels : List (ℚ × CoordinatorEvent)) (i : ℕ) : ℕ :=
  labels.countP fun label => label.2.pageOf = some i

/-- The page that a task has requested last in its present call of `get_price`. -/
def page (s : Coordinator) (i : ℕ) : ℤ := (s.fetches i).elim 0 Fetch.page

/-- The pages of the groups that a task is done with, and those of the present one. -/
def pagesSpent (env : Environment) (s : Coordinator) (i : ℕ) : ℤ :=
  (s.system.tasks[i]?.elim 0 fun task => (task.groups : ℤ) - task.groupsLeft) *
    env.settings.maxSearchPages + s.page i

/-- A coordinator in which no call of `get_price` has gone beyond the last page. -/
structure WithinPages (env : Environment) (s : Coordinator) : Prop extends Coherent env s where
  page : ∀ i, 0 ≤ s.page i ∧ s.page i ≤ env.settings.maxSearchPages

variable {api : DonutApiClient} {env : Environment} {s s' : Coordinator} {i : ℕ}

theorem page_requestPage {page : ℤ} (h : s.requestPage api env i page = some s') :
    s'.system = s.system ∧ s'.page i = page ∧ ∀ j ≠ i, s'.page j = s.page j := by
  obtain ⟨task, args, client, -, -, -, rfl⟩ := requestPage_eq_some.mp h
  refine ⟨rfl, ?_, fun j hji => ?_⟩
  · show (Function.update s.fetches i _ i).elim 0 Fetch.page = page
    rw [Function.update_self, Option.elim_some]
  · show (Function.update s.fetches i _ j).elim 0 Fetch.page = s.page j
    rw [Function.update_of_ne hji, Coordinator.page]

/-- What a step does to the page that a task has requested. -/
theorem react_page {event : CoordinatorEvent} (h : react api env s event = some s') (i : ℕ) :
    (event.pageOf = some i ∧ s'.system = s.system ∧ s'.page i = s.page i + 1 ∧
        (s.page i < env.settings.maxSearchPages)) ∨
      event.pageOf ≠ some i ∧ (s'.page i = s.page i ∨
        ∃ outcome, event = .fetched i outcome ∧ s'.page i = 0) := by
  have hquiet : event.pageOf ≠ some i → s'.fetches i = s.fetches i →
      event.pageOf ≠ some i ∧ (s'.page i = s.page i ∨
        ∃ outcome, event = .fetched i outcome ∧ s'.page i = 0) := fun hevent hfetches =>
    ⟨hevent, .inl (by rw [page, page, hfetches])⟩
  cases event with
  | runOnce =>
    obtain ⟨wakeAt, -, -, rfl⟩ := react_runOnce.mp h
    exact .inr (hquiet nofun rfl)
  | pruned utcNow =>
    obtain ⟨now, system, -, hsystem, rfl⟩ := react_pruned.mp h
    exact .inr (hquiet nofun rfl)
  | loaded =>
    obtain ⟨now, -, rfl⟩ := react_loaded.mp h
    exact .inr (hquiet nofun rfl)
  | raised =>
    obtain ⟨-, rfl⟩ := react_raised.mp h
    exact .inr (hquiet nofun rfl)
  | returned =>
    obtain ⟨polls, -, -, rfl⟩ := react_returned.mp h
    exact .inr (hquiet nofun rfl)
  | system label =>
    obtain ⟨-, system, hsystem, rfl⟩ := react_system.mp h
    exact .inr (hquiet nofun rfl)
  | request j =>
    obtain ⟨hnone, h⟩ := react_request.mp h
    obtain ⟨hsystem, hpage, hother⟩ := page_requestPage h
    rcases eq_or_ne i j with rfl | hij
    · have hzero : s.page i = 0 := by rw [page, hnone, Option.elim_none]
      exact .inl ⟨rfl, hsystem, by omega, hzero ▸ env.settings.pages_pos⟩
    · exact .inr ⟨fun hj => hij (Option.some.inj hj).symm, .inl (hother i hij)⟩
  | nextPage j =>
    obtain ⟨fetch, call, payload, hfetch, -, -, hless, h⟩ := react_nextPage.mp h
    obtain ⟨hsystem, hpage, hother⟩ := page_requestPage h
    rcases eq_or_ne i j with rfl | hij
    · have hlast : s.page i = fetch.page := by rw [page, hfetch, Option.elim_some]
      exact .inl ⟨rfl, hsystem, by omega, hlast ▸ hless⟩
    · exact .inr ⟨fun hj => hij (Option.some.inj hj).symm, .inl (hother i hij)⟩
  | fetched j outcome =>
    obtain ⟨fetch, call, system, -, -, -, hsystem, rfl⟩ := react_fetched.mp h
    refine .inr ⟨nofun, ?_⟩
    show (Function.update s.fetches j none i).elim 0 Fetch.page = s.page i ∨ _
    rcases eq_or_ne i j with rfl | hij
    · refine .inr ⟨outcome, rfl, ?_⟩
      show (Function.update s.fetches i none i).elim 0 Fetch.page = 0
      rw [Function.update_self, Option.elim_none]
    · rw [Function.update_of_ne hij]
      exact .inl rfl
  | client event =>
    obtain ⟨client, -, rfl⟩ := react_client.mp h
    exact .inr (hquiet nofun rfl)

/-- No call of `get_price` goes beyond the last page. -/
theorem WithinPages.react (h : s.WithinPages env) {event : CoordinatorEvent}
    (hstep : s.react api env event = some s') : s'.WithinPages env := by
  refine ⟨h.toCoherent.react hstep, fun i => ?_⟩
  have hpages := env.settings.pages_pos
  obtain ⟨hnonneg, hle⟩ := h.page i
  rcases react_page hstep i with ⟨-, -, hpage, hless⟩ | ⟨-, hsame | ⟨outcome, -, hzero⟩⟩ <;> omega

/-- A group that is over pays for its pages. -/
private theorem pagesSpent_fetched (h : s.WithinPages env) {outcome : PriceOutcome}
    (hstep : react api env s (.fetched i outcome) = some s') (hpage : s'.page i = 0) :
    pagesSpent env s i ≤ pagesSpent env s' i := by
  obtain ⟨-, -, system, -, -, -, hsystem, rfl⟩ := react_fetched.mp hstep
  obtain ⟨task, request, task', htask, -, hfetched, rfl⟩ := System.step_fetched.mp hsystem
  have hless := Task.groupsLeft_fetched hfetched
  have hgroups := (Task.Advances.of_fetched hfetched).groups
  have hmoved : (s.system.tasks.set i task')[i]? = some task' :=
    List.getElem?_set_self (List.getElem?_eq_some_iff.mp htask).1
  rw [pagesSpent, pagesSpent, hpage, htask]
  simp only [hmoved, Option.elim_some, hgroups, add_zero]
  obtain ⟨-, hle⟩ := h.page i
  have hpages := env.settings.pages_pos
  have hone : (1 : ℤ) ≤ task.groupsLeft - task'.groupsLeft := by omega
  nlinarith [mul_le_mul_of_nonneg_right hone hpages.le]

/-- A page that is requested is paid from the groups of the task. -/
theorem pagesSpent_react (h : s.WithinPages env) {event : CoordinatorEvent}
    (hstep : react api env s event = some s') (i : ℕ) :
    (if event.pageOf = some i then 1 else 0) + pagesSpent env s i ≤ pagesSpent env s' i := by
  rcases react_page hstep i with ⟨hevent, hsystem, hpage, -⟩ |
    ⟨hevent, hpage | ⟨outcome, rfl, hzero⟩⟩
  · rw [if_pos hevent, pagesSpent, pagesSpent, hsystem, hpage]
    omega
  · rw [if_neg hevent, zero_add, pagesSpent, pagesSpent, hpage]
    refine Int.add_le_add_right (mul_le_mul_of_nonneg_right ?_ env.settings.pages_pos.le) _
    cases htask' : s'.system.tasks[i]? with
    | none =>
      have hlength := (List.getElem?_eq_none_iff.mp htask').trans' (length_tasks_le hstep)
      rw [List.getElem?_eq_none_iff.mpr hlength]
    | some task' =>
      rcases react_advances hstep htask' with ⟨hlength, hle⟩ | hsame | ⟨task, htask, hadvances⟩
      · rw [List.getElem?_eq_none_iff.mpr hlength, Option.elim_none, Option.elim_some]
        omega
      · rw [hsame]
      · rw [htask, Option.elim_some, Option.elim_some, hadvances.groups]
        have := hadvances.left
        omega
  · rw [if_neg hevent, zero_add]
    exact pagesSpent_fetched h hstep hzero

/-- Whatever a task has spent, it has not spent more than its groups. -/
theorem pagesSpent_le (h : s.WithinPages env) {p : Poll}
    (hpoll : s.system.tasks[i]?.bind Task.poll? = some p) :
    pagesSpent env s i ≤ (groupRules p.rules).length * env.settings.maxSearchPages := by
  obtain ⟨task, htask, hp⟩ := Option.bind_eq_some_iff.mp hpoll
  have hpages := env.settings.pages_pos
  rw [pagesSpent, htask, Option.elim_some, Task.groups, hp, Option.elim_some, sub_mul]
  suffices s.page i ≤ task.groupsLeft * env.settings.maxSearchPages by omega
  cases hfetch : s.fetches i with
  | none =>
    rw [page, hfetch, Option.elim_none]
    positivity
  | some fetch =>
    obtain ⟨task', request, -, htask', hrequest, -⟩ := h.fetch i fetch hfetch
    obtain rfl := Option.some.inj (htask.symm.trans htask')
    have hone : (1 : ℤ) ≤ task.groupsLeft := by
      have := Task.groupsLeft_pos hrequest
      omega
    nlinarith [(h.page i).2]

theorem WithinPages.step (h : s.WithinPages env) {label : ℚ × CoordinatorEvent}
    (hstep : s.step api env label = some s') : s'.WithinPages env := by
  obtain ⟨hnow, hreact⟩ := step_eq_some.mp hstep
  have hwait : WithinPages env { s with clock := label.1 } := ⟨h.wait hnow, h.page⟩
  exact hwait.react hreact

theorem withinPages_initial (api : DonutApiClient) (clock : ℚ) :
    (initial env clock).WithinPages env :=
  have hreachable : Reachable api env (initial env clock) := ⟨clock, .refl _⟩
  ⟨hreachable.coherent, fun _ => ⟨le_rfl, env.settings.pages_pos.le⟩⟩

theorem pagesFetched_add_pagesSpent_le {labels : List (ℚ × CoordinatorEvent)}
    (hrun : run (step api env) s labels = some s') (h : s.WithinPages env) (i : ℕ) :
    pagesFetched labels i + pagesSpent env s i ≤ pagesSpent env s' i := by
  induction labels generalizing s with
  | nil =>
    obtain rfl := Option.some.inj hrun
    exact (zero_add _).le
  | cons label labels ih =>
    obtain ⟨m, hstep, hrest⟩ := (run_cons _).mp hrun
    have hlater := ih hrest (h.step hstep)
    obtain ⟨hnow, hreact⟩ := step_eq_some.mp hstep
    have hwait : WithinPages env { s with clock := label.1 } := ⟨h.wait hnow, h.page⟩
    have hfirst := pagesSpent_react hwait hreact i
    have hspent : pagesSpent env { s with clock := label.1 } i = pagesSpent env s i := rfl
    rw [pagesFetched, List.countP_cons] at *
    simp only [decide_eq_true_eq, Nat.cast_add, Nat.cast_ite, Nat.cast_one, Nat.cast_zero] at *
    omega

/-- A poll requests `max_search_pages` pages of each of its groups at most. -/
theorem pagesFetched_le {clock : ℚ} {labels : List (ℚ × CoordinatorEvent)}
    (hrun : run (step api env) (initial env clock) labels = some s) {p : Poll}
    (hpoll : s.system.tasks[i]?.bind Task.poll? = some p) :
    pagesFetched labels i ≤ (groupRules p.rules).length * env.settings.maxSearchPages := by
  have hinitial : WithinPages env (initial env clock) := withinPages_initial api clock
  have hwithin : s.WithinPages env :=
    run_invariant _ (I := WithinPages env) (fun _ _ _ hs hstep => hs.step hstep) hrun hinitial
  have hspent := pagesFetched_add_pagesSpent_le hrun hinitial i
  have hzero : pagesSpent env (initial env clock) i = 0 := by
    simp [pagesSpent, initial, page]
  have := pagesSpent_le hwithin hpoll
  omega

/-- The interval after a poll has room for all its pages. -/
theorem pagesFetched_le_interval {clock : ℚ} {labels : List (ℚ × CoordinatorEvent)}
    (hrun : run (step api env) (initial env clock) labels = some s) {p : Poll}
    (hpoll : s.system.tasks[i]?.bind Task.poll? = some p) :
    (pagesFetched labels i : ℚ) * 60 ≤
      env.settings.safeRequestsPerMinute * p.interval env.settings := by
  have hle : (pagesFetched labels i : ℚ) ≤
      (groupRules p.rules).length * env.settings.maxSearchPages := by
    exact_mod_cast pagesFetched_le hrun hpoll
  have hpages : max env.settings.maxSearchPages 1 = env.settings.maxSearchPages :=
    max_eq_left env.settings.pages_pos
  have hsafe : (0 : ℚ) < env.settings.safeRequestsPerMinute := by
    exact_mod_cast env.settings.safe_pos
  refine (mul_le_mul_of_nonneg_right hle (by norm_num)).trans ?_
  rw [← div_le_iff₀' hsafe, Poll.interval, calculatePollInterval, hpages]
  split_ifs with hnone
  · have hzero : (groupRules p.rules).length = 0 := by omega
    rw [hzero, Nat.cast_zero, zero_mul, zero_mul, zero_div]
    exact env.settings.interval_pos.le
  · exact le_max_of_le_right (by push_cast; exact le_rfl)

/-! ### The starts of the polls of a user -/

/-- A poll that a run has started. -/
structure PollStart where
  task : ℕ
  poll : Poll
  startedAt : ℚ

/-- A new task, when it is a poll of the user. -/
def startOf (discordUserId : ℤ) (now : ℚ) (new : Task × ℕ) : Option PollStart :=
  (new.1.poll?.filter (·.user.discordUserId = discordUserId)).map fun p => ⟨new.2, p, now⟩

/-- The polls of the user among the tasks that a step has started. -/
def startsBetween (discordUserId : ℤ) (s s' : Coordinator) : List PollStart :=
  (s'.system.tasks.zipIdx.drop s.system.tasks.length).filterMap
    (startOf discordUserId s'.clock)

/-- The polls of the user that a run starts, in order. -/
def pollStarts (api : DonutApiClient) (env : Environment) (discordUserId : ℤ) :
    Coordinator → List (ℚ × CoordinatorEvent) → List PollStart
  | _, [] => []
  | s, label :: labels =>
    match step api env s label with
    | none => []
    | some s' => startsBetween discordUserId s s' ++ pollStarts api env discordUserId s' labels

variable (discordUserId : ℤ)

theorem pollStarts_cons {label : ℚ × CoordinatorEvent} (h : step api env s label = some s')
    (labels : List (ℚ × CoordinatorEvent)) : pollStarts api env discordUserId s (label :: labels) =
      startsBetween discordUserId s s' ++ pollStarts api env discordUserId s' labels := by
  rw [pollStarts, h]

/-- A cycle has read the clock before. -/
def Timely (s : Coordinator) : Prop :=
  ∀ now, s.cycle = .pruning now ∨ s.cycle = .loading now → now ≤ s.clock

/-- Unless the polls start, the times of the next ones stay, and a cycle keeps its reading of the
clock. -/
theorem react_schedule {event : CoordinatorEvent} (h : react api env s event = some s')
    (hevent : event ≠ .loaded) : s'.nextPollAt = s.nextPollAt ∧ s'.clock = s.clock ∧
      ∀ now, s'.cycle = .pruning now ∨ s'.cycle = .loading now →
        now = s.clock ∨ s.cycle = .pruning now ∨ s.cycle = .loading now := by
  cases event with
  | runOnce =>
    obtain ⟨wakeAt, -, -, rfl⟩ := react_runOnce.mp h
    refine ⟨rfl, rfl, fun now hcycle => .inl ?_⟩
    simp only [ite_eq_iff, CyclePhase.pruning.injEq, CyclePhase.loading.injEq, reduceCtorEq]
      at hcycle
    tauto
  | pruned utcNow =>
    obtain ⟨now, system, hpruning, -, rfl⟩ := react_pruned.mp h
    refine ⟨rfl, rfl, fun now' hcycle => .inr (.inl ?_)⟩
    rcases hcycle with hcycle | hcycle
    · cases hcycle
    · rw [hpruning, CyclePhase.loading.inj hcycle]
  | loaded => exact absurd rfl hevent
  | raised =>
    obtain ⟨-, rfl⟩ := react_raised.mp h
    exact ⟨rfl, rfl, fun now hcycle => hcycle.elim nofun nofun⟩
  | returned =>
    obtain ⟨polls, -, -, rfl⟩ := react_returned.mp h
    exact ⟨rfl, rfl, fun now hcycle => hcycle.elim nofun nofun⟩
  | system label =>
    obtain ⟨-, system, -, rfl⟩ := react_system.mp h
    exact ⟨rfl, rfl, fun now => .inr⟩
  | request i =>
    obtain ⟨-, h⟩ := react_request.mp h
    obtain ⟨task, args, client, -, -, -, rfl⟩ := requestPage_eq_some.mp h
    exact ⟨rfl, rfl, fun now => .inr⟩
  | nextPage i =>
    obtain ⟨fetch, call, payload, -, -, -, -, h⟩ := react_nextPage.mp h
    obtain ⟨task, args, client, -, -, -, rfl⟩ := requestPage_eq_some.mp h
    exact ⟨rfl, rfl, fun now => .inr⟩
  | fetched i outcome =>
    obtain ⟨fetch, call, system, -, -, -, -, rfl⟩ := react_fetched.mp h
    exact ⟨rfl, rfl, fun now => .inr⟩
  | client event =>
    obtain ⟨client, -, rfl⟩ := react_client.mp h
    exact ⟨rfl, rfl, fun now => .inr⟩

theorem Timely.step (hs : s.Timely) {label : ℚ × CoordinatorEvent}
    (h : s.step api env label = some s') : s'.Timely := by
  obtain ⟨hnow, hreact⟩ := step_eq_some.mp h
  intro now hcycle
  by_cases hevent : label.2 = .loaded
  · rw [hevent] at hreact
    obtain ⟨loadedAt, -, rfl⟩ := react_loaded.mp hreact
    exact hcycle.elim nofun nofun
  · obtain ⟨-, hclock, hbegun⟩ := react_schedule hreact hevent
    rw [hclock]
    rcases hbegun now hcycle with hread | hbefore
    · exact hread.le
    · exact (hs now hbefore).trans hnow

theorem startsBetween_of_append {new : List Task} (h : s'.system.tasks = s.system.tasks ++ new) :
    startsBetween discordUserId s s' = (new.zipIdx s.system.tasks.length).filterMap
      (startOf discordUserId s'.clock) := by
  rw [startsBetween, h, List.zipIdx_append, zero_add]
  exact congrArg _ (List.drop_left' List.length_zipIdx)

/-- Only the users that have been loaded get polls. -/
theorem startsBetween_eq_nil {event : CoordinatorEvent} (h : react api env s event = some s')
    (hevent : event ≠ .loaded) : startsBetween discordUserId s s' = [] := by
  rcases react_tasks h with ⟨new, htasks, hnew⟩ | ⟨j, task, task', -, -, htasks, -⟩
  · rw [startsBetween_of_append discordUserId htasks, List.filterMap_eq_nil_iff]
    rintro ⟨task, i⟩ hmem
    cases task with
    | add call phase => rfl
    | poll p phase =>
      exact absurd (hnew p phase (List.fst_mem_of_mem_zipIdx hmem)) hevent
  · rw [startsBetween, List.drop_eq_nil_of_le, List.filterMap_nil]
    rw [List.length_zipIdx, htasks, List.length_set]

theorem startOf_poll {now : ℚ} {p : Poll} {phase : PollPhase} :
    startOf discordUserId now (.poll p phase, i) =
      if p.user.discordUserId = discordUserId then some ⟨i, p, now⟩ else none := by
  simp only [startOf, Task.poll?, Option.filter_some, decide_eq_true_eq]
  split_ifs <;> rfl

private theorem starts_of_others {polls : List Poll} {now : ℚ} {phase : Poll → PollPhase}
    (h : ∀ p ∈ polls, p.user.discordUserId ≠ discordUserId) (n : ℕ) :
    ((polls.map fun p => Task.poll p (phase p)).zipIdx n).filterMap
      (startOf discordUserId now) = [] := by
  rw [List.filterMap_eq_nil_iff]
  rintro ⟨task, i⟩ hmem
  obtain ⟨p, hp, rfl⟩ := List.mem_map.mp (List.fst_mem_of_mem_zipIdx hmem)
  exact (startOf_poll discordUserId).trans (if_neg (h p hp))

private theorem due_of_duePolls {now : ℚ} {p : Poll} (h : p ∈ s.duePolls now) :
    (s.nextPollAt p.user.discordUserId).getD 0 ≤ now := by
  obtain ⟨loaded, hloaded, rfl⟩ := List.mem_map.mp h
  exact of_decide_eq_true (List.mem_filter.mp hloaded).2

private theorem foldl_update_of_ne {α β γ : Type*} [DecidableEq β] {key : α → β} {value : α → γ}
    {as : List α} {b : β} (h : ∀ a ∈ as, key a ≠ b) (f : β → γ) :
    as.foldl (fun f a => Function.update f (key a) (value a)) f b = f b := by
  induction as generalizing f with
  | nil => rfl
  | cons a as ih =>
    rw [List.foldl_cons, ih fun a' ha' => h a' (List.mem_cons_of_mem a ha')]
    exact Function.update_of_ne (h a List.mem_cons_self).symm _ _

/-- At most one of the polls of a cycle is one of the user, and it sets the time of the next. -/
private theorem startPolls_starts (now : ℚ) :
    startsBetween discordUserId s (s.startPolls env now) = [] ∧
        (s.startPolls env now).nextPollAt discordUserId = s.nextPollAt discordUserId ∨
      ∃ start, startsBetween discordUserId s (s.startPolls env now) = [start] ∧
        start.startedAt = s.clock ∧ (s.nextPollAt discordUserId).getD 0 ≤ now ∧
        (s.startPolls env now).system.tasks[start.task]?.bind Task.poll? = some start.poll ∧
        (s.startPolls env now).nextPollAt discordUserId =
          some (start.startedAt + start.poll.interval env.settings) := by
  have hstarts : startsBetween discordUserId s (s.startPolls env now) = _ :=
    startsBetween_of_append discordUserId rfl
  by_cases hothers : ∀ p ∈ s.duePolls now, p.user.discordUserId ≠ discordUserId
  · exact .inl ⟨hstarts.trans (starts_of_others discordUserId hothers _),
      foldl_update_of_ne hothers _⟩
  · push Not at hothers
    obtain ⟨p, hp, huser⟩ := hothers
    have hdue := due_of_duePolls hp
    obtain ⟨before, after, hsplit⟩ := List.append_of_mem hp
    have hnodup := s.nodup_duePolls now
    rw [hsplit, List.map_append, List.map_cons, huser, List.nodup_middle, List.nodup_cons,
      List.mem_append, not_or] at hnodup
    have hothers : ∀ {polls : List Poll}, discordUserId ∉ polls.map (·.user.discordUserId) →
        ∀ q ∈ polls, q.user.discordUserId ≠ discordUserId := fun hnot q hq hsame =>
      hnot (List.mem_map.mpr ⟨q, hq, hsame⟩)
    refine .inr ⟨⟨s.system.tasks.length + before.length, p, s.clock⟩, ?_, rfl, huser ▸ hdue,
      ?_, ?_⟩
    · rw [hstarts, hsplit, List.map_append, List.map_cons, List.zipIdx_append, List.zipIdx_cons,
        List.filterMap_append, List.filterMap_cons,
        starts_of_others discordUserId (hothers hnodup.1.1),
        starts_of_others discordUserId (hothers hnodup.1.2), startOf_poll, if_pos huser,
        List.length_map]
      rfl
    · show ((s.system.tasks ++ (s.duePolls now).map _)[s.system.tasks.length + before.length]?).bind
        Task.poll? = some p
      rw [List.getElem?_append_right (Nat.le_add_right _ _), Nat.add_sub_cancel_left, hsplit,
        List.getElem?_map, List.getElem?_append_right le_rfl, Nat.sub_self]
      rfl
    · show (s.duePolls now).foldl _ s.nextPollAt discordUserId = _
      rw [hsplit, List.foldl_append, List.foldl_cons, foldl_update_of_ne (hothers hnodup.1.2),
        huser, Function.update_self]

/-- A step starts no poll of the user, or one that is due. -/
theorem step_starts {label : ℚ × CoordinatorEvent} (hs : s.Timely)
    (h : step api env s label = some s') :
    startsBetween discordUserId s s' = [] ∧
        s'.nextPollAt discordUserId = s.nextPollAt discordUserId ∨
      ∃ start, startsBetween discordUserId s s' = [start] ∧
        (s.nextPollAt discordUserId).getD 0 ≤ start.startedAt ∧
        s'.system.tasks[start.task]?.bind Task.poll? = some start.poll ∧
        s'.nextPollAt discordUserId =
          some (start.startedAt + start.poll.interval env.settings) := by
  obtain ⟨now, event⟩ := label
  obtain ⟨hnow, h⟩ := step_eq_some.mp h
  by_cases hevent : event = .loaded
  · subst hevent
    obtain ⟨loadedAt, hcycle, rfl⟩ := react_loaded.mp h
    refine (startPolls_starts discordUserId loadedAt).imp_right ?_
    rintro ⟨start, hstart, hclock, hdue, hrest⟩
    exact ⟨start, hstart, hclock ▸ (hdue.trans (hs loadedAt (.inr hcycle))).trans hnow, hrest⟩
  · have hstarts := startsBetween_eq_nil discordUserId h hevent
    exact .inl ⟨hstarts, congrFun (react_schedule h hevent).1 discordUserId⟩

/-- Each poll of the user starts when the interval of the one before is over, and the first one
when it is due. -/
theorem isChain_pollStarts {labels : List (ℚ × CoordinatorEvent)}
    (hrun : run (step api env) s labels = some s') (hs : s.Timely) :
    (pollStarts api env discordUserId s labels).IsChain
        (fun a b => a.startedAt + a.poll.interval env.settings ≤ b.startedAt) ∧
      ∀ first ∈ (pollStarts api env discordUserId s labels).head?,
        (s.nextPollAt discordUserId).getD 0 ≤ first.startedAt := by
  induction labels generalizing s with
  | nil => exact ⟨.nil, nofun⟩
  | cons label labels ih =>
    obtain ⟨m, hstep, hrest⟩ := (run_cons _).mp hrun
    obtain ⟨hchain, hfirst⟩ := ih hrest (hs.step hstep)
    rw [pollStarts_cons discordUserId hstep]
    rcases step_starts discordUserId hs hstep with ⟨hnone, hnext⟩ |
      ⟨start, hstart, hdue, -, hnext⟩
    · rw [hnone, List.nil_append, ← hnext]
      exact ⟨hchain, hfirst⟩
    · rw [hnext] at hfirst
      rw [hstart, List.singleton_append]
      exact ⟨.cons hchain hfirst, fun first hhead => Option.some.inj hhead ▸ hdue⟩

/-- The polls that a run has started are tasks of its last state. -/
theorem poll?_of_pollStarts {labels : List (ℚ × CoordinatorEvent)}
    (hrun : run (step api env) s labels = some s') (hs : s.Timely) {start : PollStart}
    (hstart : start ∈ pollStarts api env discordUserId s labels) :
    s'.system.tasks[start.task]?.bind Task.poll? = some start.poll := by
  induction labels generalizing s with
  | nil => cases hstart
  | cons label labels ih =>
    obtain ⟨m, hstep, hrest⟩ := (run_cons _).mp hrun
    rw [pollStarts_cons discordUserId hstep, List.mem_append] at hstart
    rcases hstart with hfirst | hlater
    · rcases step_starts discordUserId hs hstep with ⟨hnone, -⟩ |
        ⟨first, hone, -, hpoll, -⟩
      · rw [hnone] at hfirst
        cases hfirst
      · rw [hone, List.mem_singleton] at hfirst
        subst hfirst
        refine run_invariant _
          (I := fun s => s.system.tasks[start.task]?.bind Task.poll? = some start.poll)
          ?_ hrest hpoll
        exact fun s label s' hpoll hstep => react_poll? (step_eq_some.mp hstep).2 hpoll
    · exact ih hrest (hs.step hstep) hlater

/-- Widths that fit between points in a row fit between the first and the last point. -/
private theorem sum_dropLast_le_of_isChain {α : Type*} {point width : α → ℚ} {as : List α}
    (h : as.IsChain fun a b => point a + width a ≤ point b) {first last : α}
    (hfirst : as.head? = some first) (hlast : as.getLast? = some last) :
    (as.dropLast.map width).sum ≤ point last - point first := by
  induction as generalizing first with
  | nil => cases hfirst
  | cons a as ih =>
    obtain rfl := Option.some.inj hfirst
    cases as with
    | nil =>
      obtain rfl : a = last := Option.some.inj hlast
      rw [List.dropLast_singleton, List.map_nil, List.sum_nil, sub_self]
    | cons b as =>
      obtain ⟨hab, hchain⟩ := List.isChain_cons_cons.mp h
      have hrest := ih hchain rfl (List.getLast?_cons_cons.symm.trans hlast)
      rw [List.dropLast_cons_of_ne_nil (List.cons_ne_nil b as), List.map_cons, List.sum_cons]
      linarith

/-- Polls of a user in a row request no more pages before the last one starts than
`safe_requests_per_minute` allows for the time between the first start and the last. -/
theorem pagesFetched_le_budget {clock : ℚ} {labels : List (ℚ × CoordinatorEvent)}
    (hrun : run (step api env) (initial env clock) labels = some s) {row : List PollStart}
    (hrow : row <:+: pollStarts api env discordUserId (initial env clock) labels)
    {first last : PollStart} (hfirst : row.head? = some first) (hlast : row.getLast? = some last) :
    ((row.dropLast.map fun start => pagesFetched labels start.task).sum : ℚ) * 60 ≤
      env.settings.safeRequestsPerMinute * (last.startedAt - first.startedAt) := by
  have htimely : (initial env clock).Timely := fun now hcycle => hcycle.elim nofun nofun
  have hchain := List.IsChain.infix (isChain_pollStarts discordUserId hrun htimely).1 hrow
  have hspan := sum_dropLast_le_of_isChain hchain hfirst hlast
  have hsafe : (0 : ℚ) ≤ env.settings.safeRequestsPerMinute := by
    exact_mod_cast env.settings.safe_pos.le
  refine le_trans ?_ (mul_le_mul_of_nonneg_left hspan hsafe)
  rw [Nat.cast_list_sum, List.map_map, ← List.sum_map_mul_right, ← List.sum_map_mul_left]
  refine List.sum_le_sum fun start hstart => ?_
  have hstarted := hrow.subset (List.mem_of_mem_dropLast hstart)
  exact pagesFetched_le_interval hrun (poll?_of_pollStarts discordUserId hrun htimely hstarted)

/-- A poll requests one page, in two attempts, and the next poll starts after the interval. -/
def polledTwice : List (ℚ × CoordinatorEvent) :=
  [(0, .system (.operation (.authenticate 1 "a" 0))), (0, .system (.startAdd .elytra)),
    (0, .system (.commit 0 { ruleKey := 1 })), (0, .runOnce), (0, .pruned 0), (0, .loaded),
    (0, .request 1), (0, .client (.tryAcquire 0)),
    (0, .client (.respond 0 (.response ⟨503, none, none⟩) 0)), (1, .client (.nextAttempt 0)),
    (1, .client (.tryAcquire 0)), (1, .client (.respond 0
      (.response ⟨200, none, some (.object [("status", .int 0), ("result", .list [])])⟩) 1)),
    (1, .fetched 1 (.listing none 1 1)),
    (1, .system (.commit 1 { observationKey := 1, order := [1] })),
    (1, .system (.commit 1 { now := 1 })), (1, .returned), (3, .runOnce), (3, .loaded)]

theorem pagesFetched_le_budget_polledTwice : ∃ s first last,
    run (step twoDigitClient .plain) (initial .plain 0) polledTwice = some s ∧
    pollStarts twoDigitClient .plain 1 (initial .plain 0) polledTwice = [first, last] ∧
    first.startedAt = 0 ∧ last.startedAt = 3 ∧ pagesFetched polledTwice first.task = 1 ∧
    ((([first, last].dropLast.map fun start => pagesFetched polledTwice start.task).sum : ℕ) : ℚ) *
        60 ≤ 220 * (last.startedAt - first.startedAt) := by
  have hrun : (run (step twoDigitClient .plain) (initial .plain 0) polledTwice).isSome = true := by
    decide +kernel
  have hstarts : ((pollStarts twoDigitClient .plain 1 (initial .plain 0) polledTwice).map
      fun start => (start.task, start.startedAt)) = [(1, 0), (2, 3)] := by
    decide +kernel
  obtain ⟨s, hs⟩ := Option.isSome_iff_exists.mp hrun
  obtain ⟨first, rest, hsplit, hfirst, hrest⟩ := List.map_eq_cons_iff.mp hstarts
  obtain ⟨last, hlast⟩ := List.map_eq_singleton_iff.mp hrest
  obtain ⟨htask, hzero⟩ := Prod.mk.inj hfirst
  rw [hlast.1] at hsplit
  have hone : pagesFetched polledTwice first.task = 1 := by
    rw [htask]
    decide
  refine ⟨s, first, last, hs, hsplit, hzero, (Prod.mk.inj hlast.2).2, hone, ?_⟩
  exact pagesFetched_le_budget 1 hs (hsplit ▸ List.infix_rfl) rfl rfl

end Coordinator

end DonutMonitor
