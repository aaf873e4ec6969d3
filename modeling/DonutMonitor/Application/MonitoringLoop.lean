import DonutMonitor.Application.Coordinator
import DonutMonitor.Infrastructure.EndlessBlock

/-!
# Starting and stopping the monitoring loop

`MonitoringCoordinator.start` creates a task of `run_forever`, and `stop` asks it to end and waits
for it. A `Monitor` is the coordinator with any number of these tasks and of calls of `stop`. A task
that has been orphaned by a `start` in the course of a `stop` could share the coordinator with
another one; without such calls `run_once` never overlaps itself. After the one call of `start` that
the bot makes, the coordinator does what its model with a single loop does, and a `stop` that has
returned leaves no poll behind.

## Main definitions

* `LoopPhase`, `StopPhase` — the tasks of `run_forever` and the calls of `stop`.
* `Monitor`, `Monitor.step` — the coordinator with its tasks, and one step of it.

## Main results

* `Monitor.exclusive` — at most one task of `run_forever` is alive.
* `Monitor.refines` — after one `start`, the monitor refines the coordinator.
-/

namespace DonutMonitor

open Transition

/-- The event is one of `run_forever`. -/
def CoordinatorEvent.ofLoop : CoordinatorEvent → Bool
  | runOnce | pruned _ | loaded | raised | returned => true
  | system _ | request _ | nextPage _ | fetched _ _ | client _ => false

/-- The event is the beginning of `run_once`. -/
def CoordinatorEvent.isRunOnce : CoordinatorEvent → Bool
  | runOnce => true
  | _ => false

/-- Where a task of `run_forever` is: it has not run yet, or between two calls of `run_once` or in
one of them, or `_stopping` has woken it, or it has ended. -/
inductive LoopPhase where
  | created
  | running (cycle : CyclePhase)
  | woken
  | ended
  deriving DecidableEq

namespace LoopPhase

/-- The phase of the cycle, where a task that is about to test `_stopping` need not wait. -/
def cycle (now : ℚ) : LoopPhase → Option CyclePhase
  | created | woken => some (.sleeping now)
  | running cycle => some cycle
  | ended => none

/-- `_stopping.set()` wakes a task that waits for it. -/
def wake : LoopPhase → LoopPhase
  | running (.sleeping _) => woken
  | phase => phase

/-- The task after a step of its cycle. It does not wait for `_stopping` when this is set. -/
def ofCycle (stopping : Bool) : CyclePhase → LoopPhase
  | .sleeping wakeAt => if stopping then ended else running (.sleeping wakeAt)
  | cycle => running cycle

end LoopPhase

/-- Where a call of `stop` is: it waits for a task to end, or it has returned. -/
inductive StopPhase where
  | awaiting (loop : ℕ)
  | returned
  deriving DecidableEq

/-- The coordinator with its attributes `_stopping` and `_task`, the tasks of `run_forever` and the
calls of `stop`. The phase of the cycle in the coordinator is that of the task that ran last. -/
structure Monitor where
  coordinator : Coordinator
  stopping : Bool := false
  task : Option ℕ := none
  loops : List LoopPhase := []
  stops : List StopPhase := []

/-- What happens in a step. -/
inductive MonitorEvent where
  | start
  | stop
  /-- The task that a call of `stop` waits for has ended. -/
  | stopped (call : ℕ)
  /-- A task of `run_forever` goes on. -/
  | loop (now : ℚ) (i : ℕ) (event : CoordinatorEvent)
  /-- A command or a task of the services. -/
  | other (now : ℚ) (event : CoordinatorEvent)

namespace Coordinator

variable {api : DonutApiClient} {env : Environment} {s s' : Coordinator}
  {event : CoordinatorEvent}

/-- A loop that sleeps goes on with `run_once`. -/
theorem eq_runOnce (hevent : event.ofLoop = true) (h : react api env s event = some s')
    {wakeAt : ℚ} (hcycle : s.cycle = .sleeping wakeAt) : event = .runOnce := by
  cases event with
  | runOnce => rfl
  | pruned utcNow =>
    obtain ⟨_, _, hpruning, -⟩ := react_pruned.mp h
    cases hcycle.symm.trans hpruning
  | loaded =>
    obtain ⟨_, hloading, -⟩ := react_loaded.mp h
    cases hcycle.symm.trans hloading
  | raised =>
    obtain ⟨⟨_, hpruning⟩ | ⟨_, hloading⟩, -⟩ := react_raised.mp h
    · cases hcycle.symm.trans hpruning
    · cases hcycle.symm.trans hloading
  | returned =>
    obtain ⟨_, hpolling, -⟩ := react_returned.mp h
    cases hcycle.symm.trans hpolling
  | _ => cases hevent

/-- The commands and the tasks leave the loop alone. -/
theorem react_other (hevent : event.ofLoop = false) (h : react api env s event = some s') :
    s'.cycle = s.cycle ∧ s'.clock = s.clock := by
  cases event with
  | system label =>
    obtain ⟨-, system, -, rfl⟩ := react_system.mp h
    exact ⟨rfl, rfl⟩
  | request i =>
    obtain ⟨task, args, client, -, -, -, rfl⟩ := requestPage_eq_some.mp (react_request.mp h).2
    exact ⟨rfl, rfl⟩
  | nextPage i =>
    obtain ⟨fetch, call, payload, -, -, -, -, h⟩ := react_nextPage.mp h
    obtain ⟨task, args, client, -, -, -, rfl⟩ := requestPage_eq_some.mp h
    exact ⟨rfl, rfl⟩
  | fetched i outcome =>
    obtain ⟨fetch, call, system, -, -, -, -, rfl⟩ := react_fetched.mp h
    exact ⟨rfl, rfl⟩
  | client event =>
    obtain ⟨client, -, rfl⟩ := react_client.mp h
    exact ⟨rfl, rfl⟩
  | _ => cases hevent

end Coordinator

namespace Monitor

variable (api : DonutApiClient) (env : Environment)

/-- The monitor before it is started. -/
def initial (clock : ℚ) : Monitor where
  coordinator := .initial env clock

variable (s : Monitor)

/-- `self._task is None or self._task.done()`. -/
def taskDone : Bool :=
  match s.task with
  | none => true
  | some i => s.loops[i]? = some .ended

/-- `start`. -/
def start : Monitor :=
  if s.taskDone then
    { s with
      stopping := false
      task := some s.loops.length
      loops := s.loops ++ [.created] }
  else s

/-- `stop`, up to its return or its first suspension. -/
def stop : Monitor :=
  let s := { s with stopping := true, loops := s.loops.map .wake }
  match s.task with
  | none => { s with stops := s.stops ++ [.returned] }
  | some i =>
    if s.loops[i]? = some .ended then { s with task := none, stops := s.stops ++ [.returned] }
    else { s with stops := s.stops ++ [.awaiting i] }

/-- The monitor after a step, when the step is possible. -/
def step : MonitorEvent → Option Monitor
  | .start => some s.start
  | .stop => some s.stop
  | .stopped k =>
    match s.stops[k]? with
    | some (.awaiting i) =>
      if s.loops[i]? = some .ended then
        some { s with task := none, stops := s.stops.set k .returned }
      else none
    | _ => none
  | .loop now i event => do
    let phase ← s.loops[i]?
    let cycle ← phase.cycle now
    if event.ofLoop = false then none
    else if s.stopping && event.isRunOnce then
      -- `while not self._stopping.is_set()` ends
      match cycle with
      | .sleeping wakeAt =>
        if now < wakeAt then none else some { s with loops := s.loops.set i .ended }
      | _ => none
    else
      (Coordinator.step api env { s.coordinator with cycle := cycle } (now, event)).map fun c =>
        { s with
          coordinator := c
          loops := s.loops.set i (.ofCycle s.stopping c.cycle) }
  | .other now event =>
    if event.ofLoop then none
    else (Coordinator.step api env s.coordinator (now, event)).map fun c =>
      { s with coordinator := c }

/-- The task `i` of `run_forever` has not ended. -/
def Alive (i : ℕ) : Prop := ∃ phase, s.loops[i]? = some phase ∧ phase ≠ .ended

/-- `start` is not called while a call of `stop` waits. -/
def Calm (s : Monitor) : MonitorEvent → Prop
  | .start => ∀ call ∈ s.stops, call = .returned
  | _ => True

instance (s : Monitor) : ∀ event, Decidable (s.Calm event)
  | .start => inferInstanceAs (Decidable (∀ call ∈ s.stops, call = .returned))
  | .stop | .stopped _ | .loop _ _ _ | .other _ _ => isTrue trivial

variable {api env} {s s' : Monitor} {i j : ℕ}

/-! ### Inversion of steps -/

theorem stop_cases :
    (s.task = none ∧ s.stop = { s with
      stopping := true, loops := s.loops.map .wake, stops := s.stops ++ [.returned] }) ∨
    (∃ i, s.task = some i ∧ (s.loops.map LoopPhase.wake)[i]? = some .ended ∧ s.stop = { s with
      stopping := true, loops := s.loops.map .wake, task := none
      stops := s.stops ++ [.returned] }) ∨
    ∃ i, s.task = some i ∧ s.stop = { s with
      stopping := true, loops := s.loops.map .wake, stops := s.stops ++ [.awaiting i] } := by
  cases htask : s.task with
  | none =>
    refine .inl ⟨rfl, ?_⟩
    simp only [stop, htask]
  | some i =>
    by_cases hended : (s.loops.map LoopPhase.wake)[i]? = some .ended
    · refine .inr (.inl ⟨i, rfl, hended, ?_⟩)
      simp only [stop, htask, if_pos hended]
    · refine .inr (.inr ⟨i, rfl, ?_⟩)
      simp only [stop, htask, if_neg hended]

theorem step_stopped {k : ℕ} : s.step api env (.stopped k) = some s' ↔ ∃ i,
    s.stops[k]? = some (.awaiting i) ∧ s.loops[i]? = some .ended ∧
      s' = { s with task := none, stops := s.stops.set k .returned } := by
  simp only [step]
  cases s.stops[k]? with
  | none => simp
  | some phase => cases phase <;> simp [eq_comm (a := s')]

/-- A step of a task ends its loop or is one of its cycle. -/
theorem step_loop {now : ℚ} {event : CoordinatorEvent}
    (h : s.step api env (.loop now i event) = some s') :
    ∃ phase cycle, s.loops[i]? = some phase ∧ phase.cycle now = some cycle ∧
      event.ofLoop = true ∧
      (s.stopping = true ∧ s' = { s with loops := s.loops.set i .ended } ∧
          (∃ wakeAt, cycle = .sleeping wakeAt) ∨
        (s.stopping = true → event.isRunOnce = false) ∧
          ∃ c, Coordinator.step api env { s.coordinator with cycle } (now, event) = some c ∧
            s' = { s with
              coordinator := c
              loops := s.loops.set i (.ofCycle s.stopping c.cycle) }) := by
  obtain ⟨phase, hphase, h⟩ := Option.bind_eq_some_iff.mp h
  obtain ⟨cycle, hcycle, h⟩ := Option.bind_eq_some_iff.mp h
  refine ⟨phase, cycle, hphase, hcycle, ?_⟩
  split_ifs at h with hevent hstopping
  · obtain ⟨hstopping, -⟩ := Bool.and_eq_true_iff.mp hstopping
    cases cycle with
    | sleeping wakeAt =>
      dsimp only at h
      split_ifs at h
      exact ⟨by simpa using hevent, .inl ⟨hstopping, (Option.some.inj h).symm, wakeAt, rfl⟩⟩
    | _ => cases h
  · obtain ⟨c, hc, rfl⟩ := Option.map_eq_some_iff.mp h
    refine ⟨by simpa using hevent, .inr ⟨fun hs => ?_, c, hc, rfl⟩⟩
    simpa [hs] using hstopping

theorem step_other {now : ℚ} {event : CoordinatorEvent} :
    s.step api env (.other now event) = some s' ↔ event.ofLoop = false ∧
      ∃ c, Coordinator.step api env s.coordinator (now, event) = some c ∧
        s' = { s with coordinator := c } := by
  simp only [step]
  cases event.ofLoop <;> simp [eq_comm (a := s')]

/-! ### At most one loop -/

/-- A task that is alive is that of the attribute `_task`, and so is one that is waited for, as long
as there is one. -/
structure Exclusive (s : Monitor) : Prop where
  alive : ∀ i, s.Alive i → s.task = some i
  awaited : ∀ i, .awaiting i ∈ s.stops → s.task = some i ∨ s.task = none

theorem Exclusive.not_alive (hs : s.Exclusive) (hdone : s.taskDone = true) : ¬ s.Alive i := by
  intro hi
  have htask := hs.alive i hi
  obtain ⟨phase, hphase, hne⟩ := hi
  simp only [taskDone, htask, hphase, Option.some.injEq, decide_eq_true_eq] at hdone
  exact hne hdone

/-- A task that is alive after one of them has moved was alive before. -/
private theorem Alive.of_set {phase before : LoopPhase} (hbefore : s.loops[i]? = some before)
    (hne : before ≠ .ended) (hj : Alive { s with loops := s.loops.set i phase } j) :
    s.Alive j := by
  obtain ⟨after, hafter, hafter'⟩ := hj
  by_cases hij : i = j
  · exact ⟨before, hij ▸ hbefore, hne⟩
  · exact ⟨after, by rwa [List.getElem?_set_ne hij] at hafter, hafter'⟩

private theorem Alive.of_wake (hi : ∃ phase, (s.loops.map LoopPhase.wake)[i]? = some phase ∧
    phase ≠ .ended) : s.Alive i := by
  obtain ⟨phase, hphase, hne⟩ := hi
  rw [List.getElem?_map, Option.map_eq_some_iff] at hphase
  obtain ⟨before, hbefore, rfl⟩ := hphase
  exact ⟨before, hbefore, by rintro rfl; exact hne rfl⟩

theorem Exclusive.start (hs : s.Exclusive) (hcalm : ∀ call ∈ s.stops, call = .returned) :
    s.start.Exclusive := by
  rw [Monitor.start]
  split_ifs with hdone
  · refine ⟨fun i hi => ?_, fun i hi => nomatch hcalm _ hi⟩
    obtain ⟨phase, hphase, hne⟩ := hi
    rw [List.getElem?_append] at hphase
    split at hphase
    · exact absurd ⟨phase, hphase, hne⟩ (hs.not_alive hdone)
    · have hlength := (List.getElem?_eq_some_iff.mp hphase).1
      rw [List.length_singleton] at hlength
      show some s.loops.length = some i
      congr 1
      omega
  · exact hs

theorem Exclusive.stop (hs : s.Exclusive) : s.stop.Exclusive := by
  rcases s.stop_cases with ⟨htask, hstop⟩ | ⟨i, htask, hended, hstop⟩ | ⟨i, htask, hstop⟩
  · rw [hstop]
    exact ⟨fun i hi => hs.alive i (.of_wake hi), fun i hi => .inr htask⟩
  · rw [hstop]
    refine ⟨fun j hj => ?_, fun j hj => .inr rfl⟩
    obtain rfl := Option.some.inj (htask.symm.trans (hs.alive j (.of_wake hj)))
    obtain ⟨phase, hphase, hne⟩ := hj
    exact absurd (Option.some.inj (hphase.symm.trans hended)) hne
  · rw [hstop]
    refine ⟨fun j hj => hs.alive j (.of_wake hj), fun j hj => ?_⟩
    rcases List.mem_append.mp hj with hj | hj
    · exact hs.awaited j hj
    · obtain rfl := StopPhase.awaiting.inj (List.mem_singleton.mp hj)
      exact .inl htask

theorem Exclusive.step (hs : s.Exclusive) {event : MonitorEvent} (hcalm : s.Calm event)
    (h : s.step api env event = some s') : s'.Exclusive := by
  cases event with
  | start =>
    obtain rfl := Option.some.inj h
    exact hs.start hcalm
  | stop =>
    obtain rfl := Option.some.inj h
    exact hs.stop
  | stopped k =>
    obtain ⟨i, hawaiting, hended, rfl⟩ := step_stopped.mp h
    refine ⟨fun j hj => ?_, fun j _ => .inr rfl⟩
    have htask := hs.alive j hj
    obtain ⟨phase, hphase, hne⟩ := hj
    rcases hs.awaited i (List.mem_of_getElem? hawaiting) with hi | hnone
    · obtain rfl := Option.some.inj (hi.symm.trans htask)
      exact absurd (Option.some.inj (hphase.symm.trans hended)) hne
    · cases hnone.symm.trans htask
  | loop now i event =>
    obtain ⟨phase, cycle, hphase, hcycle, -, ⟨-, rfl, -⟩ | ⟨-, c, -, rfl⟩⟩ := step_loop h
    all_goals
      have hne : phase ≠ .ended := by
        rintro rfl
        cases hcycle
      exact ⟨fun j hj => hs.alive j (.of_set hphase hne hj), hs.awaited⟩
  | other now event =>
    obtain ⟨-, c, -, rfl⟩ := step_other.mp h
    exact ⟨hs.alive, hs.awaited⟩

/-- While `start` is not called in the course of a `stop`, at most one task of `run_forever` is
alive, so that `run_once` does not overlap itself, and none is once `stop` has cleared `_task`. -/
theorem exclusive {clock : ℚ} {events : List MonitorEvent}
    (hrun : run (step api env) (initial env clock) events = some s)
    (hcalm : Along (step api env) Calm (initial env clock) events) :
    (∀ i j, s.Alive i → s.Alive j → i = j) ∧ (s.task = none → ∀ i, ¬ s.Alive i) := by
  have hs := run_invariant_along (step api env) (I := Exclusive)
    (fun s event s' hs hcalm h => hs.step hcalm h) hcalm hrun
    ⟨fun i hi => by simp [Alive, initial] at hi, fun i hi => by simp [initial] at hi⟩
  refine ⟨fun i j hi hj => Option.some.inj ((hs.alive i hi).symm.trans (hs.alive j hj)), ?_⟩
  intro htask i hi
  cases htask.symm.trans (hs.alive i hi)

/-- The monitor is started, and stopped in the course of a cycle, and started again. -/
def restarted : List MonitorEvent :=
  [.start, .loop 0 0 .runOnce, .stop, .loop 1 0 .raised, .stopped 0, .start]

theorem exclusive_restarted : ∃ s,
    run (step ⟨DonutApiClient.twoDigitHeaders, 2⟩ .plain) (initial .plain 0) restarted = some s ∧
    Along (step ⟨DonutApiClient.twoDigitHeaders, 2⟩ .plain) Calm (initial .plain 0) restarted ∧
      (∀ i j, s.Alive i → s.Alive j → i = j) ∧ (s.task = none → ∀ i, ¬ s.Alive i) := by
  have hrun : (run (step ⟨DonutApiClient.twoDigitHeaders, 2⟩ .plain) (initial .plain 0)
      restarted).isSome = true := by
    decide +kernel
  obtain ⟨s, hs⟩ := Option.isSome_iff_exists.mp hrun
  have hcalm : Along (step ⟨DonutApiClient.twoDigitHeaders, 2⟩ .plain) Calm (initial .plain 0)
      restarted := by
    decide +kernel
  exact ⟨s, hs, hcalm, exclusive hs hcalm⟩

/-- A `start` in the course of a `stop` orphans its task, and the next `start` creates another. -/
example : ((run (step ⟨DonutApiClient.twoDigitHeaders, 2⟩ .plain) (initial .plain 0)
    [.start, .loop 0 0 .runOnce, .stop, .loop 1 0 .raised, .start, .stopped 0, .start]).map
      fun s => s.loops) = some [.ended, .created, .created] := by
  decide +kernel

/-! ### One start -/

/-- The monitor after the one call of `start`. -/
def started (env : Environment) (clock : ℚ) : Monitor := (initial env clock).start

/-- The cycle of the coordinator is where its task is. -/
def Follows (stopping : Bool) (c : Coordinator) : LoopPhase → Prop
  | .created => ∃ wakeAt ≤ c.clock, c.cycle = .sleeping wakeAt
  | .running cycle => c.cycle = cycle
  | .woken | .ended => stopping = true ∧ ∃ wakeAt, c.cycle = .sleeping wakeAt

/-- The coordinator is reachable with a single loop, and its cycle is where the one task is, which
has ended when a call of `stop` has returned. -/
structure Single (api : DonutApiClient) (env : Environment) (s : Monitor) (loop : LoopPhase) :
    Prop where
  loops : s.loops = [loop]
  task : s.task = some 0 ∨ s.task = none
  reachable : s.coordinator.Reachable api env
  follows : Follows s.stopping s.coordinator loop
  awaited : ∀ i, .awaiting i ∈ s.stops → i = 0
  returned : .returned ∈ s.stops ∨ s.task = none → loop = .ended

namespace Single

variable {loop : LoopPhase}

private theorem follows_wake {c : Coordinator} {stopping : Bool} (h : Follows stopping c loop) :
    Follows true c loop.wake := by
  cases loop with
  | created => exact h
  | running cycle =>
    cases cycle with
    | sleeping wakeAt => exact ⟨rfl, wakeAt, h⟩
    | _ => exact h
  | woken => exact ⟨rfl, h.2⟩
  | ended => exact ⟨rfl, h.2⟩

private theorem follows_ofCycle {c : Coordinator} {stopping : Bool} :
    Follows stopping c (.ofCycle stopping c.cycle) := by
  cases hcycle : c.cycle with
  | sleeping wakeAt =>
    cases stopping with
    | false => exact hcycle
    | true => exact ⟨rfl, wakeAt, hcycle⟩
  | _ => exact hcycle

/-- The coordinator sleeps when its task is about to test `_stopping`. -/
private theorem sleeping (hs : s.Single api env loop) {now wakeAt : ℚ}
    (hcycle : loop.cycle now = some (.sleeping wakeAt)) :
    ∃ wakeAt, s.coordinator.cycle = .sleeping wakeAt := by
  have hfollows := hs.follows
  cases loop with
  | created =>
    obtain ⟨wakeAt, -, hsleeping⟩ := hfollows
    exact ⟨wakeAt, hsleeping⟩
  | running cycle =>
    obtain rfl := Option.some.inj hcycle
    exact ⟨wakeAt, hfollows⟩
  | woken => exact hfollows.2
  | ended => cases hcycle

theorem stop (hs : s.Single api env loop) : s.stop.Single api env loop.wake := by
  have hloops : s.loops.map LoopPhase.wake = [loop.wake] := by rw [hs.loops]; rfl
  have hended : loop = .ended → loop.wake = .ended := by
    rintro rfl
    rfl
  rcases s.stop_cases with ⟨htask, hstop⟩ | ⟨i, htask, hi, hstop⟩ | ⟨i, htask, hstop⟩
  · rw [hstop]
    exact ⟨hloops, hs.task, hs.reachable, follows_wake hs.follows, fun i hi => by
      simpa using hs.awaited i (by simpa using hi), fun _ => hended (hs.returned (.inr htask))⟩
  · rw [hstop]
    refine ⟨hloops, .inr rfl, hs.reachable, follows_wake hs.follows, fun i hi =>
      hs.awaited i (by simpa using hi), fun _ => ?_⟩
    obtain rfl : i = 0 := by
      rcases hs.task with h | h
      · exact Option.some.inj (htask.symm.trans h)
      · cases htask.symm.trans h
    rw [hloops] at hi
    exact Option.some.inj hi
  · rw [hstop]
    refine ⟨hloops, hs.task, hs.reachable, follows_wake hs.follows, fun j hj => ?_, fun h => ?_⟩
    · rcases List.mem_append.mp hj with hj | hj
      · exact hs.awaited j hj
      · obtain rfl := StopPhase.awaiting.inj (List.mem_singleton.mp hj)
        rcases hs.task with h | h
        · exact Option.some.inj (htask.symm.trans h)
        · cases htask.symm.trans h
    · refine hended (hs.returned (h.imp_left fun hmem => ?_))
      simpa using hmem

theorem stopped (hs : s.Single api env loop) {k i : ℕ} (hk : s.stops[k]? = some (.awaiting i))
    (hi : s.loops[i]? = some .ended) :
    Single api env { s with task := none, stops := s.stops.set k .returned } loop := by
  obtain rfl := hs.awaited i (List.mem_of_getElem? hk)
  rw [hs.loops] at hi
  refine ⟨hs.loops, .inr rfl, hs.reachable, hs.follows, fun j hj => ?_, fun _ =>
    Option.some.inj hi⟩
  rcases List.mem_or_eq_of_mem_set hj with hj | hj
  · exact hs.awaited j hj
  · cases hj

/-- A step of the task of `run_forever`. -/
theorem cycle_step (hs : s.Single api env loop) {now : ℚ} {event : CoordinatorEvent}
    {cycle : CyclePhase} (hcycle : loop.cycle now = some cycle)
    (hstopping : s.stopping = true → event.isRunOnce = false) (hevent : event.ofLoop = true)
    {c : Coordinator}
    (hc : Coordinator.step api env { s.coordinator with cycle := cycle } (now, event) = some c) :
    s.coordinator.step api env (now, event) = some c := by
  have hfollows := hs.follows
  cases loop with
  | running cycle' =>
    obtain rfl := Option.some.inj hcycle
    obtain rfl := hfollows
    exact hc
  | ended => cases hcycle
  | created =>
    obtain rfl := Option.some.inj hcycle
    obtain ⟨wakeAt, hle, hsleeping⟩ := hfollows
    obtain ⟨hnow, hreact⟩ := Coordinator.step_eq_some.mp hc
    obtain rfl := Coordinator.eq_runOnce hevent hreact rfl
    obtain ⟨-, -, -, rfl⟩ := Coordinator.react_runOnce.mp hreact
    exact Coordinator.step_eq_some.mpr
      ⟨hnow, Coordinator.react_runOnce.mpr ⟨wakeAt, hsleeping, hle.trans hnow, rfl⟩⟩
  | woken =>
    obtain rfl := Option.some.inj hcycle
    obtain rfl := Coordinator.eq_runOnce hevent (Coordinator.step_eq_some.mp hc).2 rfl
    cases hstopping hfollows.1

theorem loop_step (hs : s.Single api env loop) {now : ℚ} {event : CoordinatorEvent} {i : ℕ}
    (h : s.step api env (.loop now i event) = some s') : ∃ loop', s'.Single api env loop' := by
  obtain ⟨phase, cycle, hphase, hcycle, hevent, hcases⟩ := step_loop h
  have hi : i = 0 ∧ phase = loop := by
    rw [hs.loops, List.getElem?_singleton] at hphase
    split_ifs at hphase with hi
    exact ⟨hi, (Option.some.inj hphase).symm⟩
  obtain ⟨rfl, rfl⟩ := hi
  have hloops : ∀ next, s.loops.set 0 next = [next] := fun next => by rw [hs.loops]; rfl
  rcases hcases with ⟨hstopping, rfl, wakeAt, rfl⟩ | ⟨hstopping, c, hc, rfl⟩
  · exact ⟨.ended, hloops .ended, hs.task, hs.reachable, ⟨hstopping, hs.sleeping hcycle⟩,
      hs.awaited, fun _ => rfl⟩
  · obtain ⟨clock, hreachable⟩ := hs.reachable
    have hstep := hs.cycle_step hcycle hstopping hevent hc
    refine ⟨_, hloops _, hs.task, ⟨clock, hreachable.tail hstep⟩, follows_ofCycle, hs.awaited,
      fun hreturned => ?_⟩
    obtain rfl := hs.returned hreturned
    cases hcycle

theorem other (hs : s.Single api env loop) {now : ℚ} {event : CoordinatorEvent}
    (h : s.step api env (.other now event) = some s') : s'.Single api env loop := by
  obtain ⟨hevent, c, hc, rfl⟩ := step_other.mp h
  obtain ⟨hnow, hreact⟩ := Coordinator.step_eq_some.mp hc
  obtain ⟨hcycle, hclock⟩ := Coordinator.react_other hevent hreact
  obtain ⟨clock, hreachable⟩ := hs.reachable
  refine ⟨hs.loops, hs.task, ⟨clock, hreachable.tail hc⟩, ?_, hs.awaited, hs.returned⟩
  have hfollows := hs.follows
  cases loop with
  | created =>
    obtain ⟨wakeAt, hle, hsleeping⟩ := hfollows
    exact ⟨wakeAt, (hle.trans hnow).trans hclock.ge, hcycle.trans hsleeping⟩
  | running cycle => exact hcycle.trans hfollows
  | woken => exact ⟨hfollows.1, hfollows.2.imp fun _ => hcycle.trans⟩
  | ended => exact ⟨hfollows.1, hfollows.2.imp fun _ => hcycle.trans⟩

theorem step (hs : s.Single api env loop) {event : MonitorEvent} (hevent : event ≠ .start)
    (h : s.step api env event = some s') : ∃ loop', s'.Single api env loop' := by
  cases event with
  | start => exact absurd rfl hevent
  | stop =>
    obtain rfl := Option.some.inj h
    exact ⟨_, hs.stop⟩
  | stopped k =>
    obtain ⟨i, hk, hi, rfl⟩ := step_stopped.mp h
    exact ⟨_, hs.stopped hk hi⟩
  | loop now i event => exact hs.loop_step h
  | other now event => exact ⟨_, hs.other h⟩

/-- No poll is at work once the task has ended. -/
theorem idle (hs : s.Single api env .ended) (i : ℕ) : s.coordinator.pollsAt i = false := by
  obtain ⟨-, wakeAt, hcycle⟩ := hs.follows
  exact hs.reachable.coherent.idle fun polls hpolls => by cases hcycle.symm.trans hpolls

end Single

/-- After the one call of `start`, the coordinator is one that a single loop leads to, and when a
call of `stop` has returned, no task of `run_forever` is alive and no poll is at work. -/
theorem refines {clock : ℚ} {events : List MonitorEvent} (hevents : .start ∉ events)
    (hrun : run (step api env) (started env clock) events = some s) :
    s.coordinator.Reachable api env ∧
      (.returned ∈ s.stops → (∀ i, ¬ s.Alive i) ∧ ∀ i, s.coordinator.pollsAt i = false) := by
  obtain ⟨loop, hs⟩ := run_invariant_along (step api env)
    (I := fun s => ∃ loop, s.Single api env loop) (P := fun _ event => event ≠ .start)
    (fun s event s' ⟨loop, hs⟩ hevent h => hs.step hevent h)
    (along_of_forall (step api env) fun event hevent hstart => hevents (hstart ▸ hevent)) hrun
    ⟨.created, rfl, .inl rfl, ⟨clock, .refl _⟩, ⟨clock, le_rfl, rfl⟩,
      fun i hi => by simp [started, initial, start, taskDone] at hi,
      fun h => by simp [started, initial, start, taskDone] at h⟩
  refine ⟨hs.reachable, fun hreturned => ?_⟩
  obtain rfl := hs.returned (.inl hreturned)
  refine ⟨fun i hi => ?_, hs.idle⟩
  obtain ⟨phase, hphase, hne⟩ := hi
  rw [hs.loops, List.getElem?_singleton] at hphase
  split_ifs at hphase
  exact hne (Option.some.inj hphase).symm

/-- The monitor is asked to stop while it polls a user who watches elytras. -/
def stoppedInPoll : List MonitorEvent :=
  [.other 0 (.system (.operation (.authenticate 1 "a" 0))), .other 0 (.system (.startAdd .elytra)),
    .other 0 (.system (.commit 0 { ruleKey := 1 })), .loop 0 0 .runOnce, .loop 0 0 (.pruned 0),
    .loop 0 0 .loaded, .stop]

/-- The poll makes its request and processes the page, and the loop ends. -/
def pollEnds : List MonitorEvent :=
  [.other 0 (.request 1), .other 0 (.client (.tryAcquire 0)),
    .other 1 (.client (.respond 0
      (.response ⟨200, none, some (.object [("status", .int 0), ("result", .list [])])⟩) 1)),
    .other 1 (.fetched 1 (.listing none 1 1)),
    .other 1 (.system (.commit 1 { observationKey := 1, order := [1] })),
    .other 1 (.system (.commit 1 { now := 1 })), .loop 1 0 .returned, .stopped 0]

/-- The call of `stop` waits for the poll, and nothing is left when it has returned. -/
theorem refines_stoppedInPoll : ∃ s s',
    run (step ⟨DonutApiClient.twoDigitHeaders, 2⟩ .plain) (started .plain 0) stoppedInPoll =
      some s ∧ s.stops = [.awaiting 0] ∧ s.coordinator.pollsAt 1 = true ∧
    run (step ⟨DonutApiClient.twoDigitHeaders, 2⟩ .plain) s pollEnds = some s' ∧
    s'.stops = [.returned] ∧ s'.coordinator.Reachable ⟨DonutApiClient.twoDigitHeaders, 2⟩ .plain ∧
    (∀ i, ¬ s'.Alive i) ∧ ∀ i, s'.coordinator.pollsAt i = false := by
  have hrun : ((run (step ⟨DonutApiClient.twoDigitHeaders, 2⟩ .plain) (started .plain 0)
      stoppedInPoll).bind fun s =>
        (run (step ⟨DonutApiClient.twoDigitHeaders, 2⟩ .plain) s pollEnds).map fun s' =>
          (s.stops, s.coordinator.pollsAt 1, s'.stops)) =
      some ([.awaiting 0], true, [.returned]) := by
    decide +kernel
  obtain ⟨s, hs, hrest⟩ := Option.bind_eq_some_iff.mp hrun
  obtain ⟨s', hs', hfacts⟩ := Option.map_eq_some_iff.mp hrest
  simp only [Prod.mk.injEq] at hfacts
  obtain ⟨hwaits, hpolls, hreturned⟩ := hfacts
  have hevents : .start ∉ stoppedInPoll ++ pollEnds := by simp [stoppedInPoll, pollEnds]
  obtain ⟨hreachable, hstopped⟩ := refines hevents ((run_append _).mpr ⟨s, hs, hs'⟩)
  obtain ⟨halive, hidle⟩ := hstopped (by simp [hreturned])
  exact ⟨s, s', hs, hwaits, hpolls, hs', hreturned, hreachable, halive, hidle⟩

end Monitor

end DonutMonitor
