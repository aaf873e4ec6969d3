import DonutMonitor.Foundations.Transition
import DonutMonitor.Persistence.Store

/-!
# The life of a rule

What the transactions of the services mean for one rule. A rule is created from the values of a
draft; it is paused and resumed, evaluated while it is enabled, and deleted; afterwards a new rule
may take its key. The events of a rule determine its row and its notifications: `RuleLife.step`
computes both, and is the specification that the transactions on the database refine.

## Main definitions

* `RuleEvent`, `RuleLife.step` — the events of a rule and their effect.
* `WatchRule.evaluate`, `WatchRule.alert` — the evaluation of an observation and its alert.
* `RuleView.observe` — the rule after an evaluation.

## Main results

* `RuleLife.run_remains`, `RuleLife.run_enabled` — a rule remains, with its terms, until it is
  deleted, and enabled until it is retired.
-/

namespace DonutMonitor

open Transition

/-- What a transaction does to a rule. -/
inductive RuleEvent where
  | created (id : ℕ) (draft : RuleDraft)
  | enabledSet (enabled : Bool)
  | deleted
  | evaluated (observation : Observation)
  deriving DecidableEq

/-- The event takes a rule out of service: it pauses or deletes it. -/
def RuleEvent.Retires : RuleEvent → Prop
  | .deleted | .enabledSet false => True
  | _ => False

namespace WatchRule

variable (ctx : DecimalContext) (rule : WatchRule) (o : Observation)

/-- The evaluation of an observation by a stored rule. -/
def evaluate : Evaluation := rule.thresholdRule.evaluate ctx rule.watchState o

/-- The price and the previous price of the alert that an observation gives rise to. -/
def alert : Option (ℚ × Option ℚ) :=
  if (rule.evaluate ctx o).triggered then o.price.map fun price => (price, rule.lastObservedPrice)
  else none

/-- The row after an observation. -/
def observe : WatchRule := rule.withEvaluation (rule.evaluate ctx o) o.price o.observedAt

theorem alert_eq_some {ctx : DecimalContext} {rule : WatchRule} {o : Observation}
    {alert : ℚ × Option ℚ} :
    rule.alert ctx o = some alert ↔ (rule.evaluate ctx o).triggered = true ∧
      o.price = some alert.1 ∧ alert.2 = rule.lastObservedPrice := by
  obtain ⟨price, previousPrice⟩ := alert
  rw [WatchRule.alert]
  split_ifs with h
  · simp only [Option.map_eq_some_iff, Prod.mk.injEq, h, true_and]
    constructor
    · rintro ⟨p, hp, rfl, rfl⟩
      exact ⟨hp, rfl⟩
    · rintro ⟨hp, rfl⟩
      exact ⟨price, hp, rfl, rfl⟩
  · simp [h]

/-- The observations from which a rule in the given state alerts. -/
def AbleToAlert : Prop :=
  ∃ price, o.price = some price ∧ rule.thresholdRule.Matches price ∧
    cooldownReady rule.lastTriggeredAt o.observedAt rule.cooldownSeconds = true ∧
    (rule.currentState = rule.condition.armedState ∨
      rule.currentState = .unknown ∧ o.notifyInitial = true)

theorem alert_isSome : (rule.alert ctx o).isSome ↔ rule.AbleToAlert o := by
  constructor
  · intro h
    obtain ⟨alert, halert⟩ := Option.isSome_iff_exists.mp h
    obtain ⟨price, hprice, hmatches, hready, -, hstate⟩ :=
      evaluateThreshold_triggered (alert_eq_some.mp halert).1
    exact ⟨price, hprice, hmatches, hready, hstate⟩
  · rintro ⟨price, hprice, hmatches, hready, hstate⟩
    have htriggered : (rule.evaluate ctx o).triggered = true := by
      rw [evaluate, ThresholdRule.evaluate, hprice]
      exact evaluateThreshold_triggers hmatches hready hstate
    rw [alert, if_pos htriggered, hprice]
    rfl

theorem lastTriggeredAt_observe :
    (rule.observe ctx o).lastTriggeredAt =
      if (rule.alert ctx o).isSome then some o.observedAt else rule.lastTriggeredAt := by
  simp only [observe, withEvaluation, alert]
  by_cases h : (rule.evaluate ctx o).triggered = true <;> simp [h]

@[simp] theorem observe_id : (rule.observe ctx o).id = rule.id := rfl

@[simp] theorem observe_enabled : (rule.observe ctx o).enabled = rule.enabled := rfl

@[simp] theorem observe_discordUserId :
    (rule.observe ctx o).discordUserId = rule.discordUserId := rfl

@[simp] theorem observe_request : (rule.observe ctx o).request = rule.request := rfl

@[simp] theorem observe_thresholdRule :
    (rule.observe ctx o).thresholdRule = rule.thresholdRule := rfl

@[simp] theorem observe_lastObservedPrice :
    (rule.observe ctx o).lastObservedPrice = o.price := rfl

@[simp] theorem observe_currentState :
    (rule.observe ctx o).currentState = (rule.evaluate ctx o).state := rfl

end WatchRule

/-- The rule after an observation, with the alert that the observation gives rise to. -/
def RuleView.observe (ctx : DecimalContext) (v : RuleView) (o : Observation) : RuleView where
  rule := v.rule.observe ctx o
  alerts := v.alerts ++ (v.rule.alert ctx o).toList

namespace RuleLife

/-- The effect of an event on the rule under a key, when there is one. -/
def step (ctx : DecimalContext) : Option RuleView → RuleEvent → Option (Option RuleView)
  | none, .created id draft => some (some ⟨draft.row id, []⟩)
  | some v, .enabledSet enabled => some (some ⟨v.rule.withEnabled enabled, v.alerts⟩)
  | some _, .deleted => some none
  | some v, .evaluated o => if v.rule.enabled then some (some (v.observe ctx o)) else none
  | _, _ => none

variable {ctx : DecimalContext} {view view' : Option RuleView} {v : RuleView}

@[simp] theorem step_created (id : ℕ) (draft : RuleDraft) :
    step ctx view (.created id draft) = some view' ↔
      view = none ∧ view' = some ⟨draft.row id, []⟩ := by
  cases view <;> simp [step, eq_comm]

@[simp] theorem step_enabledSet (enabled : Bool) :
    step ctx view (.enabledSet enabled) = some view' ↔
      ∃ v, view = some v ∧ view' = some ⟨v.rule.withEnabled enabled, v.alerts⟩ := by
  cases view <;> simp [step, eq_comm]

@[simp] theorem step_deleted :
    step ctx view .deleted = some view' ↔ (∃ v, view = some v) ∧ view' = none := by
  cases view <;> simp [step, eq_comm]

@[simp] theorem step_evaluated (o : Observation) :
    step ctx view (.evaluated o) = some view' ↔
      ∃ v, view = some v ∧ v.rule.enabled = true ∧ view' = some (v.observe ctx o) := by
  cases view with
  | none => simp [step]
  | some v =>
    by_cases h : v.rule.enabled = true
    · simp only [step, h, if_true, Option.some.injEq, exists_eq_left', true_and]
      exact eq_comm
    · simp [step, h]

/-- Nothing changes what a rule watches. -/
theorem step_terms {v' : RuleView} {e : RuleEvent} (h : step ctx (some v) e = some (some v')) :
    v'.rule.id = v.rule.id ∧ v'.rule.discordUserId = v.rule.discordUserId ∧
      v'.rule.request = v.rule.request ∧ v'.rule.thresholdRule = v.rule.thresholdRule := by
  cases e with
  | created id draft => exact absurd ((step_created id draft).mp h).1 (by simp)
  | enabledSet enabled =>
    obtain ⟨w, hw, hv⟩ := (step_enabledSet enabled).mp h
    obtain rfl := Option.some.inj hw
    obtain rfl := Option.some.inj hv
    simp
  | deleted => exact absurd (step_deleted.mp h).2 (by simp)
  | evaluated o =>
    obtain ⟨w, hw, -, hv⟩ := (step_evaluated o).mp h
    obtain rfl := Option.some.inj hw
    obtain rfl := Option.some.inj hv
    exact ⟨rfl, rfl, rfl, rfl⟩

/-- A rule remains until it is deleted. -/
theorem step_remains {e : RuleEvent} (h : step ctx (some v) e = some view') (he : e ≠ .deleted) :
    ∃ v', view' = some v' := by
  cases e with
  | created id draft => exact absurd ((step_created id draft).mp h).1 (by simp)
  | enabledSet enabled =>
    obtain ⟨w, -, hv⟩ := (step_enabledSet enabled).mp h
    exact ⟨_, hv⟩
  | deleted => exact absurd rfl he
  | evaluated o =>
    obtain ⟨w, -, -, hv⟩ := (step_evaluated o).mp h
    exact ⟨_, hv⟩

/-- Along events none of which deletes it, a rule remains and keeps its terms. -/
theorem run_remains {events : List RuleEvent} (h : run (step ctx) (some v) events = some view')
    (hkept : ∀ e ∈ events, e ≠ .deleted) :
    ∃ v', view' = some v' ∧ v'.rule.id = v.rule.id ∧
      v'.rule.discordUserId = v.rule.discordUserId ∧ v'.rule.request = v.rule.request ∧
      v'.rule.thresholdRule = v.rule.thresholdRule := by
  induction events generalizing v with
  | nil =>
    obtain rfl := Option.some.inj h
    exact ⟨v, rfl, rfl, rfl, rfl, rfl⟩
  | cons e events ih =>
    obtain ⟨view, hstep, hrun⟩ := (run_cons _).mp h
    obtain ⟨w, rfl⟩ := step_remains hstep (hkept e List.mem_cons_self)
    obtain ⟨hid, huser, hrequest, hterms⟩ := step_terms hstep
    obtain ⟨v', rfl, hid', huser', hrequest', hterms'⟩ :=
      ih hrun fun e he => hkept e (List.mem_cons_of_mem _ he)
    exact ⟨v', rfl, hid'.trans hid, huser'.trans huser, hrequest'.trans hrequest,
      hterms'.trans hterms⟩

/-- An enabled rule stays enabled along events none of which retires it. -/
theorem run_enabled {events : List RuleEvent} (h : run (step ctx) (some v) events = some view')
    (hkept : ∀ e ∈ events, ¬ e.Retires) (henabled : v.rule.enabled = true) :
    ∃ v', view' = some v' ∧ v'.rule.enabled = true := by
  induction events generalizing v with
  | nil =>
    obtain rfl := Option.some.inj h
    exact ⟨v, rfl, henabled⟩
  | cons e events ih =>
    obtain ⟨view, hstep, hrun⟩ := (run_cons _).mp h
    have hne : e ≠ .deleted := fun he => hkept e List.mem_cons_self (he ▸ trivial)
    obtain ⟨w, rfl⟩ := step_remains hstep hne
    refine ih hrun (fun e he => hkept e (List.mem_cons_of_mem _ he)) ?_
    cases e with
    | created id draft => exact absurd ((step_created id draft).mp hstep).1 (by simp)
    | enabledSet enabled =>
      obtain ⟨w', -, hw⟩ := (step_enabledSet enabled).mp hstep
      obtain rfl := Option.some.inj hw
      cases enabled with
      | true => rfl
      | false => exact (hkept _ List.mem_cons_self trivial).elim
    | deleted => exact (hne rfl).elim
    | evaluated o =>
      obtain ⟨w', -, henabled', hw⟩ := (step_evaluated o).mp hstep
      obtain rfl := Option.some.inj hw
      exact henabled'

end RuleLife

end DonutMonitor
