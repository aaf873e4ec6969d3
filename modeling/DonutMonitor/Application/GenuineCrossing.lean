import DonutMonitor.Application.History
import DonutMonitor.Domain.DeadBand

/-!
# Alerts report genuine crossings

A resume resets the state of a rule but keeps the price it saw last, and a missing listing changes
both. An armed rule nevertheless has seen a price on the non-matching side of its threshold since
it was created or resumed, and that price is the one in the row. An alert other than the initial
one is raised from the armed state only, so that its previous price is of this kind.

This takes that the rule has seen no price on both sides. Without hysteresis the re-arm price is the
rounded threshold, and a price that matches may be beyond it.

## Main definitions

* `RuleEvent.Activates`, `ObservedSinceActivation` — creations and resumes, and the prices that
  the processing of a snapshot recorded since the latest one.
* `AlertEvent.Crosses` — the two prices of an alert lie on the two sides of the threshold.

## Main results

* `Database.alerts_cross` — the alerts of every processed snapshot, in every reachable database.
* `Database.not_alerts_cross` — at a threshold of 29 digits.
-/

namespace DonutMonitor

open Transition

/-- The event makes a rule start afresh: it creates or resumes it. -/
def RuleEvent.Activates : RuleEvent → Prop
  | .created _ _ | .enabledSet true => True
  | _ => False

/-- The price was evaluated by the rule, which has neither been created nor resumed since. -/
def ObservedSinceActivation (events : List RuleEvent) (price : ℚ) : Prop :=
  ∃ before o after, events = before ++ .evaluated o :: after ∧ o.price = some price ∧
    ∀ e ∈ after, ¬ e.Activates

theorem ObservedSinceActivation.concat {events : List RuleEvent} {price : ℚ} {e : RuleEvent}
    (h : ObservedSinceActivation events price) (he : ¬ e.Activates) :
    ObservedSinceActivation (events ++ [e]) price := by
  obtain ⟨before, o, after, rfl, hprice, hafter⟩ := h
  refine ⟨before, o, after ++ [e], by simp, hprice, fun e' he' => ?_⟩
  rcases List.mem_append.mp he' with he' | he'
  · exact hafter e' he'
  · exact List.mem_singleton.mp he' ▸ he

/-- The previous price lies strictly on the non-matching side of the threshold and the current one
on the matching side. -/
def AlertEvent.Crosses (event : AlertEvent) (previous : ℚ) : Prop :=
  match event.condition with
  | .priceDown => event.threshold < previous ∧ event.currentPrice ≤ event.threshold
  | .priceUp => previous < event.threshold ∧ event.threshold ≤ event.currentPrice

/-- An armed rule has seen the price in its row since it was created or resumed, on the
non-matching side of the threshold unless it was on both sides. -/
def ArmedByPrice (ctx : DecimalContext) (events : List RuleEvent) (view : Option RuleView) : Prop :=
  ∀ v, view = some v → v.rule.currentState = v.rule.condition.armedState →
    ∃ price, v.rule.lastObservedPrice = some price ∧ ObservedSinceActivation events price ∧
      (v.rule.thresholdRule.OnOneSide ctx price → ¬ v.rule.thresholdRule.Matches price)

variable {ctx : DecimalContext}

private theorem armedByPrice_step {events : List RuleEvent} {view view' : Option RuleView}
    {e : RuleEvent} (h : ArmedByPrice ctx events view)
    (hstep : RuleLife.step ctx view e = some view') :
    ArmedByPrice ctx (events ++ [e]) view' := by
  intro v hv harmed
  subst hv
  cases e with
  | created id draft =>
    obtain ⟨-, hv⟩ := (RuleLife.step_created id draft).mp hstep
    obtain rfl := Option.some.inj hv
    exact absurd harmed.symm (Condition.armedState_ne_unknown _)
  | enabledSet enabled =>
    obtain ⟨w, rfl, hv⟩ := (RuleLife.step_enabledSet enabled).mp hstep
    obtain rfl := Option.some.inj hv
    cases enabled with
    | true => exact absurd harmed.symm (Condition.armedState_ne_unknown _)
    | false =>
      obtain ⟨price, hprice, hobserved, hother⟩ := h w rfl harmed
      exact ⟨price, hprice, hobserved.concat id, hother⟩
  | deleted =>
    obtain ⟨-, hv⟩ := RuleLife.step_deleted.mp hstep
    cases hv
  | evaluated o =>
    obtain ⟨w, -, -, hv⟩ := (RuleLife.step_evaluated o).mp hstep
    obtain rfl := Option.some.inj hv
    obtain ⟨price, hprice, hother⟩ := evaluateThreshold_armed_state harmed
    exact ⟨price, hprice, ⟨events, o, [], rfl, hprice, by simp⟩, hother⟩

private theorem armedByPrice_run {events : List RuleEvent} {view : Option RuleView}
    (hrun : run (RuleLife.step ctx) none events = some view) : ArmedByPrice ctx events view := by
  induction events using List.reverseRecOn generalizing view with
  | nil =>
    obtain rfl := Option.some.inj hrun
    intro v hv
    cases hv
  | append_singleton events e ih =>
    obtain ⟨view', hview', hstep⟩ := (run_append _).mp hrun
    exact armedByPrice_step (ih hview') ((run_singleton _).mp hstep)

/-- The alert of a rule comes from the armed state unless it is the initial one; it crosses the
threshold from any price on the non-matching side. -/
private theorem alert_crosses {rule : WatchRule} {o : Observation} {price : ℚ}
    {previousPrice : Option ℚ} (halert : rule.alert ctx o = some (price, previousPrice)) :
    rule.thresholdRule.Matches price ∧ previousPrice = rule.lastObservedPrice ∧
      (o.notifyInitial = false → rule.currentState = rule.condition.armedState) := by
  obtain ⟨htriggered, hprice, hprevious⟩ := WatchRule.alert_eq_some.mp halert
  obtain ⟨price', hprice', hmatches, -, -, hstate⟩ := evaluateThreshold_triggered htriggered
  obtain rfl := Option.some.inj (hprice'.symm.trans hprice)
  refine ⟨hmatches, hprevious, fun hinitial => ?_⟩
  rcases hstate with harmed | ⟨-, hnotify⟩
  · exact harmed
  · exact absurd hnotify (by simp [hinitial])

private theorem crosses_iff (event : AlertEvent) (rule : WatchRule) (previous : ℚ)
    (hcondition : event.condition = rule.condition)
    (hthreshold : event.threshold = rule.threshold) :
    event.Crosses previous ↔ ¬ rule.thresholdRule.Matches previous ∧
      rule.thresholdRule.Matches event.currentPrice := by
  rw [AlertEvent.Crosses, hcondition, hthreshold]
  simp only [ThresholdRule.Matches, WatchRule.thresholdRule]
  cases rule.condition with
  | priceDown => simp only [not_le]
  | priceUp => simp only [not_le]

namespace Database

variable {env : Environment}

/-- Every alert that the processing of a snapshot creates, for a rule other than the one whose
initial match is notified, reports a crossing: its previous price was observed since the rule was
created or resumed and lies strictly on the non-matching side of the threshold, its current price
on the matching side. None of the prices observed since then is on both sides. -/
theorem alerts_cross {db db' : Database} (hdb : Reachable env db) {origin : Option ℕ}
    {call : ProcessCall} {observationKey : ℕ} {notificationKey : ℕ → ℕ}
    {events : List (AlertEvent × ℕ)}
    (hcommit : db.commit env origin (.process call observationKey notificationKey) =
      .ok (.alerts events, db')) :
    ∀ e ∈ events, call.notifyInitialRuleId ≠ some e.1.databaseRuleId →
      (∀ v price, db.store.view e.1.databaseRuleId = some v →
        ObservedSinceActivation (db.ruleEvents e.1.databaseRuleId) price →
          v.rule.thresholdRule.OnOneSide env.decimal price) →
        ∃ previous, e.1.previousPrice = some previous ∧ e.1.Crosses previous ∧
          ObservedSinceActivation (db.ruleEvents e.1.databaseRuleId) previous := by
  intro e he hinitial honeSide
  obtain ⟨hexec, -⟩ := commit_eq_ok.mp hcommit
  obtain ⟨progress, hprocess, hanswer⟩ := Except.bind_eq_ok.mp hexec
  obtain ⟨hevents, -⟩ := Prod.mk.inj (Except.ok.inj hanswer)
  obtain rfl := Answer.alerts.inj hevents
  obtain ⟨-, hreported, -⟩ := RuleProcessor.process_ok hprocess
  obtain ⟨id, v, hv, -, hreports⟩ := hreported e he
  obtain ⟨displayId, price, halert, hevent⟩ := hreports
  obtain ⟨hmatches, -, harmed⟩ := alert_crosses halert
  have hrule : e.1.databaseRuleId = v.rule.id := by rw [hevent]; rfl
  have hthreshold : e.1.threshold = v.rule.threshold := by rw [hevent]; rfl
  have hnotify : (call.observation v.rule.id).notifyInitial = false :=
    decide_eq_false fun h => hinitial (hrule ▸ h.symm)
  obtain rfl : e.1.databaseRuleId = id := hrule.trans (Store.id_of_view hv)
  obtain ⟨previous, hprevious, hobserved, hother⟩ :=
    armedByPrice_run (hdb.view_eq _) v hv (harmed hnotify)
  refine ⟨previous, by rw [hevent]; exact hprevious, ?_, hobserved⟩
  rw [crosses_iff e.1 v.rule previous (by rw [hevent]; rfl) hthreshold]
  exact ⟨hother (honeSide v previous hv hobserved), by rw [hevent]; exact hmatches⟩

/-- The processing of elytra prices for rule 1 of user 1. -/
def elytraCall (price : Option {q : ℚ // 0 ≤ q}) (checkedAt : ℚ) : ProcessCall where
  discordUserId := 1
  ruleIds := [1]
  snapshot := .elytra price checkedAt
  nodup := by decide

/-- A rule that saw 101 and then 99 has an alert, and it reports the crossing. -/
theorem alerts_cross_elytra :
    ∃ db events db',
      run (step .plain) {} [(none, .saveValidToken 1 "token" "key"), (none, .create .elytra 1),
        (none, .process (elytraCall (some ⟨101, by decide⟩) 0) 1 fun _ => 1)] = some db ∧
      db.commit .plain none (.process (elytraCall (some ⟨99, by decide⟩) 10) 2 fun _ => 1) =
        .ok (.alerts events, db') ∧
      events.map (fun e => (e.1.databaseRuleId, e.1.previousPrice, e.1.currentPrice)) =
        [(1, some 101, 99)] ∧
      ∀ e ∈ events, ∃ previous, e.1.previousPrice = some previous ∧ e.1.Crosses previous ∧
        ObservedSinceActivation (db.ruleEvents e.1.databaseRuleId) previous := by
  have hrun : ((run (step .plain) {} [(none, .saveValidToken 1 "token" "key"),
      (none, .create .elytra 1),
      (none, .process (elytraCall (some ⟨101, by decide⟩) 0) 1 fun _ => 1)]).bind fun db =>
        match db.commit .plain none
          (.process (elytraCall (some ⟨99, by decide⟩) 10) 2 fun _ => 1) with
        | .ok (.alerts events, _) => some (events.map fun e =>
            (e.1.databaseRuleId, e.1.previousPrice, e.1.currentPrice))
        | _ => none) = some [(1, some 101, 99)] := by
    decide +kernel
  obtain ⟨db, hdb, hcommit⟩ := Option.bind_eq_some_iff.mp hrun
  split at hcommit
  · next events db' hevents =>
    have hprices := Option.some.inj hcommit
    refine ⟨db, events, db', hdb, hevents, hprices, fun e he => ?_⟩
    exact alerts_cross ⟨_, hdb⟩ hevents e he (by simp [elytraCall]) fun v price _ _ =>
      ThresholdRule.onOneSide_of_kept rfl v.rule.threshold_pos.le v.rule.hysteresis_nonneg price
  · cases hcommit

end Database

/-! ### A threshold of 29 digits -/

/-- The arithmetic rounds this threshold down to `10 ^ 20`. -/
def longThreshold : ℚ := 10 ^ 20 + 1 / 10 ^ 8

theorem longThreshold_pos : 0 < longThreshold := by decide +kernel

/-- A deployment without hysteresis, with decimal arithmetic of 28 digits. -/
def Environment.withoutHysteresis : Environment :=
  { Environment.plain with
    settings := .withoutHysteresis
    decimal := defaultContext }

/-- The rule of `RuleDraft.elytra` with the long threshold, in this deployment. -/
def RuleDraft.atLongThreshold : RuleDraft :=
  { RuleDraft.elytra with
    threshold := longThreshold
    hysteresisPercent := Settings.withoutHysteresis.defaultHysteresisPercent
    threshold_pos := longThreshold_pos
    hysteresis_nonneg := Settings.withoutHysteresis.hysteresis_nonneg }

namespace Database

/-- The rule sees 50, its threshold and 50 again. The threshold matches as 50 does, and arms the
rule nevertheless, so that the last price raises an alert. -/
theorem not_alerts_cross :
    ¬ ∀ (db db' : Database), Reachable .withoutHysteresis db →
      ∀ (origin : Option ℕ) (call : ProcessCall) (observationKey : ℕ) (notificationKey : ℕ → ℕ)
        (events : List (AlertEvent × ℕ)),
        db.commit .withoutHysteresis origin (.process call observationKey notificationKey) =
          .ok (.alerts events, db') →
        ∀ e ∈ events, call.notifyInitialRuleId ≠ some e.1.databaseRuleId →
          ∃ previous, e.1.previousPrice = some previous ∧ e.1.Crosses previous ∧
            ObservedSinceActivation (db.ruleEvents e.1.databaseRuleId) previous := by
  intro h
  have hrun : ((run (step .withoutHysteresis) {} [(none, .saveValidToken 1 "token" "key"),
      (none, .create .atLongThreshold 1),
      (none, .process (elytraCall (some ⟨50, by decide⟩) 0) 1 fun _ => 1),
      (none, .process (elytraCall (some ⟨longThreshold, longThreshold_pos.le⟩) 3) 2
        fun _ => 1)]).bind fun db =>
      match db.commit .withoutHysteresis none
        (.process (elytraCall (some ⟨50, by decide⟩) 6) 3 fun _ => 1) with
      | .ok (.alerts events, _) => some (events.map fun e =>
          (e.1.condition, e.1.threshold, e.1.previousPrice))
      | _ => none) = some [(.priceDown, longThreshold, some longThreshold)] := by
    decide +kernel
  obtain ⟨db, hdb, hcommit⟩ := Option.bind_eq_some_iff.mp hrun
  split at hcommit
  · next events db' hevents =>
    obtain ⟨e, rfl, he⟩ := List.map_eq_singleton_iff.mp (Option.some.inj hcommit)
    obtain ⟨hcondition, hthreshold, hprevious⟩ : e.1.condition = .priceDown ∧
        e.1.threshold = longThreshold ∧ e.1.previousPrice = some longThreshold := by
      simpa using he
    obtain ⟨previous, hprevious', hcrosses, -⟩ :=
      h db db' ⟨_, hdb⟩ _ _ _ _ _ hevents e List.mem_cons_self (by simp [elytraCall])
    obtain rfl := Option.some.inj (hprevious.symm.trans hprevious')
    rw [AlertEvent.Crosses, hcondition, hthreshold] at hcrosses
    exact lt_irrefl _ hcrosses.1
  · cases hcommit

end Database

end DonutMonitor
