import DonutMonitor.Application.GenuineCrossing
import DonutMonitor.Application.System

/-!
# A paused rule is inert

Polls and calls of `WatchService.add` that have loaded a rule before it was paused process their
snapshots afterwards, even after it has been resumed. They read the rule again within their
transaction and skip it while it is paused. A resume forgets the state of the rule, so that it does
not alert until it has been armed by a price on the non-matching side, or by one that is on both
sides because decimal arithmetic has rounded the re-arm price across the threshold.

## Main results

* `System.Reachable.paused_inert` — nothing happens to a rule while it is paused, and no alert
  follows a resume before a price that does not match.
* `System.not_paused_inert` — an alert after a resume and matching prices only, at a threshold of 29
  digits.
-/

namespace DonutMonitor

open Transition

namespace RuleLife

variable {ctx : DecimalContext}

/-- A paused rule stays as it is until it is resumed or deleted. -/
theorem run_paused {v : RuleView} {events : List RuleEvent} {view' : Option RuleView}
    (hrun : run (step ctx) (some v) events = some view') (hpaused : v.rule.enabled = false)
    (hresumed : .enabledSet true ∉ events) (hkept : .deleted ∉ events) : view' = some v := by
  induction events with
  | nil => exact (Option.some.inj hrun).symm
  | cons e events ih =>
    obtain ⟨view, hstep, hrun⟩ := (run_cons _).mp hrun
    have hsame : view = some v := by
      cases e with
      | created id draft => exact absurd ((step_created id draft).mp hstep).1 (by simp)
      | enabledSet enabled =>
        obtain ⟨w, hw, rfl⟩ := (step_enabledSet enabled).mp hstep
        obtain rfl := Option.some.inj hw
        cases enabled with
        | true => exact absurd List.mem_cons_self hresumed
        | false =>
          -- pausing a paused rule writes the value that is there
          have hrow : v.rule.withEnabled false = v.rule := by
            rw [WatchRule.withEnabled, if_neg Bool.false_ne_true, ← hpaused]
          rw [hrow]
      | deleted => exact absurd List.mem_cons_self hkept
      | evaluated o =>
        obtain ⟨w, hw, henabled, -⟩ := (step_evaluated o).mp hstep
        obtain rfl := Option.some.inj hw
        exact absurd (hpaused.symm.trans henabled) Bool.false_ne_true
    exact ih (hsame ▸ hrun) (fun hmem => hresumed (List.mem_cons_of_mem _ hmem))
      fun hmem => hkept (List.mem_cons_of_mem _ hmem)

/-- The event shows the rule no price that arms it, and asks for no initial notification. -/
def NeverArms (rule : ThresholdRule) : RuleEvent → Prop
  | .evaluated o =>
    o.notifyInitial = false ∧ ∀ price, o.price = some price → rule.Matches price
  | _ => True

/-- The prices that the event shows the rule are on one side of the threshold. -/
def ShowsOneSide (ctx : DecimalContext) (rule : ThresholdRule) : RuleEvent → Prop
  | .evaluated o => ∀ price, o.price = some price → rule.OnOneSide ctx price
  | _ => True

/-- An unarmed rule stays so, and creates no alert, until it sees a price that does not match or
that is on both sides. -/
theorem step_unarmed {v : RuleView} {e : RuleEvent} {view' : Option RuleView}
    (hstep : step ctx (some v) e = some view') (hkept : e ≠ .deleted)
    (honeSide : ShowsOneSide ctx v.rule.thresholdRule e)
    (hunarmed : v.rule.currentState ≠ v.rule.condition.armedState)
    (hnever : NeverArms v.rule.thresholdRule e) :
    ∃ v', view' = some v' ∧ v'.alerts = v.alerts ∧ v'.rule.thresholdRule = v.rule.thresholdRule ∧
      v'.rule.currentState ≠ v.rule.condition.armedState := by
  cases e with
  | created id draft => exact absurd ((step_created id draft).mp hstep).1 (by simp)
  | enabledSet enabled =>
    obtain ⟨w, hw, hv⟩ := (step_enabledSet enabled).mp hstep
    obtain rfl := Option.some.inj hw
    refine ⟨_, hv, rfl, by simp, ?_⟩
    cases enabled with
    | true => exact (Condition.armedState_ne_unknown _).symm
    | false => exact hunarmed
  | deleted => exact absurd rfl hkept
  | evaluated o =>
    obtain ⟨w, hw, -, hv⟩ := (step_evaluated o).mp hstep
    obtain rfl := Option.some.inj hw
    obtain ⟨hnotify, hmatches⟩ := hnever
    have hquiet : v.rule.alert ctx o = none := by
      by_contra halert
      obtain ⟨-, -, -, -, harmed | ⟨-, hinitial⟩⟩ :=
        (WatchRule.alert_isSome ctx v.rule o).mp (Option.isSome_iff_ne_none.mpr halert)
      · exact hunarmed harmed
      · cases hnotify.symm.trans hinitial
    refine ⟨_, hv, by simp [RuleView.observe, hquiet], rfl, fun harmed => ?_⟩
    obtain ⟨price, hprice, hother⟩ := evaluateThreshold_armed_state harmed
    exact hother (honeSide price hprice) (hmatches price hprice)

/-- The run form of `step_unarmed`. -/
theorem run_unarmed {v : RuleView} {events : List RuleEvent} {view' : Option RuleView}
    (hrun : run (step ctx) (some v) events = some view') (hkept : .deleted ∉ events)
    (honeSide : ∀ e ∈ events, ShowsOneSide ctx v.rule.thresholdRule e)
    (hunarmed : v.rule.currentState ≠ v.rule.condition.armedState)
    (hnever : ∀ e ∈ events, NeverArms v.rule.thresholdRule e) :
    ∃ v', view' = some v' ∧ v'.alerts = v.alerts := by
  induction events generalizing v with
  | nil =>
    obtain rfl := Option.some.inj hrun
    exact ⟨v, rfl, rfl⟩
  | cons e events ih =>
    obtain ⟨view, hstep, hrun⟩ := (run_cons _).mp hrun
    obtain ⟨w, rfl, halerts, hterms, hstate⟩ := step_unarmed hstep
      (fun he => hkept (he ▸ List.mem_cons_self)) (honeSide e List.mem_cons_self) hunarmed
      (hnever e List.mem_cons_self)
    have hcondition : w.rule.condition = v.rule.condition := congrArg (·.condition) hterms
    obtain ⟨v', hv', halerts'⟩ := ih hrun (fun hmem => hkept (List.mem_cons_of_mem _ hmem))
      (fun e' he' => hterms ▸ honeSide e' (List.mem_cons_of_mem _ he')) (by rwa [hcondition])
      fun e' he' => hterms ▸ hnever e' (List.mem_cons_of_mem _ he')
    exact ⟨v', hv', halerts'.trans halerts⟩

end RuleLife

namespace System

variable {env : Environment} {s s' : System}

/-- From any state in which a rule is paused, and along any run: until the rule is resumed or
deleted, its row and its notifications stay as they are. After the resume no notification is
created for it as long as the snapshots that evaluate it show matching prices or none, and none of
them is to notify an initial match; none of the prices is on both sides of the threshold. -/
theorem Reachable.paused_inert (h : Reachable env s) {id : ℕ} {v : RuleView}
    (hv : s.database.store.view id = some v) (hpaused : v.rule.enabled = false)
    {labels : List Label} (hrun : run (step env) s labels = some s') :
    ∃ events, s'.database.ruleEvents id = s.database.ruleEvents id ++ events ∧
      (.enabledSet true ∉ events → .deleted ∉ events → s'.database.store.view id = some v) ∧
      ∀ paused after, events = paused ++ .enabledSet true :: after → .enabledSet true ∉ paused →
        .deleted ∉ events →
        (∀ e ∈ after, RuleLife.ShowsOneSide env.decimal v.rule.thresholdRule e) →
        (∀ e ∈ after, RuleLife.NeverArms v.rule.thresholdRule e) →
          ∃ v', s'.database.store.view id = some v' ∧ v'.alerts = v.alerts := by
  obtain ⟨events, hevents⟩ := run_ruleEvents hrun id
  have hlife := h.run_between hrun hevents
  rw [hv] at hlife
  refine ⟨events, hevents, RuleLife.run_paused hlife hpaused, ?_⟩
  rintro paused after rfl hfirst hkept honeSide hnever
  obtain ⟨view, hbefore, hlater⟩ := (run_append _).mp hlife
  obtain rfl := RuleLife.run_paused hbefore hpaused hfirst
    fun hmem => hkept (List.mem_append_left _ hmem)
  obtain ⟨resumed, hstep, hafter⟩ := (run_cons _).mp hlater
  obtain ⟨w, hw, rfl⟩ := (RuleLife.step_enabledSet true).mp hstep
  obtain rfl := Option.some.inj hw
  exact RuleLife.run_unarmed (v := ⟨v.rule.withEnabled true, v.alerts⟩) hafter
    (fun hmem => hkept (List.mem_append_right _ (List.mem_cons_of_mem _ hmem))) honeSide
    (Condition.armedState_ne_unknown _).symm hnever

/-- A watch for elytras at or below 100 has seen a price of 200 and is paused while a poll that has
loaded it is in flight. -/
def pausedInFlight : List Label :=
  [.operation (.authenticate 1 "token" 0), .startAdd .elytra, .commit 0 { ruleKey := 1 },
    .fetched 0 (.listing (some (.elytra 200)) 0 1),
    .commit 0 { observationKey := 1, order := [1] }, .startPoll 1,
    .operation (.setEnabled 1 1 false)]

/-- A poll of user 1, from its start as task `i` to the evaluation of the listing it finds. -/
def pollOnce (i : ℕ) (listing : AuctionListing) (checkedAt : ℚ) : List Label :=
  [.startPoll 1, .fetched i (.listing (some listing) checkedAt 1),
    .commit i { observationKey := i + 1, notificationKey := fun _ => i + 1, order := [1] }]

/-- The poll in flight finds an elytra at 50 and skips the rule. It is resumed, and the next poll
finds an elytra at 50, too. -/
def resumedAfterFlight : List Label :=
  [.fetched 1 (.listing (some (.elytra 50)) 10 1),
    .commit 1 { observationKey := 2, notificationKey := fun _ => 2, order := [1] },
    .operation (.setEnabled 1 1 true)] ++ pollOnce 2 (.elytra 50) 20

/-- The snapshot that is processed during the pause is no event of the rule. The one processed after
the resume is, and raises no alert. -/
theorem paused_inert_inFlight : ∃ s s' v v', run (step .plain) {} pausedInFlight = some s ∧
    run (step .plain) s resumedAfterFlight = some s' ∧
    s'.database.ruleEvents 1 =
      s.database.ruleEvents 1 ++ [.enabledSet true, .evaluated ⟨some 50, 20, false⟩] ∧
    s.database.store.view 1 = some v ∧ v.rule.enabled = false ∧
    v.rule.currentState = .aboveThreshold ∧
    s'.database.store.view 1 = some v' ∧ v'.alerts = v.alerts := by
  have hrun : ((run (step .plain) {} pausedInFlight).bind fun s : System =>
      (run (step .plain) s resumedAfterFlight).bind fun s' : System =>
        (s.database.store.view 1).map fun v =>
          decide (v.rule.enabled = false ∧ v.rule.currentState = .aboveThreshold ∧
            v.rule.thresholdRule = ⟨.priceDown, 100, 2, 60⟩ ∧
            s'.database.ruleEvents 1 =
              s.database.ruleEvents 1 ++ [.enabledSet true, .evaluated ⟨some 50, 20, false⟩])) =
      some true := by
    decide +kernel
  obtain ⟨s, hs, hrest⟩ := Option.bind_eq_some_iff.mp hrun
  obtain ⟨s', hs', hview⟩ := Option.bind_eq_some_iff.mp hrest
  obtain ⟨v, hv, hfacts⟩ := Option.map_eq_some_iff.mp hview
  obtain ⟨hpaused, hstate, hterms, hafter⟩ := of_decide_eq_true hfacts
  obtain ⟨events, hevents, -, hresumed⟩ := Reachable.paused_inert ⟨_, hs⟩ hv hpaused hs'
  obtain rfl := List.append_cancel_left (hevents.symm.trans hafter)
  obtain ⟨v', hv', halerts⟩ := hresumed [] _ rfl List.not_mem_nil (by decide)
    (by
      rw [List.forall_mem_singleton]
      exact fun price _ => ThresholdRule.onOneSide_of_kept rfl v.rule.threshold_pos.le
        v.rule.hysteresis_nonneg price)
    (by
      rw [hterms, List.forall_mem_singleton]
      refine ⟨rfl, fun price hprice => ?_⟩
      obtain rfl := Option.some.inj hprice
      decide)
  exact ⟨s, s', v, v', hs, hs', hafter, hv, hpaused, hstate, hv', halerts⟩

end System

/-! ### A threshold of 29 digits -/

/-- User 1 asks to watch for elytras at or below the long threshold. -/
def AddCall.atLongThreshold : AddCall :=
  { AddCall.elytra with threshold := .number (.finite longThreshold) }

namespace System

/-- A watch at the long threshold finds no elytra and is paused. -/
def pausedAtLongThreshold : List Label :=
  [.operation (.authenticate 1 "token" 0), .startAdd .atLongThreshold, .commit 0 { ruleKey := 1 },
    .fetched 0 (.listing none 0 1), .commit 0 { observationKey := 1, order := [1] },
    .operation (.setEnabled 1 1 false)]

/-- It is resumed, and polls see 50, the threshold and 50 again. -/
def resumedAtLongThreshold : List Label :=
  .operation (.setEnabled 1 1 true) :: (pollOnce 1 (.elytra 50) 20 ++
    pollOnce 2 { AuctionListing.elytra 0 with price := longThreshold
                                              price_nonneg := longThreshold_pos.le } 23 ++
    pollOnce 3 (.elytra 50) 26)

/-- The threshold matches and is above the re-arm price, which is the threshold rounded to 28
digits, so that the last of the three prices raises an alert. -/
theorem not_paused_inert :
    ¬ ∀ (s s' : System), Reachable .withoutHysteresis s →
      ∀ (id : ℕ) (v : RuleView), s.database.store.view id = some v → v.rule.enabled = false →
        ∀ labels : List Label, run (step .withoutHysteresis) s labels = some s' →
          ∀ paused after, s'.database.ruleEvents id =
              s.database.ruleEvents id ++ (paused ++ .enabledSet true :: after) →
            .enabledSet true ∉ paused → .deleted ∉ paused ++ .enabledSet true :: after →
            (∀ e ∈ after, RuleLife.NeverArms v.rule.thresholdRule e) →
              ∃ v', s'.database.store.view id = some v' ∧ v'.alerts = v.alerts := by
  intro h
  have hrun : ((run (step .withoutHysteresis) {} pausedAtLongThreshold).bind fun s : System =>
      (run (step .withoutHysteresis) s resumedAtLongThreshold).bind fun s' : System =>
        (s.database.store.view 1).map fun v =>
          decide (v.rule.enabled = false ∧ v.alerts = [] ∧
            v.rule.thresholdRule = ⟨.priceDown, longThreshold, 0, 60⟩ ∧
            s'.database.ruleEvents 1 = s.database.ruleEvents 1 ++
              ([] ++ .enabledSet true :: [.evaluated ⟨some 50, 20, false⟩,
                .evaluated ⟨some longThreshold, 23, false⟩, .evaluated ⟨some 50, 26, false⟩]) ∧
            s'.database.store.alerts 1 ≠ [])) = some true := by
    decide +kernel
  obtain ⟨s, hs, hrest⟩ := Option.bind_eq_some_iff.mp hrun
  obtain ⟨s', hs', hview⟩ := Option.bind_eq_some_iff.mp hrest
  obtain ⟨v, hv, hfacts⟩ := Option.map_eq_some_iff.mp hview
  obtain ⟨hpaused, hnone, hterms, hevents, hsome⟩ := of_decide_eq_true hfacts
  have hmatches : ∀ price ∈ [50, longThreshold, 50],
      ThresholdRule.Matches ⟨.priceDown, longThreshold, 0, 60⟩ price := by
    decide +kernel
  obtain ⟨v', hv', halerts⟩ := h s s' ⟨_, hs⟩ 1 v hv hpaused _ hs' _ _ hevents List.not_mem_nil
    (by decide +kernel) (by
      rw [hterms]
      simpa [RuleLife.NeverArms] using hmatches)
  have hnotifications := (Store.view_eq_some.mp hv').2
  exact hsome (hnotifications.trans (halerts.trans hnone))

end System

end DonutMonitor
