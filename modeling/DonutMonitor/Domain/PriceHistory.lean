import DonutMonitor.Domain.Hysteresis

/-!
# The evaluator as a function of the price history

The evaluator keeps one enumeration value between two prices. What it computes with it can be read
off the history of prices instead. Within the run of present prices since the last missing listing
one price decides the side: the last one that matches the threshold or lies strictly beyond the
re-arm price, or else the first of the run. Histories are listed latest first.

## Main definitions

* `ThresholdRule.lastDecisive` — the price that decides the side.
* `ThresholdRule.historyState`, `ThresholdRule.AlertDue` — state and alert, by the history alone.

## Main results

* `ThresholdRule.observeAll_eq_history` — the evaluator agrees with the history.
-/

namespace DonutMonitor

namespace ThresholdRule

variable (ctx : DecimalContext) (rule : ThresholdRule)

/-- The price decides the side of the threshold, whatever the prices before it. -/
def Decides (price : ℚ) : Prop := rule.Matches price ∨ rule.Rearms ctx price

instance (price : ℚ) : Decidable (rule.Decides ctx price) :=
  inferInstanceAs (Decidable (_ ∨ _))

/-- The maximal run of present prices that ends with the latest observation, latest first. -/
def presentRun : List Observation → List ℚ
  | [] => []
  | o :: earlier =>
    match o.price with
    | none => []
    | some price => price :: presentRun earlier

/-- The last price of a run that decides the side, or else the first price of the run. -/
def lastDecisive (prices : List ℚ) : Option ℚ :=
  (prices.find? fun price => rule.Decides ctx price).or prices.getLast?

/-- The state of a rule, by the history alone. -/
def historyState : List Observation → RuleState
  | [] => .unknown
  | o :: earlier =>
    match rule.lastDecisive ctx (presentRun (o :: earlier)) with
    | none => .noListings
    | some price => rule.sideOf price

/-- An alert is due at an observation: its price matches, a present price immediately precedes it,
the state before was the unmatched side, and the cooldown since the previous alert is over. -/
def AlertDue (earlier : List Observation) (previousAlert : Option ℚ) (o : Observation) : Prop :=
  (∃ price ∈ o.price, rule.Matches price) ∧ (∃ last ∈ earlier.head?, last.price.isSome) ∧
    rule.historyState ctx earlier = rule.condition.armedState ∧
      ∀ t ∈ previousAlert, t + rule.cooldownSeconds ≤ o.observedAt

instance (earlier : List Observation) (previousAlert : Option ℚ) (o : Observation) :
    Decidable (rule.AlertDue ctx earlier previousAlert o) :=
  inferInstanceAs (Decidable (_ ∧ _))

/-- The times of the alerts, by the history alone, latest first. -/
def historyAlerts : List Observation → List ℚ
  | [] => []
  | o :: earlier =>
    if rule.AlertDue ctx earlier (historyAlerts earlier).head? o then
      o.observedAt :: historyAlerts earlier
    else historyAlerts earlier

/-! ### The state and the alerts -/

variable {ctx rule}

@[simp] theorem historyState_missing {o : Observation} (h : o.price = none)
    (earlier : List Observation) : rule.historyState ctx (o :: earlier) = .noListings := by
  simp [historyState, presentRun, h, lastDecisive]

/-- The first price of a run decides. -/
theorem historyState_first {o : Observation} {price : ℚ} (h : o.price = some price)
    {earlier : List Observation} (hfirst : presentRun earlier = []) :
    rule.historyState ctx (o :: earlier) = rule.sideOf price := by
  by_cases hdecides : rule.Decides ctx price <;>
    simp [historyState, presentRun, h, hfirst, lastDecisive, hdecides]

/-- A later price of a run decides, or the state stays. -/
theorem historyState_later {o last : Observation} {price : ℚ} (h : o.price = some price)
    (hlast : last.price.isSome) (earlier : List Observation) :
    rule.historyState ctx (o :: last :: earlier) =
      if rule.Decides ctx price then rule.sideOf price
      else rule.historyState ctx (last :: earlier) := by
  obtain ⟨previous, hprevious⟩ := Option.isSome_iff_exists.mp hlast
  by_cases hdecides : rule.Decides ctx price <;>
    simp [historyState, presentRun, h, hprevious, lastDecisive, hdecides]

/-- While the latest price is present, the state is one of the two sides. -/
theorem historyState_present {o : Observation} (h : o.price.isSome)
    (earlier : List Observation) :
    ∃ price, rule.historyState ctx (o :: earlier) = rule.sideOf price := by
  obtain ⟨price, hprice⟩ := Option.isSome_iff_exists.mp h
  cases hlast : rule.lastDecisive ctx (presentRun (o :: earlier)) with
  | none => simp [presentRun, hprice, lastDecisive] at hlast
  | some decisive => exact ⟨decisive, by rw [historyState, hlast]⟩

/-- A decisive price moves a rule to its side; any other price leaves the rule where it is. -/
theorem evaluateThreshold_sideOf (hkept : ctx.round rule.threshold = rule.threshold)
    (hthreshold : 0 ≤ rule.threshold) (hhysteresis : 0 ≤ rule.hysteresisPercent)
    (before price : ℚ) (lastTriggeredAt : Option ℚ) (now : ℚ) (notifyInitial : Bool) :
    (evaluateThreshold ctx rule (rule.sideOf before) (some price) lastTriggeredAt now
      notifyInitial).state =
      if rule.Decides ctx price then rule.sideOf price else rule.sideOf before := by
  have hband : rule.Rearms ctx price → ¬ rule.Matches price :=
    not_matches_of_rearms hkept hthreshold hhysteresis
  by_cases hbefore : rule.Matches before
  · rw [sideOf, if_pos hbefore, evaluateThreshold_matched]
    by_cases hrearms : rule.Rearms ctx price
    · simp [Decides, hrearms, sideOf, hband hrearms]
    · by_cases hmatches : rule.Matches price <;> simp [Decides, hrearms, sideOf, hmatches]
  · rw [sideOf, if_neg hbefore, evaluateThreshold_armed]
    by_cases hmatches : rule.Matches price
    · simp [Decides, hmatches]
    · simp [sideOf, hmatches]

/-- One observation: the evaluator moves as the history does. -/
theorem observe_state (hkept : ctx.round rule.threshold = rule.threshold)
    (hthreshold : 0 ≤ rule.threshold) (hhysteresis : 0 ≤ rule.hysteresisPercent)
    {w : WatchState} {o : Observation} {earlier : List Observation}
    (hnotify : o.notifyInitial = false) (hw : w.state = rule.historyState ctx earlier) :
    (rule.observe ctx w o).state = rule.historyState ctx (o :: earlier) := by
  rw [observe, evaluate, hw, hnotify]
  cases hprice : o.price with
  | none => simp [hprice]
  | some price =>
    cases earlier with
    | nil => rw [historyState_first hprice rfl, historyState, evaluateThreshold_unknown]
    | cons last earlier =>
      cases hlast : last.price with
      | none =>
        rw [historyState_first hprice (by simp [presentRun, hlast]), historyState_missing hlast,
          evaluateThreshold_noListings]
      | some previous =>
        have hpresent : last.price.isSome := by rw [hlast]; rfl
        obtain ⟨before, hbefore⟩ : ∃ before, rule.historyState ctx (last :: earlier) =
            rule.sideOf before := historyState_present hpresent earlier
        rw [historyState_later hprice hpresent, hbefore,
          evaluateThreshold_sideOf hkept hthreshold hhysteresis]

/-- An armed rule has just seen a present price. -/
theorem present_of_historyState {earlier : List Observation}
    (h : rule.historyState ctx earlier = rule.condition.armedState) :
    ∃ last ∈ earlier.head?, last.price.isSome := by
  cases earlier with
  | nil => exact absurd h.symm (Condition.armedState_ne_unknown _)
  | cons last earlier =>
    cases hprice : last.price with
    | none =>
      rw [historyState_missing hprice] at h
      exact absurd h.symm (Condition.armedState_ne_noListings _)
    | some price => exact ⟨last, rfl, by rw [hprice]; rfl⟩

theorem cooldownReady_iff {lastTriggeredAt : Option ℚ} {now : ℚ} {cooldownSeconds : ℤ} :
    cooldownReady lastTriggeredAt now cooldownSeconds = true ↔
      ∀ t ∈ lastTriggeredAt, t + cooldownSeconds ≤ now := by
  cases lastTriggeredAt <;> simp [cooldownReady]

/-- One observation: the evaluator triggers when an alert is due. -/
theorem evaluate_triggered_iff {w : WatchState} {o : Observation} {earlier : List Observation}
    {previousAlert : Option ℚ} (hnotify : o.notifyInitial = false)
    (hstate : w.state = rule.historyState ctx earlier) (hlast : w.lastTriggeredAt = previousAlert) :
    (rule.evaluate ctx w o).triggered = true ↔ rule.AlertDue ctx earlier previousAlert o := by
  rw [evaluate, hlast, hstate, hnotify]
  constructor
  · intro h
    obtain ⟨price, hprice, hmatches, hready, -, harmed | ⟨-, hinitial⟩⟩ :=
      evaluateThreshold_triggered h
    · exact ⟨⟨price, hprice, hmatches⟩, present_of_historyState harmed, harmed,
        cooldownReady_iff.mp hready⟩
    · cases hinitial
  · rintro ⟨⟨price, hprice, hmatches⟩, -, harmed, hready⟩
    rw [Option.mem_def.mp hprice]
    exact evaluateThreshold_triggers hmatches (cooldownReady_iff.mpr hready) (.inl harmed)

/-- After any sequence of observations, state and last alert are those of the history. -/
theorem observeAll_history (hkept : ctx.round rule.threshold = rule.threshold)
    (hthreshold : 0 ≤ rule.threshold) (hhysteresis : 0 ≤ rule.hysteresisPercent)
    {os : List Observation} (hnotify : ∀ o ∈ os, o.notifyInitial = false) :
    (rule.observeAll ctx {} os).state = rule.historyState ctx os.reverse ∧
      (rule.observeAll ctx {} os).lastTriggeredAt =
        (rule.historyAlerts ctx os.reverse).head? := by
  induction os using List.reverseRecOn with
  | nil => exact ⟨rfl, rfl⟩
  | append_singleton os o ih =>
    obtain ⟨hstate, hlast⟩ := ih fun o' ho' => hnotify o' (List.mem_append_left _ ho')
    have ho : o.notifyInitial = false := hnotify o (by simp)
    rw [observeAll_concat, List.reverse_append, List.reverse_singleton, List.singleton_append]
    refine ⟨observe_state hkept hthreshold hhysteresis ho hstate, ?_⟩
    have htriggered := evaluate_triggered_iff ho hstate hlast
    rw [historyAlerts, observe]
    split_ifs with hevaluated hdue hdue
    · rfl
    · exact absurd (htriggered.mp hevaluated) hdue
    · exact absurd (htriggered.mpr hdue) hevaluated
    · exact hlast

/-- Folded from the unknown state without initial notifications, the evaluator agrees with the
history of prices: it is in the state that the last decisive price of the present run determines,
and it triggers at an observation exactly when an alert is due there. -/
theorem observeAll_eq_history (rule : ThresholdRule) (hthreshold : 0 < rule.threshold)
    (hhysteresis : 0 ≤ rule.hysteresisPercent) (os : List Observation)
    (hnotify : ∀ o ∈ os, o.notifyInitial = false) :
    (rule.observeAll .exact {} os).state = rule.historyState .exact os.reverse ∧
      ∀ before o after, os = before ++ o :: after →
        ((rule.evaluate .exact (rule.observeAll .exact {} before) o).triggered = true ↔
          rule.AlertDue .exact before.reverse (rule.historyAlerts .exact before.reverse).head?
            o) := by
  refine ⟨(observeAll_history rfl hthreshold.le hhysteresis hnotify).1, ?_⟩
  rintro before o after rfl
  have hkept : DecimalContext.exact.round rule.threshold = rule.threshold := rfl
  obtain ⟨hstate, hlast⟩ := observeAll_history hkept hthreshold.le hhysteresis
    (fun o' ho' => hnotify o' (List.mem_append_left _ ho'))
  exact evaluate_triggered_iff (hnotify o (by simp)) hstate hlast

/-- At a threshold of 100 with 2% hysteresis, 101 stays in the dead band after 99, and the price
100 after 103 alerts. -/
theorem observeAll_eq_history_band :
    (observeAll .exact ⟨.priceDown, 100, 2, 60⟩ {}
        [⟨some 99, 0, false⟩, ⟨some 101, 10, false⟩]).state =
      historyState .exact ⟨.priceDown, 100, 2, 60⟩ [⟨some 101, 10, false⟩, ⟨some 99, 0, false⟩] ∧
    AlertDue .exact ⟨.priceDown, 100, 2, 60⟩ [⟨some 103, 20, false⟩] none ⟨some 100, 30, false⟩ :=
  ⟨(observeAll_eq_history ⟨.priceDown, 100, 2, 60⟩ (by decide) (by decide)
      [⟨some 99, 0, false⟩, ⟨some 101, 10, false⟩] (by decide)).1,
    ((observeAll_eq_history ⟨.priceDown, 100, 2, 60⟩ (by decide) (by decide)
      [⟨some 103, 20, false⟩, ⟨some 100, 30, false⟩] (by decide)).2 [⟨some 103, 20, false⟩]
        ⟨some 100, 30, false⟩ [] rfl).mp (by decide +kernel)⟩

end ThresholdRule

end DonutMonitor
