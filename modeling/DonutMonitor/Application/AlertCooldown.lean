import DonutMonitor.Application.GenuineCrossing
import DonutMonitor.Foundations.SlidingWindow
import Mathlib.Data.Rat.Floor

/-!
# The cooldown between alerts

The row of a rule keeps the time of its last alert through pauses and resumes, and through
snapshots that arrive out of order. Each alert therefore waits for the cooldown after the one
before it, whatever the times of the snapshots in between.

## Main definitions

* `RuleLife.alertTimes` — the times of the snapshots that raise alerts, along the life of a rule.
* `Spaced` — times at least a cooldown apart.

## Main results

* `Database.alerts_spaced` — the alert times of a rule, in every reachable database.
-/

namespace DonutMonitor

open Transition

namespace RuleLife

variable {ctx : DecimalContext}

/-- The time of the alert that an event of a rule gives rise to. -/
def alertTime (ctx : DecimalContext) (v : RuleView) : RuleEvent → Option ℚ
  | .evaluated o => if (v.rule.alert ctx o).isSome then some o.observedAt else none
  | _ => none

/-- The times of the alerts that the events of a rule give rise to, until it is deleted. -/
def alertTimes (ctx : DecimalContext) (v : RuleView) : List RuleEvent → List ℚ
  | [] => []
  | e :: events =>
    match step ctx (some v) e with
    | some (some v') => (alertTime ctx v e).toList ++ alertTimes ctx v' events
    | _ => []

/-- An event of a rule that remains keeps its terms, and sets the time of the last alert to that of
the alert it gives rise to. -/
theorem step_lastTriggeredAt {v v' : RuleView} {e : RuleEvent}
    (h : step ctx (some v) e = some (some v')) :
    v'.rule.thresholdRule = v.rule.thresholdRule ∧
      v'.rule.lastTriggeredAt = (alertTime ctx v e).or v.rule.lastTriggeredAt ∧
      v'.alerts.length = v.alerts.length + (alertTime ctx v e).toList.length ∧
      ∀ t, alertTime ctx v e = some t →
        cooldownReady v.rule.lastTriggeredAt t v.rule.cooldownSeconds = true := by
  cases e with
  | created id draft => exact absurd ((step_created id draft).mp h).1 (by simp)
  | enabledSet enabled =>
    obtain ⟨w, hw, hv⟩ := (step_enabledSet enabled).mp h
    obtain rfl := Option.some.inj hw
    obtain rfl := Option.some.inj hv
    exact ⟨by simp, by simp [alertTime], by simp [alertTime], nofun⟩
  | deleted => exact absurd (step_deleted.mp h).2 (by simp)
  | evaluated o =>
    obtain ⟨w, hw, -, hv⟩ := (step_evaluated o).mp h
    obtain rfl := Option.some.inj hw
    obtain rfl := Option.some.inj hv
    refine ⟨rfl, ?_, ?_, fun t ht => ?_⟩
    · rw [RuleView.observe, WatchRule.lastTriggeredAt_observe, alertTime]
      split_ifs <;> rfl
    · rw [RuleView.observe, List.length_append, alertTime]
      cases v.rule.alert ctx o <;> simp
    · rw [alertTime] at ht
      split_ifs at ht with halert
      obtain ⟨alert, halert⟩ := Option.isSome_iff_exists.mp halert
      obtain ⟨-, -, -, hready, -⟩ :=
        evaluateThreshold_triggered (WatchRule.alert_eq_some.mp halert).1
      exact Option.some.inj ht ▸ hready

/-- The last alert and the alerts to come are a cooldown apart. -/
theorem alertTimes_isChain (v : RuleView) (events : List RuleEvent) :
    (v.rule.lastTriggeredAt.toList ++ alertTimes ctx v events).IsChain
      fun x y : ℚ => x + (v.rule.cooldownSeconds : ℚ) ≤ y := by
  induction events generalizing v with
  | nil => cases v.rule.lastTriggeredAt <;> simp [alertTimes]
  | cons e events ih =>
    simp only [alertTimes]
    split
    · next v' hstep =>
      obtain ⟨hterms, hlast, -, hready⟩ := step_lastTriggeredAt hstep
      have hrest := ih v'
      have hcooldown : v'.rule.cooldownSeconds = v.rule.cooldownSeconds :=
        congrArg ThresholdRule.cooldownSeconds hterms
      rw [hlast, hcooldown] at hrest
      cases htime : alertTime ctx v e with
      | none => simpa [htime] using hrest
      | some t =>
        rw [htime, Option.some_or, Option.toList_some] at hrest
        cases hlast : v.rule.lastTriggeredAt with
        | none => simpa using hrest
        | some last =>
          have hspace := hready t htime
          rw [hlast, cooldownReady, decide_eq_true_eq] at hspace
          exact List.isChain_cons_cons.mpr ⟨hspace, hrest⟩
    · cases v.rule.lastTriggeredAt <;> simp

/-- As long as the rule is not deleted, each of its alerts has its notification. -/
theorem length_alertTimes {v : RuleView} {events : List RuleEvent} {view' : Option RuleView}
    (hrun : run (step ctx) (some v) events = some view') (hlife : ∀ e ∈ events, e ≠ .deleted) :
    ∃ v', view' = some v' ∧
      v'.alerts.length = v.alerts.length + (alertTimes ctx v events).length := by
  induction events generalizing v with
  | nil =>
    obtain rfl := Option.some.inj hrun
    exact ⟨v, rfl, rfl⟩
  | cons e events ih =>
    obtain ⟨view, hstep, hrun⟩ := (run_cons _).mp hrun
    obtain ⟨w, rfl⟩ := step_remains hstep (hlife e List.mem_cons_self)
    obtain ⟨v', hv', hlength'⟩ := ih hrun fun e he => hlife e (List.mem_cons_of_mem _ he)
    obtain ⟨-, -, hlength, -⟩ := step_lastTriggeredAt hstep
    refine ⟨v', hv', ?_⟩
    simp only [alertTimes, hstep, List.length_append]
    omega

end RuleLife

/-- Times each at least a cooldown after the one before it. -/
structure Spaced (cooldown : ℚ) (times : List ℚ) : Prop where
  consecutive : times.IsChain fun x y => x + cooldown ≤ y
  increasing : times.Pairwise (· < ·)
  window : ∀ a length, 0 ≤ length →
    (times.countP fun x => a ≤ x ∧ x ≤ a + length) ≤ ⌊length / cooldown⌋₊ + 1

theorem Spaced.of_isChain {cooldown : ℚ} (hcooldown : 0 < cooldown) {times : List ℚ}
    (h : times.IsChain fun x y => x + cooldown ≤ y) : Spaced cooldown times := by
  have htrans : IsTrans ℚ fun x y => x + cooldown ≤ y := ⟨fun x y z hxy hyz => by linarith⟩
  have hpairwise : times.Pairwise fun x y => x + cooldown ≤ y := List.isChain_iff_pairwise.mp h
  exact
    { consecutive := h
      increasing := hpairwise.imp fun hxy => by linarith
      window := fun a _ hlength =>
        SlidingWindow.countP_window_le_of_spaced hcooldown hpairwise a hlength }

namespace Database

/-- The alerts of a rule from its creation on are at least its cooldown apart, in the order in
which they are created; each is a notification of the rule as long as it is not deleted. -/
theorem alerts_spaced {env : Environment} {db : Database} (hdb : Reachable env db) {id key : ℕ}
    {draft : RuleDraft} {before life : List RuleEvent}
    (hlife : db.ruleEvents id = before ++ .created key draft :: life) :
    Spaced draft.cooldownSeconds
        (RuleLife.alertTimes env.decimal ⟨draft.row key, []⟩ life) ∧
      ((∀ e ∈ life, e ≠ .deleted) → ∃ v, db.store.view id = some v ∧
        v.alerts.length = (RuleLife.alertTimes env.decimal ⟨draft.row key, []⟩ life).length) := by
  constructor
  · exact .of_isChain (Int.cast_pos.mpr draft.cooldown_pos)
      (RuleLife.alertTimes_isChain ⟨draft.row key, []⟩ life)
  · intro hkept
    have hrun := hdb.view_eq id
    rw [hlife] at hrun
    obtain ⟨view, -, hrun⟩ := (run_append _).mp hrun
    obtain ⟨view', hstep, hrun⟩ := (run_cons _).mp hrun
    obtain ⟨-, rfl⟩ := (RuleLife.step_created key draft).mp hstep
    obtain ⟨v, hv, hlength⟩ := RuleLife.length_alertTimes hrun hkept
    exact ⟨v, hv, by simpa using hlength⟩

/-- A rule with two alerts, the second exactly its cooldown of a minute after the first. -/
theorem alerts_spaced_elytra :
    ∃ db life,
      run (step .plain) {} [(none, .saveValidToken 1 "token" "key"), (none, .create .elytra 1),
        (none, .process (elytraCall (some ⟨101, by decide⟩) 0) 1 fun _ => 1),
        (none, .process (elytraCall (some ⟨99, by decide⟩) 10) 2 fun _ => 1),
        (none, .process (elytraCall (some ⟨103, by decide⟩) 20) 3 fun _ => 1),
        (none, .process (elytraCall (some ⟨99, by decide⟩) 70) 4 fun _ => 2)] = some db ∧
      db.ruleEvents 1 = .created 1 .elytra :: life ∧
      RuleLife.alertTimes .exact ⟨RuleDraft.elytra.row 1, []⟩ life = [10, 70] ∧
      Spaced 60 [10, 70] ∧ ∃ v, db.store.view 1 = some v ∧ v.alerts.length = 2 := by
  have hrun : (run (step .plain) {} [(none, .saveValidToken 1 "token" "key"),
      (none, .create .elytra 1),
      (none, .process (elytraCall (some ⟨101, by decide⟩) 0) 1 fun _ => 1),
      (none, .process (elytraCall (some ⟨99, by decide⟩) 10) 2 fun _ => 1),
      (none, .process (elytraCall (some ⟨103, by decide⟩) 20) 3 fun _ => 1),
      (none, .process (elytraCall (some ⟨99, by decide⟩) 70) 4 fun _ => 2)]).map
        (fun db => db.ruleEvents 1) =
      some [.created 1 .elytra, .evaluated ⟨some 101, 0, false⟩, .evaluated ⟨some 99, 10, false⟩,
        .evaluated ⟨some 103, 20, false⟩, .evaluated ⟨some 99, 70, false⟩] := by
    decide +kernel
  obtain ⟨db, hdb, hevents⟩ := Option.map_eq_some_iff.mp hrun
  have htimes : RuleLife.alertTimes .exact ⟨RuleDraft.elytra.row 1, []⟩
      [.evaluated ⟨some 101, 0, false⟩, .evaluated ⟨some 99, 10, false⟩,
        .evaluated ⟨some 103, 20, false⟩, .evaluated ⟨some 99, 70, false⟩] = [10, 70] := by
    decide +kernel
  obtain ⟨hspaced, hcount⟩ :=
    @alerts_spaced .plain db ⟨_, hdb⟩ 1 1 .elytra [] _ hevents
  obtain ⟨v, hv, hlength⟩ := hcount (by simp)
  have hcooldown : ((RuleDraft.elytra.cooldownSeconds : ℤ) : ℚ) = 60 := by
    norm_num [RuleDraft.elytra, Settings.unset]
  have hdecimal : Environment.plain.decimal = .exact := rfl
  rw [hdecimal, htimes] at hspaced hlength
  rw [hcooldown] at hspaced
  exact ⟨db, _, hdb, hevents, htimes, hspaced, v, hv, hlength⟩

end Database

end DonutMonitor
