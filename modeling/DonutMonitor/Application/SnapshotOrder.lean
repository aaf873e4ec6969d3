import DonutMonitor.Application.System

/-!
# Snapshots that arrive out of order

Polls and calls of `WatchService.add` stamp a snapshot when they have fetched it, and process it
later. Nothing compares the stamp with the one in the row: the row of a rule reflects the snapshot
that was processed last, which is the latest one only when the snapshots of the rule are processed
in the order of their stamps.

## Main definitions

* `RuleLife.observations` — the snapshots that a rule has evaluated since it was created.
* `WatchRule.Reflects` — the row of a rule shows a snapshot.

## Main results

* `System.Reachable.reflects_last` — the row shows the snapshot processed last, and the latest one
  when the snapshots are processed in order.
* `System.not_reflects_latest` — an older snapshot can override a newer one.
-/

namespace DonutMonitor

open Transition

/-- The row shows the time and the price of the observation, or has seen none. -/
structure WatchRule.Reflects (rule : WatchRule) (o : Option Observation) : Prop where
  lastCheckedAt : rule.lastCheckedAt = o.map (·.observedAt)
  lastObservedPrice : rule.lastObservedPrice = o.bind (·.price)

/-- The observations of the rule after an event. A new rule has none. -/
def RuleEvent.extend (os : List Observation) : RuleEvent → List Observation
  | created _ _ => []
  | evaluated o => os ++ [o]
  | enabledSet _ | deleted => os

namespace RuleLife

/-- The observations that the rule under a key has evaluated since it was created, in the order of
their transactions. -/
def observations (events : List RuleEvent) : List Observation := events.foldl RuleEvent.extend []

/-- The observations are evaluated in the order of their times. -/
def InOrder (os : List Observation) : Prop := os.Pairwise fun o o' => o.observedAt ≤ o'.observedAt

theorem observations_concat (events : List RuleEvent) (e : RuleEvent) :
    observations (events ++ [e]) = e.extend (observations events) := by
  simp [observations]

variable {ctx : DecimalContext}

private theorem reflects_step {os : List Observation} {view view' : Option RuleView} {e : RuleEvent}
    (h : ∀ v, view = some v → v.rule.Reflects os.getLast?)
    (hstep : step ctx view e = some view') :
    ∀ v, view' = some v → v.rule.Reflects (e.extend os).getLast? := by
  rintro v rfl
  cases e with
  | created id draft =>
    obtain rfl := Option.some.inj ((step_created id draft).mp hstep).2
    exact ⟨rfl, rfl⟩
  | enabledSet enabled =>
    obtain ⟨w, rfl, hv⟩ := (step_enabledSet enabled).mp hstep
    obtain rfl := Option.some.inj hv
    obtain ⟨hchecked, hprice⟩ := h w rfl
    refine ⟨?_, (w.rule.withEnabled_lastObservedPrice enabled).trans hprice⟩
    cases enabled <;> exact hchecked
  | deleted => cases (step_deleted.mp hstep).2
  | evaluated o =>
    obtain ⟨w, -, -, hv⟩ := (step_evaluated o).mp hstep
    obtain rfl := Option.some.inj hv
    rw [RuleEvent.extend, List.getLast?_concat]
    exact ⟨rfl, rfl⟩

/-- The row of a rule shows the last observation that it has evaluated. -/
theorem run_reflects {events : List RuleEvent} {view : Option RuleView} {v : RuleView}
    (hrun : run (step ctx) none events = some view) (hv : view = some v) :
    v.rule.Reflects (observations events).getLast? := by
  induction events using List.reverseRecOn generalizing view v with
  | nil =>
    obtain rfl := Option.some.inj hrun
    cases hv
  | append_singleton events e ih =>
    obtain ⟨view', hview', hstep⟩ := (run_append _).mp hrun
    rw [observations_concat]
    exact reflects_step (fun v' hv' => ih hview' hv') ((run_singleton _).mp hstep) v hv

/-- While a rule is not deleted, observations are only added. -/
theorem observations_append {view' : Option RuleView} {v : RuleView} (before : List RuleEvent)
    {events : List RuleEvent} (hrun : run (step ctx) (some v) events = some view')
    (hkept : .deleted ∉ events) :
    ∃ more, observations (before ++ events) = observations before ++ more := by
  induction events generalizing v before with
  | nil => exact ⟨[], by simp⟩
  | cons e events ih =>
    obtain ⟨view, hstep, hrun⟩ := (run_cons _).mp hrun
    have hne : e ≠ .deleted := fun he => hkept (he ▸ List.mem_cons_self)
    obtain ⟨w, rfl⟩ := step_remains hstep hne
    obtain ⟨more, hmore⟩ := ih (before ++ [e]) hrun
      fun hmem => hkept (List.mem_cons_of_mem _ hmem)
    have hextend : ∃ new, e.extend (observations before) = observations before ++ new := by
      cases e with
      | created id draft => exact absurd ((step_created id draft).mp hstep).1 (by simp)
      | enabledSet enabled => exact ⟨[], (List.append_nil _).symm⟩
      | deleted => exact absurd rfl hne
      | evaluated o => exact ⟨[o], rfl⟩
    obtain ⟨new, hnew⟩ := hextend
    refine ⟨new ++ more, ?_⟩
    rw [← List.append_assoc, ← hnew, ← observations_concat, ← hmore, List.append_assoc,
      List.singleton_append]

end RuleLife

/-- In order, the time of the last observation is the greatest one. -/
theorem WatchRule.Reflects.latest {rule : WatchRule} {os : List Observation}
    (h : rule.Reflects os.getLast?) (horder : RuleLife.InOrder os) {o : Observation} (ho : o ∈ os) :
    ∃ t, rule.lastCheckedAt = some t ∧ o.observedAt ≤ t := by
  rcases List.eq_nil_or_concat os with rfl | ⟨earlier, last, rfl⟩
  · cases ho
  · rw [List.concat_eq_append] at h horder ho
    refine ⟨last.observedAt, by rw [h.lastCheckedAt, List.getLast?_concat]; rfl, ?_⟩
    rcases List.mem_append.mp ho with ho | ho
    · exact (List.pairwise_append.mp horder).2.2 o ho last (List.mem_singleton_self _)
    · exact le_of_eq (congrArg _ (List.mem_singleton.mp ho))

namespace System

variable {env : Environment} {s s' : System}

/-- The row of a rule shows the snapshot that was processed last. A process transaction makes it
show its own snapshot, with the state to which the evaluation led. Along a run in which the
snapshots of the rule are processed in the order of their times, the row shows the latest one, and
its time never decreases. -/
theorem Reachable.reflects_last (h : Reachable env s) {id : ℕ} {v : RuleView}
    (hv : s.database.store.view id = some v) :
    v.rule.Reflects (RuleLife.observations (s.database.ruleEvents id)).getLast? ∧
      (∀ label s' o, s.step env label = some s' →
        s'.database.ruleEvents id = s.database.ruleEvents id ++ [.evaluated o] →
          ∃ v', s'.database.store.view id = some v' ∧ v'.rule.Reflects (some o) ∧
            v'.rule.currentState = (v.rule.evaluate env.decimal o).state) ∧
      ∀ labels s', run (step env) s labels = some s' →
        ∃ events, s'.database.ruleEvents id = s.database.ruleEvents id ++ events ∧
          (.deleted ∉ events →
            RuleLife.InOrder (RuleLife.observations (s'.database.ruleEvents id)) →
            ∃ v', s'.database.store.view id = some v' ∧
              (∀ t, v.rule.lastCheckedAt = some t →
                ∃ t', v'.rule.lastCheckedAt = some t' ∧ t ≤ t') ∧
              ∀ o ∈ RuleLife.observations (s'.database.ruleEvents id),
                ∃ t', v'.rule.lastCheckedAt = some t' ∧ o.observedAt ≤ t') := by
  have hreflects : v.rule.Reflects (RuleLife.observations (s.database.ruleEvents id)).getLast? :=
    RuleLife.run_reflects (h.database.view_eq id) hv
  refine ⟨hreflects, fun label s' o hstep hevents => ?_, fun labels s' hrun => ?_⟩
  · have hone := h.run_between ((run_singleton _).mpr hstep) hevents
    rw [hv, run_singleton] at hone
    obtain ⟨w, hw, -, hv'⟩ := (RuleLife.step_evaluated o).mp hone
    obtain rfl := Option.some.inj hw
    exact ⟨v.observe env.decimal o, hv', ⟨rfl, rfl⟩, rfl⟩
  · obtain ⟨events, hevents⟩ := run_ruleEvents hrun id
    refine ⟨events, hevents, fun hkept horder => ?_⟩
    have hbetween := h.run_between hrun hevents
    rw [hv] at hbetween
    obtain ⟨v', hv', -⟩ := RuleLife.run_remains hbetween
      fun e he hdeleted => hkept (hdeleted ▸ he)
    have hreachable : Reachable env s' := h.trans ⟨labels, hrun⟩
    have hreflects' : v'.rule.Reflects
        (RuleLife.observations (s'.database.ruleEvents id)).getLast? :=
      RuleLife.run_reflects (hreachable.database.view_eq id) hv'
    refine ⟨v', hv', fun t ht => ?_, fun o ho => hreflects'.latest horder ho⟩
    -- the snapshot that the row showed before is one of those processed in order
    rw [hreflects.lastCheckedAt] at ht
    obtain ⟨o, ho, rfl⟩ := Option.map_eq_some_iff.mp ht
    obtain ⟨more, hmore⟩ := RuleLife.observations_append (s.database.ruleEvents id)
      hbetween hkept
    refine hreflects'.latest horder ?_
    rw [hevents, hmore]
    exact List.mem_append_left _ (List.mem_of_getLast? ho)

/-- A watch for elytras at or below 100 is added and finds one at 50. Before that snapshot is
processed, a poll finds the price at 200, ten seconds later, and processes its snapshot. -/
def overtaken : List Label :=
  [.operation (.authenticate 1 "token" 0), .startAdd .elytra, .commit 0 { ruleKey := 1 },
    .startPoll 1, .fetched 0 (.listing (some (.elytra 50)) 10 1),
    .fetched 1 (.listing (some (.elytra 200)) 20 1),
    .commit 1 { observationKey := 1, order := [1] },
    .commit 0 { observationKey := 2, notificationKey := fun _ => 1, order := [1] }]

private theorem overtaken_run : ∃ s v, run (step .plain) {} overtaken = some s ∧
    s.database.store.view 1 = some v ∧ v.rule.lastCheckedAt = some 10 ∧
    RuleLife.observations (s.database.ruleEvents 1) =
      [⟨some 200, 20, false⟩, ⟨some 50, 10, true⟩] := by
  have hrun : ((run (step .plain) {} overtaken).bind fun s : System =>
      (s.database.store.view 1).map fun v => decide (v.rule.lastCheckedAt = some 10 ∧
        RuleLife.observations (s.database.ruleEvents 1) =
          [⟨some 200, 20, false⟩, ⟨some 50, 10, true⟩])) = some true := by
    decide +kernel
  obtain ⟨s, hs, hview⟩ := Option.bind_eq_some_iff.mp hrun
  obtain ⟨v, hv, hfacts⟩ := Option.map_eq_some_iff.mp hview
  exact ⟨s, v, hs, hv, of_decide_eq_true hfacts⟩

/-- The row shows the snapshot processed last, although it is the older one. -/
theorem reflects_last_overtaken : ∃ s v, run (step .plain) {} overtaken = some s ∧
    s.database.store.view 1 = some v ∧ v.rule.Reflects (some ⟨some 50, 10, true⟩) := by
  obtain ⟨s, v, hs, hv, -, hobservations⟩ := overtaken_run
  have hlast := (Reachable.reflects_last ⟨overtaken, hs⟩ hv).1
  rw [hobservations] at hlast
  exact ⟨s, v, hs, hv, hlast⟩

/-- A stale snapshot overrides a newer one. -/
theorem not_reflects_latest :
    ¬ ∀ s, Reachable .plain s → ∀ id v, s.database.store.view id = some v →
      ∀ o ∈ RuleLife.observations (s.database.ruleEvents id),
        ∃ t, v.rule.lastCheckedAt = some t ∧ o.observedAt ≤ t := by
  intro h
  obtain ⟨s, v, hs, hv, hchecked, hobservations⟩ := overtaken_run
  obtain ⟨t, ht, hle⟩ := h s ⟨overtaken, hs⟩ 1 v hv ⟨some 200, 20, false⟩ (by simp [hobservations])
  obtain rfl := Option.some.inj (hchecked.symm.trans ht)
  exact absurd hle (by decide)

end System

end DonutMonitor
