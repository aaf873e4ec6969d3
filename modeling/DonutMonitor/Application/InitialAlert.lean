import DonutMonitor.Application.AddCalls
import DonutMonitor.Application.AlertCooldown

/-!
# The alert of a new rule

A call of `WatchService.add` is to alert once when the price that it finds already matches. The
rule is visible to polls from its creation on, before the call itself evaluates it. A poll never
notifies a rule it finds unknown, but moves it out of that state; the evaluation of the call then
comes too late.

## Main definitions

* `Undisturbed` — the call finds its rule unknown or armed, or alerted already; and no evaluation
  alerts once more before the call returns.

## Main results

* `System.Reachable.add_alerts_once_iff` — the exact condition under which a call that returns a
  matching price has created one alert.
* `System.not_add_alerts_once` — a poll that sees the price first suppresses the alert.
-/

namespace DonutMonitor

open Transition

/-- The commits since the creation of a rule by task `i` let it alert once. -/
structure Undisturbed (i id : ℕ) (commits : List Commit) : Prop where
  /-- When the task evaluates its snapshot and the rule has not alerted yet, the rule is unknown or
  armed. -/
  own : ∀ c ∈ commits, c.origin = some i → ∀ v o, c.before.view id = some v →
    c.ruleEvent id = some (.evaluated o) → v.alerts = [] →
      v.rule.currentState = .unknown ∨ v.rule.currentState = v.rule.condition.armedState
  /-- Once the rule has alerted, no snapshot finds it able to alert again. -/
  later : ∀ c ∈ commits, ∀ v o, c.before.view id = some v →
    c.ruleEvent id = some (.evaluated o) → v.alerts ≠ [] → ¬ v.rule.AbleToAlert o

namespace Commit

variable {env : Environment} {c : Commit} {id : ℕ}

theorem alert_isSome : (c.alert env id).isSome ↔ ∃ v o, c.before.view id = some v ∧
    c.ruleEvent id = some (.evaluated o) ∧ v.rule.AbleToAlert o := by
  rw [alert]
  split
  · next v o hv ho => simp [hv, ho, WatchRule.alert_isSome]
  · next hother =>
    simp only [Option.isSome_none, Bool.false_eq_true, false_iff]
    rintro ⟨v, o, hv, ho, -⟩
    exact hother v o hv ho

end Commit

namespace Database

variable {env : Environment} {db : Database} {id : ℕ} {draft : RuleDraft}
  {pre post : List Commit} {c : Commit}

/-- The commits that raise an alert for a rule. -/
def alerting (env : Environment) (id : ℕ) (commits : List Commit) : List Commit :=
  commits.filter fun c => (c.alert env id).isSome

/-- A rule that has neither been paused nor deleted since its creation is enabled, and has one
alert for each commit that raised one. -/
theorem Reachable.view_since (h : Reachable env db) (hsplit : db.history = pre ++ c :: post)
    (hcreated : c.ruleEvent id = some (.created id draft))
    (hkept : ∀ d ∈ post, ∀ e, d.ruleEvent id = some e → ¬ e.Retires) :
    ∃ v, db.store.view id = some v ∧ v.rule.enabled = true ∧
      v.rule.discordUserId = draft.discordUserId ∧
      v.rule.thresholdRule = (draft.row id).thresholdRule ∧
      (v.alerts = [] → v.rule.lastTriggeredAt = none) ∧
      v.alerts.length = (alerting env id post).length := by
  induction post using List.reverseRecOn generalizing db with
  | nil =>
    have hview := Option.some.inj (h.view_of_created hsplit hcreated)
    exact ⟨_, hview.symm, rfl, rfl, rfl, fun _ => rfl, rfl⟩
  | append_singleton post d ih =>
    have hsplit' : db.history = (pre ++ c :: post) ++ d :: [] := by simp [hsplit]
    obtain ⟨v, hv, henabled, huser, hterms, hlast, hlength⟩ :=
      ih (h.before hsplit').1 rfl fun d hd => hkept d (List.mem_append_left _ hd)
    have hrun := h.run_view hsplit' id
    rw [hv] at hrun
    cases hevent : d.ruleEvent id with
    | none =>
      simp only [List.filterMap_cons, hevent, List.filterMap_nil] at hrun
      have hquiet : d.alert env id = none := by rw [Commit.alert, hevent]; simp
      exact ⟨v, (Option.some.inj hrun).symm, henabled, huser, hterms, hlast,
        by simpa [alerting, hquiet] using hlength⟩
    | some e =>
      simp only [List.filterMap_cons, hevent, List.filterMap_nil, run_singleton] at hrun
      have hretires : ¬ e.Retires := hkept d (by simp) e hevent
      obtain ⟨v', hv', henabled'⟩ := RuleLife.run_enabled ((run_singleton _).mpr hrun)
        (fun e' he' => List.mem_singleton.mp he' ▸ hretires) henabled
      rw [hv'] at hrun
      obtain ⟨-, huser', -, -⟩ := RuleLife.step_terms hrun
      obtain ⟨hterms', hlast', hlength', -⟩ := RuleLife.step_lastTriggeredAt hrun
      have halert : (d.alert env id).isSome = (RuleLife.alertTime env.decimal v e).isSome := by
        rw [Commit.alert, hv, hevent]
        cases e with
        | evaluated o =>
          simp only [RuleLife.alertTime]
          split_ifs with hsome <;> simp [hsome]
        | created id draft => rfl
        | enabledSet enabled => rfl
        | deleted => rfl
      refine ⟨v', hv', henabled', huser'.trans huser, hterms'.trans hterms, fun hnil => ?_, ?_⟩
      · have hzero : v.alerts.length + (RuleLife.alertTime env.decimal v e).toList.length = 0 := by
          rw [← hlength', hnil, List.length_nil]
        have hnone : RuleLife.alertTime env.decimal v e = none := by
          cases htime : RuleLife.alertTime env.decimal v e with
          | none => rfl
          | some t => simp [htime] at hzero
        rw [hlast', hnone, Option.none_or, hlast (List.length_eq_zero_iff.mp (by omega))]
      · rw [hlength', hlength, alerting, alerting, List.filter_append, List.length_append]
        cases htime : RuleLife.alertTime env.decimal v e <;>
          simp [halert, htime]

/-- The rule as a later commit found it. -/
theorem Reachable.view_before (h : Reachable env db) {a b : List Commit} {d : Commit}
    (hsplit : db.history = pre ++ c :: (a ++ d :: b))
    (hcreated : c.ruleEvent id = some (.created id draft))
    (hkept : ∀ d' ∈ a ++ d :: b, ∀ e, d'.ruleEvent id = some e → ¬ e.Retires) :
    ∃ v, d.before.view id = some v ∧ v.rule.enabled = true ∧
      v.rule.discordUserId = draft.discordUserId ∧
      v.rule.thresholdRule = (draft.row id).thresholdRule ∧
      (v.alerts = [] → v.rule.lastTriggeredAt = none) ∧
      v.alerts.length = (alerting env id a).length := by
  have hsplit' : db.history = (pre ++ c :: a) ++ d :: b := by simp [hsplit]
  exact (h.before hsplit').1.view_since rfl hcreated
    fun d' hd' => hkept d' (List.mem_append_left _ hd')

/-- A rule alerts at most once if and only if no snapshot finds it able to alert once it has
alerted. -/
theorem Reachable.alerting_le_one_iff (h : Reachable env db)
    (hsplit : db.history = pre ++ c :: post)
    (hcreated : c.ruleEvent id = some (.created id draft))
    (hkept : ∀ d ∈ post, ∀ e, d.ruleEvent id = some e → ¬ e.Retires) :
    (alerting env id post).length ≤ 1 ↔ ∀ d ∈ post, ∀ v o, d.before.view id = some v →
      d.ruleEvent id = some (.evaluated o) → v.alerts ≠ [] → ¬ v.rule.AbleToAlert o := by
  constructor
  · intro hle d hd v o hv ho hne hable
    obtain ⟨a, b, rfl⟩ := List.append_of_mem hd
    obtain ⟨v', hv', -, -, -, -, hlength⟩ := h.view_before hsplit hcreated hkept
    obtain rfl := Option.some.inj (hv.symm.trans hv')
    have halert : (d.alert env id).isSome := Commit.alert_isSome.mpr ⟨v, o, hv, ho, hable⟩
    have hpos := List.length_pos_iff.mpr hne
    simp only [alerting, List.filter_append, List.filter_cons, halert, if_true,
      List.length_append, List.length_cons] at hle hlength
    omega
  · intro hlater
    by_contra hlt
    obtain ⟨x, y, zs, hxy⟩ : ∃ x y zs, alerting env id post = x :: y :: zs := by
      match halerting : alerting env id post with
      | [] => simp [halerting] at hlt
      | [x] => simp [halerting] at hlt
      | x :: y :: zs => exact ⟨x, y, zs, rfl⟩
    obtain ⟨a, l, rfl, -, hx, hl⟩ := List.filter_eq_cons_iff.mp hxy
    obtain ⟨a', b, rfl, -, hy, -⟩ := List.filter_eq_cons_iff.mp hl
    have hassoc : a ++ x :: (a' ++ y :: b) = (a ++ x :: a') ++ y :: b := by simp
    rw [hassoc] at hsplit hkept hlater
    obtain ⟨v, o, hv, ho, hable⟩ := Commit.alert_isSome.mp hy
    obtain ⟨v', hv', -, -, -, -, hlength⟩ := h.view_before hsplit hcreated hkept
    obtain rfl := Option.some.inj (hv.symm.trans hv')
    refine hlater y (by simp) v o hv ho (fun hnil => ?_) hable
    simp [alerting, List.filter_append, hx, hnil] at hlength

end Database

namespace System

variable {env : Environment} {s s' : System} {i : ℕ} {label : Label} {call : AddCall}
  {created : CreatedRule} {snapshot : PriceSnapshot}

/-- A call returns in a step of its own only when a transaction of its processing commits and
nothing is left to deliver. -/
private theorem Moves.of_returned {task : Task}
    (h : Moves env s s' i task (.add call (.returned created snapshot))) :
    ∃ phase t answer, task = .add call (.processing created snapshot phase) ∧
      phase.resume answer = some none ∧
      s.database.commit env (some i) t = .ok (answer, s'.database) := by
  cases h with
  | committed input t answer hpending hcommit hresume hincidents =>
    obtain ⟨phase, rfl, hphase⟩ := Task.resume_eq_add.mp hresume
    cases phase with
    | processing created' snapshot' phase =>
      obtain ⟨next, hnext, hreturned⟩ := Option.map_eq_some_iff.mp hphase
      cases next with
      | some next => cases hreturned
      | none =>
        obtain ⟨rfl, rfl⟩ := AddPhase.returned.inj hreturned
        exact ⟨phase, t, answer, rfl, hnext, hcommit⟩
    | creating draft => cases answer <;> cases hphase
    | fetching created => cases hphase
    | undoing created error => cases answer <;> cases hphase
    | returned created snapshot => cases hphase
    | raised created error => cases hphase
  | raised error hfail =>
    obtain ⟨phase, rfl, hphase⟩ := Task.fail_eq_add.mp hfail
    obtain ⟨created', hraised⟩ := AddPhase.fail_raises hphase
    cases hraised
  | fetched request outcome hrequest hfetched =>
    obtain ⟨phase, rfl, hphase⟩ := Task.fetched_eq_add.mp hfetched
    cases phase with
    | fetching created => cases outcome <;> cases hphase
    | _ => cases hphase
  | sent outcome hsent =>
    obtain ⟨phase, rfl, hphase⟩ := Task.sent_eq_add.mp hsent
    cases phase with
    | processing created snapshot phase =>
      obtain ⟨next, -, hnext⟩ := Option.map_eq_some_iff.mp hphase
      cases hnext
    | _ => cases hphase

/-- At the step at which a call returns, either its evaluation has alerted or it is the commit of
this step. -/
private theorem commits_at_return (h : Reachable env s) (hstep : s.step env label = some s')
    (hreturns : s.tasks[i]? ≠ s'.tasks[i]?)
    (htask : s'.tasks[i]? = some (.add call (.returned created snapshot))) :
    ∃ c p rest, s'.database.committedBy i = c :: p :: rest ∧ c.Creates env call created ∧
      p.Processes call created snapshot ∧ (∀ d ∈ rest, d.RecordsDelivery) ∧
      ((p.alert env created.rule.id).isSome ∨ ∃ history, s'.database.history = history ++ [p]) := by
  obtain ⟨-, c, p, rest, hcommitted, hcreates, hprocesses, hdeliveries⟩ :=
    Reachable.add_commits (h.tail hstep) htask
  refine ⟨c, p, rest, hcommitted, hcreates, hprocesses, hdeliveries, ?_⟩
  rcases step_tasks hstep htask with ⟨-, -, -, hnew⟩ | ⟨hold, -⟩ | ⟨task, hold, hmoves⟩
  · rcases hnew with ⟨call', hcall⟩ | ⟨discordUserId, poll, -, hpoll⟩
    · obtain ⟨rfl, hphase⟩ := Task.add.inj hcall
      rw [AddPhase.start] at hphase
      split at hphase <;> cases hphase
    · cases hpoll
  · exact absurd (hold.trans htask.symm) hreturns
  · obtain ⟨phase, t, answer, rfl, hresume, hcommit⟩ := hmoves.of_returned
    have hbefore := h.add_commits hold
    rw [Database.committedBy_own hcommit] at hcommitted
    cases phase with
    | evaluating =>
      -- the evaluation had nothing to deliver, so it is what this step commits
      obtain ⟨-, c', hc', -⟩ := hbefore
      rw [hc'] at hcommitted
      obtain ⟨-, hp⟩ := List.cons.inj hcommitted
      obtain ⟨rfl, -⟩ := List.cons.inj hp
      exact .inr ⟨_, (Database.commit_eq_ok.mp hcommit).2⟩
    | delivering event rest => cases hresume
    | recording event outcome rest =>
      obtain ⟨-, c', p', rest', hc', -, -, halert, -⟩ := hbefore
      rw [hc'] at hcommitted
      obtain ⟨-, hp⟩ := List.cons.inj hcommitted
      obtain ⟨rfl, -⟩ := List.cons.inj hp
      exact .inl halert

/-- The evaluation of a call that returns, among the commits since it created its rule. It is the
last of these commits unless it has alerted. -/
private theorem evaluation_at_return (h : Reachable env s) (hstep : s.step env label = some s')
    (hreturns : s.tasks[i]? ≠ s'.tasks[i]?)
    (htask : s'.tasks[i]? = some (.add call (.returned created snapshot)))
    {pre post : List Commit} {c : Commit} {draft : RuleDraft}
    (hsplit : s'.database.history = pre ++ c :: post) (hown : c.origin = some i)
    (hcreated : c.ruleEvent created.rule.id = some (.created created.rule.id draft)) :
    (created.rule = draft.row created.rule.id ∧ draft.discordUserId = call.discordUserId) ∧
      ∃ mid p post', post = mid ++ p :: post' ∧ p.origin = some i ∧
        p.Processes call created snapshot ∧
        (∀ d ∈ post, d.origin = some i → ∀ e, d.ruleEvent created.rule.id = some e → d = p) ∧
        (¬ (p.alert env created.rule.id).isSome → post' = []) := by
  obtain ⟨c₀, p, rest, hcommitted, hcreates, hprocesses, hdeliveries, hlast⟩ :=
    commits_at_return h hstep hreturns htask
  have hfirst : c = c₀ ∧ (post.filter fun c => c.origin = some i) = p :: rest := by
    refine (Database.own_split hcommitted hsplit hown).resolve_right fun hmem => ?_
    rcases List.mem_cons.mp hmem with rfl | hmem
    · obtain ⟨o, ho⟩ := hprocesses.evaluated hcreated
      cases ho
    · rw [(hdeliveries c hmem).ruleEvent] at hcreated
      cases hcreated
  obtain ⟨rfl, hpost⟩ := hfirst
  obtain ⟨-, draft', hdraft, hrule, huser⟩ := hcreates.eq_created hcreated
  obtain ⟨-, rfl⟩ := RuleEvent.created.inj hdraft
  obtain ⟨mid, post', rfl, -, hpown, hrest⟩ := List.filter_eq_cons_iff.mp hpost
  refine ⟨⟨hrule, huser⟩, mid, p, post', rfl, by simpa using hpown, hprocesses,
    fun d hd hdown e he => ?_, fun hquiet => ?_⟩
  · have hmem : d ∈ p :: rest := by
      rw [← hpost]
      exact List.mem_filter.mpr ⟨hd, by simpa using hdown⟩
    refine (List.mem_cons.mp hmem).resolve_right fun hmem => ?_
    rw [(hdeliveries d hmem).ruleEvent] at he
    cases he
  · -- the call returned when it committed its evaluation, so no other commit came after it
    obtain ⟨history, hhistory⟩ := hlast.resolve_left hquiet
    rcases List.eq_nil_or_concat post' with hnil | ⟨others, last, rfl⟩
    · exact hnil
    · have hends : (pre ++ c :: (mid ++ p :: others)) ++ [last] = history ++ [p] := by
        rw [← hhistory, hsplit]
        simp
      obtain rfl := List.singleton_inj.mp (List.append_inj' hends rfl).2
      have hmem : last ∈ rest := by
        rw [← hrest]
        exact List.mem_filter.mpr ⟨by simp, hpown⟩
      obtain ⟨order, processCall, observationKey, notificationKey, -, hprocess⟩ := hprocesses
      rcases hdeliveries last hmem with ⟨_, _, _, hdelivery⟩ | ⟨_, _, _, hdelivery⟩
      · cases hprocess.symm.trans hdelivery
      · cases hprocess.symm.trans hdelivery

/-- A call that returns a price satisfying the condition of its rule, which has neither been paused
nor deleted since, has created one alert for it by then if and only if it was undisturbed. -/
theorem Reachable.add_alerts_once_iff (h : Reachable env s) (hstep : s.step env label = some s')
    (hreturns : s.tasks[i]? ≠ s'.tasks[i]?)
    (htask : s'.tasks[i]? = some (.add call (.returned created snapshot))) {price : ℚ}
    (hprice : snapshot.selectedPrice = some price)
    (hmatches : created.rule.thresholdRule.Matches price) {pre post : List Commit} {c : Commit}
    {draft : RuleDraft} (hsplit : s'.database.history = pre ++ c :: post)
    (hown : c.origin = some i)
    (hcreated : c.ruleEvent created.rule.id = some (.created created.rule.id draft))
    (hkept : ∀ d ∈ post, ∀ e, d.ruleEvent created.rule.id = some e → ¬ e.Retires) :
    (s'.database.store.alerts created.rule.id).length = 1 ↔
      Undisturbed i created.rule.id post := by
  have hdb := Reachable.database (h.tail hstep)
  obtain ⟨⟨hrule, huser⟩, mid, p, post', rfl, hpown, hprocesses, honly, hlast⟩ :=
    evaluation_at_return h hstep hreturns htask hsplit hown hcreated
  -- the rule as the call finds it
  obtain ⟨v, hv, henabled, howner, hterms, hready, hlength⟩ :=
    hdb.view_before hsplit hcreated hkept
  have hevent : p.ruleEvent created.rule.id = some (.evaluated (snapshot.observation true)) :=
    hprocesses.ruleEvent hv (howner.trans huser) henabled
  have halert : (p.alert env created.rule.id).isSome ↔
      v.rule.AbleToAlert (snapshot.observation true) := by
    simp [Commit.alert_isSome, hv, hevent]
  -- the alerts since the creation
  obtain ⟨w, hw, -, -, -, -, hcount⟩ := hdb.view_since hsplit hcreated hkept
  rw [(Store.view_eq_some.mp hw).2, hcount]
  have hle := hdb.alerting_le_one_iff hsplit hcreated hkept
  constructor
  · intro hone
    refine ⟨fun d hd hdown v' o hv' ho hnil => ?_, hle.mp hone.le⟩
    obtain rfl := honly d hd hdown _ ho
    obtain rfl := Option.some.inj (hv.symm.trans hv')
    by_contra hstate
    have hquiet : ¬ (d.alert env created.rule.id).isSome := by
      rw [halert]
      rintro ⟨price', -, -, -, hable⟩
      exact hstate (hable.symm.imp_left And.left)
    obtain rfl := hlast hquiet
    rw [hnil, List.length_nil] at hlength
    simp [Database.alerting, List.filter_append, hquiet] at hone hlength
    omega
  · intro hundisturbed
    have hpos : 0 < (Database.alerting env created.rule.id (mid ++ p :: post')).length := by
      by_contra hzero
      have hnil : v.alerts = [] := by
        simp only [Database.alerting, List.filter_append, List.length_append] at hzero hlength
        exact List.length_eq_zero_iff.mp (by omega)
      have hstate := hundisturbed.own p (by simp) hpown v _ hv hevent hnil
      have hable : v.rule.AbleToAlert (snapshot.observation true) := by
        refine ⟨price, hprice, by rwa [hterms, ← hrule], ?_,
          hstate.symm.imp_right fun hunknown => ⟨hunknown, rfl⟩⟩
        rw [hready hnil]
        rfl
      simp [Database.alerting, List.filter_append, halert.mpr hable] at hzero
    have hatmost := hle.mpr hundisturbed.later
    omega

/-- A watch for elytras at or below 100 is added. Before its price check finds one at 50, a poll
finds one at 200 and evaluates the new rule. -/
def armingPoll : List Label :=
  [.operation (.authenticate 1 "token" 0), .startAdd .elytra, .commit 0 { ruleKey := 1 },
    .startPoll 1, .fetched 1 (.listing (some (.elytra 200)) 0 1),
    .commit 1 { observationKey := 1, order := [1] },
    .fetched 0 (.listing (some (.elytra 50)) 1 1),
    .commit 0 { observationKey := 2, notificationKey := fun _ => 1, order := [1] },
    .sent 0 (.ok 7)]

/-- The poll has armed the rule, and the call has created one alert. -/
theorem add_alerts_once_iff_armingPoll : ∃ s s', run (step .plain) {} armingPoll = some s ∧
    s.step .plain (.commit 0 {}) = some s' ∧ (s'.database.store.alerts 1).length = 1 := by
  have hrun : ((run (step .plain) {} armingPoll).bind fun s : System =>
      (s.step .plain (.commit 0 {})).bind fun s' : System =>
        (s'.tasks[0]?.bind Task.returnedAdd).map fun returned =>
          decide ((s.tasks[0]?.bind Task.returnedAdd).isNone = true ∧
            returned.2.1.rule = RuleDraft.elytra.row 1 ∧
            returned.2.2.selectedPrice = some 50 ∧
            (s'.database.history.map fun c => (c.origin, c.ruleEvent 1)) =
              [(none, none), (some 0, some (.created 1 .elytra)),
                (some 1, some (.evaluated ⟨some 200, 0, false⟩)),
                (some 0, some (.evaluated ⟨some 50, 1, true⟩)), (some 0, none)] ∧
            (s'.database.history.map fun c => (c.before.view 1).map fun v =>
                (v.alerts, v.rule.condition, v.rule.currentState)) =
              [none, none, some ([], .priceDown, .unknown), some ([], .priceDown, .aboveThreshold),
                some ([(50, some 200)], .priceDown, .belowThreshold)])) = some true := by
    decide +kernel
  obtain ⟨s, hs, hrest⟩ := Option.bind_eq_some_iff.mp hrun
  obtain ⟨s', hs', htasks⟩ := Option.bind_eq_some_iff.mp hrest
  obtain ⟨⟨call, created, snapshot⟩, hreturned, hfacts⟩ := Option.map_eq_some_iff.mp htasks
  obtain ⟨hbefore, hrule, hprice, hevents, hviews⟩ := of_decide_eq_true hfacts
  have hreturns : s.tasks[0]? ≠ s'.tasks[0]? := by
    intro hsame
    rw [hsame, hreturned] at hbefore
    cases hbefore
  obtain ⟨task, htask, hreturned⟩ := Option.bind_eq_some_iff.mp hreturned
  obtain rfl := Task.returnedAdd_eq_some.mp hreturned
  have hid : created.rule.id = 1 := by rw [hrule]; rfl
  obtain ⟨c₁, l₁, hhistory, -, h₁⟩ := List.map_eq_cons_iff.mp hevents
  obtain ⟨c₂, l₂, rfl, hc₂, h₂⟩ := List.map_eq_cons_iff.mp h₁
  obtain ⟨c₃, l₃, rfl, hc₃, h₃⟩ := List.map_eq_cons_iff.mp h₂
  obtain ⟨c₄, l₄, rfl, hc₄, h₄⟩ := List.map_eq_cons_iff.mp h₃
  obtain ⟨c₅, l₅, rfl, hc₅, h₅⟩ := List.map_eq_cons_iff.mp h₄
  obtain rfl := List.map_eq_nil_iff.mp h₅
  obtain ⟨horigin, hcreated⟩ := Prod.mk.inj hc₂
  obtain ⟨hpoll, hpolled⟩ := Prod.mk.inj hc₃
  obtain ⟨-, hevaluated⟩ := Prod.mk.inj hc₄
  obtain ⟨-, hdelivery⟩ := Prod.mk.inj hc₅
  have hsplit : s'.database.history = [c₁] ++ c₂ :: [c₃, c₄, c₅] := hhistory
  rw [hhistory] at hviews
  simp only [List.map_cons, List.map_nil, List.cons.injEq, and_true] at hviews
  obtain ⟨-, -, hview₃, hview₄, -⟩ := hviews
  have honce := Reachable.add_alerts_once_iff ⟨_, hs⟩ hs' hreturns htask hprice
    (by rw [hrule]; decide) hsplit horigin (by rwa [hid])
    (by simp [hid, hpolled, hevaluated, hdelivery, RuleEvent.Retires])
  rw [hid] at honce
  refine ⟨s, s', hs, hs', honce.mpr ⟨?_, ?_⟩⟩
  · rintro c hc hown v o hv ho -
    rcases List.mem_cons.mp hc with rfl | hc
    · cases hown.symm.trans hpoll
    rcases List.mem_pair.mp hc with rfl | rfl
    · -- the call finds the rule armed by the poll
      simp only [hv, Option.map_some, Option.some.injEq, Prod.mk.injEq] at hview₄
      exact .inr (hview₄.2.2.trans (congrArg Condition.armedState hview₄.2.1).symm)
    · cases hdelivery.symm.trans ho
  · intro c hc v o hv ho hne
    rcases List.mem_cons.mp hc with rfl | hc
    · simp only [hv, Option.map_some, Option.some.injEq, Prod.mk.injEq] at hview₃
      exact absurd hview₃.1 hne
    rcases List.mem_pair.mp hc with rfl | rfl
    · simp only [hv, Option.map_some, Option.some.injEq, Prod.mk.injEq] at hview₄
      exact absurd hview₄.1 hne
    · cases hdelivery.symm.trans ho

/-- A watch for elytras at or below 100 is added. Before its price check is answered, a poll finds
an elytra at 50 and evaluates the new rule. -/
def silentPoll : List Label :=
  [.operation (.authenticate 1 "token" 0), .startAdd .elytra, .commit 0 { ruleKey := 1 },
    .startPoll 1, .fetched 1 (.listing (some (.elytra 50)) 0 1),
    .commit 1 { observationKey := 1, order := [1] },
    .fetched 0 (.listing (some (.elytra 50)) 1 1),
    .commit 0 { observationKey := 2, notificationKey := fun _ => 1, order := [1] }]

/-- The call returns a matching price, its rule has neither been paused nor deleted, and no alert
has been created. -/
theorem not_add_alerts_once : ∃ s created snapshot price,
    run (step .plain) {} silentPoll = some s ∧
    s.tasks[0]? = some (.add .elytra (.returned created snapshot)) ∧
    snapshot.selectedPrice = some price ∧ created.rule.thresholdRule.Matches price ∧
    (∀ c ∈ s.database.history, ∀ e, c.ruleEvent created.rule.id = some e → ¬ e.Retires) ∧
    s.database.store.alerts created.rule.id = [] := by
  have hrun : ((run (step .plain) {} silentPoll).bind fun s : System =>
      (s.tasks[0]?.bind Task.returnedAdd).map fun returned =>
        decide (returned.1 = AddCall.elytra ∧ returned.2.1.rule = RuleDraft.elytra.row 1 ∧
          returned.2.2.selectedPrice = some 50 ∧
          (s.database.history.map fun c => c.ruleEvent 1) =
            [none, some (.created 1 .elytra), some (.evaluated ⟨some 50, 0, false⟩),
              some (.evaluated ⟨some 50, 1, true⟩)] ∧
          s.database.store.alerts 1 = [])) = some true := by
    decide +kernel
  obtain ⟨s, hs, htask⟩ := Option.bind_eq_some_iff.mp hrun
  obtain ⟨⟨call, created, snapshot⟩, hreturned, hfacts⟩ := Option.map_eq_some_iff.mp htask
  obtain ⟨rfl, hrule, hprice, hevents, halerts⟩ := of_decide_eq_true hfacts
  obtain ⟨task, htask, hreturned⟩ := Option.bind_eq_some_iff.mp hreturned
  obtain rfl := Task.returnedAdd_eq_some.mp hreturned
  have hid : created.rule.id = 1 := by rw [hrule]; rfl
  refine ⟨s, created, snapshot, 50, hs, htask, hprice, by rw [hrule]; decide,
    fun c hc e he => ?_, by rw [hid, halerts]⟩
  have hmem : some e ∈ s.database.history.map fun c => c.ruleEvent 1 := by
    rw [← he, hid]
    exact List.mem_map_of_mem hc
  rw [hevents] at hmem
  simp only [List.mem_cons, reduceCtorEq, Option.some.injEq, List.not_mem_nil, or_false,
    false_or] at hmem
  rcases hmem with rfl | rfl | rfl <;> exact id

end System

end DonutMonitor
