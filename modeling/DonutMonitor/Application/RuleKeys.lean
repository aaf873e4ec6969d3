import DonutMonitor.Application.DisplayNumbers
import DonutMonitor.Application.Erasure
import DonutMonitor.Application.PendingNotifications
import DonutMonitor.Application.RuleIdentity

/-!
# Keys that are given once

While the database never gives the key of a rule again, a rule that is stored under a key is the
rule that has been stored there at any time before. An alert is then about one rule for good: the
one whose evaluation has raised it, with the price of its own item and price type.

## Main definitions

* `Database.ruleKeys` — the keys of the rules that have been created.
* `System.FreshKey` — a step gives no key again.
* `AlertEvent.Concerns` — an alert is about a rule.

## Main results

* `System.keepsIds_of_freshKey` — tasks hold keys that have been given.
* `Database.Reachable.view_terms` — a rule is the one that was stored under its key before.
* `System.concerns_of_freshKey` — each alert is about the rule that has raised it.
-/

namespace DonutMonitor

open Transition

namespace RuleLife

variable {ctx : DecimalContext} {v v' : RuleView}

/-- Along events none of which creates a rule, what is there has the terms of what was there. -/
theorem run_terms {events : List RuleEvent} (h : run (step ctx) (some v) events = some (some v'))
    (hkept : ∀ id draft, .created id draft ∉ events) :
    v'.rule.discordUserId = v.rule.discordUserId ∧ v'.rule.request = v.rule.request ∧
      v'.rule.thresholdRule = v.rule.thresholdRule := by
  induction events generalizing v with
  | nil =>
    obtain rfl := Option.some.inj (Option.some.inj h)
    exact ⟨rfl, rfl, rfl⟩
  | cons e events ih =>
    have hrest : ∀ id draft, .created id draft ∉ events :=
      fun id draft hmem => hkept id draft (List.mem_cons_of_mem _ hmem)
    obtain ⟨view, hstep, hrun⟩ := (run_cons _).mp h
    cases view with
    | none => cases run_absent hrun hrest
    | some w =>
      obtain ⟨-, huser, hrequest, hterms⟩ := step_terms hstep
      obtain ⟨huser', hrequest', hterms'⟩ := ih hrun hrest
      exact ⟨huser'.trans huser, hrequest'.trans hrequest, hterms'.trans hterms⟩

end RuleLife

/-! ### The keys of a history -/

theorem Transaction.ruleKey_eq_some {t : Transaction} {key : ℕ} (h : t.ruleKey = some key) :
    ∃ draft, t = create draft key := by
  cases t with
  | create draft key' => exact ⟨draft, by rw [Option.some.inj h]⟩
  | _ => cases h

namespace Database

/-- The keys of the rules that have been created, in their order. -/
def ruleKeys (db : Database) : List ℕ := db.history.filterMap (·.transaction.ruleKey)

variable {env : Environment} {db db' : Database} {origin : Option ℕ} {t : Transaction}
  {answer : Answer}

theorem ruleKeys_commit (h : db.commit env origin t = .ok (answer, db')) :
    db'.ruleKeys = db.ruleKeys ++ t.ruleKey.toList := by
  rw [ruleKeys, (commit_eq_ok.mp h).2, List.filterMap_append]
  cases hkey : t.ruleKey <;> simp [ruleKeys, hkey]

/-- A stored rule has a key that has been given. -/
theorem Reachable.mem_ruleKeys (h : Reachable env db) {id : ℕ} {v : RuleView}
    (hv : db.store.view id = some v) : id ∈ db.ruleKeys := by
  obtain ⟨origin, draft, pre, c, post, hsplit, -, hevent, -⟩ := h.createdBy hv
  refine List.mem_filterMap.mpr ⟨c, ?_, ?_⟩
  · rw [hsplit]
    simp
  · rw [(Transaction.ruleEvent_eq_created hevent).2]
    rfl

/-- With keys given once, a rule is the one that was stored under its key before. -/
theorem Reachable.view_terms (h : Reachable env db) (hkeys : db.ruleKeys.Nodup)
    {pre post : List Commit} {c : Commit} (hsplit : db.history = pre ++ c :: post) {id : ℕ}
    {v w : RuleView} (hv : c.before.view id = some v) (hw : db.store.view id = some w) :
    w.rule.discordUserId = v.rule.discordUserId ∧ w.rule.request = v.rule.request ∧
      w.rule.thresholdRule = v.rule.thresholdRule := by
  have hgiven : id ∈ pre.filterMap (·.transaction.ruleKey) := (h.before hsplit).1.mem_ruleKeys hv
  rw [ruleKeys, hsplit, List.filterMap_append] at hkeys
  have hrun := h.run_view hsplit id
  rw [hv, hw] at hrun
  refine RuleLife.run_terms hrun fun key draft hmem => ?_
  obtain ⟨c', hc', hevent⟩ := List.mem_filterMap.mp hmem
  obtain ⟨-, hcreate⟩ := Transaction.ruleEvent_eq_created hevent
  obtain rfl := (Transaction.ruleEvent_eq_created hevent).1
  refine List.disjoint_of_nodup_append hkeys hgiven (List.mem_filterMap.mpr ⟨c', hc', ?_⟩)
  rw [hcreate]
  rfl

end Database

/-! ### Fresh keys along a run -/

namespace System

/-- When a step creates a rule, its key has not been given before. -/
def FreshKey (s : System) : Label → Prop
  | .commit i input => ∀ draft ∈ s.tasks[i]?.bind Task.creates,
      input.ruleKey ∉ s.database.ruleKeys
  | .operation _ | .startAdd _ | .startPoll _ | .reject _ _ | .fetched _ _ | .sent _ _ => True

instance (s : System) : DecidablePred s.FreshKey
  | .commit i _ => inferInstanceAs (Decidable (∀ draft ∈ s.tasks[i]?.bind Task.creates, _))
  | .operation _ | .startAdd _ | .startPoll _ | .reject _ _ | .fetched _ _ | .sent _ _ =>
    .isTrue trivial

variable {env : Environment} {s s' : System} {label : Label} {i : ℕ} {task task' : Task}
  {labels : List Label}

/-- A step gives at most one key. -/
theorem ruleKeys_step (h : s.step env label = some s') :
    s'.database.ruleKeys = s.database.ruleKeys ∨ ∃ j input draft, label = .commit j input ∧
      s.tasks[j]?.bind Task.creates = some draft ∧
        s'.database.ruleKeys = s.database.ruleKeys ++ [input.ruleKey] := by
  rcases step_database h with hsame | ⟨origin, t, answer, hcommit, hwho⟩
  · exact .inl (by rw [hsame])
  · have hkeys := Database.ruleKeys_commit hcommit
    cases hkey : t.ruleKey with
    | none => exact .inl (by rw [hkeys, hkey, Option.toList_none, List.append_nil])
    | some key =>
      obtain ⟨draft, rfl⟩ := Transaction.ruleKey_eq_some hkey
      rcases hwho with ⟨operation, -, ht⟩ | ⟨j, input, creator, rfl, hcreator, hpending⟩
      · exact absurd ht Operation.not_create
      · obtain ⟨hcreates, rfl⟩ := Task.creates_of_pending hpending
        exact .inr ⟨j, input, draft, rfl, by rw [hcreator]; exact hcreates,
          by rw [hkeys, hkey]; rfl⟩

theorem ruleKeys_subset (h : s.step env label = some s') :
    s.database.ruleKeys ⊆ s'.database.ruleKeys := by
  rcases ruleKeys_step h with hsame | ⟨j, input, draft, -, -, hkeys⟩
  · exact hsame ▸ List.Subset.refl _
  · exact hkeys ▸ List.subset_append_left _ _

/-- Along a run that gives no key again, all keys are different. -/
theorem nodup_ruleKeys (h : Along (step env) FreshKey {} labels)
    (hrun : run (step env) {} labels = some s) : s.database.ruleKeys.Nodup := by
  refine run_invariant_along (step env) (I := fun s => s.database.ruleKeys.Nodup) ?_ h hrun
    List.nodup_nil
  intro s label s' hs hfresh hstep
  rcases ruleKeys_step hstep with hsame | ⟨j, input, draft, rfl, hcreates, hkeys⟩
  · rwa [hsame]
  · rw [hkeys, ← List.concat_eq_append]
    exact hs.concat (hfresh draft hcreates)

/-- The keys that a task holds after a step of its own are ones that it held, or that have been
given. -/
private theorem Moves.holds_given (hmoves : Moves env s s' i task task') {hold : Hold}
    (hhold : hold ∈ task'.holds env) :
    hold ∈ task.holds env ∨ hold.ruleId ∈ s'.database.ruleKeys := by
  have hnarrows : ∀ {p : Poll} {phase phase' : PollPhase}, phase'.Narrows phase →
      hold ∈ (Task.poll p phase').holds env → hold ∈ (Task.poll p phase).holds env := by
    intro p phase phase' hnarrows hhold
    obtain ⟨group, hgroup, hhold⟩ := List.mem_flatMap.mp hhold
    exact List.mem_flatMap.mpr ⟨group, hnarrows.groups group hgroup, hhold⟩
  cases hmoves with
  | committed input t answer hpending hcommit hresume hincidents =>
    cases task with
    | add call phase =>
      obtain ⟨phase', hphase, rfl⟩ := Option.map_eq_some_iff.mp hresume
      rcases AddPhase.holds_resume hphase with hnil | ⟨draft, created, rfl, rfl, rfl⟩
      · rw [hnil] at hhold
        cases hhold
      · obtain rfl := Option.some.inj hpending
        obtain ⟨⟨created', store⟩, hcreate, hanswer⟩ :=
          Except.bind_eq_ok.mp (Database.commit_eq_ok.mp hcommit).1
        obtain ⟨hcreated, -⟩ := Prod.mk.inj (Except.ok.inj hanswer)
        obtain rfl := Answer.created.inj hcreated
        obtain ⟨hrow, -⟩ := WatchService.create_ok hcreate
        obtain rfl := List.mem_singleton.mp hhold
        refine .inr ?_
        rw [Database.ruleKeys_commit hcommit, hrow]
        exact List.mem_append_right _ (List.mem_singleton_self _)
    | poll p phase =>
      obtain ⟨phase', hphase, rfl⟩ := Option.map_eq_some_iff.mp hresume
      exact .inl (hnarrows (PollPhase.narrows_resume hphase) hhold)
  | raised error hfail hdatabase hincidents =>
    cases task with
    | add call phase =>
      obtain ⟨phase', hphase, rfl⟩ := Option.map_eq_some_iff.mp hfail
      rw [AddPhase.holds_fail hphase] at hhold
      cases hhold
    | poll p phase =>
      obtain ⟨phase', hphase, rfl⟩ := Option.map_eq_some_iff.mp hfail
      exact .inl (hnarrows (PollPhase.narrows_fail hphase) hhold)
  | fetched request outcome hrequest hfetched hdatabase hincidents =>
    cases task with
    | add call phase =>
      obtain ⟨phase', hphase, rfl⟩ := Option.map_eq_some_iff.mp hfetched
      exact .inl (AddPhase.holds_fetched hphase hold hhold)
    | poll p phase =>
      obtain ⟨phase', hphase, rfl⟩ := Option.map_eq_some_iff.mp hfetched
      rcases PollPhase.narrows_fetched hphase with hphases | ⟨rfl, -⟩
      · exact .inl (hnarrows hphases hhold)
      · cases hhold
  | sent outcome hsent hdatabase hincidents =>
    cases task with
    | add call phase =>
      obtain ⟨phase', hphase, rfl⟩ := Option.map_eq_some_iff.mp hsent
      rw [AddPhase.holds_sent hphase] at hhold
      cases hhold
    | poll p phase =>
      obtain ⟨phase', hphase, rfl⟩ := Option.map_eq_some_iff.mp hsent
      exact .inl (hnarrows (PollPhase.narrows_sent hphase) hhold)

/-- The keys that tasks hold have been given. -/
def HoldsGiven (env : Environment) (s : System) : Prop :=
  ∀ (i : ℕ) task, s.tasks[i]? = some task → ∀ hold ∈ task.holds env,
    hold.ruleId ∈ s.database.ruleKeys

private theorem HoldsGiven.step (hs : Reachable env s) (h : HoldsGiven env s)
    (hstep : s.step env label = some s') : HoldsGiven env s' := by
  intro i task' htask' hold hhold
  rcases step_tasks hstep htask' with ⟨-, hdatabase, -, hnew⟩ | ⟨hold', -⟩ |
    ⟨task, htask, hmoves⟩
  · rcases hnew with ⟨call, rfl⟩ | ⟨discordUserId, p, hload, rfl⟩
    · rw [AddPhase.start] at hhold
      split at hhold <;> cases hhold
    · obtain ⟨-, -, -, hrules⟩ := loadPoll_eq_some hload
      obtain ⟨group, hgroup, hhold⟩ := List.mem_flatMap.mp hhold
      obtain ⟨r, hr, rfl⟩ := List.mem_map.mp hhold
      have hsound := Reachable.poll_sound (hs.tail hstep) htask'
      obtain ⟨hmem, -⟩ := hsound.groups group hgroup r hr
      rw [hdatabase]
      exact hs.database.mem_ruleKeys
        (Store.view_eq_some (v := ⟨r, _⟩).mpr ⟨(hrules r hmem).1, rfl⟩)
  · exact ruleKeys_subset hstep (h i task' hold' hold hhold)
  · rcases hmoves.holds_given hhold with hbefore | hgiven
    · exact ruleKeys_subset hstep (h i task htask hold hbefore)
    · exact hgiven

/-- Along a run that gives no key again, no key that a task holds is given to another rule. -/
theorem keepsIds_of_freshKey (h : Along (step env) FreshKey {} labels) :
    Along (step env) (KeepsIds env) {} labels := by
  refine h.of_invariant (I := fun s => Reachable env s ∧ HoldsGiven env s) (step env) ?_ ?_ ?_
  · exact fun s label s' ⟨hs, hgiven⟩ _ hstep => ⟨hs.tail hstep, hgiven.step hs hstep⟩
  · rintro s label ⟨-, hgiven⟩ hfresh
    cases label with
    | commit i input =>
      intro draft hdraft task htask hold hhold _ hkey
      obtain ⟨j, hj⟩ := List.mem_iff_getElem?.mp htask
      exact absurd (hkey ▸ hgiven j task hj hold hhold) (hfresh draft hdraft)
    | _ => trivial
  · exact ⟨.refl _, fun i task hnone => by simp at hnone⟩

end System

/-! ### The rule of an alert -/

/-- The alert is about the rule, and reports a price for its item and price type. -/
structure AlertEvent.Concerns (event : AlertEvent) (rule : WatchRule) : Prop where
  id : event.databaseRuleId = rule.id
  discordUserId : event.discordUserId = rule.discordUserId
  request : (event.itemId, event.snapshot.priceType) = rule.request
  condition : event.condition = rule.condition
  threshold : event.threshold = rule.threshold

theorem Operation.not_process {env : Environment} {operation : Operation} {t : Transaction}
    (h : operation.transaction env = .ok t) : t.processCall = none := by
  cases operation with
  | authenticate userId rawToken nonce =>
    obtain ⟨encrypted, fingerprint, rfl⟩ := AuthService.authenticate_ok h
    rfl
  | _ =>
    obtain rfl := Except.ok.inj h
    rfl

namespace System

variable {env : Environment} {s s' : System} {label : Label} {i : ℕ} {labels : List Label}
  {event : AlertEvent × ℕ}

/-- A commit that evaluates rules with prices of their own raises alerts that are about them. -/
private theorem concerns_of_process {call : ProcessCall} {observationKey : ℕ}
    {notificationKey : ℕ → ℕ} {store store' : Store} {answer : Answer}
    (hexec : (Transaction.process call observationKey notificationKey).exec env store =
      .ok (answer, store'))
    (howns : ∀ rule ∈ store.watchRules.rows, RuleProcessor.Evaluates call rule →
      call.snapshot.FetchedFor env rule.request) (hevent : event ∈ answer.events) :
    ∃ v, store.view event.1.databaseRuleId = some v ∧ event.1.Concerns v.rule := by
  obtain ⟨progress, hprocess, hanswer⟩ := Except.bind_eq_ok.mp hexec
  obtain ⟨rfl, -⟩ := Prod.mk.inj (Except.ok.inj hanswer)
  obtain ⟨id, v, hv, hevaluates, displayId, price, -, halert⟩ :=
    (RuleProcessor.process_ok hprocess).2.1 event hevent
  obtain rfl := Store.id_of_view hv
  have hrule := Table.mem_rows_iff.mpr (Store.view_eq_some.mp hv).1
  rw [halert]
  exact ⟨v, hv, rfl, hevaluates.2.1.symm,
    Prod.ext rfl (howns v.rule hrule hevaluates).2, rfl, rfl⟩

/-- Each alert is about the rule that has raised it. -/
def AlertsConcern (env : Environment) (s : System) : Prop :=
  ∀ c ∈ s.database.history, ∀ event ∈ c.alerts env, ∃ v,
    c.before.view event.1.databaseRuleId = some v ∧ event.1.Concerns v.rule

private theorem AlertsConcern.step (hs : AlertsConcern env s) (howns : EvaluatesOwn env s label)
    (hstep : s.step env label = some s') : AlertsConcern env s' := by
  intro c hc event hevent
  rcases step_database hstep with hsame | ⟨origin, t, answer, hcommit, hwho⟩
  · exact hs c (hsame ▸ hc) event hevent
  obtain ⟨hexec, hhistory⟩ := Database.commit_eq_ok.mp hcommit
  rw [hhistory] at hc
  rcases List.mem_append.mp hc with hc | hc
  · exact hs c hc event hevent
  obtain rfl := List.mem_singleton.mp hc
  rw [Database.alerts_eq hcommit] at hevent
  cases hcall : t.processCall with
  | none =>
    rw [Transaction.events_eq_nil hexec hcall] at hevent
    cases hevent
  | some call =>
    rcases hwho with ⟨operation, -, ht⟩ | ⟨j, input, task, rfl, htask, hpending⟩
    · rw [Operation.not_process ht] at hcall
      cases hcall
    · obtain ⟨observationKey, notificationKey, rfl⟩ := Transaction.processCall_eq_some.mp hcall
      exact concerns_of_process hexec
        (howns j input task call observationKey notificationKey rfl htask hpending) hevent

/-- Along a run that gives no key again, each alert is about the rule that has raised it. -/
theorem concerns_of_freshKey (h : Along (step env) FreshKey {} labels)
    (hrun : run (step env) {} labels = some s) : AlertsConcern env s :=
  run_invariant_along (step env) (fun _ _ _ hs howns hstep => hs.step howns hstep)
    (evaluatesOwn_of_keepsIds (keepsIds_of_freshKey h)) hrun fun c hc => by simp at hc

/-- Along a run that gives no key again, the rule that is stored under the key of an alert is the
one that the alert is about. -/
theorem concerns_view (h : Along (step env) FreshKey {} labels)
    (hrun : run (step env) {} labels = some s) {c : Commit} (hc : c ∈ s.database.history)
    (hevent : event ∈ c.alerts env) {w : RuleView}
    (hw : s.database.store.view event.1.databaseRuleId = some w) : event.1.Concerns w.rule := by
  obtain ⟨v, hv, hconcerns⟩ := concerns_of_freshKey h hrun c hc event hevent
  have hs : Reachable env s := ⟨labels, hrun⟩
  obtain ⟨pre, post, hsplit⟩ := List.append_of_mem hc
  obtain ⟨huser, hrequest, hterms⟩ := hs.database.view_terms (nodup_ruleKeys h hrun) hsplit hv hw
  exact ⟨(Store.id_of_view hw).symm, hconcerns.discordUserId.trans huser.symm,
    hconcerns.request.trans hrequest.symm,
    hconcerns.condition.trans (congrArg ThresholdRule.condition hterms).symm,
    hconcerns.threshold.trans (congrArg ThresholdRule.threshold hterms).symm⟩

end System

end DonutMonitor
