import DonutMonitor.Application.System

/-!
# The transactions of a call of `add`

A call of `WatchService.add` commits the transaction that creates its rule. After a failed price
check it commits one that deletes the rule; otherwise it commits one that processes the snapshot,
and the bookkeeping of each delivery. How far it has come shows in its phase, whatever the other
tasks commit in between.

## Main definitions

* `Database.committedBy` — the transactions that a task has committed.
* `AddPhase.Commits` — what a call has committed in each of its phases.

## Main results

* `System.Reachable.add_commits` — the commits of a call, in every reachable system.
-/

namespace DonutMonitor

open Transition

theorem WatchService.draft_ok {env : Environment} {call : AddCall} {draft : RuleDraft}
    (h : WatchService.draft env call = .ok draft) :
    draft.discordUserId = call.discordUserId ∧
      (draft.itemId, draft.priceType) =
        (normalizeItemId env.lower call.itemId, call.priceType) := by
  rw [WatchService.draft] at h
  split at h
  · cases h
  · split at h
    · cases h
    · obtain rfl := Except.ok.inj h
      exact ⟨rfl, rfl⟩

namespace Commit

variable (env : Environment) (call : AddCall) (created : CreatedRule) (c : Commit)

/-- The alert that the commit raises for the rule with the given key. -/
def alert (id : ℕ) : Option (ℚ × Option ℚ) :=
  match c.before.view id, c.ruleEvent id with
  | some v, some (.evaluated o) => v.rule.alert env.decimal o
  | _, _ => none

/-- The commit creates the rule of a call. -/
def Creates : Prop :=
  ∃ draft, WatchService.draft env call = .ok draft ∧ created.rule = draft.row created.rule.id ∧
    c.transaction = .create draft created.rule.id

/-- The commit deletes the rule of a call after a failed price check. -/
def Undoes : Prop := c.transaction = .undoCreate call.discordUserId created.rule.id

/-- The commit processes the snapshot of a call. -/
def Processes (snapshot : PriceSnapshot) : Prop :=
  ∃ order processCall observationKey notificationKey,
    (AddPhase.processArgs call created snapshot).call order = some processCall ∧
      c.transaction = .process processCall observationKey notificationKey

/-- The commit records the outcome of a delivery. -/
def RecordsDelivery : Prop :=
  (∃ notificationId discordUserId name,
    c.transaction = .deliveryFailed notificationId discordUserId name) ∨
  ∃ notificationId discordUserId messageId,
    c.transaction = .deliverySent notificationId discordUserId messageId

variable {env call created c} {id : ℕ} {e : RuleEvent}

theorem Creates.ruleEvent_self (h : c.Creates env call created) : ∃ draft,
    c.ruleEvent created.rule.id = some (.created created.rule.id draft) := by
  obtain ⟨draft, -, -, htransaction⟩ := h
  exact ⟨draft, by rw [Commit.ruleEvent, htransaction, Transaction.ruleEvent, if_pos rfl]⟩

theorem Creates.eq_created (h : c.Creates env call created) (he : c.ruleEvent id = some e) :
    id = created.rule.id ∧ ∃ draft, e = .created id draft ∧ created.rule = draft.row id ∧
      draft.discordUserId = call.discordUserId := by
  obtain ⟨draft, hdraft, hrule, htransaction⟩ := h
  rw [Commit.ruleEvent, htransaction, Transaction.ruleEvent] at he
  split_ifs at he with hid
  subst hid
  exact ⟨rfl, draft, (Option.some.inj he).symm, hrule, (WatchService.draft_ok hdraft).1⟩

theorem Processes.evaluated {snapshot : PriceSnapshot} (h : c.Processes call created snapshot)
    (he : c.ruleEvent id = some e) : ∃ o, e = .evaluated o := by
  obtain ⟨order, processCall, observationKey, notificationKey, -, htransaction⟩ := h
  rw [Commit.ruleEvent, htransaction] at he
  obtain ⟨rule, -, he⟩ := Option.bind_eq_some_iff.mp he
  split_ifs at he
  exact ⟨_, (Option.some.inj he).symm⟩

/-- Processing the snapshot evaluates the rule of the call, when it is stored and enabled. -/
theorem Processes.ruleEvent {snapshot : PriceSnapshot} (h : c.Processes call created snapshot)
    {v : RuleView} (hv : c.before.view created.rule.id = some v)
    (howner : v.rule.discordUserId = call.discordUserId) (henabled : v.rule.enabled = true) :
    c.ruleEvent created.rule.id = some (.evaluated (snapshot.observation true)) := by
  obtain ⟨order, processCall, observationKey, notificationKey, hcall, htransaction⟩ := h
  obtain ⟨horder, hids, huser, hsnapshot, hinitial⟩ := ProcessArgs.call_eq_some hcall
  have hevaluates : RuleProcessor.Evaluates processCall v.rule := by
    refine ⟨?_, howner.trans huser.symm, henabled⟩
    rw [hids, horder.mem_iff, Store.id_of_view hv]
    exact List.mem_singleton_self _
  have hobservation : processCall.observation created.rule.id = snapshot.observation true := by
    rw [ProcessCall.observation, hsnapshot, hinitial]
    simp [AddPhase.processArgs]
  rw [Commit.ruleEvent, htransaction, Transaction.ruleEvent, (Store.view_eq_some.mp hv).1,
    Option.bind_some, if_pos hevaluates, hobservation]

theorem RecordsDelivery.ruleEvent (h : c.RecordsDelivery) : c.ruleEvent id = none := by
  rcases h with ⟨_, _, _, htransaction⟩ | ⟨_, _, _, htransaction⟩
  · rw [Commit.ruleEvent, htransaction]
    rfl
  · rw [Commit.ruleEvent, htransaction]
    rfl

theorem Undoes.ruleEvent (h : c.Undoes call created) :
    c.ruleEvent id = if id = created.rule.id then
      Transaction.ownedEvent c.before call.discordUserId id .deleted else none := by
  rw [Commit.ruleEvent, h, Transaction.ruleEvent]

end Commit

/-- The transactions that task `i` has committed. -/
def Database.committedBy (db : Database) (i : ℕ) : List Commit :=
  db.history.filter fun c => c.origin = some i

namespace Database

variable {db : Database} {i : ℕ} {c₀ : Commit} {rest pre post : List Commit} {c : Commit}

theorem committedBy_split (hsplit : db.history = pre ++ c :: post) (hown : c.origin = some i) :
    db.committedBy i =
      (pre.filter fun c => c.origin = some i) ++ c :: post.filter fun c => c.origin = some i := by
  simp [committedBy, hsplit, hown]

/-- A commit of a task is its first one or a later one. -/
theorem own_split (h : db.committedBy i = c₀ :: rest) (hsplit : db.history = pre ++ c :: post)
    (hown : c.origin = some i) :
    c = c₀ ∧ (post.filter fun c => c.origin = some i) = rest ∨ c ∈ rest := by
  rw [committedBy_split hsplit hown] at h
  cases hpre : pre.filter fun c => c.origin = some i with
  | nil =>
    rw [hpre] at h
    exact .inl (List.cons.inj h)
  | cons d ds =>
    rw [hpre] at h
    obtain ⟨rfl, rfl⟩ := List.cons.inj h
    exact .inr (by simp)

end Database

/-- What a call has committed in each of its phases; `failed` says that one of its transactions
raised. -/
def AddPhase.Commits (env : Environment) (call : AddCall) (failed : Prop) (commits : List Commit) :
    AddPhase → Prop
  | creating draft => ¬ failed ∧ commits = [] ∧ WatchService.draft env call = .ok draft
  | fetching created | undoing created _ | processing created _ .evaluating =>
    ¬ failed ∧ ∃ c, commits = [c] ∧ c.Creates env call created
  | processing created snapshot _ =>
    ¬ failed ∧ ∃ c p rest, commits = c :: p :: rest ∧ c.Creates env call created ∧
      p.Processes call created snapshot ∧ (p.alert env created.rule.id).isSome ∧
      ∀ d ∈ rest, d.RecordsDelivery
  | returned created snapshot =>
    ¬ failed ∧ ∃ c p rest, commits = c :: p :: rest ∧ c.Creates env call created ∧
      p.Processes call created snapshot ∧ ∀ d ∈ rest, d.RecordsDelivery
  | raised none _ => commits = []
  | raised (some created) _ => ∃ c rest, commits = c :: rest ∧ c.Creates env call created ∧
      (¬ failed ∧ (∃ u, rest = [u] ∧ u.Undoes call created) ∨
        failed ∧ ∀ d ∈ rest, (∃ snapshot, d.Processes call created snapshot) ∨ d.RecordsDelivery)

/-! ### What one commit does -/

namespace AddPhase

variable {env : Environment} {call : AddCall} {db db' : Database} {i : ℕ}
  {commits : List Commit} {phase phase' : AddPhase}

private theorem creating_commits {draft : RuleDraft} {key : ℕ} {answer : Answer}
    (hdraft : WatchService.draft env call = .ok draft)
    (hcommit : db.commit env (some i) (.create draft key) = .ok (answer, db')) :
    ∃ created, answer = .created created ∧
      (Commit.mk (some i) db.store (.create draft key)).Creates env call created := by
  obtain ⟨⟨created, store⟩, hcreate, hanswer⟩ :=
    Except.bind_eq_ok.mp (Database.commit_eq_ok.mp hcommit).1
  obtain ⟨hrule, -, -⟩ := WatchService.create_ok hcreate
  have hkey : created.rule.id = key := by rw [hrule, RuleDraft.row_id]
  exact ⟨created, ((Prod.mk.inj (Except.ok.inj hanswer)).1).symm, draft, hdraft,
    by rw [hrule, RuleDraft.row_id], by rw [hkey]⟩

/-- A call that processes its snapshot has an event to deliver only when the rule raises an
alert. -/
private theorem evaluating_commits {created : CreatedRule} {snapshot : PriceSnapshot}
    {order : List ℕ} {processCall : ProcessCall} {observationKey : ℕ} {notificationKey : ℕ → ℕ}
    {answer : Answer}
    (hcall : (processArgs call created snapshot).call order = some processCall)
    (hcommit : db.commit env (some i) (.process processCall observationKey notificationKey) =
      .ok (answer, db')) :
    ∃ events, answer = .alerts events ∧
      (Commit.mk (some i) db.store
        (.process processCall observationKey notificationKey)).Processes call created snapshot ∧
      (events ≠ [] → ((Commit.mk (some i) db.store
        (.process processCall observationKey notificationKey)).alert env
          created.rule.id).isSome) := by
  obtain ⟨progress, hprocess, hanswer⟩ :=
    Except.bind_eq_ok.mp (Database.commit_eq_ok.mp hcommit).1
  refine ⟨progress.events, ((Prod.mk.inj (Except.ok.inj hanswer)).1).symm,
    ⟨order, processCall, observationKey, notificationKey, hcall, rfl⟩, fun hne => ?_⟩
  obtain ⟨event, hevent⟩ := List.exists_mem_of_ne_nil _ hne
  obtain ⟨-, hevents, -⟩ := RuleProcessor.process_ok hprocess
  obtain ⟨id, v, hv, hevaluates, displayId, price, halert, -⟩ := hevents event hevent
  obtain ⟨horder, hids, -, -, -⟩ := ProcessArgs.call_eq_some hcall
  have hid : id = created.rule.id := by
    have hmem := horder.mem_iff.mp (hids ▸ hevaluates.1)
    rw [← Store.id_of_view hv]
    exact List.mem_singleton.mp hmem
  subst hid
  have hrule : db.store.watchRules.get? created.rule.id = some v.rule :=
    (Store.view_eq_some.mp hv).1
  simp only [Commit.alert, hv, Commit.ruleEvent, Transaction.ruleEvent, hrule, Option.bind_some,
    if_pos hevaluates]
  rw [Store.id_of_view hv] at halert
  rw [halert]
  rfl

namespace Commits

variable {failed : Prop}

theorem start (hfailed : ¬ failed) : (AddPhase.start env call).Commits env call failed [] := by
  rw [AddPhase.start]
  cases hdraft : WatchService.draft env call with
  | error e => exact rfl
  | ok draft => exact ⟨hfailed, rfl, hdraft⟩

/-- What a call has committed after one more commit. -/
theorem resume {input : CommitInput} {t : Transaction} {answer : Answer}
    (h : phase.Commits env call failed commits) (hpending : phase.pending call input = some t)
    (hcommit : db.commit env (some i) t = .ok (answer, db'))
    (hresume : phase.resume answer = some phase') :
    phase'.Commits env call failed (commits ++ [⟨some i, db.store, t⟩]) := by
  cases phase with
  | creating draft =>
    obtain ⟨hfailed, rfl, hdraft⟩ := h
    obtain rfl := Option.some.inj hpending
    obtain ⟨created, rfl, hcreates⟩ := creating_commits hdraft hcommit
    obtain rfl := Option.some.inj hresume
    exact ⟨hfailed, _, rfl, hcreates⟩
  | fetching created => cases hpending
  | undoing created error =>
    obtain ⟨hfailed, c, rfl, hcreates⟩ := h
    obtain rfl := Option.some.inj hpending
    cases answer with
    | changed changed =>
      obtain rfl := Option.some.inj hresume
      exact ⟨c, _, rfl, hcreates, .inl ⟨hfailed, _, rfl, rfl⟩⟩
    | done => cases hresume
    | created created => cases hresume
    | alerts events => cases hresume
  | processing created snapshot phase =>
    obtain ⟨next, hnext, rfl⟩ := Option.map_eq_some_iff.mp hresume
    cases phase with
    | evaluating =>
      obtain ⟨hfailed, c, rfl, hcreates⟩ := h
      obtain ⟨processCall, hcall, rfl⟩ := Option.map_eq_some_iff.mp hpending
      obtain ⟨events, rfl, hprocesses, halert⟩ := evaluating_commits hcall hcommit
      obtain rfl := Option.some.inj hnext
      cases events with
      | nil => exact ⟨hfailed, c, _, [], rfl, hcreates, hprocesses, by simp⟩
      | cons event rest =>
        exact ⟨hfailed, c, _, [], rfl, hcreates, hprocesses, halert (List.cons_ne_nil _ _),
          by simp⟩
    | delivering event rest => cases hpending
    | recording event outcome rest =>
      obtain ⟨hfailed, c, p, deliveries, rfl, hcreates, hprocesses, halert, hdeliveries⟩ := h
      have hrecords : (Commit.mk (some i) db.store t).RecordsDelivery := by
        cases outcome with
        | error name =>
          obtain rfl := Option.some.inj hpending
          exact .inl ⟨_, _, _, rfl⟩
        | ok messageId =>
          obtain rfl := Option.some.inj hpending
          exact .inr ⟨_, _, _, rfl⟩
      have hdeliveries' : ∀ d ∈ deliveries ++ [⟨some i, db.store, t⟩], d.RecordsDelivery := by
        intro d hd
        rcases List.mem_append.mp hd with hd | hd
        · exact hdeliveries d hd
        · exact List.mem_singleton.mp hd ▸ hrecords
      cases answer with
      | done =>
        obtain rfl := Option.some.inj hnext
        cases rest with
        | nil => exact ⟨hfailed, c, p, _, rfl, hcreates, hprocesses, hdeliveries'⟩
        | cons event rest =>
          exact ⟨hfailed, c, p, _, rfl, hcreates, hprocesses, halert, hdeliveries'⟩
      | changed changed => cases hnext
      | created created => cases hnext
      | alerts events => cases hnext
  | returned created snapshot => cases hpending
  | raised created error => cases hpending

/-- What a call has committed when one of its transactions raises. -/
theorem fail {error : ServiceError} (h : phase.Commits env call failed commits)
    (hfail : phase.fail error = some phase') : phase'.Commits env call True commits := by
  cases phase with
  | creating draft =>
    obtain rfl := Option.some.inj hfail
    exact h.2.1
  | undoing created error =>
    obtain ⟨-, c, rfl, hcreates⟩ := h
    obtain rfl := Option.some.inj hfail
    exact ⟨c, [], rfl, hcreates, .inr ⟨trivial, by simp⟩⟩
  | processing created snapshot phase =>
    cases phase with
    | evaluating =>
      obtain ⟨-, c, rfl, hcreates⟩ := h
      obtain rfl := Option.some.inj hfail
      exact ⟨c, [], rfl, hcreates, .inr ⟨trivial, by simp⟩⟩
    | delivering event rest => cases hfail
    | recording event outcome rest =>
      obtain ⟨-, c, p, deliveries, rfl, hcreates, hprocesses, -, hdeliveries⟩ := h
      obtain rfl := Option.some.inj hfail
      refine ⟨c, _, rfl, hcreates, .inr ⟨trivial, fun d hd => ?_⟩⟩
      rcases List.mem_cons.mp hd with rfl | hd
      · exact .inl ⟨snapshot, hprocesses⟩
      · exact .inr (hdeliveries d hd)
  | fetching created => cases hfail
  | returned created snapshot => cases hfail
  | raised created error => cases hfail

/-- The answer to a request commits nothing. -/
theorem fetched {outcome : PriceOutcome} (h : phase.Commits env call failed commits)
    (hfetched : phase.fetched env call outcome = some phase') :
    phase'.Commits env call failed commits := by
  cases phase with
  | fetching created =>
    cases outcome with
    | listing listing checkedAt pagesScanned =>
      obtain rfl := Option.some.inj hfetched
      exact h
    | donutApiError error =>
      obtain rfl := Option.some.inj hfetched
      exact h
    | exception name =>
      obtain rfl := Option.some.inj hfetched
      exact h
  | creating draft => cases hfetched
  | undoing created error => cases hfetched
  | processing created snapshot phase => cases hfetched
  | returned created snapshot => cases hfetched
  | raised created error => cases hfetched

/-- Sending a message commits nothing. -/
theorem sent {outcome : Except String ℤ} (h : phase.Commits env call failed commits)
    (hsent : phase.sent outcome = some phase') : phase'.Commits env call failed commits := by
  cases phase with
  | processing created snapshot phase =>
    obtain ⟨next, hnext, rfl⟩ := Option.map_eq_some_iff.mp hsent
    cases phase with
    | delivering event rest =>
      obtain rfl := Option.some.inj hnext
      exact h
    | evaluating => cases hnext
    | recording event outcome rest => cases hnext
  | creating draft => cases hsent
  | fetching created => cases hsent
  | undoing created error => cases hsent
  | returned created snapshot => cases hsent
  | raised created error => cases hsent

end Commits

end AddPhase

/-! ### Along a run -/

namespace Database

variable {env : Environment} {db db' : Database} {origin : Option ℕ} {t : Transaction}
  {answer : Answer} {i : ℕ}

theorem committedBy_own (h : db.commit env (some i) t = .ok (answer, db')) :
    db'.committedBy i = db.committedBy i ++ [⟨some i, db.store, t⟩] := by
  rw [committedBy, (commit_eq_ok.mp h).2, List.filter_append]
  simp [committedBy]

theorem committedBy_other (h : db.commit env origin t = .ok (answer, db'))
    (horigin : origin ≠ some i) : db'.committedBy i = db.committedBy i := by
  rw [committedBy, (commit_eq_ok.mp h).2, List.filter_append]
  simp [committedBy, horigin]

end Database

namespace System

variable {env : Environment} {s s' : System} {i : ℕ}

theorem Elsewhere.committedBy (h : Elsewhere env s s' i) :
    s'.database.committedBy i = s.database.committedBy i := by
  rcases h.database with hsame | ⟨origin, t, answer, horigin, hcommit⟩
  · rw [hsame]
  · exact Database.committedBy_other hcommit horigin

theorem Elsewhere.transactionRaised_iff (h : Elsewhere env s s' i) :
    .transactionRaised i ∈ s'.incidents ↔ .transactionRaised i ∈ s.incidents := by
  obtain ⟨new, hnew, hnotin⟩ := h.incidents
  simp [hnew, hnotin]

theorem Attributed.fresh (h : s.Attributed) :
    s.database.committedBy s.tasks.length = [] ∧
      .transactionRaised s.tasks.length ∉ s.incidents := by
  refine ⟨List.filter_eq_nil_iff.mpr fun c hc horigin => ?_, fun hmem => ?_⟩
  · exact lt_irrefl _ (h.history c hc _ (of_decide_eq_true horigin))
  · exact lt_irrefl _ (h.incidents _ hmem)

/-- What a call has committed, in every reachable system. -/
theorem Reachable.add_commits (h : Reachable env s) {call : AddCall} {phase : AddPhase}
    (htask : s.tasks[i]? = some (Task.add call phase)) :
    phase.Commits env call (.transactionRaised i ∈ s.incidents) (s.database.committedBy i) := by
  have hinv := h.invariant (I := fun s => Reachable env s ∧ ∀ i call phase,
    s.tasks[i]? = some (Task.add call phase) →
      phase.Commits env call (.transactionRaised i ∈ s.incidents) (s.database.committedBy i)) ?_ ?_
  · exact hinv.2 i call phase htask
  · rintro s label s' ⟨hs, hcommits⟩ hstep
    refine ⟨hs.tail hstep, fun i call phase' htask' => ?_⟩
    rcases step_tasks hstep htask' with ⟨rfl, hdatabase, hincidents, hnew⟩ | ⟨hold, helse⟩ |
      ⟨task, htask, hmoves⟩
    · obtain ⟨hnone, hquiet⟩ := hs.attributed.fresh
      rcases hnew with ⟨call', hcall⟩ | ⟨discordUserId, poll, -, hpoll⟩
      · obtain ⟨rfl, rfl⟩ := Task.add.inj hcall
        rw [hdatabase, hincidents, hnone]
        exact AddPhase.Commits.start hquiet
      · cases hpoll
    · rw [helse.committedBy, helse.transactionRaised_iff]
      exact hcommits i call phase' hold
    · cases hmoves with
      | committed input t answer hpending hcommit hresume hincidents =>
        obtain ⟨phase, rfl, hphase⟩ := Task.resume_eq_add.mp hresume
        rw [Database.committedBy_own hcommit, hincidents]
        exact (hcommits i call phase htask).resume hpending hcommit hphase
      | raised error hfail hdatabase hincidents =>
        obtain ⟨phase, rfl, hphase⟩ := Task.fail_eq_add.mp hfail
        have hfailed := (hcommits i call phase htask).fail hphase
        simpa only [hdatabase, hincidents, List.mem_append, List.mem_singleton, or_true] using
          hfailed
      | fetched request outcome hrequest hfetched hdatabase hincidents =>
        obtain ⟨phase, rfl, hphase⟩ := Task.fetched_eq_add.mp hfetched
        have hquiet : .transactionRaised i ∉
            outcome.incident s.database.history.length request := fun hmem => by
          cases (PriceOutcome.mem_incident.mp hmem).2
        simpa only [hdatabase, hincidents, List.mem_append, hquiet, or_false] using
          (hcommits i call phase htask).fetched hphase
      | sent outcome hsent hdatabase hincidents =>
        obtain ⟨phase, rfl, hphase⟩ := Task.sent_eq_add.mp hsent
        rw [hdatabase, hincidents]
        exact (hcommits i call phase htask).sent hphase
  · exact ⟨.refl _, fun i call phase hnone => by simp at hnone⟩

end System

end DonutMonitor
