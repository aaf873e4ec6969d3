import DonutMonitor.Application.Bot
import DonutMonitor.Application.RuleKeys
import DonutMonitor.Foundations.HalfEven

/-!
# The buttons of an alert

A message about an alert has buttons that pause or delete the rule of the alert and that show the
current price of its item. The message stays for good, so a button may be pressed long after the
rule has been deleted. The buttons address the rule by its key.

## Main definitions

* `AlertActionsView`, `AlertActionsView.press` — the buttons, and what they do.
* `friendlyError` — the texts for exceptions.

## Main results

* `AlertActionsView.press_system` — a press is at most one operation of the system.
* `AlertActionsView.press_concerns` — while no key of a rule is given again, a button acts on the
  rule that has raised the alert, and says so.
-/

/-- `format(value, ".0f")`. -/
def PyFloat.formatInteger : PyFloat → String
  | fin q => (if q < 0 then "-" else "") ++ toString (roundHalfEven |q|)
  | posInf => "inf"
  | negInf => "-inf"
  | nan => "nan"

namespace DonutMonitor

open Transition

/-- `_friendly_error`. -/
def friendlyError : ServiceError → String
  | .notAuthenticatedError => "Run `/auth` first."
  | .invalidItemError => "The item is not present in the Minecraft manifest."
  | .invalidThresholdError _ => "The threshold must be a positive number."
  | .donutApiError (.authentication _) => "DonutSMP rejected the token. Run `/auth` again."
  | .donutApiError (.rateLimit retryAfter) =>
    "The API budget is exhausted. Try again in " ++ retryAfter.formatInteger ++ " seconds."
  | .donutApiError (.transient _) => "DonutSMP is temporarily unavailable; try again later."
  | .other "Forbidden" => "Discord blocked the direct message."
  | _ => "The operation failed because of an internal error."

/-- The buttons of an alert. -/
inductive AlertButton where
  | pause
  | delete
  | currentPrice
  deriving DecidableEq

/-- `AlertActionsView`, with the buttons that are disabled. -/
structure AlertActionsView where
  ownerId : ℤ
  databaseRuleId : ℕ
  itemId : String
  priceType : PriceType
  disabled : List AlertButton := []

/-- The buttons with which `send_alert` sends an alert. -/
def AlertEvent.actions (event : AlertEvent) : AlertActionsView where
  ownerId := event.discordUserId
  databaseRuleId := event.databaseRuleId
  itemId := event.itemId
  priceType := event.snapshot.priceType

/-- How a press is answered. -/
inductive PressReply where
  | notYours
  | rulePaused
  | ruleUnavailable
  | ruleDeleted
  | ruleAlreadyDeleted
  /-- The button waits for `PriceService.get`. -/
  | price (phase : PricePhase)
  /-- The handler raises. -/
  | raised (error : ServiceError)

/-- The text that is sent. -/
def PressReply.text : PressReply → Option String
  | notYours => some "This notification does not belong to you."
  | rulePaused => some "Rule paused."
  | ruleUnavailable => some "The rule is no longer available."
  | ruleDeleted => some "Rule deleted."
  | ruleAlreadyDeleted => some "The rule has already been deleted."
  | price (.raised error) => some (friendlyError error)
  | price _ | raised _ => none

/-- What a transaction that changes a rule returns. -/
def Answer.hasChanged : Answer → Bool
  | changed result => result
  | _ => false

namespace AlertActionsView

variable (env : Environment) (view : AlertActionsView) (db : Database)

/-- `AlertActionsView.pause`. -/
def pause : PressReply × Database × AlertActionsView :=
  match db.commit env none (.setEnabledByDatabaseId view.ownerId view.databaseRuleId false) with
  | .error error => (.raised error, db, view)
  | .ok (answer, db') => (if answer.hasChanged then .rulePaused else .ruleUnavailable, db',
      { view with disabled := .pause :: view.disabled })

/-- `AlertActionsView.delete`. -/
def delete : PressReply × Database × AlertActionsView :=
  match db.commit env none (.deleteByDatabaseId view.ownerId view.databaseRuleId) with
  | .error error => (.raised error, db, view)
  | .ok (answer, db') => (if answer.hasChanged then .ruleDeleted else .ruleAlreadyDeleted, db',
      { view with disabled := [.pause, .delete, .currentPrice] })

/-- `AlertActionsView.current_price`, up to its request. -/
def currentPrice : PressReply × Database × AlertActionsView :=
  (.price (.start (PriceService.get env db.store view.ownerId view.itemId view.priceType)), db,
    view)

/-- A user presses a button: `interaction_check`, and the handler of the button. -/
def press (presser : ℤ) (button : AlertButton) : PressReply × Database × AlertActionsView :=
  if presser = view.ownerId then
    match button with
    | .pause => view.pause env db
    | .delete => view.delete env db
    | .currentPrice => view.currentPrice env db
  else (.notYours, db, view)

variable {env view db}

/-- A press is at most one operation of the system. -/
theorem press_system {s : System} (presser : ℤ) (button : AlertButton) :
    (view.press env s.database presser button).2.1 = s.database ∨ ∃ operation,
      s.step env (.operation operation) =
        some { s with database := (view.press env s.database presser button).2.1 } := by
  by_cases hpresser : presser = view.ownerId
  · simp only [press, if_pos hpresser]
    cases button with
    | pause =>
      dsimp only [pause]
      cases hcommit : s.database.commit env none
          (.setEnabledByDatabaseId view.ownerId view.databaseRuleId false) with
      | error error => exact .inl rfl
      | ok result =>
        exact .inr ⟨.setEnabledByDatabaseId view.ownerId view.databaseRuleId false,
          System.step_operation.mpr ⟨_, result.1, result.2, rfl, hcommit, rfl⟩⟩
    | delete =>
      dsimp only [delete]
      cases hcommit : s.database.commit env none
          (.deleteByDatabaseId view.ownerId view.databaseRuleId) with
      | error error => exact .inl rfl
      | ok result =>
        exact .inr ⟨.deleteByDatabaseId view.ownerId view.databaseRuleId,
          System.step_operation.mpr ⟨_, result.1, result.2, rfl, hcommit, rfl⟩⟩
    | currentPrice => exact .inl rfl
  · exact .inl (by rw [press.eq_def, if_neg hpresser])

end AlertActionsView

/-! ### What the reply says -/

/-- The rest of the database stays as it is. -/
structure Database.OnlyRule (db db' : Database) (id : ℕ) : Prop where
  users : db'.store.users = db.store.users
  observations : db'.store.observations = db.store.observations
  views : ∀ id', id' ≠ id → db'.store.view id' = db.store.view id'

/-- The reply is true of the alert and of the databases before and after the press. -/
def PressReply.Truthful (env : Environment) (event : AlertEvent) (db db' : Database) :
    PressReply → Prop
  | notYours => db' = db
  | rulePaused => ∃ v, db.store.view event.databaseRuleId = some v ∧ event.Concerns v.rule ∧
      db'.store.view event.databaseRuleId = some ⟨v.rule.withEnabled false, v.alerts⟩
  | ruleDeleted => ∃ v, db.store.view event.databaseRuleId = some v ∧ event.Concerns v.rule ∧
      db'.store.view event.databaseRuleId = none
  | ruleUnavailable | ruleAlreadyDeleted => db.store.view event.databaseRuleId = none ∧
      db'.store.view event.databaseRuleId = none
  | price phase => db' = db ∧ ∀ request, phase = .fetching request →
      request.itemId = normalizeItemId env.lower event.itemId ∧
        request.priceType = event.snapshot.priceType
  | raised error => db' = db ∧ requireValidUser db.store event.discordUserId = .error error

namespace Transaction

variable {env : Environment} {s s' : Store} {discordUserId : ℤ} {id : ℕ} {answer : Answer}

/-- What a transaction that does something to the rule under a key makes of the rules. -/
theorem exec_own {t : Transaction} {e : RuleEvent}
    (hevent : ∀ key, t.ruleEvent s key =
      if key = id then ownedEvent s discordUserId key e else none)
    (h : t.exec env s = .ok (answer, s')) :
    (∀ key, key ≠ id → s'.view key = s.view key) ∧
      (s.view id = none → s'.view id = none) ∧
      ∀ v, s.view id = some v → v.rule.discordUserId = discordUserId →
        RuleLife.step env.decimal (some v) e = some (s'.view id) := by
  refine ⟨fun key hkey => ?_, fun hnone => ?_, fun v hv howner => ?_⟩
  · have hview := exec_view h key
    rw [hevent, if_neg hkey] at hview
    exact (Option.some.inj hview).symm
  · have hview := exec_view h id
    rw [hevent, if_pos rfl] at hview
    cases howned : ownedEvent s discordUserId id e with
    | none =>
      rw [howned, hnone] at hview
      exact (Option.some.inj hview).symm
    | some e' =>
      obtain ⟨-, v, hv, -⟩ := ownedEvent_eq_some.mp howned
      rw [hnone] at hv
      cases hv
  · have hview := exec_view h id
    rw [hevent, if_pos rfl, ownedEvent_eq_some.mpr ⟨rfl, v, hv, howner⟩, Option.toList_some,
      run_singleton, hv] at hview
    exact hview

/-- What a transaction of a service that changes one rule of a valid user returns. -/
private theorem exec_change {f : Store × Bool}
    (h : (do
      let (s, changed) ← (do
        let _ ← requireValidUser s discordUserId
        .ok f : Except ServiceError (Store × Bool))
      .ok (.changed changed, s) : Except ServiceError (Answer × Store)) = .ok (answer, s')) :
    answer = .changed f.2 ∧ s' = f.1 := by
  obtain ⟨f', hservice, h⟩ := Except.bind_eq_ok.mp h
  obtain ⟨user, -, hf⟩ := Except.bind_eq_ok.mp hservice
  obtain rfl := Except.ok.inj hf
  obtain ⟨rfl, rfl⟩ := Prod.mk.inj (Except.ok.inj h)
  exact ⟨rfl, rfl⟩

/-- It raises only what the check of the user raises. -/
private theorem exec_change_error {f : Store × Bool} {error : ServiceError}
    (h : (do
      let (s, changed) ← (do
        let _ ← requireValidUser s discordUserId
        .ok f : Except ServiceError (Store × Bool))
      .ok (.changed changed, s) : Except ServiceError (Answer × Store)) = .error error) :
    requireValidUser s discordUserId = .error error := by
  cases huser : requireValidUser s discordUserId with
  | error error' =>
    rw [huser] at h
    exact congrArg _ (Except.error.inj h)
  | ok user =>
    rw [huser] at h
    cases h

end Transaction

namespace AlertActionsView

variable {env : Environment} {db db' : Database} {event : AlertEvent} {disabled : List AlertButton}

/-- A transaction that does something to the rule of an alert says whether the rule was there. -/
private theorem change_cases {t : Transaction} {e : RuleEvent} {f : Store × Bool} {answer : Answer}
    (hconcerns : ∀ v, db.store.view event.databaseRuleId = some v → event.Concerns v.rule)
    (hevent : ∀ key, t.ruleEvent db.store key = if key = event.databaseRuleId then
      Transaction.ownedEvent db.store event.discordUserId key e else none)
    (hcommit : db.commit env none t = .ok (answer, db')) (hanswer : answer = .changed f.2)
    (hf : f.2 = (WatchRuleRepository.getOwned db.store event.discordUserId
      event.databaseRuleId).isSome) :
    (answer.hasChanged = true ∧ ∃ v, db.store.view event.databaseRuleId = some v ∧
        event.Concerns v.rule ∧
          RuleLife.step env.decimal (some v) e =
            some (db'.store.view event.databaseRuleId)) ∨
      answer.hasChanged = false ∧ db.store.view event.databaseRuleId = none ∧
        db'.store.view event.databaseRuleId = none := by
  obtain ⟨-, hnone, hown⟩ :=
    Transaction.exec_own hevent (Database.commit_eq_ok.mp hcommit).1
  rw [hanswer, Answer.hasChanged, hf]
  cases hview : db.store.view event.databaseRuleId with
  | none =>
    refine .inr ⟨?_, rfl, hnone hview⟩
    cases hget : WatchRuleRepository.getOwned db.store event.discordUserId event.databaseRuleId with
    | none => rfl
    | some rule =>
      have hrow := (WatchRuleRepository.getOwned_eq_some.mp hget).1
      cases hview.symm.trans (Store.view_eq_some (v := ⟨rule, _⟩).mpr ⟨hrow, rfl⟩)
  | some v =>
    have howner := (hconcerns v hview).discordUserId.symm
    refine .inl ⟨?_, v, rfl, hconcerns v hview, hown v hview howner⟩
    rw [WatchRuleRepository.getOwned_eq_some.mpr ⟨(Store.view_eq_some.mp hview).1, howner⟩]
    rfl

/-- A transaction of a button that raises leaves the database as it is. -/
private theorem raised_truthful {t : Transaction} {f : Store × Bool} {error : ServiceError}
    (hexec : t.exec env db.store = (do
      let (s, changed) ← (do
        let _ ← requireValidUser db.store event.discordUserId
        .ok f : Except ServiceError (Store × Bool))
      .ok (.changed changed, s) : Except ServiceError (Answer × Store)))
    (hcommit : db.commit env none t = .error error) :
    (PressReply.raised error).Truthful env event db db := by
  rw [Database.commit] at hcommit
  split at hcommit
  · next hraises =>
    obtain rfl := Except.error.inj hcommit
    exact ⟨rfl, Transaction.exec_change_error (hexec.symm.trans hraises)⟩
  · cases hcommit

/-- The button pauses the rule of the alert. -/
theorem pause_truthful
    (hconcerns : ∀ v, db.store.view event.databaseRuleId = some v → event.Concerns v.rule) :
    let pressed := ({ event.actions with disabled := disabled } : AlertActionsView).pause env db
    pressed.1.Truthful env event db pressed.2.1 ∧
      db.OnlyRule pressed.2.1 event.databaseRuleId := by
  dsimp only [pause, AlertEvent.actions]
  cases hcommit : db.commit env none
      (.setEnabledByDatabaseId event.discordUserId event.databaseRuleId false) with
  | error error => exact ⟨raised_truthful rfl hcommit, rfl, rfl, fun _ _ => rfl⟩
  | ok result =>
    obtain ⟨answer, db'⟩ := result
    have hexec := (Database.commit_eq_ok.mp hcommit).1
    obtain ⟨hanswer, hstore⟩ := Transaction.exec_change hexec
    refine ⟨?_, by rw [hstore]; rfl, by rw [hstore]; rfl,
      (Transaction.exec_own (fun _ => rfl) hexec).1⟩
    dsimp only
    rcases change_cases hconcerns (fun _ => rfl) hcommit hanswer rfl with
      ⟨hchanged, v, hv, hconcerns, hstep⟩ | ⟨hchanged, hgone⟩
    · obtain ⟨w, hw, hpaused⟩ := (RuleLife.step_enabledSet false).mp hstep
      obtain rfl := Option.some.inj hw
      rw [if_pos hchanged]
      exact ⟨v, hv, hconcerns, hpaused⟩
    · rw [if_neg (by simp [hchanged])]
      exact hgone

/-- The button deletes the rule of the alert. -/
theorem delete_truthful
    (hconcerns : ∀ v, db.store.view event.databaseRuleId = some v → event.Concerns v.rule) :
    let pressed := ({ event.actions with disabled := disabled } : AlertActionsView).delete env db
    pressed.1.Truthful env event db pressed.2.1 ∧
      db.OnlyRule pressed.2.1 event.databaseRuleId := by
  dsimp only [delete, AlertEvent.actions]
  cases hcommit : db.commit env none
      (.deleteByDatabaseId event.discordUserId event.databaseRuleId) with
  | error error => exact ⟨raised_truthful rfl hcommit, rfl, rfl, fun _ _ => rfl⟩
  | ok result =>
    obtain ⟨answer, db'⟩ := result
    have hexec := (Database.commit_eq_ok.mp hcommit).1
    obtain ⟨hanswer, hstore⟩ := Transaction.exec_change hexec
    refine ⟨?_, by rw [hstore]; rfl, by rw [hstore]; rfl,
      (Transaction.exec_own (fun _ => rfl) hexec).1⟩
    dsimp only
    rcases change_cases hconcerns (fun _ => rfl) hcommit hanswer rfl with
      ⟨hchanged, v, hv, hconcerns, hstep⟩ | ⟨hchanged, hgone⟩
    · rw [if_pos hchanged]
      exact ⟨v, hv, hconcerns, (RuleLife.step_deleted.mp hstep).2⟩
    · rw [if_neg (by simp [hchanged])]
      exact hgone

/-- The button asks for the price of the alert. -/
theorem currentPrice_truthful :
    let pressed :=
      ({ event.actions with disabled := disabled } : AlertActionsView).currentPrice env db
    pressed.1.Truthful env event db pressed.2.1 ∧
      db.OnlyRule pressed.2.1 event.databaseRuleId := by
  refine ⟨⟨rfl, fun request hrequest => ?_⟩, rfl, rfl, fun _ _ => rfl⟩
  dsimp only [currentPrice, AlertEvent.actions] at hrequest
  cases hget : PriceService.get env db.store event.discordUserId event.itemId
      event.snapshot.priceType with
  | error error =>
    rw [hget] at hrequest
    cases hrequest
  | ok request' =>
    rw [hget] at hrequest
    obtain rfl := PricePhase.fetching.inj hrequest
    rw [PriceService.get] at hget
    split_ifs at hget
    obtain ⟨user, -, hget⟩ := Except.bind_eq_ok.mp hget
    split at hget
    · cases hget
    · obtain rfl := Except.ok.inj hget
      exact ⟨rfl, rfl⟩

end AlertActionsView

namespace System

variable {env : Environment} {s : System} {labels : List Label} {i : ℕ} {event : AlertEvent × ℕ}

/-- An alert that has been sent has been raised by a commit. -/
theorem alert_of_sends (hrun : run (step env) {} labels = some s) {outcome : Except String ℤ}
    (hsent : Sends env labels i event outcome) :
    ∃ c ∈ s.database.history, event ∈ c.alerts env := by
  obtain ⟨before, after, m, task, rest, rfl, hbefore, htask, hphase⟩ := hsent
  have hm : Reachable env m := ⟨before, hbefore⟩
  have hmem : event ∈ task.queue := by
    rw [Task.queue, hphase]
    exact List.mem_cons_self
  obtain ⟨c, hc, hevent⟩ := hm.queue_alerts htask hmem
  obtain ⟨m', hm', hafter⟩ := (run_append _).mp hrun
  obtain rfl := Option.some.inj (hbefore.symm.trans hm')
  have hsub := run_invariant (step env) (I := fun s => m.database.history ⊆ s.database.history)
    (fun _ _ _ hold hstep => List.Subset.trans hold (step_history hstep)) hafter
    (List.Subset.refl _)
  exact ⟨c, hsub hc, hevent⟩

end System

/-- In a run that gives no key of a rule again, whoever presses a button of an alert that has been
sent, at any later time: the reply is true, no other rule changes, and what is stored under the key
of the alert is the rule that has raised it, watched for the item and the price type of the
alert. -/
theorem AlertActionsView.press_concerns {env : Environment} {labels : List Label} {s : System}
    (h : Along (System.step env) System.FreshKey {} labels)
    (hrun : run (System.step env) {} labels = some s) {i : ℕ} {event : AlertEvent × ℕ}
    {messageId : ℤ} (hsent : System.Sends env labels i event (.ok messageId))
    (disabled : List AlertButton) (presser : ℤ) (button : AlertButton) :
    let pressed := ({ event.1.actions with disabled := disabled } : AlertActionsView).press env
      s.database presser button
    pressed.1.Truthful env event.1 s.database pressed.2.1 ∧
      s.database.OnlyRule pressed.2.1 event.1.databaseRuleId ∧
      (presser ≠ event.1.discordUserId → pressed.1 = .notYours) ∧
      ∀ v, s.database.store.view event.1.databaseRuleId = some v → event.1.Concerns v.rule := by
  obtain ⟨c, hc, hevent⟩ := System.alert_of_sends hrun hsent
  have hconcerns : ∀ v, s.database.store.view event.1.databaseRuleId = some v →
      event.1.Concerns v.rule := fun v hv => System.concerns_view h hrun hc hevent hv
  dsimp only
  by_cases hpresser : presser = event.1.discordUserId
  · have hcheck : presser =
        ({ event.1.actions with disabled := disabled } : AlertActionsView).ownerId := hpresser
    rw [press.eq_def, if_pos hcheck]
    cases button with
    | pause =>
      obtain ⟨htruthful, honly⟩ := pause_truthful hconcerns
      exact ⟨htruthful, honly, fun hne => absurd hpresser hne, hconcerns⟩
    | delete =>
      obtain ⟨htruthful, honly⟩ := delete_truthful hconcerns
      exact ⟨htruthful, honly, fun hne => absurd hpresser hne, hconcerns⟩
    | currentPrice =>
      obtain ⟨htruthful, honly⟩ := currentPrice_truthful
      exact ⟨htruthful, honly, fun hne => absurd hpresser hne, hconcerns⟩
  · have hcheck : presser ≠
        ({ event.1.actions with disabled := disabled } : AlertActionsView).ownerId := hpresser
    rw [press.eq_def, if_neg hcheck]
    exact ⟨rfl, ⟨rfl, rfl, fun _ _ => rfl⟩, fun _ => rfl, hconcerns⟩

/-- The event whose message is being sent. -/
def ProcessPhase.sending : ProcessPhase → Option (AlertEvent × ℕ)
  | delivering event _ => some event
  | _ => none

private theorem sends_of_sending {env : Environment} {before after : List Label}
    {m : System} (hbefore : run (System.step env) {} before = some m) {i : ℕ}
    {event : AlertEvent × ℕ} {outcome : Except String ℤ}
    (hsending : (m.tasks[i]?.bind Task.processPhase).bind ProcessPhase.sending = some event) :
    System.Sends env (before ++ .sent i outcome :: after) i event outcome := by
  obtain ⟨phase, hphase, hsending⟩ := Option.bind_eq_some_iff.mp hsending
  obtain ⟨task, htask, hphase⟩ := Option.bind_eq_some_iff.mp hphase
  cases phase with
  | delivering event' rest =>
    obtain rfl := Option.some.inj hsending
    exact ⟨before, after, m, task, rest, rfl, hbefore, htask, hphase⟩
  | _ => cases hsending

/-- The alert about a watch has been sent, and its user presses the button that pauses it. -/
theorem AlertActionsView.press_concerns_sent : ∃ s event,
    run (System.step .plain) {} (System.unsent ++ [.sent 0 (.ok 7)]) = some s ∧
    System.Sends .plain (System.unsent ++ [.sent 0 (.ok 7)]) 0 event (.ok 7) ∧
    (event.1.actions.press .plain s.database 1 .pause).1.text = some "Rule paused." ∧
    (event.1.actions.press .plain s.database 1 .pause).1.Truthful .plain event.1 s.database
      (event.1.actions.press .plain s.database 1 .pause).2.1 := by
  have hrun : ((run (System.step .plain) {} System.unsent).bind fun m : System =>
      ((m.tasks[0]?.bind Task.processPhase).bind ProcessPhase.sending).bind fun event =>
        (run (System.step .plain) {} (System.unsent ++ [.sent 0 (.ok 7)])).map fun s : System =>
          decide ((event.1.actions.press .plain s.database 1 .pause).1.text =
            some "Rule paused.")) = some true := by
    decide +kernel
  obtain ⟨m, hm, hrun⟩ := Option.bind_eq_some_iff.mp hrun
  obtain ⟨event, hevent, hrun⟩ := Option.bind_eq_some_iff.mp hrun
  obtain ⟨s, hs, htext⟩ := Option.map_eq_some_iff.mp hrun
  have hsent : System.Sends .plain (System.unsent ++ [.sent 0 (.ok 7)]) 0 event (.ok 7) :=
    sends_of_sending hm hevent
  exact ⟨s, event, hs, hsent, of_decide_eq_true htext,
    (press_concerns (by decide +kernel) hs hsent [] 1 .pause).1⟩

/-- An alert has been sent, its rule has been deleted, and a watch for the price of a single item
has got the same key. -/
def reusedKey : List Label :=
  System.unsent ++ .sent 0 (.ok 7) :: [.commit 0 {}, .operation (.deleteByDatabaseId 1 1),
    .startAdd { AddCall.elytra with priceType := .perItem }, .commit 1 { ruleKey := 1 }]

/-- The button of the alert then deletes the new watch. -/
theorem AlertActionsView.not_press_concerns : ∃ s event v,
    run (System.step .plain) {} reusedKey = some s ∧
    Along (System.step .plain) System.AllocatesNext {} reusedKey ∧
    System.Sends .plain reusedKey 0 event (.ok 7) ∧
    s.database.store.view event.1.databaseRuleId = some v ∧ ¬ event.1.Concerns v.rule ∧
    (event.1.actions.press .plain s.database 1 .delete).1.text = some "Rule deleted." := by
  have hrun : ((run (System.step .plain) {} System.unsent).bind fun m : System =>
      ((m.tasks[0]?.bind Task.processPhase).bind ProcessPhase.sending).bind fun event =>
        (run (System.step .plain) {} reusedKey).bind fun s : System =>
          (s.database.store.view event.1.databaseRuleId).map fun v =>
            decide (event.1.snapshot.priceType ≠ v.rule.priceType ∧
              (event.1.actions.press .plain s.database 1 .delete).1.text =
                some "Rule deleted.")) = some true := by
    decide +kernel
  obtain ⟨m, hm, hrun⟩ := Option.bind_eq_some_iff.mp hrun
  obtain ⟨event, hevent, hrun⟩ := Option.bind_eq_some_iff.mp hrun
  obtain ⟨s, hs, hrun⟩ := Option.bind_eq_some_iff.mp hrun
  obtain ⟨v, hv, hfacts⟩ := Option.map_eq_some_iff.mp hrun
  obtain ⟨hother, htext⟩ := of_decide_eq_true hfacts
  exact ⟨s, event, v, hs, by decide +kernel, sends_of_sending hm hevent, hv,
    fun hconcerns => hother (Prod.mk.inj hconcerns.request).2, htext⟩

end DonutMonitor
