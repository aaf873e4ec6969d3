import DonutMonitor.Application.RuleLife
import DonutMonitor.Domain.Schemas
import DonutMonitor.Foundations.Except
import DonutMonitor.Infrastructure.DonutApi
import DonutMonitor.Persistence.Repositories

/-!
# Processing a snapshot

The transaction of `RuleProcessor.process`: it stores the observation, then reads each rule under
its row lock, evaluates it and writes the result, with a pending notification for every alert.

## Main definitions

* `ServiceError` — the exceptions that the services raise.
* `AlertEvent` — what is sent to the user.
* `RuleProcessor.processRule`, `RuleProcessor.process` — the body of the loop and the transaction.

## Main results

* `RuleProcessor.process_ok` — the transaction evaluates each rule of the call that is owned by
  the user and enabled, and touches no other rule.
-/

namespace DonutMonitor

/-- The exceptions that the services raise. -/
inductive ServiceError where
  | notAuthenticatedError
  | invalidItemError
  | invalidThresholdError (message : String)
  | ruleNotFoundError
  | tokenDecryptionError
  | keyError
  | databaseError (error : DatabaseError)
  | donutApiError (error : DonutApiError)
  /-- Any other exception, with its name. -/
  | other (name : String)
  deriving DecidableEq, Repr

/-- The text of an exception that the services raise themselves. -/
def ServiceError.message : ServiceError → Option String
  | notAuthenticatedError => some "Authorize with /auth first"
  | invalidItemError => some "Unknown Minecraft item ID"
  | invalidThresholdError message => some message
  | ruleNotFoundError => some "Newly created rule was not found"
  | tokenDecryptionError => some "Stored token cannot be decrypted"
  | keyError | databaseError _ | donutApiError _ | other _ => none

/-- A statement that the database rejects raises within the transaction. -/
def raiseDatabase {α : Type*} : Except DatabaseError α → Except ServiceError α :=
  Except.mapError .databaseError

@[simp] theorem raiseDatabase_eq_ok {α : Type*} {x : Except DatabaseError α} {a : α} :
    raiseDatabase x = .ok a ↔ x = .ok a := by
  cases x <;> simp [raiseDatabase, Except.mapError]

/-- `AlertEvent`. -/
structure AlertEvent where
  discordUserId : ℤ
  databaseRuleId : ℕ
  displayRuleId : ℕ
  itemId : String
  displayName : String
  condition : Condition
  threshold : ℚ
  previousPrice : Option ℚ
  currentPrice : ℚ
  snapshot : PriceSnapshot

/-- `DisplayedRule`. -/
structure DisplayedRule where
  displayId : ℕ
  rule : WatchRule
  deriving DecidableEq

/-- `_number_rules`. -/
def numberRules (rules : List WatchRule) : List DisplayedRule :=
  rules.zipIdx.map fun (rule, index) => ⟨index + 1, rule⟩

/-- The first displayed rule with the given key. -/
def findDisplayed (rules : List WatchRule) (databaseId : ℕ) : Option DisplayedRule :=
  (numberRules rules).find? fun displayed => displayed.rule.id = databaseId

/-- `_rule_by_display_id`. -/
def ruleByDisplayId (rules : List WatchRule) (displayId : ℤ) : Option WatchRule :=
  if displayId < 1 ∨ displayId > rules.length then none else rules[(displayId - 1).toNat]?

theorem findDisplayed_eq_some {rules : List WatchRule} {databaseId : ℕ} {d : DisplayedRule}
    (h : findDisplayed rules databaseId = some d) : d.rule.id = databaseId ∧ d.rule ∈ rules := by
  refine ⟨by simpa using List.find?_some h, ?_⟩
  obtain ⟨⟨rule, index⟩, hmem, rfl⟩ := List.mem_map.mp (List.mem_of_find?_eq_some h)
  exact List.fst_mem_of_mem_zipIdx hmem

/-- `_find_displayed_rule`. -/
def findDisplayedRule (rules : List WatchRule) (databaseId : ℕ) :
    Except ServiceError DisplayedRule :=
  match findDisplayed rules databaseId with
  | some displayed => .ok displayed
  | none => .error .ruleNotFoundError

/-- A snapshot as the evaluator sees it. -/
def PriceSnapshot.observation (snapshot : PriceSnapshot) (notifyInitial : Bool) : Observation where
  price := snapshot.selectedPrice
  observedAt := snapshot.checkedAt
  notifyInitial := notifyInitial

/-- The arguments of `RuleProcessor.process`. The set of rule ids is given in the order in which
it is iterated. -/
structure ProcessCall where
  discordUserId : ℤ
  ruleIds : List ℕ
  snapshot : PriceSnapshot
  notifyInitialRuleId : Option ℕ := none
  nodup : ruleIds.Nodup

/-- What the evaluation of a rule sees. -/
def ProcessCall.observation (call : ProcessCall) (ruleId : ℕ) : Observation :=
  call.snapshot.observation (ruleId = call.notifyInitialRuleId)

namespace RuleProcessor

/-- The store and the events in the course of the loop. -/
structure Progress where
  store : Store
  events : List (AlertEvent × ℕ) := []

variable (ctx : DecimalContext) (call : ProcessCall) (displayed : List WatchRule)
  (notificationKey : ℕ → ℕ)

/-- The event of an alert. -/
def alertEvent (rule : WatchRule) (displayId : ℕ) (previousPrice : Option ℚ) (currentPrice : ℚ) :
    AlertEvent where
  discordUserId := call.discordUserId
  databaseRuleId := rule.id
  displayRuleId := displayId
  itemId := rule.itemId
  displayName := rule.displayName
  condition := rule.condition
  threshold := rule.threshold
  previousPrice := previousPrice
  currentPrice := currentPrice
  snapshot := call.snapshot

/-- The evaluation of a rule that the loop has read. -/
def evaluation (rule : WatchRule) : Evaluation :=
  evaluateThreshold ctx rule.thresholdRule rule.currentState call.snapshot.selectedPrice
    rule.lastTriggeredAt call.snapshot.checkedAt (rule.id = call.notifyInitialRuleId)

/-- The assignments to the columns of the rule. -/
def writeEvaluation (s : Store) (rule : WatchRule) : Store :=
  s.updateRules (·.id = rule.id)
    (·.withEvaluation (evaluation ctx call rule) call.snapshot.selectedPrice
      call.snapshot.checkedAt)
    (fun r => r.withEvaluation_id _ _ _) fun r => r.withEvaluation_discordUserId _ _ _

/-- The body of the loop over the rule ids. -/
def processRule (progress : Progress) (ruleId : ℕ) : Except ServiceError Progress :=
  match WatchRuleRepository.getOwned progress.store call.discordUserId ruleId with
  | none => .ok progress
  | some rule =>
    if rule.enabled = false then .ok progress
    else
      let previousPrice := rule.lastObservedPrice
      let store := writeEvaluation ctx call progress.store rule
      match (evaluation ctx call rule).triggered, call.snapshot.selectedPrice with
      | true, some price => do
        let store ← raiseDatabase (NotificationRepository.createPending store
          (notificationKey rule.id) rule.id price previousPrice)
        match findDisplayed displayed rule.id with
        | none => .error .keyError
        | some display =>
          let event := alertEvent call rule display.displayId previousPrice price
          .ok ⟨store, progress.events ++ [(event, notificationKey rule.id)]⟩
      | _, _ => .ok { progress with store := store }

/-- The transaction of `RuleProcessor.process`, for the keys allocated to the new rows. -/
def process (observationKey : ℕ) (s : Store) : Except ServiceError Progress := do
  let snapshot := call.snapshot
  let s ← raiseDatabase (ObservationRepository.add s
    { id := observationKey
      discordUserId := call.discordUserId
      itemId := snapshot.itemId
      price := snapshot.selectedPrice
      listingPrice := snapshot.listing.map (·.price)
      itemCount := snapshot.listing.map (·.item.count)
      sellerName := snapshot.listing.map (·.seller.name)
      observedAt := snapshot.checkedAt })
  call.ruleIds.foldlM
    (processRule ctx call (WatchRuleRepository.listForUser s call.discordUserId) notificationKey)
    { store := s }

variable {ctx call displayed notificationKey}

/-- The transaction evaluates the rule. -/
def Evaluates (call : ProcessCall) (rule : WatchRule) : Prop :=
  rule.id ∈ call.ruleIds ∧ rule.discordUserId = call.discordUserId ∧ rule.enabled = true

instance (rule : WatchRule) : Decidable (Evaluates call rule) :=
  inferInstanceAs (Decidable (_ ∧ _))

/-- The event reports the alert that the evaluation of a rule gives rise to. -/
def Reports (ctx : DecimalContext) (call : ProcessCall) (event : AlertEvent) (rule : WatchRule) :
    Prop :=
  ∃ displayId price,
    rule.alert ctx (call.observation rule.id) = some (price, rule.lastObservedPrice) ∧
      event = alertEvent call rule displayId rule.lastObservedPrice price

/-- What the body of the loop does: nothing, when the rule is not owned or not enabled, or it writes
the evaluation, with a pending notification and an event when the rule triggers. -/
theorem processRule_cases {progress progress' : Progress} {ruleId : ℕ}
    (h : processRule ctx call displayed notificationKey progress ruleId = .ok progress') :
    progress' = progress ∨ ∃ rule,
      WatchRuleRepository.getOwned progress.store call.discordUserId ruleId = some rule ∧
        rule.enabled = true ∧
        (progress' = { progress with store := writeEvaluation ctx call progress.store rule } ∨
          ∃ price store display, NotificationRepository.createPending
              (writeEvaluation ctx call progress.store rule) (notificationKey rule.id) rule.id price
              rule.lastObservedPrice = .ok store ∧
            findDisplayed displayed rule.id = some display ∧
            progress' = ⟨store, progress.events ++
              [(alertEvent call rule display.displayId rule.lastObservedPrice price,
                notificationKey rule.id)]⟩) := by
  rw [processRule] at h
  split at h
  · exact .inl (Except.ok.inj h).symm
  · next rule hget =>
    cases henabled : rule.enabled with
    | false =>
      rw [if_pos henabled] at h
      exact .inl (Except.ok.inj h).symm
    | true =>
      rw [if_neg (by simp [henabled])] at h
      refine .inr ⟨rule, hget, henabled, ?_⟩
      split at h
      · next price htriggered hprice =>
        obtain ⟨store, hstore, h⟩ := Except.bind_eq_ok.mp h
        split at h
        · cases h
        · next display hdisplay =>
          exact .inr ⟨price, store, display, raiseDatabase_eq_ok.mp hstore, hdisplay,
            (Except.ok.inj h).symm⟩
      · exact .inl (Except.ok.inj h).symm

private theorem view_writeEvaluation (s : Store) (rule : WatchRule) (key : ℕ) :
    (writeEvaluation ctx call s rule).view key = (s.view key).map fun v =>
      if v.rule.id = rule.id then
        ⟨v.rule.withEvaluation (evaluation ctx call rule) call.snapshot.selectedPrice
          call.snapshot.checkedAt, v.alerts⟩
      else v := by
  rw [writeEvaluation, Store.view_updateRules]
  simp only [decide_eq_true_eq]

private theorem evaluation_eq (rule : WatchRule) :
    evaluation ctx call rule = rule.evaluate ctx (call.observation rule.id) := rfl

private theorem alert_eq (rule : WatchRule) :
    rule.alert ctx (call.observation rule.id) =
      match (evaluation ctx call rule).triggered, call.snapshot.selectedPrice with
      | true, some price => some (price, rule.lastObservedPrice)
      | _, _ => none := by
  have hprice : (call.observation rule.id).price = call.snapshot.selectedPrice := rfl
  rw [WatchRule.alert, ← evaluation_eq, hprice]
  cases (evaluation ctx call rule).triggered <;> cases call.snapshot.selectedPrice <;> rfl

/-- What the body of the loop does with a rule that it evaluates. -/
private theorem processRule_evaluated {progress progress' : Progress} {rule : WatchRule}
    (hget : progress.store.watchRules.get? rule.id = some rule)
    (howner : rule.discordUserId = call.discordUserId) (henabled : rule.enabled = true)
    (h : processRule ctx call displayed notificationKey progress rule.id = .ok progress') :
    progress'.store.users = progress.store.users ∧
      (∀ e ∈ progress'.events, e ∈ progress.events ∨ Reports ctx call e.1 rule) ∧
      ∀ key, progress'.store.view key = (progress.store.view key).map fun v =>
        if v.rule.id = rule.id then v.observe ctx (call.observation v.rule.id) else v := by
  have howned : WatchRuleRepository.getOwned progress.store call.discordUserId rule.id =
      some rule := WatchRuleRepository.getOwned_eq_some.mpr ⟨hget, howner⟩
  have hsame : ∀ key v, progress.store.view key = some v → v.rule.id = rule.id →
      v.rule = rule := by
    intro key v hv hid
    have hrule := (Store.view_eq_some.mp hv).1
    rw [← Store.id_of_view hv, hid, hget] at hrule
    exact (Option.some.inj hrule).symm
  have halert := @alert_eq ctx call rule
  rw [processRule, howned] at h
  simp only [henabled, Bool.true_eq_false, if_false] at h
  split at h
  · next price htriggered hprice =>
    simp only [htriggered, hprice] at halert
    obtain ⟨store, hstore, h⟩ := Except.bind_eq_ok.mp h
    obtain ⟨husers, hview⟩ :=
      NotificationRepository.createPending_ok (raiseDatabase_eq_ok.mp hstore)
    split at h
    · cases h
    · obtain rfl := Except.ok.inj h
      refine ⟨husers, fun e he => ?_, fun key => ?_⟩
      · refine (List.mem_append.mp he).imp_right fun he => ?_
        obtain rfl := List.mem_singleton.mp he
        exact ⟨_, price, halert, rfl⟩
      · rw [hview, view_writeEvaluation, Option.map_map]
        refine Option.map_congr fun v hv => ?_
        simp only [Function.comp_apply, ← Store.id_of_view hv, eq_comm (a := rule.id)]
        split_ifs with hid
        · rw [hsame key v hv hid, RuleView.observe, hsame key v hv hid, halert]
          rfl
        · rfl
  · next hquiet =>
    obtain rfl := Except.ok.inj h
    refine ⟨rfl, fun e he => .inl he, fun key => ?_⟩
    rw [view_writeEvaluation]
    refine Option.map_congr fun v hv => ?_
    have hnone : rule.alert ctx (call.observation rule.id) = none := by
      rw [halert]
      split
      · next htriggered hprice => exact (hquiet _ htriggered hprice).elim
      · rfl
    split_ifs with hid
    · rw [hsame key v hv hid, RuleView.observe, hsame key v hv hid, hnone, Option.toList_none,
        List.append_nil]
      rfl
    · rfl

/-- What the body of the loop does to the rules. -/
private theorem processRule_ok {progress progress' : Progress} {ruleId : ℕ}
    (h : processRule ctx call displayed notificationKey progress ruleId = .ok progress') :
    progress'.store.users = progress.store.users ∧
      (∀ e ∈ progress'.events, e ∈ progress.events ∨ ∃ v, progress.store.view ruleId = some v ∧
        v.rule.discordUserId = call.discordUserId ∧ v.rule.enabled = true ∧
        Reports ctx call e.1 v.rule) ∧
      ∀ key, progress'.store.view key = (progress.store.view key).map fun v =>
        if v.rule.id = ruleId ∧ v.rule.discordUserId = call.discordUserId ∧
          v.rule.enabled = true then v.observe ctx (call.observation v.rule.id) else v := by
  by_cases hrule : ∃ rule, progress.store.watchRules.get? ruleId = some rule ∧
      rule.discordUserId = call.discordUserId ∧ rule.enabled = true
  · obtain ⟨rule, hget, howner, henabled⟩ := hrule
    obtain rfl := Table.key_of_get? hget
    obtain ⟨husers, hevents, hview⟩ := processRule_evaluated hget howner henabled h
    refine ⟨husers, fun e he => (hevents e he).imp_right fun hreports =>
      ⟨⟨rule, _⟩, Store.view_eq_some.mpr ⟨hget, rfl⟩, howner, henabled, hreports⟩,
      fun key => (hview key).trans (Option.map_congr fun v hv => ?_)⟩
    refine if_congr ⟨fun hid => ⟨hid, ?_⟩, And.left⟩ rfl rfl
    have hv' := (Store.view_eq_some.mp hv).1
    rw [← Store.id_of_view hv, hid, hget] at hv'
    rw [← Option.some.inj hv']
    exact ⟨howner, henabled⟩
  · have hunchanged : progress' = progress := by
      rw [processRule] at h
      split at h
      · exact (Except.ok.inj h).symm
      · next rule hget =>
        obtain ⟨hget, howner⟩ := WatchRuleRepository.getOwned_eq_some.mp hget
        have hdisabled : rule.enabled = false :=
          Bool.eq_false_iff.mpr fun henabled => hrule ⟨rule, hget, howner, henabled⟩
        rw [if_pos hdisabled] at h
        exact (Except.ok.inj h).symm
    subst hunchanged
    refine ⟨rfl, fun e he => .inl he, fun key => ?_⟩
    cases hv : progress'.store.view key with
    | none => rfl
    | some v =>
      rw [Option.map_some, if_neg]
      rintro ⟨hid, howner, henabled⟩
      have hv' := (Store.view_eq_some.mp hv).1
      rw [← Store.id_of_view hv, hid] at hv'
      exact hrule ⟨v.rule, hv', howner, henabled⟩

/-- What the loop does to the rules, by induction over the ids: no later turn evaluates a rule
again. -/
private theorem foldlM_processRule_ok {ids : List ℕ} (hids : ids.Nodup)
    {progress progress' : Progress}
    (h : ids.foldlM (processRule ctx call displayed notificationKey) progress = .ok progress') :
    progress'.store.users = progress.store.users ∧
      (∀ e ∈ progress'.events, e ∈ progress.events ∨ ∃ id ∈ ids, ∃ v,
        progress.store.view id = some v ∧ v.rule.discordUserId = call.discordUserId ∧
        v.rule.enabled = true ∧ Reports ctx call e.1 v.rule) ∧
      ∀ key, progress'.store.view key = (progress.store.view key).map fun v =>
        if v.rule.id ∈ ids ∧ v.rule.discordUserId = call.discordUserId ∧
          v.rule.enabled = true then v.observe ctx (call.observation v.rule.id) else v := by
  induction ids generalizing progress with
  | nil =>
    obtain rfl := Except.ok.inj h
    refine ⟨rfl, fun e he => .inl he, fun key => ?_⟩
    cases progress.store.view key <;> simp
  | cons ruleId ids ih =>
    obtain ⟨hnotin, hids⟩ := List.nodup_cons.mp hids
    rw [List.foldlM_cons] at h
    obtain ⟨next, hstep, h⟩ := Except.bind_eq_ok.mp h
    obtain ⟨husers, hevents, hview⟩ := processRule_ok hstep
    obtain ⟨husers', hevents', hview'⟩ := ih hids h
    refine ⟨husers'.trans husers, fun e he => ?_, fun key => ?_⟩
    · rcases hevents' e he with he | ⟨id, hid, v, hv, hreads⟩
      · refine (hevents e he).imp_right fun hreads => ⟨ruleId, List.mem_cons_self, hreads⟩
      · refine .inr ⟨id, List.mem_cons_of_mem _ hid, v, ?_, hreads⟩
        rw [hview, Option.map_eq_some_iff] at hv
        obtain ⟨v', hv', hsame⟩ := hv
        have hother : v'.rule.id ≠ ruleId := by
          rw [Store.id_of_view hv']
          exact fun heq => hnotin (heq ▸ hid)
        rw [if_neg fun hcond => hother hcond.1] at hsame
        rw [hv', hsame]
    · rw [hview', hview, Option.map_map]
      congr 1
      funext v
      simp only [Function.comp_apply, List.mem_cons]
      by_cases hid : v.rule.id = ruleId
      · by_cases hreads : v.rule.discordUserId = call.discordUserId ∧ v.rule.enabled = true
        · simp [hid, hreads, RuleView.observe, hnotin]
        · simp [hid, hreads]
      · simp [hid]

/-- The transaction evaluates each rule of the call that is owned by the user and enabled, and
touches no other rule. Its events report alerts of these evaluations. -/
theorem process_ok {observationKey : ℕ} {s : Store} {progress : Progress}
    (h : process ctx call notificationKey observationKey s = .ok progress) :
    progress.store.users = s.users ∧
      (∀ e ∈ progress.events, ∃ id v, s.view id = some v ∧ Evaluates call v.rule ∧
        Reports ctx call e.1 v.rule) ∧
      ∀ key, progress.store.view key = (s.view key).map fun v =>
        if Evaluates call v.rule then v.observe ctx (call.observation v.rule.id) else v := by
  obtain ⟨s', hadd, h⟩ := Except.bind_eq_ok.mp h
  obtain ⟨husers, hevents, hview⟩ := foldlM_processRule_ok call.nodup h
  rw [raiseDatabase_eq_ok, ObservationRepository.add] at hadd
  split_ifs at hadd
  obtain rfl := Except.ok.inj hadd
  refine ⟨husers, fun e he => ?_, hview⟩
  rcases hevents e he with he | ⟨id, hid, v, hv, howner, henabled, hreports⟩
  · cases he
  · exact ⟨id, v, hv, ⟨Store.id_of_view hv ▸ hid, howner, henabled⟩, hreports⟩

end RuleProcessor

end DonutMonitor
