import DonutMonitor.Application.UserFrame
import DonutMonitor.Persistence.Renaming
import Mathlib.Data.Fintype.Sum
import Mathlib.Logic.Equiv.Fintype

/-!
# Users are isolated

What an operation does for its user depends on the rows of this user only. In two stores that agree
on these rows, the same operation with the same answers from outside returns the same result or
raises the same exception, and leaves the same rows of the user, up to the keys that the databases
have allocated in the meantime.

## Main definitions

* `OperationResult.rename`, `AlertEvent.rename`, … — results under other keys.
* `Keys.RenamedTo` — the renaming maps the keys of one run to those of the other.

## Main results

* `RuleProcessor.process_agreeOn` — the transaction of `process` in two stores.
* `UserOperation.perform_agreeOn` — every operation in two stores.
* `UserOperation.isolated` — frame and agreement.
-/

namespace DonutMonitor

open Stateful (RelTriple)

variable {s t : Store} {discordUserId : ℤ} {ρ : Renaming}

/-! ### Results under other keys -/

/-- The rule under its other key, with its number. -/
def DisplayedRule.rename (ρ : Renaming) (displayed : DisplayedRule) : DisplayedRule :=
  { displayed with rule := displayed.rule.rename ρ }

/-- The alert of the rule under its other key. -/
def AlertEvent.rename (ρ : Renaming) (event : AlertEvent) : AlertEvent :=
  { event with databaseRuleId := ρ.rule event.databaseRuleId }

/-- The created rule under its other key. -/
def CreatedRule.rename (ρ : Renaming) (created : CreatedRule) : CreatedRule :=
  { created with
    rule := created.rule.rename ρ
    displayedRule := created.displayedRule.rename ρ }

/-- The result with the rules under their other keys. -/
def OperationResult.rename (ρ : Renaming) : OperationResult → OperationResult
  | .fingerprint f => .fingerprint f
  | .changed b => .changed b
  | .added displayedRule snapshot => .added (displayedRule.rename ρ) snapshot
  | .rules l => .rules (l.map (DisplayedRule.rename ρ))
  | .alerts events => .alerts (events.map (AlertEvent.rename ρ))

/-- The call for the rules under their other keys. -/
def ProcessCall.rename (ρ : Renaming) (call : ProcessCall) : ProcessCall where
  discordUserId := call.discordUserId
  ruleIds := call.ruleIds.map ρ.rule
  snapshot := call.snapshot
  notifyInitialRuleId := call.notifyInitialRuleId.map ρ.rule
  nodup := call.nodup.map ρ.rule.injective

/-! ### Numbers -/

theorem numberRules_rename (rules : List WatchRule) :
    numberRules (rules.map (WatchRule.rename ρ)) =
      (numberRules rules).map (DisplayedRule.rename ρ) := by
  simp only [numberRules, List.zipIdx_map, List.map_map]
  rfl

theorem findDisplayed_rename (rules : List WatchRule) (ruleId : ℕ) :
    findDisplayed (rules.map (WatchRule.rename ρ)) (ρ.rule ruleId) =
      (findDisplayed rules ruleId).map (DisplayedRule.rename ρ) := by
  rw [findDisplayed, numberRules_rename, List.find?_map, findDisplayed]
  congr 2
  funext d
  simp [DisplayedRule.rename]

theorem ruleByDisplayId_rename (rules : List WatchRule) (displayId : ℤ) :
    ruleByDisplayId (rules.map (WatchRule.rename ρ)) displayId =
      (ruleByDisplayId rules displayId).map (WatchRule.rename ρ) := by
  rw [ruleByDisplayId, ruleByDisplayId, List.length_map]
  split_ifs
  · rfl
  · rw [List.getElem?_map]

/-! ### Repositories -/

namespace Store.AgreeOn

variable (h : AgreeOn discordUserId ρ s t)

theorem isOwned_rename (ruleId : ℕ) (rule : WatchRule) :
    WatchRuleRepository.isOwned discordUserId (ρ.rule ruleId) (rule.rename ρ) =
      WatchRuleRepository.isOwned discordUserId ruleId rule := by
  rw [Bool.eq_iff_iff]
  simp only [WatchRuleRepository.isOwned, Bool.and_eq_true, decide_eq_true_eq]
  rw [WatchRule.rename_id, WatchRule.rename_discordUserId, ρ.rule.injective.eq_iff]

include h

theorem saveValidToken (encryptedToken fingerprint : String) :
    AgreeOn discordUserId ρ
      (UserRepository.saveValidToken s discordUserId encryptedToken fingerprint)
      (UserRepository.saveValidToken t discordUserId encryptedToken fingerprint) := by
  by_cases huser : discordUserId ∈ s.users.keys
  · rw [UserRepository.saveValidToken, UserRepository.saveValidToken, dif_pos huser,
      dif_pos (h.mem_users.mpr huser)]
    exact h.updateUsers
  · rw [UserRepository.saveValidToken, UserRepository.saveValidToken, dif_neg huser,
      dif_neg (mt h.mem_users.mp huser)]
    exact h.insertUser

theorem delete (ruleId : ℕ) :
    AgreeOn discordUserId ρ (WatchRuleRepository.delete s discordUserId ruleId).1
        (WatchRuleRepository.delete t discordUserId (ρ.rule ruleId)).1 ∧
      (WatchRuleRepository.delete t discordUserId (ρ.rule ruleId)).2 =
        (WatchRuleRepository.delete s discordUserId ruleId).2 := by
  refine ⟨h.deleteRules fun rule => isOwned_rename ruleId rule, ?_⟩
  rw [WatchRuleRepository.delete, WatchRuleRepository.delete, h.getOwned, Option.isSome_map]

theorem setEnabled (ruleId : ℕ) (enabled : Bool) :
    AgreeOn discordUserId ρ (WatchRuleRepository.setEnabled s discordUserId ruleId enabled).1
        (WatchRuleRepository.setEnabled t discordUserId (ρ.rule ruleId) enabled).1 ∧
      (WatchRuleRepository.setEnabled t discordUserId (ρ.rule ruleId) enabled).2 =
        (WatchRuleRepository.setEnabled s discordUserId ruleId enabled).2 := by
  rw [WatchRuleRepository.setEnabled, WatchRuleRepository.setEnabled, h.getOwned,
    Option.isSome_map]
  refine ⟨?_, rfl⟩
  dsimp only
  exact h.updateRules (fun rule => isOwned_rename ruleId rule) fun rule =>
    rule.rename_withEnabled ρ enabled

theorem requireValidUser :
    DonutMonitor.requireValidUser t discordUserId =
      DonutMonitor.requireValidUser s discordUserId := by
  rw [DonutMonitor.requireValidUser, DonutMonitor.requireValidUser, h.get]

/-- A rule found by its number is the same one, up to its key. -/
theorem ruleByDisplayId (displayId : ℤ) :
    DonutMonitor.ruleByDisplayId (WatchRuleRepository.listForUser t discordUserId) displayId =
      (DonutMonitor.ruleByDisplayId (WatchRuleRepository.listForUser s discordUserId)
        displayId).map (WatchRule.rename ρ) := by
  rw [h.listForUser, ruleByDisplayId_rename]

end Store.AgreeOn

/-! ### Changes of one rule -/

/-- Both bodies answer the same and leave stores that agree on the user, or raise the same
exception. -/
def ChangesAlike (discordUserId : ℤ) (ρ : Renaming) :
    Except ServiceError (Store × Bool) → Except ServiceError (Store × Bool) → Prop :=
  Except.Rel fun a b => b.2 = a.2 ∧ Store.AgreeOn discordUserId ρ a.1 b.1

/-- A check that the user is valid has the same outcome in both stores. -/
theorem Store.AgreeOn.rel_requireValidUser (h : AgreeOn discordUserId ρ s t) :
    Except.Rel Eq (DonutMonitor.requireValidUser s discordUserId)
      (DonutMonitor.requireValidUser t discordUserId) := by
  rw [h.requireValidUser]
  exact .refl fun _ => rfl

namespace Store.AgreeOn

variable (h : AgreeOn discordUserId ρ s t)

include h

theorem watchService_list :
    Except.Rel (fun a b => b = a.map (DisplayedRule.rename ρ)) (WatchService.list discordUserId s)
      (WatchService.list discordUserId t) := by
  refine h.rel_requireValidUser.bind fun _ _ _ => .ok ?_
  rw [h.listForUser, numberRules_rename]

theorem watchService_delete (displayId : ℤ) :
    ChangesAlike discordUserId ρ (WatchService.delete discordUserId displayId s)
      (WatchService.delete discordUserId displayId t) := by
  refine h.rel_requireValidUser.bind fun _ _ _ => ?_
  rw [h.ruleByDisplayId]
  cases DonutMonitor.ruleByDisplayId (WatchRuleRepository.listForUser s discordUserId) displayId
    with
  | none => exact .ok ⟨rfl, h⟩
  | some rule => exact .ok (h.delete rule.id).symm

theorem watchService_setEnabled (displayId : ℤ) (enabled : Bool) :
    ChangesAlike discordUserId ρ (WatchService.setEnabled discordUserId displayId enabled s)
      (WatchService.setEnabled discordUserId displayId enabled t) := by
  refine h.rel_requireValidUser.bind fun _ _ _ => ?_
  rw [h.ruleByDisplayId]
  cases DonutMonitor.ruleByDisplayId (WatchRuleRepository.listForUser s discordUserId) displayId
    with
  | none => exact .ok ⟨rfl, h⟩
  | some rule => exact .ok (h.setEnabled rule.id enabled).symm

theorem watchService_deleteByDatabaseId (databaseId : ℕ) :
    ChangesAlike discordUserId ρ (WatchService.deleteByDatabaseId discordUserId databaseId s)
      (WatchService.deleteByDatabaseId discordUserId (ρ.rule databaseId) t) :=
  h.rel_requireValidUser.bind fun _ _ _ => .ok (h.delete databaseId).symm

theorem watchService_setEnabledByDatabaseId (databaseId : ℕ) (enabled : Bool) :
    ChangesAlike discordUserId ρ
      (WatchService.setEnabledByDatabaseId discordUserId databaseId enabled s)
      (WatchService.setEnabledByDatabaseId discordUserId (ρ.rule databaseId) enabled t) :=
  h.rel_requireValidUser.bind fun _ _ _ => .ok (h.setEnabled databaseId enabled).symm

/-- The first transaction of `add` in both stores, under keys that are larger than the others. -/
theorem watchService_create {env : Environment} {draft : RuleDraft} {key key' : ℕ}
    (howner : draft.discordUserId = discordUserId) (hkey : ρ.rule key = key')
    (hfresh : ∀ id ∈ s.watchRules.keys, id < key) (hfresh' : ∀ id ∈ t.watchRules.keys, id < key') :
    Except.Rel (fun a b => b.1 = a.1.rename ρ ∧ AgreeOn discordUserId ρ a.2 b.2)
      (WatchService.create env draft key s) (WatchService.create env draft key' t) := by
  subst howner hkey
  refine h.rel_requireValidUser.bind fun user user' huser => ?_
  subst huser
  have hcreate : Except.Rel (fun a b : WatchRule × Store =>
      b.1 = a.1.rename ρ ∧ AgreeOn draft.discordUserId ρ a.2 b.2)
      (raiseDatabase (WatchRuleRepository.create s key draft))
      (raiseDatabase (WatchRuleRepository.create t (ρ.rule key) draft)) := by
    have hnew : key ∉ s.watchRules.keys := fun hmem => (hfresh key hmem).false
    have hnew' : ρ.rule key ∉ t.watchRules.keys := fun hmem => (hfresh' _ hmem).false
    by_cases huser : draft.discordUserId ∈ s.users.keys
    · have huser' : draft.discordUserId ∈ t.users.keys := h.mem_users.mpr huser
      have hinserted : AgreeOn draft.discordUserId ρ (s.insertRule (draft.row key) hnew huser)
          (t.insertRule (draft.row (ρ.rule key)) hnew' huser') := by
        refine h.insertRule rfl fun rule hrule => ?_
        have hown := (List.mem_filter.mp hrule).1
        have hown' : rule.rename ρ ∈ (t.ownRows draft.discordUserId).watchRules :=
          h.rows.watchRules.mem_iff.mp (List.mem_map_of_mem hrule)
        exact ⟨hfresh _ (Table.mem_keys_of_mem hown),
          hfresh' _ (Table.mem_keys_of_mem (List.mem_filter.mp hown').1)⟩
      rw [WatchRuleRepository.create, WatchRuleRepository.create, dif_pos ⟨hnew, huser⟩,
        dif_pos ⟨hnew', huser'⟩]
      exact .ok ⟨rfl, hinserted⟩
    · rw [WatchRuleRepository.create, WatchRuleRepository.create, dif_neg fun hk => huser hk.2,
        dif_neg fun hk => huser (h.mem_users.mp hk.2)]
      exact .error _
  refine hcreate.bind fun a b hab => ?_
  obtain ⟨rule, s'⟩ := a
  obtain ⟨rule', t'⟩ := b
  obtain ⟨hrule, hagree⟩ := hab
  simp only at hrule hagree
  subst hrule
  have hdisplayed : Except.Rel (fun a b : DisplayedRule => b = a.rename ρ)
      (findDisplayedRule (WatchRuleRepository.listForUser s' draft.discordUserId) rule.id)
      (findDisplayedRule (WatchRuleRepository.listForUser t' draft.discordUserId)
        (rule.rename ρ).id) := by
    rw [findDisplayedRule, findDisplayedRule, hagree.listForUser, WatchRule.rename_id,
      findDisplayed_rename]
    cases findDisplayed (WatchRuleRepository.listForUser s' draft.discordUserId) rule.id with
    | none => exact .error _
    | some displayed => exact .ok rfl
  refine hdisplayed.bind fun displayed displayed' hsame => ?_
  subst hsame
  cases env.decrypt user.encryptedDonutToken with
  | none => exact .error _
  | some token => exact .ok ⟨rfl, hagree⟩

end Store.AgreeOn

/-! ### Processing a snapshot -/

/-- A pending notification in both stores, or in neither. -/
private theorem Store.AgreeOn.createPending (h : AgreeOn discordUserId ρ s t)
    {id id' ruleId : ℕ} {price : ℚ} {previousPrice : Option ℚ} {rule : WatchRule}
    (hid : ρ.notification id = id')
    (hown : WatchRuleRepository.getOwned s discordUserId ruleId = some rule)
    (hkeys : id ∈ s.notifications.keys ↔ id' ∈ t.notifications.keys) :
    Except.Rel (fun a b => AgreeOn discordUserId ρ a b ∧
        a.notifications.keys = s.notifications.keys ++ [id] ∧
        b.notifications.keys = t.notifications.keys ++ [id'])
      (raiseDatabase (NotificationRepository.createPending s id ruleId price previousPrice))
      (raiseDatabase
        (NotificationRepository.createPending t id' (ρ.rule ruleId) price previousPrice)) := by
  subst hid
  have hown' := h.getOwned ruleId
  rw [hown] at hown'
  have hrule : ruleId ∈ s.watchRules.keys :=
    Table.mem_keys_iff.mpr ⟨_, (WatchRuleRepository.getOwned_eq_some.mp hown).1⟩
  have hrule' : ρ.rule ruleId ∈ t.watchRules.keys :=
    Table.mem_keys_iff.mpr ⟨_, (WatchRuleRepository.getOwned_eq_some.mp hown').1⟩
  by_cases hused : id ∈ s.notifications.keys
  · rw [NotificationRepository.createPending, NotificationRepository.createPending,
      dif_neg fun hk => hk.1 hused, dif_neg fun hk => hk.1 (hkeys.mp hused)]
    exact .error _
  · have hused' : ρ.notification id ∉ t.notifications.keys := mt hkeys.mpr hused
    rw [NotificationRepository.createPending, NotificationRepository.createPending,
      dif_pos ⟨hused, hrule⟩, dif_pos ⟨hused', hrule'⟩]
    refine .ok ⟨?_, Table.keys_insert _ _ hused, Table.keys_insert _ _ hused'⟩
    exact h.insertNotification rfl hown

namespace RuleProcessor

variable {ctx : DecimalContext} {call : ProcessCall} {displayed : List WatchRule}
  {notificationKey notificationKey' : ℕ → ℕ} {observationKey observationKey' : ℕ}

/-- The loop has come equally far in both stores. -/
structure Alike (discordUserId : ℤ) (ρ : Renaming) (notificationKey notificationKey' : ℕ → ℕ)
    (progress progress' : Progress) : Prop where
  store : progress.store.AgreeOn discordUserId ρ progress'.store
  events : progress'.events = progress.events.map fun e => (e.1.rename ρ, ρ.notification e.2)
  /-- The key of a notification is taken in both stores or in neither. -/
  keys : ∀ id, notificationKey id ∈ progress.store.notifications.keys ↔
    notificationKey' (ρ.rule id) ∈ progress'.store.notifications.keys

private theorem evaluation_rename (rule : WatchRule) :
    evaluation ctx (call.rename ρ) (rule.rename ρ) = evaluation ctx call rule := by
  have hinitial : decide ((rule.rename ρ).id = (call.rename ρ).notifyInitialRuleId) =
      decide (rule.id = call.notifyInitialRuleId) := by
    refine decide_eq_decide.mpr ?_
    cases hnotify : call.notifyInitialRuleId <;> simp [ProcessCall.rename, hnotify]
  rw [evaluation, hinitial]
  rfl

private theorem writeEvaluation_alike (h : s.AgreeOn call.discordUserId ρ t) (rule : WatchRule) :
    (writeEvaluation ctx call s rule).AgreeOn call.discordUserId ρ
      (writeEvaluation ctx (call.rename ρ) t (rule.rename ρ)) := by
  rw [writeEvaluation, writeEvaluation]
  refine h.updateRules (fun r => ?_) fun r => ?_
  · exact decide_eq_decide.mpr ρ.rule.injective.eq_iff
  · rw [evaluation_rename]
    rfl

/-- One turn of the loop in both stores. -/
private theorem processRule_alike {progress progress' : Progress} {ruleId : ℕ}
    (hkey : ρ.notification (notificationKey ruleId) = notificationKey' (ρ.rule ruleId))
    (hinjective : Function.Injective notificationKey)
    (hinjective' : Function.Injective notificationKey')
    (h : Alike call.discordUserId ρ notificationKey notificationKey' progress progress') :
    Except.Rel (Alike call.discordUserId ρ notificationKey notificationKey')
      (processRule ctx call displayed notificationKey progress ruleId)
      (processRule ctx (call.rename ρ) (displayed.map (WatchRule.rename ρ)) notificationKey'
        progress' (ρ.rule ruleId)) := by
  have hget := h.store.getOwned ruleId
  rw [processRule, processRule]
  have huser : (call.rename ρ).discordUserId = call.discordUserId := rfl
  rw [huser, hget]
  cases hrule : WatchRuleRepository.getOwned progress.store call.discordUserId ruleId with
  | none => exact .ok h
  | some rule =>
    have hid : rule.id = ruleId :=
      Table.key_of_get? (WatchRuleRepository.getOwned_eq_some.mp hrule).1
    subst hid
    have hwritten : (writeEvaluation ctx call progress.store rule).AgreeOn call.discordUserId ρ
        (writeEvaluation ctx (call.rename ρ) progress'.store (rule.rename ρ)) :=
      writeEvaluation_alike h.store rule
    cases henabled : rule.enabled with
    | false =>
      have henabled' : (rule.rename ρ).enabled = false := henabled
      simp only [Option.map_some, henabled, henabled', if_true]
      exact .ok h
    | true =>
      have henabled' : (rule.rename ρ).enabled = true := henabled
      simp only [Option.map_some, henabled, henabled', Bool.true_eq_false, if_false]
      rw [evaluation_rename]
      have hsnapshot : (call.rename ρ).snapshot = call.snapshot := rfl
      rw [hsnapshot]
      have hquiet : Alike call.discordUserId ρ notificationKey notificationKey'
          ⟨writeEvaluation ctx call progress.store rule, progress.events⟩
          ⟨writeEvaluation ctx (call.rename ρ) progress'.store (rule.rename ρ),
            progress'.events⟩ := ⟨hwritten, h.events, h.keys⟩
      cases (evaluation ctx call rule).triggered with
      | false => exact .ok hquiet
      | true =>
        cases call.snapshot.selectedPrice with
        | none => exact .ok hquiet
        | some price =>
          refine (hwritten.createPending hkey (getOwned_writeEvaluation hrule)
            (h.keys rule.id)).bind fun store store' hstores => ?_
          obtain ⟨hagree, hkeys, hkeys'⟩ := hstores
          rw [WatchRule.rename_id, findDisplayed_rename]
          cases findDisplayed displayed rule.id with
          | none => exact .error _
          | some display =>
            refine .ok ⟨hagree, ?_, fun id => ?_⟩
            · rw [List.map_append, ← h.events, List.map_singleton, hkey]
              rfl
            · rw [hkeys, hkeys', List.mem_append, List.mem_append, List.mem_singleton,
                List.mem_singleton, hinjective.eq_iff, hinjective'.eq_iff,
                ρ.rule.injective.eq_iff]
              exact or_congr_left (h.keys id)

end RuleProcessor

/-- The renaming maps the keys of one run to those of the other, for the observation and for the
notifications of some rules. -/
structure Keys.RenamedTo (keys keys' : Keys) (ρ : Renaming) (ruleIds : List ℕ) : Prop where
  observation : ρ.observation keys.observation = keys'.observation
  notification : ∀ id ∈ ruleIds,
    ρ.notification (keys.notification id) = keys'.notification (ρ.rule id)

variable {keys keys' : Keys}

/-- An observation of the user in both stores. -/
private theorem Store.AgreeOn.addObservation (h : AgreeOn discordUserId ρ s t)
    {o : PriceObservation} (howner : o.discordUserId = discordUserId)
    (hnew : o.id ∉ s.observations.keys) (hnew' : ρ.observation o.id ∉ t.observations.keys) :
    Except.Rel (fun a b => AgreeOn discordUserId ρ a b ∧
        a.notifications = s.notifications ∧ b.notifications = t.notifications)
      (raiseDatabase (ObservationRepository.add s o))
      (raiseDatabase (ObservationRepository.add t (o.rename ρ))) := by
  by_cases huser : discordUserId ∈ s.users.keys
  · have hkeys : o.id ∉ s.observations.keys ∧ o.discordUserId ∈ s.users.keys :=
      ⟨hnew, howner ▸ huser⟩
    have hkeys' : (o.rename ρ).id ∉ t.observations.keys ∧
        (o.rename ρ).discordUserId ∈ t.users.keys :=
      ⟨hnew', howner ▸ h.mem_users.mpr huser⟩
    rw [ObservationRepository.add, ObservationRepository.add, dif_pos hkeys, dif_pos hkeys']
    exact .ok ⟨h.insertObservation rfl, rfl, rfl⟩
  · rw [ObservationRepository.add, ObservationRepository.add,
      dif_neg fun hk => huser (howner ▸ hk.2),
      dif_neg fun hk => huser (h.mem_users.mp (howner ▸ hk.2))]
    exact .error _

/-- The transaction of `process` in both stores, under keys that are not in use. -/
theorem RuleProcessor.process_agreeOn {ctx : DecimalContext} {call : ProcessCall}
    (h : s.AgreeOn call.discordUserId ρ t) (hs : keys.Unused s) (ht : keys'.Unused t)
    (hkeys : keys.RenamedTo keys' ρ call.ruleIds) :
    Except.Rel (Alike call.discordUserId ρ keys.notification keys'.notification)
      (process ctx call keys.notification keys.observation s)
      (process ctx (call.rename ρ) keys'.notification keys'.observation t) := by
  have hnew' : ρ.observation keys.observation ∉ t.observations.keys :=
    hkeys.observation ▸ ht.observation
  have hadd := h.addObservation (o :=
    { id := keys.observation
      discordUserId := call.discordUserId
      itemId := call.snapshot.itemId
      price := call.snapshot.selectedPrice
      listingPrice := call.snapshot.listing.map (·.price)
      itemCount := call.snapshot.listing.map (·.item.count)
      sellerName := call.snapshot.listing.map (·.seller.name)
      observedAt := call.snapshot.checkedAt }) rfl hs.observation hnew'
  rw [process, process, ← hkeys.observation]
  refine hadd.bind fun s' t' hadded => ?_
  obtain ⟨hagree, hnotifications, hnotifications'⟩ := hadded
  have huser : (call.rename ρ).discordUserId = call.discordUserId := rfl
  rw [huser, hagree.listForUser]
  refine .foldlM (fun progress progress' ruleId hmem hturn => processRule_alike
    (hkeys.notification ruleId hmem) hs.injective ht.injective hturn) ⟨hagree, rfl, fun id => ?_⟩
  rw [hnotifications, hnotifications']
  exact iff_of_false (hs.notification id) (ht.notification _)

/-! ### Services -/

namespace Service

variable {env : Environment} {answers : Answers}

/-- The second result is the image of the first, and the stores agree on the user. -/
abbrev Returns {α β : Type} (discordUserId : ℤ) (ρ : Renaming) (f : α → β) (a : α) (b : β)
    (s t : Store) : Prop :=
  b = f a ∧ s.AgreeOn discordUserId ρ t

/-- A transaction whose body does the same in both stores. -/
private theorem transaction_agreeOn {α β : Type} {f : α → β}
    {body : Store → Except ServiceError (α × Store)}
    {body' : Store → Except ServiceError (β × Store)}
    (h : ∀ s t, s.AgreeOn discordUserId ρ t →
      Except.Rel (fun a b => Returns discordUserId ρ f a.1 b.1 a.2 b.2) (body s) (body' t)) :
    RelTriple (Store.AgreeOn discordUserId ρ) (Stateful.transaction body)
      (Stateful.transaction body') (Returns discordUserId ρ f) (Store.AgreeOn discordUserId ρ) :=
  .transaction h fun _ _ hst => hst

theorem authenticate_agreeOn {rawToken : String} :
    RelTriple (Store.AgreeOn discordUserId ρ) (authenticate env answers discordUserId rawToken)
      (authenticate env answers discordUserId rawToken) (Returns discordUserId ρ id)
      (Store.AgreeOn discordUserId ρ) := by
  rw [authenticate]
  split
  · exact .throw fun _ _ hst => hst
  · refine .attempt_bind (fun _ _ hst => hst) fun _ _ =>
      .attempt_bind (fun _ _ hst => hst) fun encrypted _ => ?_
    refine .bind_rel (transaction_agreeOn (f := id) fun s t hst => .ok ⟨rfl, ?_⟩) fun _ _ _ =>
      .pure fun _ _ hst => ⟨rfl, hst⟩
    exact hst.saveValidToken encrypted _

theorem logout_agreeOn :
    RelTriple (Store.AgreeOn discordUserId ρ) (logout discordUserId) (logout discordUserId)
      (Returns discordUserId ρ id) (Store.AgreeOn discordUserId ρ) :=
  transaction_agreeOn fun _ _ hst =>
    .ok ⟨decide_eq_decide.mpr hst.mem_users, Store.AgreeOn.deleteUser⟩

private theorem recordDelivery_agreeOn (h : s.AgreeOn discordUserId ρ t) (userId : ℤ)
    (notificationId : ℕ) (answer : Except String ℤ) :
    (recordDelivery userId notificationId s answer).AgreeOn discordUserId ρ
      (recordDelivery userId (ρ.notification notificationId) t answer) := by
  have hkey : ∀ n : Notification,
      decide ((n.rename ρ).id = ρ.notification notificationId) = decide (n.id = notificationId) :=
    fun n => decide_eq_decide.mpr ρ.notification.injective.eq_iff
  cases answer with
  | error name =>
    refine Store.AgreeOn.updateUsers ?_
    exact h.updateNotifications hkey fun _ => rfl
  | ok messageId =>
    refine Store.AgreeOn.updateUsers ?_
    exact h.updateNotifications hkey fun _ => rfl

private theorem deliver_agreeOn (e : AlertEvent × ℕ) (answer : Except String ℤ) :
    RelTriple (Store.AgreeOn discordUserId ρ) (deliver e.1 e.2 answer)
      (deliver (e.1.rename ρ) (ρ.notification e.2) answer)
      (fun _ _ => Store.AgreeOn discordUserId ρ) (Store.AgreeOn discordUserId ρ) :=
  .transaction (fun _ _ hst => .ok (recordDelivery_agreeOn hst _ _ answer)) fun _ _ hst => hst

theorem process_agreeOn {call : ProcessCall} (hkeys : keys.RenamedTo keys' ρ call.ruleIds) :
    RelTriple (fun s t => s.AgreeOn call.discordUserId ρ t ∧ keys.Unused s ∧ keys'.Unused t)
      (process env answers keys call) (process env answers keys' (call.rename ρ))
      (Returns call.discordUserId ρ (List.map (AlertEvent.rename ρ)))
      (Store.AgreeOn call.discordUserId ρ) := by
  have hempty : (call.rename ρ).ruleIds = [] ↔ call.ruleIds = [] := List.map_eq_nil_iff
  rw [process, process]
  split_ifs with hids hids' hids'
  · exact .pure fun _ _ hst => ⟨rfl, hst.1⟩
  · exact absurd (hempty.mpr hids) hids'
  · exact absurd (hempty.mp hids') hids
  · refine .bind_rel (V := fun events events' =>
      events' = events.map fun e => (e.1.rename ρ, ρ.notification e.2))
      (I := Store.AgreeOn call.discordUserId ρ) ?_ fun events events' hevents => ?_
    · refine .transaction (fun s t hst => ?_) fun _ _ hst => hst.1
      obtain ⟨hagree, hs, ht⟩ := hst
      exact (RuleProcessor.process_agreeOn hagree hs ht hkeys).map
        fun _ _ hprogress => ⟨hprogress.events, hprogress.store⟩
    · subst hevents
      refine .bind (Q := fun _ _ => Store.AgreeOn call.discordUserId ρ) ?_ fun _ _ =>
        .pure fun _ _ hst => ⟨?_, hst⟩
      · refine .forM (S := fun e e' => e' = ((e.1.1.rename ρ, ρ.notification e.1.2), e.2)) ?_
          fun e e' he => he ▸ deliver_agreeOn e.1 _
        rw [List.zipIdx_map]
        exact List.forall₂_map_right_iff.mpr (List.forall₂_same.mpr fun e _ => rfl)
      · rw [List.map_map, List.map_map]
        rfl

private theorem undoCreate_agreeOn {call : AddCall} {created : CreatedRule}
    {error : ServiceError} :
    RelTriple (Store.AgreeOn call.discordUserId ρ) (undoCreate call created error)
      (undoCreate call (created.rename ρ) error)
      (Returns call.discordUserId ρ (OperationResult.rename ρ))
      (Store.AgreeOn call.discordUserId ρ) :=
  .bind_rel (transaction_agreeOn (f := id) fun _ _ hst => .ok (hst.delete created.rule.id).symm)
    fun _ _ _ => .throw fun _ _ hst => hst

/-- After its first transaction both runs of `add` have the created rule, under corresponding
keys. -/
private theorem create_agreeOn {call : AddCall} {draft : RuleDraft}
    (howner : draft.discordUserId = call.discordUserId) (hkey : ρ.rule keys.rule = keys'.rule) :
    RelTriple
      (fun s t => s.AgreeOn call.discordUserId ρ t ∧ keys.FreshFor s ∧ keys'.FreshFor t)
      (Stateful.transaction (WatchService.create env draft keys.rule))
      (Stateful.transaction (WatchService.create env draft keys'.rule))
      (fun created created' s t =>
        (created' = created.rename ρ ∧ created.rule.id = keys.rule) ∧
          s.AgreeOn call.discordUserId ρ t ∧ keys.Unused s ∧ keys'.Unused t)
      (Store.AgreeOn call.discordUserId ρ) := by
  refine .transaction (fun s t hst => ?_) fun _ _ hst => hst.1
  obtain ⟨hagree, hs, ht⟩ := hst
  refine (hagree.watchService_create howner hkey hs.rule ht.rule).attach.mono fun a b hab => ?_
  obtain ⟨⟨hsame, hagree'⟩, hok, hok'⟩ := hab
  obtain ⟨hrule, -, hid, huser, hstore⟩ := WatchService.create_ok hok
  obtain ⟨-, -, hid', huser', hstore'⟩ := WatchService.create_ok hok'
  refine ⟨⟨hsame, by rw [hrule]; rfl⟩, hagree', ?_, ?_⟩
  · rw [hstore]
    exact ⟨hs.observation, hs.notification, hs.injective⟩
  · rw [hstore']
    exact ⟨ht.observation, ht.notification, ht.injective⟩

theorem add_agreeOn {call : AddCall} (hkey : ρ.rule keys.rule = keys'.rule)
    (hkeys : keys.RenamedTo keys' ρ [keys.rule]) :
    RelTriple
      (fun s t => s.AgreeOn call.discordUserId ρ t ∧ keys.FreshFor s ∧ keys'.FreshFor t)
      (add env answers keys call) (add env answers keys' call)
      (Returns call.discordUserId ρ (OperationResult.rename ρ))
      (Store.AgreeOn call.discordUserId ρ) := by
  refine .attempt_bind (fun _ _ hst => hst.1) fun draft hdraft => ?_
  refine .bind_rel (create_agreeOn (WatchService.draft_ok hdraft).1 hkey)
    fun created created' hcreated => ?_
  obtain ⟨rfl, hid⟩ := hcreated
  have hcreated : keys.RenamedTo keys' ρ [created.rule.id] := by
    rw [hid]
    exact hkeys
  split
  · exact .bind_rel
      (@process_agreeOn ρ keys keys' env answers (processCall call created _) hcreated)
      fun _ _ _ => .pure fun _ _ hst => ⟨rfl, hst⟩
  · exact undoCreate_agreeOn.weaken (fun _ _ hst => hst.1) (fun _ _ _ _ h => h) fun _ _ h => h
  · exact undoCreate_agreeOn.weaken (fun _ _ hst => hst.1) (fun _ _ _ _ h => h) fun _ _ h => h

theorem list_agreeOn :
    RelTriple (Store.AgreeOn discordUserId ρ) (list discordUserId) (list discordUserId)
      (Returns discordUserId ρ (List.map (DisplayedRule.rename ρ)))
      (Store.AgreeOn discordUserId ρ) :=
  transaction_agreeOn fun _ _ hst =>
    hst.watchService_list.map fun _ _ hrules => ⟨hrules, hst⟩

/-- A result that is wrapped in both runs. -/
theorem wrap_agreeOn {α β : Type} {P : Store → Store → Prop} {x : Service α} {y : Service β}
    {f : α → β} {F : α → OperationResult} {G : β → OperationResult}
    (hxy : RelTriple P x y (Returns discordUserId ρ f) (Store.AgreeOn discordUserId ρ))
    (hFG : ∀ a, G (f a) = (F a).rename ρ) :
    RelTriple P (F <$> x) (G <$> y) (Returns discordUserId ρ (OperationResult.rename ρ))
      (Store.AgreeOn discordUserId ρ) :=
  .map (hxy.weaken (fun _ _ hst => hst) (fun a _ _ _ h => ⟨h.1 ▸ hFG a, h.2⟩) fun _ _ hst => hst)

theorem change_agreeOn {body body' : Store → Except ServiceError (Store × Bool)}
    (h : ∀ s t, s.AgreeOn discordUserId ρ t → ChangesAlike discordUserId ρ (body s) (body' t)) :
    RelTriple (Store.AgreeOn discordUserId ρ) (change body) (change body')
      (Returns discordUserId ρ id) (Store.AgreeOn discordUserId ρ) :=
  transaction_agreeOn fun s t hst => (h s t hst).map fun _ _ hchanged => hchanged

end Service

/-! ### A renaming of the new keys -/

private theorem map_eq_self {α : Type} {f : α → α} {l : List α} (h : ∀ a ∈ l, f a = a) :
    l.map f = l := by
  conv_rhs => rw [← List.map_id l]
  exact List.map_congr_left h

/-- The rows of a user that keep their keys. -/
private theorem rename_ownRows (hfixed : (s.ownRows discordUserId).Fixed ρ) :
    (s.ownRows discordUserId).rename ρ = s.ownRows discordUserId := by
  have hrules : (s.ownRows discordUserId).watchRules.map (WatchRule.rename ρ) =
      (s.ownRows discordUserId).watchRules := map_eq_self fun r hr => by
    simp only [WatchRule.rename, hfixed.rule r hr]
  have hobservations : (s.ownRows discordUserId).observations.map (PriceObservation.rename ρ) =
      (s.ownRows discordUserId).observations := map_eq_self fun o ho => by
    simp only [PriceObservation.rename, hfixed.observation o ho]
  have hnotifications : (s.ownRows discordUserId).notifications.map (Notification.rename ρ) =
      (s.ownRows discordUserId).notifications := map_eq_self fun n hn => by
    obtain ⟨-, rule, hrule⟩ := Store.mem_ownNotifications.mp hn
    have hid : rule.id = n.watchRuleId :=
      Table.key_of_get? (WatchRuleRepository.getOwned_eq_some.mp hrule).1
    have hkey : ρ.rule n.watchRuleId = n.watchRuleId :=
      hid ▸ hfixed.rule rule (Store.mem_ownRules.mpr (hid ▸ hrule))
    simp only [Notification.rename, hfixed.notification n hn, hkey]
  rw [Rows.rename, hrules, hobservations, hnotifications]

/-- A user with the same rows in two stores has them also under a renaming that fixes their keys. -/
theorem Store.AgreeOn.of_perm (h : (s.ownRows discordUserId).Perm (t.ownRows discordUserId))
    (hfixed : (s.ownRows discordUserId).Fixed ρ) : AgreeOn discordUserId ρ s t := by
  refine ⟨by rwa [rename_ownRows hfixed], fun r hr r' hr' => ?_⟩
  rw [hfixed.rule r hr, hfixed.rule r' hr']

/-- There is a renaming that fixes the keys of the user and maps the allocated ones. -/
theorem Keys.exists_renaming (hs : keys.Unused s) (ht : keys'.Unused t)
    (h : (s.ownRows discordUserId).Perm (t.ownRows discordUserId)) {σ : Equiv.Perm ℕ}
    (hσ : ∀ r ∈ (s.ownRows discordUserId).watchRules, σ r.id = r.id) (ruleIds : List ℕ) :
    ∃ ρ : Renaming, ρ.rule = σ ∧ (s.ownRows discordUserId).Fixed ρ ∧
      keys.RenamedTo keys' ρ ruleIds := by
  -- the keys of the old notifications are kept, those of the new ones are exchanged
  let Key := {id // id ∈ (s.ownRows discordUserId).notifications.map (·.id)} ⊕
    {id // id ∈ ruleIds}
  let f : Key → ℕ := Sum.elim (fun id => id.1) fun id => keys.notification id.1
  let g : Key → ℕ := Sum.elim (fun id => id.1) fun id => keys'.notification (σ id.1)
  have hids : ((s.ownRows discordUserId).notifications.map (·.id)).Perm
      ((t.ownRows discordUserId).notifications.map (·.id)) := h.notifications.map _
  have hf : Function.Injective f := by
    refine Subtype.val_injective.sumElim (hs.injective.comp Subtype.val_injective) ?_
    rintro ⟨id, hid⟩ r rfl
    obtain ⟨n, hn, heq⟩ := List.mem_map.mp hid
    exact hs.notification r.1 (heq ▸ Table.mem_keys_of_mem (List.mem_filter.mp hn).1)
  have hg : Function.Injective g := by
    refine Subtype.val_injective.sumElim
      (ht.injective.comp (σ.injective.comp Subtype.val_injective)) ?_
    rintro ⟨id, hid⟩ r rfl
    obtain ⟨n, hn, heq⟩ := List.mem_map.mp (hids.mem_iff.mp hid)
    exact ht.notification _ (heq ▸ Table.mem_keys_of_mem (List.mem_filter.mp hn).1)
  obtain ⟨τ, hτ⟩ := Equiv.Perm.exists_extending_pair f g hf hg
  refine ⟨⟨σ, Equiv.swap keys.observation keys'.observation, τ⟩, rfl, ⟨hσ, fun o ho => ?_,
    fun n hn => hτ (.inl ⟨n.id, List.mem_map_of_mem hn⟩)⟩,
    Equiv.swap_apply_left _ _, fun id hid => hτ (.inr ⟨id, hid⟩)⟩
  refine Equiv.swap_apply_of_ne_of_ne (fun heq => ?_) fun heq => ?_
  · exact hs.observation (heq ▸ Table.mem_keys_of_mem (List.mem_filter.mp ho).1)
  · have ho' := h.observations.mem_iff.mp ho
    exact ht.observation (heq ▸ Table.mem_keys_of_mem (List.mem_filter.mp ho').1)

namespace UserOperation

variable (env : Environment) (answers : Answers)

/-- The operation does the same for the user in both stores, up to the new keys. -/
def Alike (operation : UserOperation) (keys keys' : Keys) (s t : Store) : Prop :=
  ∃ ρ : Renaming, (s.ownRows operation.discordUserId).Fixed ρ ∧
    Stateful.Related
      (Service.Returns operation.discordUserId ρ (OperationResult.rename ρ))
      (Store.AgreeOn operation.discordUserId ρ)
      ((operation.perform env answers keys).outcome s)
      ((operation.perform env answers keys').outcome t)

/-- An operation that adds no rows needs no renaming. -/
private theorem alike_of_relTriple {operation : UserOperation}
    (h : (s.ownRows operation.discordUserId).Perm (t.ownRows operation.discordUserId))
    (hrel : RelTriple (Store.AgreeOn operation.discordUserId {})
      (operation.perform env answers keys) (operation.perform env answers keys')
      (Service.Returns operation.discordUserId {} (OperationResult.rename {}))
      (Store.AgreeOn operation.discordUserId {})) :
    operation.Alike env answers keys keys' s t :=
  have hfixed : (s.ownRows operation.discordUserId).Fixed {} :=
    ⟨fun _ _ => rfl, fun _ _ => rfl, fun _ _ => rfl⟩
  ⟨{}, hfixed, hrel.run s t (.of_perm h hfixed)⟩

/-- Every operation does the same for its user in stores that agree on the rows of this user. -/
theorem perform_agreeOn (operation : UserOperation)
    (h : (s.ownRows operation.discordUserId).Perm (t.ownRows operation.discordUserId))
    (hs : keys.FreshFor s) (ht : keys'.FreshFor t) :
    operation.Alike env answers keys keys' s t := by
  cases operation with
  | authenticate discordUserId rawToken =>
    exact alike_of_relTriple env answers h
      (Service.wrap_agreeOn Service.authenticate_agreeOn fun _ => rfl)
  | logout discordUserId =>
    exact alike_of_relTriple env answers h
      (Service.wrap_agreeOn Service.logout_agreeOn fun _ => rfl)
  | list discordUserId =>
    exact alike_of_relTriple env answers h
      (Service.wrap_agreeOn Service.list_agreeOn fun _ => rfl)
  | delete discordUserId displayId =>
    exact alike_of_relTriple env answers h (Service.wrap_agreeOn (Service.change_agreeOn
      fun _ _ hst => hst.watchService_delete displayId) fun _ => rfl)
  | setEnabled discordUserId displayId enabled =>
    exact alike_of_relTriple env answers h (Service.wrap_agreeOn (Service.change_agreeOn
      fun _ _ hst => hst.watchService_setEnabled displayId enabled) fun _ => rfl)
  | deleteByDatabaseId discordUserId databaseId =>
    exact alike_of_relTriple env answers h (Service.wrap_agreeOn (Service.change_agreeOn
      fun _ _ hst => hst.watchService_deleteByDatabaseId databaseId) fun _ => rfl)
  | setEnabledByDatabaseId discordUserId databaseId enabled =>
    exact alike_of_relTriple env answers h (Service.wrap_agreeOn (Service.change_agreeOn
      fun _ _ hst => hst.watchService_setEnabledByDatabaseId databaseId enabled) fun _ => rfl)
  | process call =>
    obtain ⟨ρ, hrule, hfixed, hkeys⟩ := Keys.exists_renaming hs.toUnused ht.toUnused h
      (σ := 1) (fun _ _ => rfl) call.ruleIds
    have hcall : call.rename ρ = call := by
      simp [ProcessCall.rename, hrule]
    have hprocess := @Service.process_agreeOn ρ keys keys' env answers call hkeys
    rw [hcall] at hprocess
    exact ⟨ρ, hfixed, (Service.wrap_agreeOn hprocess fun _ => rfl).run s t
      ⟨.of_perm h hfixed, hs.toUnused, ht.toUnused⟩⟩
  | add call =>
    have hold : ∀ r ∈ (s.ownRows call.discordUserId).watchRules,
        Equiv.swap keys.rule keys'.rule r.id = r.id := fun r hr => by
      have hr' := h.watchRules.mem_iff.mp hr
      exact Equiv.swap_apply_of_ne_of_ne
        (hs.rule _ (Table.mem_keys_of_mem (List.mem_filter.mp hr).1)).ne
        (ht.rule _ (Table.mem_keys_of_mem (List.mem_filter.mp hr').1)).ne
    obtain ⟨ρ, hrule, hfixed, hkeys⟩ :=
      Keys.exists_renaming hs.toUnused ht.toUnused h hold [keys.rule]
    have hkey : ρ.rule keys.rule = keys'.rule := by rw [hrule, Equiv.swap_apply_left]
    exact ⟨ρ, hfixed, (Service.add_agreeOn hkey hkeys).run s t ⟨.of_perm h hfixed, hs, ht⟩⟩

/-- Users are isolated. An operation of a user leaves the rows of all other users alone; and in two
stores with the same rows of the user it has the same result and leaves the same rows of the user,
up to a renaming that fixes the keys of the rows that were there before. -/
theorem isolated (operation : UserOperation) :
    (∀ keys s,
      ((operation.perform env answers keys).outcome s).2.otherRows operation.discordUserId =
        s.otherRows operation.discordUserId) ∧
    ∀ (keys keys' : Keys) (s t : Store),
      (s.ownRows operation.discordUserId).Perm (t.ownRows operation.discordUserId) →
      keys.FreshFor s → keys'.FreshFor t →
      ∃ ρ : Renaming, (s.ownRows operation.discordUserId).Fixed ρ ∧
        Except.Rel (fun a b => b = OperationResult.rename ρ a)
          ((operation.perform env answers keys).outcome s).1
          ((operation.perform env answers keys').outcome t).1 ∧
        ((((operation.perform env answers keys).outcome s).2.ownRows
          operation.discordUserId).rename ρ).Perm
          (((operation.perform env answers keys').outcome t).2.ownRows
            operation.discordUserId) := by
  refine ⟨fun keys s => operation.perform_otherRows env answers keys s,
    fun keys keys' s t h hs ht => ?_⟩
  obtain ⟨ρ, hfixed, hrelated⟩ := perform_agreeOn env answers operation h hs ht
  refine ⟨ρ, hfixed, ?_⟩
  cases hfirst : (operation.perform env answers keys).outcome s with | mk result s' =>
  cases hsecond : (operation.perform env answers keys').outcome t with | mk result' t' =>
  rw [hfirst, hsecond] at hrelated
  cases hrelated with
  | ok h => exact ⟨.ok h.1, h.2.rows⟩
  | error e h => exact ⟨.error e, h.rows⟩

/-- A database with user 1 only. -/
def alone : Store := UserRepository.saveValidToken .empty 1 "token" "key"

/-- A database with user 1 and a watch of user 2. -/
def shared : Store :=
  (UserRepository.saveValidToken alone 2 "other" "key2").insertRule
    ({ RuleDraft.elytra with discordUserId := 2 }.row 7) (by decide) (by decide)

/-- User 1 adds a watch in both databases, under the key 1 in the one and 8 in the other. -/
theorem isolated_add : ∃ ρ : Renaming,
    (((add .elytra).perform .plain {} ⟨1, 1, id⟩).outcome alone).1.toBool = true ∧
      Except.Rel (fun a b => b = OperationResult.rename ρ a)
        (((add .elytra).perform .plain {} ⟨1, 1, id⟩).outcome alone).1
        (((add .elytra).perform .plain {} ⟨8, 4, fun id => id + 2⟩).outcome shared).1 := by
  have hrows : alone.ownRows 1 = shared.ownRows 1 := by decide +kernel
  have hadded : (((add .elytra).perform .plain {} ⟨1, 1, id⟩).outcome alone).1.toBool = true := by
    decide +kernel
  obtain ⟨ρ, -, hresults, -⟩ := (isolated .plain {} (add .elytra)).2 ⟨1, 1, id⟩
    ⟨8, 4, fun id => id + 2⟩ alone shared (hrows ▸ Rows.Perm.refl _)
    ⟨⟨by decide, fun _ => List.not_mem_nil, fun _ _ h => h⟩, by decide⟩
    ⟨⟨by decide, fun _ => List.not_mem_nil, fun _ _ h => Nat.add_right_cancel h⟩, by decide⟩
  exact ⟨ρ, hadded, hresults⟩

end UserOperation

end DonutMonitor
