import DonutMonitor.Foundations.Table
import DonutMonitor.Persistence.Models
import Mathlib.Tactic.Simps.Basic

/-!
# The database with its foreign keys

`Store` holds the four tables together with the foreign keys between them, so that a store in which
a row refers to a missing one cannot be formed. Its operations are the statements that the
repositories issue; a deletion cascades as the models declare.

## Main definitions

* `Store` — the tables and their foreign keys.
* `Store.deleteRules`, `Store.deleteUser` — deletions with `ondelete="CASCADE"`.
* `Store.view` — a rule together with the alerts its notifications report.

## Main results

* `Store.view_insertRule`, `Store.view_updateRules`, `Store.view_deleteRules`,
  `Store.view_insertNotification` — what each statement does to the view of a rule; the other
  statements leave it as it is.
-/

namespace DonutMonitor

/-- The tables of the database. -/
structure Store where
  users : Table User.discordUserId
  watchRules : Table WatchRule.id
  observations : Table PriceObservation.id
  notifications : Table Notification.id
  /-- `watch_rules.discord_user_id` refers to `users`. -/
  watchRules_user : ∀ r ∈ watchRules.rows, r.discordUserId ∈ users.keys
  /-- `price_observations.discord_user_id` refers to `users`. -/
  observations_user : ∀ o ∈ observations.rows, o.discordUserId ∈ users.keys
  /-- `notifications.watch_rule_id` refers to `watch_rules`. -/
  notifications_rule : ∀ n ∈ notifications.rows, n.watchRuleId ∈ watchRules.keys

namespace Store

/-- The database after the migrations, without rows. -/
@[simps users watchRules observations notifications]
def empty : Store where
  users := .empty
  watchRules := .empty
  observations := .empty
  notifications := .empty
  watchRules_user := by simp
  observations_user := by simp
  notifications_rule := by simp

variable (s : Store)

/-! ### Users -/

/-- Insert a row into `users`. -/
@[simps users watchRules observations notifications]
def insertUser (u : User) (h : u.discordUserId ∉ s.users.keys) : Store where
  users := s.users.insert u h
  watchRules := s.watchRules
  observations := s.observations
  notifications := s.notifications
  watchRules_user r hr := by simp [s.watchRules_user r hr]
  observations_user o ho := by simp [s.observations_user o ho]
  notifications_rule := s.notifications_rule

/-- Update the rows of `users` satisfying `p`. -/
@[simps users watchRules observations notifications]
def updateUsers (p : User → Bool) (f : User → User)
    (hf : ∀ u, (f u).discordUserId = u.discordUserId) : Store where
  users := s.users.update p f hf
  watchRules := s.watchRules
  observations := s.observations
  notifications := s.notifications
  watchRules_user r hr := by simp [s.watchRules_user r hr]
  observations_user o ho := by simp [s.observations_user o ho]
  notifications_rule := s.notifications_rule

/-! ### Rules -/

/-- Insert a row into `watch_rules`. -/
@[simps users watchRules observations notifications]
def insertRule (r : WatchRule) (hid : r.id ∉ s.watchRules.keys)
    (huser : r.discordUserId ∈ s.users.keys) : Store where
  users := s.users
  watchRules := s.watchRules.insert r hid
  observations := s.observations
  notifications := s.notifications
  watchRules_user r' hr' := by
    rcases List.mem_append.mp hr' with hr' | hr'
    · exact s.watchRules_user r' hr'
    · obtain rfl := List.mem_singleton.mp hr'
      exact huser
  observations_user := s.observations_user
  notifications_rule n hn := by simp [s.notifications_rule n hn]

/-- Update the rows of `watch_rules` satisfying `p`. -/
@[simps users watchRules observations notifications]
def updateRules (p : WatchRule → Bool) (f : WatchRule → WatchRule)
    (hid : ∀ r, (f r).id = r.id) (huser : ∀ r, (f r).discordUserId = r.discordUserId) :
    Store where
  users := s.users
  watchRules := s.watchRules.update p f hid
  observations := s.observations
  notifications := s.notifications
  watchRules_user r hr := by
    obtain ⟨r', hr', rfl⟩ := List.mem_map.mp hr
    split_ifs
    · exact huser r' ▸ s.watchRules_user r' hr'
    · exact s.watchRules_user r' hr'
  observations_user := s.observations_user
  notifications_rule n hn := by simp [s.notifications_rule n hn]

/-- Delete the rows of `watch_rules` satisfying `p`, and with each its notifications. -/
@[simps users watchRules observations notifications]
def deleteRules (p : WatchRule → Bool) : Store where
  users := s.users
  watchRules := s.watchRules.delete p
  observations := s.observations
  notifications := s.notifications.delete fun n => (s.watchRules.get? n.watchRuleId).any p
  watchRules_user r hr := s.watchRules_user r (List.mem_of_mem_filter hr)
  observations_user := s.observations_user
  notifications_rule n hn := by
    obtain ⟨hn, hkept⟩ := List.mem_filter.mp hn
    obtain ⟨r, hr⟩ := Table.mem_keys_iff.mp (s.notifications_rule n hn)
    simp only [hr, Option.any_some] at hkept
    exact Table.mem_keys_iff.mpr ⟨r, by simpa [Table.get?_delete, hr] using hkept⟩

/-- Delete a row of `users`, and with it the rules, the notifications and the observations. -/
@[simps users watchRules observations notifications]
def deleteUser (discordUserId : ℤ) : Store where
  users := s.users.delete (·.discordUserId = discordUserId)
  watchRules := (s.deleteRules (·.discordUserId = discordUserId)).watchRules
  observations := s.observations.delete (·.discordUserId = discordUserId)
  notifications := (s.deleteRules (·.discordUserId = discordUserId)).notifications
  watchRules_user r hr := by
    obtain ⟨hr, hne⟩ := List.mem_filter.mp hr
    obtain ⟨u, hu, hk⟩ := Table.mem_keys.mp (s.watchRules_user r hr)
    exact Table.mem_keys.mpr ⟨u, List.mem_filter.mpr ⟨hu, by simpa [hk] using hne⟩, hk⟩
  observations_user o ho := by
    obtain ⟨ho, hne⟩ := List.mem_filter.mp ho
    obtain ⟨u, hu, hk⟩ := Table.mem_keys.mp (s.observations_user o ho)
    exact Table.mem_keys.mpr ⟨u, List.mem_filter.mpr ⟨hu, by simpa [hk] using hne⟩, hk⟩
  notifications_rule := (s.deleteRules (·.discordUserId = discordUserId)).notifications_rule

/-! ### Observations and notifications -/

/-- Insert a row into `price_observations`. -/
@[simps users watchRules observations notifications]
def insertObservation (o : PriceObservation) (hid : o.id ∉ s.observations.keys)
    (huser : o.discordUserId ∈ s.users.keys) : Store where
  users := s.users
  watchRules := s.watchRules
  observations := s.observations.insert o hid
  notifications := s.notifications
  watchRules_user := s.watchRules_user
  observations_user o' ho' := by
    rcases List.mem_append.mp ho' with ho' | ho'
    · exact s.observations_user o' ho'
    · obtain rfl := List.mem_singleton.mp ho'
      exact huser
  notifications_rule := s.notifications_rule

/-- Update the rows of `price_observations` satisfying `p`. -/
@[simps users watchRules observations notifications]
def updateObservations (p : PriceObservation → Bool) (f : PriceObservation → PriceObservation)
    (hid : ∀ o, (f o).id = o.id) (huser : ∀ o, (f o).discordUserId = o.discordUserId) : Store where
  users := s.users
  watchRules := s.watchRules
  observations := s.observations.update p f hid
  notifications := s.notifications
  watchRules_user := s.watchRules_user
  observations_user o ho := by
    obtain ⟨o', ho', rfl⟩ := List.mem_map.mp ho
    split_ifs
    · exact huser o' ▸ s.observations_user o' ho'
    · exact s.observations_user o' ho'
  notifications_rule := s.notifications_rule

/-- Delete the rows of `price_observations` satisfying `p`. -/
@[simps users watchRules observations notifications]
def deleteObservations (p : PriceObservation → Bool) : Store where
  users := s.users
  watchRules := s.watchRules
  observations := s.observations.delete p
  notifications := s.notifications
  watchRules_user := s.watchRules_user
  observations_user o ho := s.observations_user o (List.mem_of_mem_filter ho)
  notifications_rule := s.notifications_rule

/-- Insert a row into `notifications`. -/
@[simps users watchRules observations notifications]
def insertNotification (n : Notification) (hid : n.id ∉ s.notifications.keys)
    (hrule : n.watchRuleId ∈ s.watchRules.keys) : Store where
  users := s.users
  watchRules := s.watchRules
  observations := s.observations
  notifications := s.notifications.insert n hid
  watchRules_user := s.watchRules_user
  observations_user := s.observations_user
  notifications_rule n' hn' := by
    rcases List.mem_append.mp hn' with hn' | hn'
    · exact s.notifications_rule n' hn'
    · obtain rfl := List.mem_singleton.mp hn'
      exact hrule

/-- Update the rows of `notifications` satisfying `p`. -/
@[simps users watchRules observations notifications]
def updateNotifications (p : Notification → Bool) (f : Notification → Notification)
    (hid : ∀ n, (f n).id = n.id) (hrule : ∀ n, (f n).watchRuleId = n.watchRuleId) : Store where
  users := s.users
  watchRules := s.watchRules
  observations := s.observations
  notifications := s.notifications.update p f hid
  watchRules_user := s.watchRules_user
  observations_user := s.observations_user
  notifications_rule n hn := by
    obtain ⟨n', hn', rfl⟩ := List.mem_map.mp hn
    split_ifs
    · exact hrule n' ▸ s.notifications_rule n' hn'
    · exact s.notifications_rule n' hn'

/-! ### The view of a rule -/

/-- The prices and previous prices of the notifications of a rule, in the order of creation. -/
def alerts (ruleId : ℕ) : List (ℚ × Option ℚ) :=
  (s.notifications.rows.filter (·.watchRuleId = ruleId)).map fun n => (n.price, n.previousPrice)

end Store

/-- A rule with the alerts its notifications report. -/
structure RuleView where
  rule : WatchRule
  alerts : List (ℚ × Option ℚ)
  deriving DecidableEq

namespace Store

/-- The rule with the given id and its alerts. -/
def view (s : Store) (ruleId : ℕ) : Option RuleView :=
  (s.watchRules.get? ruleId).map fun rule => ⟨rule, s.alerts ruleId⟩

theorem alerts_eq_nil {s : Store} {ruleId : ℕ} (h : ruleId ∉ s.watchRules.keys) :
    s.alerts ruleId = [] := by
  rw [alerts, List.filter_eq_nil_iff.mpr, List.map_nil]
  intro n hn heq
  exact h (of_decide_eq_true heq ▸ s.notifications_rule n hn)

theorem view_eq_some {s : Store} {ruleId : ℕ} {v : RuleView} :
    s.view ruleId = some v ↔
      s.watchRules.get? ruleId = some v.rule ∧ s.alerts ruleId = v.alerts := by
  simp only [view, Option.map_eq_some_iff]
  constructor
  · rintro ⟨rule, hrule, rfl⟩
    exact ⟨hrule, rfl⟩
  · rintro ⟨hrule, halerts⟩
    exact ⟨v.rule, hrule, by rw [halerts]⟩

theorem id_of_view {s : Store} {ruleId : ℕ} {v : RuleView} (h : s.view ruleId = some v) :
    v.rule.id = ruleId :=
  Table.key_of_get? (view_eq_some.mp h).1

theorem map_rule_view (s : Store) (ruleId : ℕ) :
    (s.view ruleId).map RuleView.rule = s.watchRules.get? ruleId := by
  simp [view, Function.comp_def]

variable (s : Store) (ruleId : ℕ)

@[simp] theorem view_empty : empty.view ruleId = none := rfl

@[simp] theorem view_insertUser (u : User) (h : u.discordUserId ∉ s.users.keys) :
    (s.insertUser u h).view ruleId = s.view ruleId := rfl

@[simp] theorem view_updateUsers (p : User → Bool) (f : User → User)
    (hf : ∀ u, (f u).discordUserId = u.discordUserId) :
    (s.updateUsers p f hf).view ruleId = s.view ruleId := rfl

@[simp] theorem view_insertObservation (o : PriceObservation) (hid : o.id ∉ s.observations.keys)
    (huser : o.discordUserId ∈ s.users.keys) :
    (s.insertObservation o hid huser).view ruleId = s.view ruleId := rfl

@[simp] theorem view_deleteObservations (p : PriceObservation → Bool) :
    (s.deleteObservations p).view ruleId = s.view ruleId := rfl

theorem view_insertRule (r : WatchRule) (hid : r.id ∉ s.watchRules.keys)
    (huser : r.discordUserId ∈ s.users.keys) :
    (s.insertRule r hid huser).view ruleId =
      if ruleId = r.id then some ⟨r, []⟩ else s.view ruleId := by
  have halerts : (s.insertRule r hid huser).alerts ruleId = s.alerts ruleId := rfl
  rw [view, insertRule_watchRules, Table.get?_insert, halerts]
  split_ifs with h
  · rw [Option.map_some, alerts_eq_nil (h ▸ hid)]
  · rfl

theorem view_updateRules (p : WatchRule → Bool) (f : WatchRule → WatchRule)
    (hid : ∀ r, (f r).id = r.id) (huser : ∀ r, (f r).discordUserId = r.discordUserId) :
    (s.updateRules p f hid huser).view ruleId =
      (s.view ruleId).map fun v => if p v.rule then ⟨f v.rule, v.alerts⟩ else v := by
  have halerts : (s.updateRules p f hid huser).alerts ruleId = s.alerts ruleId := rfl
  rw [view, updateRules_watchRules, Table.get?_update, halerts, view, Option.map_map,
    Option.map_map]
  congr 1
  funext r
  simp only [Function.comp_apply]
  split_ifs <;> rfl

theorem view_deleteRules (p : WatchRule → Bool) :
    (s.deleteRules p).view ruleId = (s.view ruleId).filter fun v => !p v.rule := by
  cases hr : s.watchRules.get? ruleId with
  | none => simp [view, Table.get?_delete, hr]
  | some r =>
    by_cases hp : p r
    · simp [view, Table.get?_delete, hr, hp, Option.filter_some]
    · have halerts : (s.deleteRules p).alerts ruleId = s.alerts ruleId := by
        simp only [alerts, deleteRules_notifications, Table.rows_delete, List.filter_filter]
        congr 1
        refine List.filter_congr fun n _ => ?_
        by_cases hn : n.watchRuleId = ruleId <;> simp [hn, hr, hp]
      simp [view, Table.get?_delete, hr, hp, halerts, Option.filter_some]

theorem view_deleteUser (discordUserId : ℤ) :
    (s.deleteUser discordUserId).view ruleId =
      (s.view ruleId).filter fun v => !decide (v.rule.discordUserId = discordUserId) :=
  s.view_deleteRules ruleId _

theorem view_insertNotification (n : Notification) (hid : n.id ∉ s.notifications.keys)
    (hrule : n.watchRuleId ∈ s.watchRules.keys) :
    (s.insertNotification n hid hrule).view ruleId =
      (s.view ruleId).map fun v =>
        if n.watchRuleId = ruleId then ⟨v.rule, v.alerts ++ [(n.price, n.previousPrice)]⟩
        else v := by
  have halerts : (s.insertNotification n hid hrule).alerts ruleId = s.alerts ruleId ++
      if n.watchRuleId = ruleId then [(n.price, n.previousPrice)] else [] := by
    simp only [alerts, insertNotification_notifications, Table.rows_insert, List.filter_append,
      List.map_append]
    split_ifs with h <;> simp [h]
  rw [view, insertNotification_watchRules, halerts, view, Option.map_map]
  congr 1
  funext r
  simp only [Function.comp_apply]
  split_ifs <;> simp

theorem view_updateNotifications (p : Notification → Bool) (f : Notification → Notification)
    (hid : ∀ n, (f n).id = n.id) (hrule : ∀ n, (f n).watchRuleId = n.watchRuleId)
    (hprice : ∀ n, (f n).price = n.price) (hprevious : ∀ n, (f n).previousPrice = n.previousPrice) :
    (s.updateNotifications p f hid hrule).view ruleId = s.view ruleId := by
  have halerts : (s.updateNotifications p f hid hrule).alerts ruleId = s.alerts ruleId := by
    simp only [alerts, updateNotifications_notifications, Table.rows_update, List.filter_map,
      List.map_map, Function.comp_def]
    have hrule' : ∀ n, (if p n then f n else n).watchRuleId = n.watchRuleId := fun n => by
      split_ifs <;> simp [hrule]
    simp only [hrule']
    refine List.map_congr_left fun n _ => ?_
    split_ifs <;> simp [hprice, hprevious]
  rw [view, updateNotifications_watchRules, halerts, view]

end Store

end DonutMonitor
