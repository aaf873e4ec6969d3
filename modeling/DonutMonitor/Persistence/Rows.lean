import DonutMonitor.Persistence.Repositories

/-!
# The rows of some users

The rows of the tables belong to users: a rule and an observation to the user in their column, a
notification to the owner of its rule. `Store.rowsOf` collects the rows of the users that satisfy a
condition, in particular those of one user and those of all the others. A statement acts on them as
it acts on the tables.

## Main definitions

* `Rows`, `Store.rowsOf` — rows of the four tables, and those of some users.

## Main results

* `Store.rowsOf_updateUsers`, `Store.rowsOf_insertRule`, … — the statements on the rows of some
  users.
* `WatchRuleRepository.listForUser_eq` — the rules that a user lists are in its rows.
-/

namespace DonutMonitor

/-- Rows of the four tables. -/
structure Rows where
  users : List User
  watchRules : List WatchRule
  observations : List PriceObservation
  notifications : List Notification
  deriving DecidableEq

namespace Store

/-- The notification is about a rule whose owner satisfies `p`. -/
def notifies (s : Store) (p : ℤ → Bool) (n : Notification) : Bool :=
  (s.watchRules.get? n.watchRuleId).any fun rule => p rule.discordUserId

theorem notifies_eq_true {s : Store} {p : ℤ → Bool} {n : Notification} :
    s.notifies p n = true ↔
      ∃ rule, s.watchRules.get? n.watchRuleId = some rule ∧ p rule.discordUserId = true := by
  rw [notifies]
  cases s.watchRules.get? n.watchRuleId <;> simp

/-- The rows of the users that satisfy `p`. -/
@[simps]
def rowsOf (s : Store) (p : ℤ → Bool) : Rows where
  users := s.users.rows.filter fun user => p user.discordUserId
  watchRules := s.watchRules.rows.filter fun rule => p rule.discordUserId
  observations := s.observations.rows.filter fun o => p o.discordUserId
  notifications := s.notifications.rows.filter (s.notifies p)

/-- The rows of a user. -/
abbrev ownRows (s : Store) (discordUserId : ℤ) : Rows := s.rowsOf (· = discordUserId)

/-- The rows of all other users. -/
abbrev otherRows (s : Store) (discordUserId : ℤ) : Rows := s.rowsOf (· ≠ discordUserId)

variable (s : Store) (p : ℤ → Bool)

private theorem filter_map_key {ρ : Type*} (rows : List ρ) (owner : ρ → ℤ) (q : ρ → Bool)
    (f : ρ → ρ) (hf : ∀ r, owner (f r) = owner r) :
    ((rows.map fun r => if q r then f r else r).filter fun r => p (owner r)) =
      (rows.filter fun r => p (owner r)).map fun r => if q r then f r else r := by
  rw [List.filter_map]
  congr 1
  refine List.filter_congr fun r _ => ?_
  simp only [Function.comp_apply]
  split_ifs
  · rw [hf]
  · rfl

theorem rowsOf_updateUsers (q : User → Bool) (f : User → User)
    (hf : ∀ u, (f u).discordUserId = u.discordUserId) :
    (s.updateUsers q f hf).rowsOf p = { s.rowsOf p with
      users := (s.rowsOf p).users.map fun u => if q u then f u else u } := by
  have husers := filter_map_key p s.users.rows User.discordUserId q f hf
  simp only [rowsOf, updateUsers_users, Table.rows_update, husers]
  rfl

theorem rowsOf_insertUser (u : User) (h : u.discordUserId ∉ s.users.keys) :
    (s.insertUser u h).rowsOf p = { s.rowsOf p with
      users := (s.rowsOf p).users ++ [u].filter fun u => p u.discordUserId } := by
  simp only [rowsOf, insertUser_users, Table.rows_insert, List.filter_append]
  rfl

theorem rowsOf_insertRule (r : WatchRule) (hid : r.id ∉ s.watchRules.keys)
    (huser : r.discordUserId ∈ s.users.keys) :
    (s.insertRule r hid huser).rowsOf p = { s.rowsOf p with
      watchRules := (s.rowsOf p).watchRules ++ [r].filter fun r => p r.discordUserId } := by
  have hnotifies : ∀ n ∈ s.notifications.rows,
      (s.insertRule r hid huser).notifies p n = s.notifies p n := by
    intro n hn
    have hne : n.watchRuleId ≠ r.id := fun heq => hid (heq ▸ s.notifications_rule n hn)
    rw [notifies, insertRule_watchRules, Table.get?_insert, if_neg hne, notifies]
  simp only [rowsOf, insertRule_watchRules, Table.rows_insert, List.filter_append,
    insertRule_notifications, List.filter_congr hnotifies]
  rfl

theorem rowsOf_updateRules (q : WatchRule → Bool) (f : WatchRule → WatchRule)
    (hid : ∀ r, (f r).id = r.id) (huser : ∀ r, (f r).discordUserId = r.discordUserId) :
    (s.updateRules q f hid huser).rowsOf p = { s.rowsOf p with
      watchRules := (s.rowsOf p).watchRules.map fun r => if q r then f r else r } := by
  have hnotifies : (s.updateRules q f hid huser).notifies p = s.notifies p := by
    funext n
    rw [notifies, updateRules_watchRules, Table.get?_update, Option.any_map, notifies]
    congr 1
    funext r
    split_ifs
    · rw [huser]
    · rfl
  have hrules := filter_map_key p s.watchRules.rows WatchRule.discordUserId q f huser
  simp only [rowsOf, updateRules_watchRules, Table.rows_update, hrules, hnotifies,
    updateRules_notifications]
  rfl

theorem rowsOf_deleteRules (q : WatchRule → Bool) :
    (s.deleteRules q).rowsOf p = { s.rowsOf p with
      watchRules := (s.rowsOf p).watchRules.filter fun r => !q r
      notifications := (s.rowsOf p).notifications.filter fun n =>
        !(s.watchRules.get? n.watchRuleId).any q } := by
  have hnotifies : ∀ n : Notification, ((s.deleteRules q).notifies p n &&
      !(s.watchRules.get? n.watchRuleId).any q) =
        (!(s.watchRules.get? n.watchRuleId).any q && s.notifies p n) := by
    intro n
    rw [notifies, deleteRules_watchRules, Table.get?_delete, notifies]
    cases s.watchRules.get? n.watchRuleId with
    | none => rfl
    | some r => by_cases hq : q r <;> simp [hq, Option.filter_some]
  simp only [rowsOf, deleteRules_watchRules, Table.rows_delete, deleteRules_notifications,
    List.filter_filter, hnotifies]
  congr 1
  refine List.filter_congr fun r _ => Bool.and_comm _ _

theorem rowsOf_insertObservation (o : PriceObservation) (hid : o.id ∉ s.observations.keys)
    (huser : o.discordUserId ∈ s.users.keys) :
    (s.insertObservation o hid huser).rowsOf p = { s.rowsOf p with
      observations := (s.rowsOf p).observations ++ [o].filter fun o => p o.discordUserId } := by
  simp only [rowsOf, insertObservation_observations, Table.rows_insert, List.filter_append]
  rfl

theorem rowsOf_insertNotification (n : Notification) (hid : n.id ∉ s.notifications.keys)
    (hrule : n.watchRuleId ∈ s.watchRules.keys) :
    (s.insertNotification n hid hrule).rowsOf p = { s.rowsOf p with
      notifications := (s.rowsOf p).notifications ++ [n].filter (s.notifies p) } := by
  have hnotifies : (s.insertNotification n hid hrule).notifies p = s.notifies p := rfl
  simp only [rowsOf, insertNotification_notifications, Table.rows_insert, List.filter_append,
    hnotifies]
  rfl

theorem rowsOf_updateNotifications (q : Notification → Bool) (f : Notification → Notification)
    (hid : ∀ n, (f n).id = n.id) (hrule : ∀ n, (f n).watchRuleId = n.watchRuleId) :
    (s.updateNotifications q f hid hrule).rowsOf p = { s.rowsOf p with
      notifications := (s.rowsOf p).notifications.map fun n => if q n then f n else n } := by
  have hnotifies : (s.updateNotifications q f hid hrule).notifies p = s.notifies p := rfl
  simp only [rowsOf, updateNotifications_notifications, Table.rows_update, hnotifies,
    List.filter_map]
  congr 2
  refine List.filter_congr fun n _ => ?_
  simp only [Function.comp_apply]
  split_ifs
  · rw [notifies, hrule, notifies]
  · rfl

/-! ### The rows of the others -/

variable {s} {discordUserId : ℤ}

private theorem map_if_eq_self {ρ : Type*} {rows : List ρ} {q : ρ → Bool} (f : ρ → ρ)
    (h : ∀ r ∈ rows, q r = false) : (rows.map fun r => if q r then f r else r) = rows := by
  conv_rhs => rw [← List.map_id rows]
  exact List.map_congr_left fun r hr => by simp [h r hr]

theorem otherRows_updateUsers {q : User → Bool} {f : User → User}
    {hf : ∀ u, (f u).discordUserId = u.discordUserId}
    (hq : ∀ user, q user = true → user.discordUserId = discordUserId) :
    (s.updateUsers q f hf).otherRows discordUserId = s.otherRows discordUserId := by
  rw [otherRows, rowsOf_updateUsers, map_if_eq_self]
  intro user huser
  have hother : user.discordUserId ≠ discordUserId := by simpa using (List.mem_filter.mp huser).2
  exact Bool.eq_false_iff.mpr fun h => hother (hq user h)

theorem otherRows_insertUser {u : User} {h : u.discordUserId ∉ s.users.keys} :
    (s.insertUser u h).otherRows u.discordUserId = s.otherRows u.discordUserId := by
  rw [otherRows, rowsOf_insertUser, List.filter_cons_of_neg (by simp), List.filter_nil,
    List.append_nil]

theorem otherRows_insertRule {r : WatchRule} {hid : r.id ∉ s.watchRules.keys}
    {huser : r.discordUserId ∈ s.users.keys} :
    (s.insertRule r hid huser).otherRows r.discordUserId = s.otherRows r.discordUserId := by
  rw [otherRows, rowsOf_insertRule, List.filter_cons_of_neg (by simp), List.filter_nil,
    List.append_nil]

theorem otherRows_updateRules {q : WatchRule → Bool} {f : WatchRule → WatchRule}
    {hid : ∀ r, (f r).id = r.id} {huser : ∀ r, (f r).discordUserId = r.discordUserId}
    (hq : ∀ rule ∈ s.watchRules.rows, q rule = true → rule.discordUserId = discordUserId) :
    (s.updateRules q f hid huser).otherRows discordUserId = s.otherRows discordUserId := by
  rw [otherRows, rowsOf_updateRules, map_if_eq_self]
  intro rule hrule
  obtain ⟨hmem, hother⟩ := List.mem_filter.mp hrule
  exact Bool.eq_false_iff.mpr fun h => of_decide_eq_true hother (hq rule hmem h)

theorem otherRows_deleteRules {q : WatchRule → Bool}
    (hq : ∀ rule, q rule = true → rule.discordUserId = discordUserId) :
    (s.deleteRules q).otherRows discordUserId = s.otherRows discordUserId := by
  have hkept : ∀ rule : WatchRule, rule.discordUserId ≠ discordUserId → q rule = false :=
    fun rule hother => Bool.eq_false_iff.mpr fun h => hother (hq rule h)
  have hrules : ((s.otherRows discordUserId).watchRules.filter fun r => !q r) =
      (s.otherRows discordUserId).watchRules := by
    refine List.filter_eq_self.mpr fun rule hrule => ?_
    simp [hkept rule (by simpa using (List.mem_filter.mp hrule).2)]
  have hnotifications : ((s.otherRows discordUserId).notifications.filter fun n =>
      !(s.watchRules.get? n.watchRuleId).any q) = (s.otherRows discordUserId).notifications := by
    refine List.filter_eq_self.mpr fun n hn => ?_
    obtain ⟨rule, hrule, hother⟩ := notifies_eq_true.mp (List.mem_filter.mp hn).2
    simp [hrule, hkept rule (by simpa using hother)]
  rw [otherRows, rowsOf_deleteRules, hrules, hnotifications]

theorem otherRows_deleteUser :
    (s.deleteUser discordUserId).otherRows discordUserId = s.otherRows discordUserId := by
  have hrules := otherRows_deleteRules (s := s) (q := (·.discordUserId = discordUserId))
    fun rule h => of_decide_eq_true h
  simp only [otherRows, rowsOf, Rows.mk.injEq] at hrules ⊢
  refine ⟨?_, hrules.2.1, ?_, hrules.2.2.2⟩
  · rw [deleteUser_users, Table.rows_delete, List.filter_filter]
    exact List.filter_congr fun user _ => by simp
  · rw [deleteUser_observations, Table.rows_delete, List.filter_filter]
    exact List.filter_congr fun o _ => by simp

theorem otherRows_insertObservation {o : PriceObservation} {hid : o.id ∉ s.observations.keys}
    {huser : o.discordUserId ∈ s.users.keys} :
    (s.insertObservation o hid huser).otherRows o.discordUserId =
      s.otherRows o.discordUserId := by
  rw [otherRows, rowsOf_insertObservation, List.filter_cons_of_neg (by simp), List.filter_nil,
    List.append_nil]

theorem otherRows_insertNotification {n : Notification} {hid : n.id ∉ s.notifications.keys}
    {hrule : n.watchRuleId ∈ s.watchRules.keys}
    (hown : s.notifies (· = discordUserId) n = true) :
    (s.insertNotification n hid hrule).otherRows discordUserId = s.otherRows discordUserId := by
  obtain ⟨rule, hget, howner⟩ := notifies_eq_true.mp hown
  have hother : s.notifies (· ≠ discordUserId) n = false := by
    simp [notifies, hget, of_decide_eq_true howner]
  rw [otherRows, rowsOf_insertNotification, List.filter_cons_of_neg (by rw [hother]; decide),
    List.filter_nil, List.append_nil]

theorem otherRows_updateNotifications {q : Notification → Bool} {f : Notification → Notification}
    {hid : ∀ n, (f n).id = n.id} {hrule : ∀ n, (f n).watchRuleId = n.watchRuleId}
    (hq : ∀ n ∈ s.notifications.rows, q n = true → s.notifies (· = discordUserId) n = true) :
    (s.updateNotifications q f hid hrule).otherRows discordUserId = s.otherRows discordUserId := by
  rw [otherRows, rowsOf_updateNotifications, map_if_eq_self]
  intro n hn
  obtain ⟨hmem, hother⟩ := List.mem_filter.mp hn
  refine Bool.eq_false_iff.mpr fun h => ?_
  obtain ⟨rule, hget, hne⟩ := notifies_eq_true.mp hother
  obtain ⟨rule', hget', howner⟩ := notifies_eq_true.mp (hq n hmem h)
  obtain rfl := Option.some.inj (hget.symm.trans hget')
  exact of_decide_eq_true hne (of_decide_eq_true howner)

end Store

/-! ### What a user reads -/

/-- The listed rules of a user are its rows, in the order of their keys. -/
theorem WatchRuleRepository.listForUser_eq (s : Store) (discordUserId : ℤ) :
    WatchRuleRepository.listForUser s discordUserId =
      (s.ownRows discordUserId).watchRules.insertionSort (·.id ≤ ·.id) := rfl

end DonutMonitor
