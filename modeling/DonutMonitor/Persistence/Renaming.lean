import DonutMonitor.Persistence.Rows
import Mathlib.GroupTheory.Perm.Basic

/-!
# Stores that agree on a user up to the keys

The keys of new rows are allocated by the database, so that two databases in which a user has the
same rows may give different keys to what the user adds. A `Renaming` translates the keys of the one
to those of the other. Two stores agree on a user up to a renaming when the rows of the user in the
second one are the renamed rows of the first, in any order, and when the renaming keeps the order
of the rules, by which they are listed.

## Main definitions

* `Renaming` — a permutation of the keys of rules, of observations and of notifications.
* `Store.AgreeOn` — two stores agree on the rows of a user.

## Main results

* `Store.AgreeOn.get`, `Store.AgreeOn.getOwned`, `Store.AgreeOn.listForUser` — what the user reads.
* `Store.AgreeOn.updateUsers`, `Store.AgreeOn.insertRule`, … — corresponding statements on both
  stores.
-/

namespace DonutMonitor

/-- Other keys for the rows of a user. -/
structure Renaming where
  rule : Equiv.Perm ℕ := 1
  observation : Equiv.Perm ℕ := 1
  notification : Equiv.Perm ℕ := 1

variable (ρ : Renaming)

/-- The row under its other key. -/
def WatchRule.rename (rule : WatchRule) : WatchRule := { rule with id := ρ.rule rule.id }

/-- The row under its other key. -/
def PriceObservation.rename (observation : PriceObservation) : PriceObservation :=
  { observation with id := ρ.observation observation.id }

/-- The row under its other key, about the rule under its other key. -/
def Notification.rename (notification : Notification) : Notification :=
  { notification with
    id := ρ.notification notification.id
    watchRuleId := ρ.rule notification.watchRuleId }

@[simp] theorem WatchRule.rename_id (rule : WatchRule) :
    (rule.rename ρ).id = ρ.rule rule.id := rfl

@[simp] theorem WatchRule.rename_discordUserId (rule : WatchRule) :
    (rule.rename ρ).discordUserId = rule.discordUserId := rfl

theorem WatchRule.rename_withEnabled (rule : WatchRule) (enabled : Bool) :
    (rule.rename ρ).withEnabled enabled = (rule.withEnabled enabled).rename ρ := by
  cases enabled <;> rfl

namespace Rows

/-- The rows under their other keys. -/
@[simps]
def rename (rows : Rows) : Rows where
  users := rows.users
  watchRules := rows.watchRules.map (WatchRule.rename ρ)
  observations := rows.observations.map (PriceObservation.rename ρ)
  notifications := rows.notifications.map (Notification.rename ρ)

/-- The same rows, in any order. -/
structure Perm (a b : Rows) : Prop where
  users : a.users.Perm b.users
  watchRules : a.watchRules.Perm b.watchRules
  observations : a.observations.Perm b.observations
  notifications : a.notifications.Perm b.notifications

theorem Perm.refl (rows : Rows) : rows.Perm rows := ⟨.refl _, .refl _, .refl _, .refl _⟩

/-- The rows keep their keys. -/
structure Fixed (rows : Rows) : Prop where
  rule : ∀ r ∈ rows.watchRules, ρ.rule r.id = r.id
  observation : ∀ o ∈ rows.observations, ρ.observation o.id = o.id
  notification : ∀ n ∈ rows.notifications, ρ.notification n.id = n.id

end Rows

/-! ### Renamed lists -/

section Lists

variable {α : Type*} {f : α → α} {l l' : List α}

private theorem perm_map {g g' : α → α} (h : (l.map f).Perm l')
    (hg : ∀ a ∈ l, g' (f a) = f (g a)) : ((l.map g).map f).Perm (l'.map g') := by
  have hmap : (l.map g).map f = (l.map f).map g' := by
    rw [List.map_map, List.map_map]
    exact List.map_congr_left fun a ha => (hg a ha).symm
  rw [hmap]
  exact h.map g'

private theorem perm_filter {q q' : α → Bool} (h : (l.map f).Perm l')
    (hq : ∀ a ∈ l, q' (f a) = q a) : ((l.filter q).map f).Perm (l'.filter q') := by
  have hfilter : (l.filter q).map f = (l.map f).filter q' := by
    rw [List.filter_map]
    exact congrArg _ (List.filter_congr fun a ha => (hq a ha).symm)
  rw [hfilter]
  exact h.filter q'

private theorem perm_append {q q' : α → Bool} {a b : α} (h : (l.map f).Perm l') (hab : b = f a)
    (hq : q' b = q a) : ((l ++ [a].filter q).map f).Perm (l' ++ [b].filter q') := by
  subst hab
  rw [List.map_append]
  refine h.append ?_
  cases hqa : q a with
  | false => simp [hqa, hq]
  | true => simp [hqa, hq]

end Lists

/-! ### Agreement -/

namespace Store

theorem mem_ownRules {s : Store} {discordUserId : ℤ} {rule : WatchRule} :
    rule ∈ (s.ownRows discordUserId).watchRules ↔
      WatchRuleRepository.getOwned s discordUserId rule.id = some rule := by
  rw [WatchRuleRepository.getOwned_eq_some, Table.get?_eq_some]
  simp

theorem mem_ownNotifications {s : Store} {discordUserId : ℤ} {n : Notification} :
    n ∈ (s.ownRows discordUserId).notifications ↔ n ∈ s.notifications.rows ∧
      ∃ rule, WatchRuleRepository.getOwned s discordUserId n.watchRuleId = some rule := by
  simp [notifies_eq_true, WatchRuleRepository.getOwned_eq_some]

/-- In the second store the user has the rows that it has in the first, under other keys. -/
structure AgreeOn (discordUserId : ℤ) (ρ : Renaming) (s t : Store) : Prop where
  rows : ((s.ownRows discordUserId).rename ρ).Perm (t.ownRows discordUserId)
  /-- The rules are in the same order. -/
  order : ∀ r ∈ (s.ownRows discordUserId).watchRules,
    ∀ r' ∈ (s.ownRows discordUserId).watchRules, r.id ≤ r'.id ↔ ρ.rule r.id ≤ ρ.rule r'.id

namespace AgreeOn

variable {discordUserId : ℤ} {ρ : Renaming} {s t : Store} (h : AgreeOn discordUserId ρ s t)

include h

/-! ### What the user reads -/

/-- The user is stored in both or in neither, with the same columns. -/
theorem get : UserRepository.get t discordUserId = UserRepository.get s discordUserId := by
  ext user
  have huser : ∀ s : Store, UserRepository.get s discordUserId = some user ↔
      user ∈ (s.ownRows discordUserId).users := fun s => by
    rw [UserRepository.get, Table.get?_eq_some]
    simp
  rw [huser, huser]
  exact h.rows.users.mem_iff.symm

theorem mem_users : discordUserId ∈ t.users.keys ↔ discordUserId ∈ s.users.keys := by
  have hget := h.get
  rw [UserRepository.get, UserRepository.get] at hget
  rw [Table.mem_keys_iff, Table.mem_keys_iff, hget]

/-- An owned rule is stored in both or in neither, up to its key. -/
theorem getOwned (ruleId : ℕ) :
    WatchRuleRepository.getOwned t discordUserId (ρ.rule ruleId) =
      (WatchRuleRepository.getOwned s discordUserId ruleId).map (WatchRule.rename ρ) := by
  have hkey : ∀ {s : Store} {id : ℕ} {rule : WatchRule},
      WatchRuleRepository.getOwned s discordUserId id = some rule → rule.id = id := fun hget =>
    Table.key_of_get? (WatchRuleRepository.getOwned_eq_some.mp hget).1
  cases hs : WatchRuleRepository.getOwned s discordUserId ruleId with
  | some rule =>
    obtain rfl := hkey hs
    have hmem : rule.rename ρ ∈ (t.ownRows discordUserId).watchRules :=
      h.rows.watchRules.mem_iff.mp (List.mem_map_of_mem (mem_ownRules.mpr hs))
    exact mem_ownRules.mp hmem
  | none =>
    refine Option.eq_none_iff_forall_ne_some.mpr fun rule' ht => ?_
    have hmem' : rule' ∈ (t.ownRows discordUserId).watchRules :=
      mem_ownRules.mpr (by rw [hkey ht, ht])
    obtain ⟨rule, hmem, rfl⟩ := List.mem_map.mp (h.rows.watchRules.mem_iff.mpr hmem')
    have hid : rule.id = ruleId := ρ.rule.injective (hkey ht)
    rw [mem_ownRules, hid, hs] at hmem
    cases hmem

/-- Both list the same rules in the same order, up to their keys. -/
theorem listForUser :
    WatchRuleRepository.listForUser t discordUserId =
      (WatchRuleRepository.listForUser s discordUserId).map (WatchRule.rename ρ) := by
  have hmap := List.map_insertionSort (fun r r' : WatchRule => r.id ≤ r'.id)
    (fun r r' : WatchRule => r.id ≤ r'.id) (WatchRule.rename ρ) _ h.order
  have htotal : Std.Total fun r r' : WatchRule => r.id ≤ r'.id :=
    ⟨fun r r' => Nat.le_total r.id r'.id⟩
  have htrans : IsTrans WatchRule fun r r' => r.id ≤ r'.id :=
    ⟨fun _ _ _ hab hbc => Nat.le_trans hab hbc⟩
  rw [WatchRuleRepository.listForUser_eq, WatchRuleRepository.listForUser_eq, hmap]
  refine List.Perm.eq_of_pairwise ?_ (List.pairwise_insertionSort _ _)
    (List.pairwise_insertionSort _ _) ?_
  · intro r r' hr hr' hle hge
    have hown : r ∈ (t.ownRows discordUserId).watchRules := (List.mem_insertionSort _).mp hr
    have hown' : r' ∈ (t.ownRows discordUserId).watchRules :=
      h.rows.watchRules.mem_iff.mp ((List.mem_insertionSort _).mp hr')
    rw [mem_ownRules, Nat.le_antisymm hle hge, mem_ownRules.mp hown'] at hown
    exact (Option.some.inj hown).symm
  · exact (List.perm_insertionSort _ _).trans
      (h.rows.watchRules.symm.trans (List.perm_insertionSort _ _).symm)

/-! ### What the statements write -/

theorem updateUsers {q : User → Bool} {f : User → User}
    {hf : ∀ u, (f u).discordUserId = u.discordUserId} :
    AgreeOn discordUserId ρ (s.updateUsers q f hf) (t.updateUsers q f hf) := by
  refine ⟨?_, ?_⟩
  · rw [ownRows, ownRows, rowsOf_updateUsers, rowsOf_updateUsers]
    exact { h.rows with users := h.rows.users.map _ }
  · rw [ownRows, rowsOf_updateUsers]
    exact h.order

theorem insertUser {u : User} {hs : u.discordUserId ∉ s.users.keys}
    {ht : u.discordUserId ∉ t.users.keys} :
    AgreeOn discordUserId ρ (s.insertUser u hs) (t.insertUser u ht) := by
  refine ⟨?_, ?_⟩
  · rw [ownRows, ownRows, rowsOf_insertUser, rowsOf_insertUser]
    exact { h.rows with users := h.rows.users.append_right _ }
  · rw [ownRows, rowsOf_insertUser]
    exact h.order

/-- A new rule of the user, under keys that are larger than those of its other rules. -/
theorem insertRule {r r' : WatchRule} {hs : r.id ∉ s.watchRules.keys}
    {huser : r.discordUserId ∈ s.users.keys} {ht : r'.id ∉ t.watchRules.keys}
    {huser' : r'.discordUserId ∈ t.users.keys} (hr : r' = r.rename ρ)
    (hlarger : ∀ rule ∈ (s.ownRows discordUserId).watchRules,
      rule.id < r.id ∧ ρ.rule rule.id < ρ.rule r.id) :
    AgreeOn discordUserId ρ (s.insertRule r hs huser) (t.insertRule r' ht huser') := by
  subst hr
  refine ⟨?_, ?_⟩
  · rw [ownRows, ownRows, rowsOf_insertRule, rowsOf_insertRule]
    exact { h.rows with watchRules := perm_append h.rows.watchRules rfl rfl }
  · rw [ownRows, rowsOf_insertRule]
    intro a ha b hb
    have hcases : ∀ rule, rule ∈ (s.ownRows discordUserId).watchRules ++
        [r].filter (fun r => decide (r.discordUserId = discordUserId)) →
          rule ∈ (s.ownRows discordUserId).watchRules ∨ rule = r := fun rule hrule =>
      (List.mem_append.mp hrule).imp_right fun hnew =>
        List.mem_singleton.mp (List.mem_of_mem_filter hnew)
    rcases hcases a ha with hold | rfl <;> rcases hcases b hb with hold' | rfl
    · exact h.order a hold b hold'
    · exact iff_of_true (hlarger a hold).1.le (hlarger a hold).2.le
    · exact iff_of_false (hlarger b hold').1.not_ge (hlarger b hold').2.not_ge
    · exact iff_of_true le_rfl le_rfl

/-- An update of the rules that does the same to corresponding rules of the user. -/
theorem updateRules {q q' : WatchRule → Bool} {f f' : WatchRule → WatchRule}
    {hid : ∀ r, (f r).id = r.id} {huser : ∀ r, (f r).discordUserId = r.discordUserId}
    {hid' : ∀ r, (f' r).id = r.id} {huser' : ∀ r, (f' r).discordUserId = r.discordUserId}
    (hq : ∀ r, q' (r.rename ρ) = q r) (hf : ∀ r, f' (r.rename ρ) = (f r).rename ρ) :
    AgreeOn discordUserId ρ (s.updateRules q f hid huser) (t.updateRules q' f' hid' huser') := by
  refine ⟨?_, ?_⟩
  · rw [ownRows, ownRows, rowsOf_updateRules, rowsOf_updateRules]
    refine { h.rows with watchRules := perm_map h.rows.watchRules fun r _ => ?_ }
    rw [hq, hf]
    split_ifs <;> rfl
  · rw [ownRows, rowsOf_updateRules]
    intro r hr r' hr'
    obtain ⟨a, ha, rfl⟩ := List.mem_map.mp hr
    obtain ⟨b, hb, rfl⟩ := List.mem_map.mp hr'
    have hkey : ∀ r, (if q r then f r else r).id = r.id := fun r => by
      split_ifs
      · exact hid r
      · rfl
    rw [hkey, hkey]
    exact h.order a ha b hb

/-- A deletion of corresponding rules of the user. -/
theorem deleteRules {q q' : WatchRule → Bool} (hq : ∀ r, q' (r.rename ρ) = q r) :
    AgreeOn discordUserId ρ (s.deleteRules q) (t.deleteRules q') := by
  refine ⟨{ users := ?_, watchRules := ?_, observations := ?_, notifications := ?_ }, ?_⟩
  · exact h.rows.users
  · rw [Rows.rename_watchRules, ownRows, ownRows, rowsOf_deleteRules, rowsOf_deleteRules]
    exact perm_filter h.rows.watchRules fun r _ => by rw [hq]
  · exact h.rows.observations
  · rw [Rows.rename_notifications, ownRows, ownRows, rowsOf_deleteRules, rowsOf_deleteRules]
    refine perm_filter h.rows.notifications fun n hn => ?_
    obtain ⟨-, rule, hrule⟩ := mem_ownNotifications.mp hn
    have hrule' := h.getOwned n.watchRuleId
    rw [hrule] at hrule'
    have hs := (WatchRuleRepository.getOwned_eq_some.mp hrule).1
    have ht := (WatchRuleRepository.getOwned_eq_some.mp hrule').1
    have hkey : (n.rename ρ).watchRuleId = ρ.rule n.watchRuleId := rfl
    rw [hkey, hs, ht, Option.any_some, Option.any_some, hq]
  · rw [ownRows, rowsOf_deleteRules]
    exact fun r hr r' hr' =>
      h.order r (List.mem_of_mem_filter hr) r' (List.mem_of_mem_filter hr')

omit h in
/-- A deletion of the user leaves none of its rows. -/
theorem deleteUser :
    AgreeOn discordUserId ρ (s.deleteUser discordUserId) (t.deleteUser discordUserId) := by
  have hempty : ∀ s : Store, (s.deleteUser discordUserId).ownRows discordUserId =
      ⟨[], [], [], []⟩ := fun s => by
    have hrules := s.rowsOf_deleteRules (· = discordUserId) (·.discordUserId = discordUserId)
    simp only [rowsOf, Rows.mk.injEq] at hrules
    obtain ⟨-, hrules, -, hnotifications⟩ := hrules
    simp only [ownRows, rowsOf, Rows.mk.injEq]
    refine ⟨?_, hrules.trans ?_, ?_, hnotifications.trans ?_⟩
    · simp
    · simp
    · simp
    · rw [List.filter_filter, List.filter_eq_nil_iff]
      intro n _
      simp [notifies]
  refine ⟨?_, ?_⟩
  · rw [hempty, hempty]
    exact ⟨.nil, .nil, .nil, .nil⟩
  · rw [hempty]
    exact fun r hr => absurd hr List.not_mem_nil

/-- An observation of the user, under other keys. -/
theorem insertObservation {o o' : PriceObservation} {hs : o.id ∉ s.observations.keys}
    {huser : o.discordUserId ∈ s.users.keys} {ht : o'.id ∉ t.observations.keys}
    {huser' : o'.discordUserId ∈ t.users.keys} (ho : o' = o.rename ρ) :
    AgreeOn discordUserId ρ (s.insertObservation o hs huser)
      (t.insertObservation o' ht huser') := by
  subst ho
  refine ⟨?_, ?_⟩
  · rw [ownRows, ownRows, rowsOf_insertObservation, rowsOf_insertObservation]
    exact { h.rows with observations := perm_append h.rows.observations rfl rfl }
  · rw [ownRows, rowsOf_insertObservation]
    exact h.order

/-- A notification about a rule of the user, under other keys. -/
theorem insertNotification {n n' : Notification} {hs : n.id ∉ s.notifications.keys}
    {hrule : n.watchRuleId ∈ s.watchRules.keys} {ht : n'.id ∉ t.notifications.keys}
    {hrule' : n'.watchRuleId ∈ t.watchRules.keys} (hn : n' = n.rename ρ) {rule : WatchRule}
    (hown : WatchRuleRepository.getOwned s discordUserId n.watchRuleId = some rule) :
    AgreeOn discordUserId ρ (s.insertNotification n hs hrule)
      (t.insertNotification n' ht hrule') := by
  subst hn
  have hnotifies : s.notifies (· = discordUserId) n = true := by
    obtain ⟨hget, howner⟩ := WatchRuleRepository.getOwned_eq_some.mp hown
    exact notifies_eq_true.mpr ⟨rule, hget, decide_eq_true howner⟩
  have hnotifies' : t.notifies (· = discordUserId) (n.rename ρ) = true := by
    have hown' := h.getOwned n.watchRuleId
    rw [hown] at hown'
    obtain ⟨hget, howner⟩ := WatchRuleRepository.getOwned_eq_some.mp hown'
    exact notifies_eq_true.mpr ⟨_, hget, decide_eq_true howner⟩
  refine ⟨?_, ?_⟩
  · rw [ownRows, ownRows, rowsOf_insertNotification, rowsOf_insertNotification]
    exact { h.rows with
      notifications := perm_append h.rows.notifications rfl (hnotifies'.trans hnotifies.symm) }
  · rw [ownRows, rowsOf_insertNotification]
    exact h.order

/-- An update of the notifications that does the same to corresponding ones. -/
theorem updateNotifications {q q' : Notification → Bool} {f f' : Notification → Notification}
    {hid : ∀ n, (f n).id = n.id} {hrule : ∀ n, (f n).watchRuleId = n.watchRuleId}
    {hid' : ∀ n, (f' n).id = n.id} {hrule' : ∀ n, (f' n).watchRuleId = n.watchRuleId}
    (hq : ∀ n, q' (n.rename ρ) = q n) (hf : ∀ n, f' (n.rename ρ) = (f n).rename ρ) :
    AgreeOn discordUserId ρ (s.updateNotifications q f hid hrule)
      (t.updateNotifications q' f' hid' hrule') := by
  refine ⟨?_, ?_⟩
  · rw [ownRows, ownRows, rowsOf_updateNotifications, rowsOf_updateNotifications]
    refine { h.rows with notifications := perm_map h.rows.notifications fun n _ => ?_ }
    rw [hq, hf]
    split_ifs <;> rfl
  · rw [ownRows, rowsOf_updateNotifications]
    exact h.order

end AgreeOn

end Store

end DonutMonitor
