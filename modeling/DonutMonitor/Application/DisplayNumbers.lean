import DonutMonitor.Application.History
import DonutMonitor.Persistence.Rows

/-!
# Display numbers

Users address their rules by numbers that are computed anew for each operation, from a query that
sorts the rules of the user by their ids. The ids come from one sequence for all users. As long as
the database allocates a larger id for every new rule, the numbers of a user are the positions in
the list of its rules in the order of their creation, whatever the other users do.

## Main definitions

* `Store.rulesOf` — the rules of a user, in the order of their creation.
* `Numbered` — every operation of a user treats the display numbers as positions in that list.

## Main results

* `Database.numbered` — so it is after every run in which new rules get larger ids.
-/

namespace DonutMonitor

open Transition

/-! ### Numbered rules -/

theorem map_rule_numberRules (rules : List WatchRule) :
    (numberRules rules).map (·.rule) = rules := by
  simp [numberRules, Function.comp_def, List.zipIdx_map_fst]

theorem map_displayId_numberRules (rules : List WatchRule) :
    (numberRules rules).map (·.displayId) = List.range' 1 rules.length := by
  have hindices := congrArg (List.map (· + 1)) (List.zipIdx_map_snd 0 rules)
  rw [List.map_map, List.range'_eq_map_range, List.map_map] at hindices
  rw [numberRules, List.map_map, List.range'_eq_map_range]
  simpa [Function.comp_def, Nat.add_comm] using hindices

theorem mem_numberRules {rules : List WatchRule} {d : DisplayedRule} :
    d ∈ numberRules rules ↔ ∃ i, rules[i]? = some d.rule ∧ d.displayId = i + 1 := by
  obtain ⟨displayId, rule⟩ := d
  simp only [numberRules, List.mem_map, DisplayedRule.mk.injEq, Prod.exists,
    List.mem_zipIdx_iff_getElem?]
  constructor
  · rintro ⟨r, i, hi, rfl, rfl⟩
    exact ⟨i, hi, rfl⟩
  · rintro ⟨i, hi, rfl⟩
    exact ⟨rule, i, hi, rfl, rfl⟩

theorem numberRules_concat (rules : List WatchRule) (rule : WatchRule) :
    numberRules (rules ++ [rule]) = numberRules rules ++ [⟨rules.length + 1, rule⟩] := by
  simp [numberRules, List.zipIdx_append]

/-- The rule that was added last is found under its number. -/
theorem findDisplayed_concat {rules : List WatchRule} {rule : WatchRule}
    (h : ∀ r ∈ rules, r.id ≠ rule.id) :
    findDisplayed (rules ++ [rule]) rule.id = some ⟨rules.length + 1, rule⟩ := by
  rw [findDisplayed, numberRules_concat, List.find?_append]
  have hnone : (numberRules rules).find? (fun d => decide (d.rule.id = rule.id)) = none := by
    refine List.find?_eq_none.mpr fun d hd => ?_
    obtain ⟨i, hi, -⟩ := mem_numberRules.mp hd
    simpa using h d.rule (List.mem_of_getElem? hi)
  rw [hnone]
  simp

theorem ruleByDisplayId_eq_none {rules : List WatchRule} {k : ℤ}
    (h : k < 1 ∨ (rules.length : ℤ) < k) : ruleByDisplayId rules k = none :=
  if_pos h

theorem ruleByDisplayId_eq_some {rules : List WatchRule} {k : ℤ} (h : 1 ≤ k)
    (h' : k ≤ rules.length) :
    ∃ rule, rules[(k - 1).toNat]? = some rule ∧ ruleByDisplayId rules k = some rule := by
  have hlt : (k - 1).toNat < rules.length := by omega
  refine ⟨rules[(k - 1).toNat], List.getElem?_eq_getElem hlt, ?_⟩
  rw [ruleByDisplayId, if_neg (by omega), List.getElem?_eq_getElem hlt]

/-! ### Ordered stores -/

namespace Store

/-- The rules of a user, in the order of their creation. -/
def rulesOf (s : Store) (discordUserId : ℤ) : List WatchRule := (s.ownRows discordUserId).watchRules

/-- The ids of the rules with their owners, in the order of their creation. -/
def owners (s : Store) : List (ℕ × ℤ) := s.watchRules.rows.map fun r => (r.id, r.discordUserId)

/-- Later rules have larger ids. -/
def Ordered (s : Store) : Prop := s.watchRules.keys.Pairwise (· < ·)

variable {s : Store} {discordUserId : ℤ}

theorem Ordered.rulesOf (h : s.Ordered) (discordUserId : ℤ) :
    (s.rulesOf discordUserId).Pairwise fun r r' => r.id < r'.id :=
  (List.pairwise_map.mp h).sublist List.filter_sublist

theorem nodup_rulesOf (s : Store) (discordUserId : ℤ) :
    ((s.rulesOf discordUserId).map (·.id)).Nodup :=
  s.watchRules.nodup.sublist (List.filter_sublist.map _)

theorem owner_of_rulesOf {rule : WatchRule} (h : rule ∈ s.rulesOf discordUserId) :
    rule.discordUserId = discordUserId := by
  simpa using (List.mem_filter.mp h).2

/-- The query of a user's rules answers them in the order of their creation. -/
theorem Ordered.listForUser (h : s.Ordered) (discordUserId : ℤ) :
    WatchRuleRepository.listForUser s discordUserId = s.rulesOf discordUserId :=
  List.Pairwise.insertionSort_eq ((h.rulesOf discordUserId).imp fun hlt => hlt.le)

theorem map_fst_owners (s : Store) : s.owners.map Prod.fst = s.watchRules.keys := by
  simp [owners, Table.keys, Function.comp_def]

theorem map_id_rulesOf (s : Store) (discordUserId : ℤ) :
    (s.rulesOf discordUserId).map (·.id) =
      (s.owners.filter (·.2 = discordUserId)).map Prod.fst := by
  simp [rulesOf, owners, List.filter_map, Function.comp_def]

/-- The rules of a user are the same when those of all users but another one are. -/
theorem rulesOf_of_otherRows {s' : Store}
    (h : s'.otherRows discordUserId = s.otherRows discordUserId) {other : ℤ}
    (hother : other ≠ discordUserId) : s'.rulesOf other = s.rulesOf other := by
  have hsub : ∀ s : Store, s.rulesOf other =
      (s.otherRows discordUserId).watchRules.filter (·.discordUserId = other) := by
    intro s
    rw [Store.rulesOf, rowsOf_watchRules, rowsOf_watchRules, List.filter_filter]
    refine List.filter_congr fun r _ => ?_
    by_cases hr : r.discordUserId = other <;> simp [hr, hother]
  rw [hsub, hsub, h]

theorem rulesOf_insertRule (r : WatchRule) (hid : r.id ∉ s.watchRules.keys)
    (huser : r.discordUserId ∈ s.users.keys) :
    (s.insertRule r hid huser).rulesOf r.discordUserId = s.rulesOf r.discordUserId ++ [r] := by
  rw [Store.rulesOf, ownRows, rowsOf_insertRule, List.filter_cons_of_pos (by simp), List.filter_nil]
  rfl

/-- A deletion drops the rule at its position. -/
theorem rulesOf_delete {i : ℕ} {rule : WatchRule}
    (h : (s.rulesOf discordUserId)[i]? = some rule) :
    (WatchRuleRepository.delete s discordUserId rule.id).1.rulesOf discordUserId =
      (s.rulesOf discordUserId).eraseIdx i := by
  rw [Store.rulesOf, WatchRuleRepository.delete, ownRows, rowsOf_deleteRules,
    ← Table.filter_ne_eq_eraseIdx (s.nodup_rulesOf discordUserId) h]
  refine List.filter_congr fun r hr => ?_
  simp [WatchRuleRepository.isOwned, owner_of_rulesOf hr]

/-- A rule is paused or resumed at its position. -/
theorem rulesOf_setEnabled {i : ℕ} {rule : WatchRule}
    (h : (s.rulesOf discordUserId)[i]? = some rule) (enabled : Bool) :
    (WatchRuleRepository.setEnabled s discordUserId rule.id enabled).1.rulesOf discordUserId =
      (s.rulesOf discordUserId).modify i (·.withEnabled enabled) := by
  rw [Store.rulesOf, WatchRuleRepository.setEnabled, ownRows, rowsOf_updateRules,
    ← Table.map_if_eq_modify (s.nodup_rulesOf discordUserId) h]
  refine List.map_congr_left fun r hr => ?_
  simp [WatchRuleRepository.isOwned, owner_of_rulesOf hr]

/-- The rule at a position is found under its id. -/
theorem getOwned_of_rulesOf {i : ℕ} {rule : WatchRule}
    (h : (s.rulesOf discordUserId)[i]? = some rule) :
    WatchRuleRepository.getOwned s discordUserId rule.id = some rule := by
  have hmem := List.mem_of_getElem? h
  exact WatchRuleRepository.getOwned_eq_some.mpr
    ⟨Table.mem_rows_iff.mp (List.mem_of_mem_filter hmem), owner_of_rulesOf hmem⟩

end Store

namespace WatchRuleRepository

variable (s : Store) (discordUserId : ℤ) (ruleId : ℕ)

theorem otherRows_delete :
    (delete s discordUserId ruleId).1.otherRows discordUserId = s.otherRows discordUserId := by
  refine Store.otherRows_deleteRules fun rule h => ?_
  simp only [isOwned, Bool.and_eq_true, decide_eq_true_eq] at h
  exact h.2

theorem otherRows_setEnabled (enabled : Bool) :
    (setEnabled s discordUserId ruleId enabled).1.otherRows discordUserId =
      s.otherRows discordUserId := by
  rw [setEnabled, Store.otherRows_updateRules]
  intro rule _ h
  simp only [isOwned, Bool.and_eq_true, decide_eq_true_eq] at h
  exact h.2

end WatchRuleRepository

/-! ### The ids of the rules -/

namespace RuleProcessor

variable {ctx : DecimalContext} {call : ProcessCall} {notificationKey : ℕ → ℕ}
  {observationKey : ℕ} {s : Store} {progress : Progress}

private theorem createPending_owners {s s' : Store} {id ruleId : ℕ} {price : ℚ}
    {previousPrice : Option ℚ}
    (h : NotificationRepository.createPending s id ruleId price previousPrice = .ok s') :
    s'.owners = s.owners := by
  rw [NotificationRepository.createPending] at h
  split_ifs at h
  obtain rfl := Except.ok.inj h
  rfl

private theorem writeEvaluation_owners (s : Store) (rule : WatchRule) :
    (writeEvaluation ctx call s rule).owners = s.owners := by
  rw [writeEvaluation, Store.owners, Store.updateRules_watchRules, Table.rows_update, List.map_map]
  refine List.map_congr_left fun r _ => ?_
  simp only [Function.comp_apply]
  split_ifs <;> rfl

/-- The processing of a snapshot neither adds nor drops rules, and its alerts have the numbers that
the store shows when the transaction reads it. -/
theorem process_owners_displayed
    (h : process ctx call notificationKey observationKey s = .ok progress) :
    progress.store.owners = s.owners ∧ ∀ e ∈ progress.events,
      ∃ d, findDisplayed (WatchRuleRepository.listForUser s call.discordUserId)
        e.1.databaseRuleId = some d ∧ d.displayId = e.1.displayRuleId := by
  obtain ⟨s', hadd, h⟩ := Except.bind_eq_ok.mp h
  rw [raiseDatabase_eq_ok, ObservationRepository.add] at hadd
  split_ifs at hadd
  obtain rfl := Except.ok.inj hadd
  refine Except.foldlM_invariant (I := fun progress : Progress =>
    progress.store.owners = s.owners ∧ ∀ e ∈ progress.events,
      ∃ d, findDisplayed (WatchRuleRepository.listForUser s call.discordUserId)
        e.1.databaseRuleId = some d ∧ d.displayId = e.1.displayRuleId)
    ?_ h ⟨rfl, fun e he => by cases he⟩
  rintro progress ruleId progress' - ⟨howners, hevents⟩ hturn
  rcases processRule_cases hturn with rfl | ⟨rule, -, -, rfl |
    ⟨price, store, display, hstore, hdisplay, rfl⟩⟩
  · exact ⟨howners, hevents⟩
  · exact ⟨(writeEvaluation_owners _ rule).trans howners, hevents⟩
  · refine ⟨?_, fun e he => ?_⟩
    · rw [createPending_owners hstore, writeEvaluation_owners, howners]
    · rcases List.mem_append.mp he with he | he
      · exact hevents e he
      · obtain rfl := List.mem_singleton.mp he
        exact ⟨display, hdisplay, rfl⟩

end RuleProcessor

namespace Transaction

variable {env : Environment} {s s' : Store} {a : Answer}

/-- A transaction keeps or drops rules, unless it creates one. -/
theorem exec_keys {t : Transaction} (h : t.exec env s = .ok (a, s')) :
    s'.watchRules.keys.Sublist s.watchRules.keys ∨
      ∃ draft key, t = .create draft key ∧ s'.watchRules.keys = s.watchRules.keys ++ [key] := by
  have hdelete : ∀ p : WatchRule → Bool,
      (s.watchRules.delete p).keys.Sublist s.watchRules.keys := fun p =>
    List.filter_sublist.map _
  have hupdate : ∀ (p : WatchRule → Bool) (f : WatchRule → WatchRule) (hf : ∀ r, (f r).id = r.id),
      (s.watchRules.update p f hf).keys.Sublist s.watchRules.keys := fun p f hf => by
    rw [Table.keys_update]
  cases t with
  | create draft key =>
    obtain ⟨⟨created, s₁⟩, hcreate, h⟩ := Except.bind_eq_ok.mp h
    obtain ⟨-, rfl⟩ := Prod.mk.inj (Except.ok.inj h)
    obtain ⟨-, -, hid, huser, rfl⟩ := WatchService.create_ok hcreate
    exact .inr ⟨draft, key, rfl, Table.keys_insert _ _ hid⟩
  | saveValidToken discordUserId token fingerprint =>
    obtain ⟨-, rfl⟩ := Prod.mk.inj (Except.ok.inj h)
    rw [UserRepository.saveValidToken]
    split_ifs <;> exact .inl (List.Sublist.refl _)
  | logout discordUserId =>
    obtain ⟨-, rfl⟩ := Prod.mk.inj (Except.ok.inj h)
    exact .inl (hdelete _)
  | undoCreate discordUserId ruleId =>
    obtain ⟨-, rfl⟩ := Prod.mk.inj (Except.ok.inj h)
    exact .inl (hdelete _)
  | delete discordUserId displayId =>
    obtain ⟨⟨s₁, changed⟩, hs, h⟩ := Except.bind_eq_ok.mp h
    obtain ⟨-, rfl⟩ := Prod.mk.inj (Except.ok.inj h)
    rcases WatchService.delete_ok hs with ⟨-, rfl⟩ | ⟨ruleId, -, rfl⟩
    · exact .inl (List.Sublist.refl _)
    · exact .inl (hdelete _)
  | setEnabled discordUserId displayId enabled =>
    obtain ⟨⟨s₁, changed⟩, hs, h⟩ := Except.bind_eq_ok.mp h
    obtain ⟨-, rfl⟩ := Prod.mk.inj (Except.ok.inj h)
    rcases WatchService.setEnabled_ok hs with ⟨-, rfl⟩ | ⟨ruleId, -, rfl⟩
    · exact .inl (List.Sublist.refl _)
    · exact .inl (hupdate _ _ fun r => r.withEnabled_id enabled)
  | deleteByDatabaseId discordUserId ruleId =>
    obtain ⟨⟨s₁, changed⟩, hs, h⟩ := Except.bind_eq_ok.mp h
    obtain ⟨-, rfl⟩ := Prod.mk.inj (Except.ok.inj h)
    obtain ⟨_, -, hs⟩ := Except.bind_eq_ok.mp hs
    obtain rfl := congrArg Prod.fst (Except.ok.inj hs)
    exact .inl (hdelete _)
  | setEnabledByDatabaseId discordUserId ruleId enabled =>
    obtain ⟨⟨s₁, changed⟩, hs, h⟩ := Except.bind_eq_ok.mp h
    obtain ⟨-, rfl⟩ := Prod.mk.inj (Except.ok.inj h)
    obtain ⟨_, -, hs⟩ := Except.bind_eq_ok.mp hs
    obtain rfl := congrArg Prod.fst (Except.ok.inj hs)
    exact .inl (hupdate _ _ fun r => r.withEnabled_id enabled)
  | process call observationKey notificationKey =>
    obtain ⟨progress, hprocess, h⟩ := Except.bind_eq_ok.mp h
    obtain ⟨-, rfl⟩ := Prod.mk.inj (Except.ok.inj h)
    rw [← Store.map_fst_owners, (RuleProcessor.process_owners_displayed hprocess).1,
      Store.map_fst_owners]
    exact .inl (List.Sublist.refl _)
  | invalidate discordUserId notifiedAt =>
    cases notifiedAt <;> obtain ⟨-, rfl⟩ := Prod.mk.inj (Except.ok.inj h) <;>
      exact .inl (hupdate _ _ fun r => r.withEnabled_id false)
  | _ =>
    obtain ⟨-, rfl⟩ := Prod.mk.inj (Except.ok.inj h)
    exact .inl (List.Sublist.refl _)

end Transaction

/-- The key that a transaction allocates to a new rule. -/
def Transaction.ruleKey : Transaction → Option ℕ
  | create _ key => some key
  | _ => none

/-- The database allocates a key for a new rule that is larger than the keys of all rules. -/
def LargerKeys (db : Database) (label : Option ℕ × Transaction) : Prop :=
  ∀ key ∈ label.2.ruleKey, ∀ id ∈ db.store.watchRules.keys, id < key

instance (db : Database) (label : Option ℕ × Transaction) : Decidable (LargerKeys db label) :=
  inferInstanceAs (Decidable (∀ key ∈ label.2.ruleKey, _))

/-! ### The numbers of a user -/

/-- Every operation of a user treats the display numbers as positions in the list of its rules, and
leaves the lists of the other users alone. -/
structure Numbered (env : Environment) (s : Store) (discordUserId : ℤ) : Prop where
  /-- `list` answers the rules, numbered from 1 on. -/
  list : ∀ user, requireValidUser s discordUserId = .ok user → ∃ displayed,
    WatchService.list discordUserId s = .ok displayed ∧
      displayed.map (·.rule) = s.rulesOf discordUserId ∧
      displayed.map (·.displayId) = List.range' 1 (s.rulesOf discordUserId).length
  /-- `add` appends its rule and answers its number. -/
  add : ∀ draft key created s', draft.discordUserId = discordUserId →
    (∀ id ∈ s.watchRules.keys, id < key) →
      WatchService.create env draft key s = .ok (created, s') →
        created.rule = draft.row key ∧
        s'.rulesOf discordUserId = s.rulesOf discordUserId ++ [created.rule] ∧
        created.displayedRule = ⟨(s.rulesOf discordUserId).length + 1, created.rule⟩ ∧
        ∀ other ≠ discordUserId, s'.rulesOf other = s.rulesOf other
  /-- A number that no rule has. -/
  outside : ∀ user (displayId : ℤ), requireValidUser s discordUserId = .ok user →
    (displayId < 1 ∨ (s.rulesOf discordUserId).length < displayId) →
      WatchService.delete discordUserId displayId s = .ok (s, false) ∧
      ∀ enabled, WatchService.setEnabled discordUserId displayId enabled s = .ok (s, false)
  /-- `delete` removes the rule at its position; the numbers above drop by one. -/
  delete : ∀ user (displayId : ℤ), requireValidUser s discordUserId = .ok user →
    1 ≤ displayId → displayId ≤ (s.rulesOf discordUserId).length →
      ∃ s', WatchService.delete discordUserId displayId s = .ok (s', true) ∧
        s'.rulesOf discordUserId =
          (s.rulesOf discordUserId).eraseIdx (displayId - 1).toNat ∧
        (∀ d ∈ numberRules (s.rulesOf discordUserId), (d.displayId : ℤ) ≠ displayId →
          ⟨if (d.displayId : ℤ) < displayId then d.displayId else d.displayId - 1, d.rule⟩ ∈
            numberRules (s'.rulesOf discordUserId)) ∧
        ∀ other ≠ discordUserId, s'.rulesOf other = s.rulesOf other
  /-- `set_enabled` updates the rule at its position. -/
  setEnabled : ∀ user (displayId : ℤ) enabled, requireValidUser s discordUserId = .ok user →
    1 ≤ displayId → displayId ≤ (s.rulesOf discordUserId).length →
      ∃ s', WatchService.setEnabled discordUserId displayId enabled s = .ok (s', true) ∧
        s'.rulesOf discordUserId =
          (s.rulesOf discordUserId).modify (displayId - 1).toNat (·.withEnabled enabled) ∧
        ∀ other ≠ discordUserId, s'.rulesOf other = s.rulesOf other
  /-- The alerts of a snapshot have the numbers of their rules in the store that its transaction
  reads, and the transaction keeps the lists. -/
  process : ∀ call observationKey notificationKey progress, call.discordUserId = discordUserId →
    RuleProcessor.process env.decimal call notificationKey observationKey s = .ok progress →
      (∀ e ∈ progress.events, ∃ d ∈ numberRules (s.rulesOf discordUserId),
        d.rule.id = e.1.databaseRuleId ∧ d.displayId = e.1.displayRuleId) ∧
      ∀ user, (progress.store.rulesOf user).map (·.id) = (s.rulesOf user).map (·.id)

/-- The numbers that stay when a rule is dropped, and those above it that drop by one. -/
theorem mem_numberRules_eraseIdx {rules : List WatchRule} {k : ℤ} (hk : 1 ≤ k) {d : DisplayedRule}
    (hd : d ∈ numberRules rules) (hne : (d.displayId : ℤ) ≠ k) :
    ⟨if (d.displayId : ℤ) < k then d.displayId else d.displayId - 1, d.rule⟩ ∈
      numberRules (rules.eraseIdx (k - 1).toNat) := by
  obtain ⟨i, hi, hnumber⟩ := mem_numberRules.mp hd
  refine mem_numberRules.mpr ?_
  split_ifs with hlt
  · exact ⟨i, by rw [List.getElem?_eraseIdx_of_lt (by omega), hi], hnumber⟩
  · refine ⟨i - 1, ?_, by simp only; omega⟩
    have hi' : i - 1 + 1 = i := by omega
    rw [List.getElem?_eraseIdx_of_ge (by omega), hi', hi]

theorem WatchService.create_displayed {env : Environment} {s s' : Store} {draft : RuleDraft}
    {key : ℕ} {created : CreatedRule} (h : create env draft key s = .ok (created, s')) :
    findDisplayed (WatchRuleRepository.listForUser s' draft.discordUserId) created.rule.id =
      some created.displayedRule := by
  obtain ⟨user, -, h⟩ := Except.bind_eq_ok.mp h
  obtain ⟨⟨rule, s₁⟩, -, h⟩ := Except.bind_eq_ok.mp h
  obtain ⟨displayedRule, hdisplayed, h⟩ := Except.bind_eq_ok.mp h
  split at h
  · cases h
  · obtain ⟨rfl, rfl⟩ := Prod.mk.inj (Except.ok.inj h)
    rw [findDisplayedRule] at hdisplayed
    split at hdisplayed
    · next displayed hfind => exact hfind.trans (congrArg some (Except.ok.inj hdisplayed))
    · cases hdisplayed

namespace Store.Ordered

variable {env : Environment} {s : Store}

/-- A rule with a larger key keeps the order. -/
theorem insertRule (h : s.Ordered) {r : WatchRule} {hid : r.id ∉ s.watchRules.keys}
    {huser : r.discordUserId ∈ s.users.keys} (hlarger : ∀ id ∈ s.watchRules.keys, id < r.id) :
    (s.insertRule r hid huser).Ordered := by
  rw [Ordered, insertRule_watchRules, Table.keys_insert, List.pairwise_append]
  exact ⟨h, List.pairwise_singleton _ _, fun id hmem key hkey =>
    List.mem_singleton.mp hkey ▸ hlarger id hmem⟩

/-- The operations of a user in an ordered store. -/
theorem toNumbered (h : s.Ordered) (discordUserId : ℤ) : Numbered env s discordUserId where
  list user huser := by
    refine ⟨numberRules (s.rulesOf discordUserId), ?_, map_rule_numberRules _,
      map_displayId_numberRules _⟩
    rw [WatchService.list, huser, ← h.listForUser]
    rfl
  add draft key created s' howner hlarger hcreate := by
    subst howner
    have hdisplayed := WatchService.create_displayed hcreate
    obtain ⟨hrule, -, hid, huser, rfl⟩ := WatchService.create_ok hcreate
    have hrules : (s.insertRule (draft.row key) hid huser).rulesOf draft.discordUserId =
        s.rulesOf draft.discordUserId ++ [draft.row key] :=
      rulesOf_insertRule (draft.row key) hid huser
    have hothers : (s.insertRule (draft.row key) hid huser).otherRows draft.discordUserId =
        s.otherRows draft.discordUserId := otherRows_insertRule (r := draft.row key)
    have hordered : (s.insertRule (draft.row key) hid huser).Ordered := h.insertRule hlarger
    refine ⟨hrule, by rw [hrule, hrules], ?_, fun other => rulesOf_of_otherRows hothers⟩
    have hnew : ∀ r ∈ s.rulesOf draft.discordUserId, r.id ≠ (draft.row key).id := fun r hr =>
      (hlarger r.id (Table.mem_keys_of_mem (List.mem_of_mem_filter hr))).ne
    rw [hordered.listForUser, hrule, hrules, findDisplayed_concat hnew] at hdisplayed
    rw [← Option.some.inj hdisplayed, hrule]
  outside user displayId huser houtside := by
    have hnone : ruleByDisplayId (WatchRuleRepository.listForUser s discordUserId) displayId =
        none := by
      rw [h.listForUser, ruleByDisplayId_eq_none houtside]
    refine ⟨?_, fun enabled => ?_⟩
    · rw [WatchService.delete, huser, hnone]
      rfl
    · rw [WatchService.setEnabled, huser, hnone]
      rfl
  delete user displayId huser hpos hle := by
    obtain ⟨rule, hrule, hfound⟩ := ruleByDisplayId_eq_some hpos hle
    refine ⟨(WatchRuleRepository.delete s discordUserId rule.id).1, ?_, rulesOf_delete hrule,
      fun d hd hne => ?_, fun other => rulesOf_of_otherRows
        (WatchRuleRepository.otherRows_delete s discordUserId rule.id)⟩
    · rw [WatchService.delete, huser, h.listForUser, hfound]
      simp only [WatchRuleRepository.delete, getOwned_of_rulesOf hrule]
      rfl
    · rw [rulesOf_delete hrule]
      exact mem_numberRules_eraseIdx hpos hd hne
  setEnabled user displayId enabled huser hpos hle := by
    obtain ⟨rule, hrule, hfound⟩ := ruleByDisplayId_eq_some hpos hle
    refine ⟨(WatchRuleRepository.setEnabled s discordUserId rule.id enabled).1, ?_,
      rulesOf_setEnabled hrule enabled, fun other => rulesOf_of_otherRows
        (WatchRuleRepository.otherRows_setEnabled s discordUserId rule.id enabled)⟩
    rw [WatchService.setEnabled, huser, h.listForUser, hfound]
    simp only [WatchRuleRepository.setEnabled, getOwned_of_rulesOf hrule]
    rfl
  process call observationKey notificationKey progress howner hprocess := by
    subst howner
    obtain ⟨howners, hevents⟩ := RuleProcessor.process_owners_displayed hprocess
    refine ⟨fun e he => ?_, fun user => by rw [map_id_rulesOf, howners, ← map_id_rulesOf]⟩
    obtain ⟨d, hd, hnumber⟩ := hevents e he
    rw [h.listForUser] at hd
    exact ⟨d, List.mem_of_find?_eq_some hd, (findDisplayed_eq_some hd).1, hnumber⟩

end Store.Ordered

namespace Database

variable {env : Environment} {db : Database}

/-- Larger keys keep the rules in the order of their ids. -/
theorem ordered (h : Leads (step env) LargerKeys {} db) : db.store.Ordered := by
  obtain ⟨labels, hrun, hlarger⟩ := h
  refine run_invariant_along (step env) (I := fun db => db.store.Ordered) ?_ hlarger hrun
    List.Pairwise.nil
  rintro db ⟨origin, t⟩ db' hordered hkeys hstep
  obtain ⟨answer, hcommit⟩ := step_eq_some.mp hstep
  rcases Transaction.exec_keys (commit_eq_ok.mp hcommit).1 with hsublist |
    ⟨draft, key, rfl, hconcat⟩
  · exact hordered.sublist hsublist
  · rw [Store.Ordered, hconcat, List.pairwise_append]
    exact ⟨hordered, List.pairwise_singleton _ _, fun id hid key' hkey' =>
      List.mem_singleton.mp hkey' ▸ hkeys key rfl id hid⟩

/-- After every run of transactions in which new rules get larger ids, the numbers of a user are the
positions in the list of its rules. -/
theorem numbered (h : Leads (step env) LargerKeys {} db) (discordUserId : ℤ) :
    Numbered env db.store discordUserId :=
  (ordered h).toNumbered discordUserId

/-- Users 1 and 2 add watches in turn, and user 1 deletes its second one and adds another. -/
def twoUsers : List (Option ℕ × Transaction) :=
  [(none, .saveValidToken 1 "token" "key"), (none, .saveValidToken 2 "other" "key2"),
    (none, .create .elytra 1), (none, .create { RuleDraft.elytra with discordUserId := 2 } 2),
    (none, .create .elytra 3), (none, .create .elytra 4), (none, .delete 1 2),
    (none, .create .elytra 5)]

/-- The watches 1, 4 and 5 of user 1 have the numbers 1, 2 and 3. -/
theorem numbered_twoUsers : ∃ db, run (step .plain) {} twoUsers = some db ∧
    (db.store.rulesOf 1).map (·.id) = [1, 4, 5] ∧ Numbered .plain db.store 1 := by
  have hrun : (run (step .plain) {} twoUsers).map (fun db : Database =>
      decide ((db.store.rulesOf 1).map (·.id) = [1, 4, 5])) = some true := by decide +kernel
  have hlarger : Along (step .plain) LargerKeys {} twoUsers := by decide +kernel
  obtain ⟨db, hdb, hids⟩ := Option.map_eq_some_iff.mp hrun
  exact ⟨db, hdb, of_decide_eq_true hids, numbered ⟨twoUsers, hdb, hlarger⟩ 1⟩

end Database

end DonutMonitor
