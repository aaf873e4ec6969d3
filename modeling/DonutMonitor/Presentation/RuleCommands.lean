import DonutMonitor.Application.DisplayNumbers
import DonutMonitor.Foundations.Rank
import DonutMonitor.Presentation.AlertActions
import Mathlib.Data.List.Infix

/-!
# The commands that change a rule

`/watch delete`, `/watch pause` and `/watch resume` take the number of a rule, as `/watch list` and
the autocompletion have shown it. Numbers are computed anew for each command, so anything may
have happened to the rules since the number was shown.

## Main definitions

* `ruleAutocomplete` — the choices for a number.
* `RuleCommand`, `RuleCommand.change` — the commands, and what they do.
* `RuleCommand.ActsOnShown` — what a command does with the number of a rule that was displayed.
* `System.LargestKey` — a step gives a larger key than all before.

## Main results

* `RuleCommand.change_shown` — a command with a number that was listed or offered never changes a
  rule that is older than the one that had it, and changes this one if and only if it and all older
  ones of the user are still there.
-/

namespace DonutMonitor

open Transition

/-! ### Choices -/

/-- `app_commands.Choice`. -/
structure Choice (α : Type) where
  name : String
  value : α

/-- The characters of a text that a choice shows. -/
def Choice.cut (text : String) : String := .ofList (text.toList.take 100)

/-- `rule_autocomplete`; the first argument is `str.casefold`. -/
def ruleAutocomplete (casefold : String → String) (s : Store) (discordUserId : ℤ)
    (current : String) : Except ServiceError (List (Choice ℕ)) :=
  match WatchService.list discordUserId s with
  | .error .notAuthenticatedError => .ok []
  | .error error => .error error
  | .ok rules =>
    let needle := strip current
    .ok (((rules.filter fun displayed =>
      needle = "" ∨ needle.toList <:+: (toString displayed.displayId).toList ∨
        (casefold needle).toList <:+: (casefold displayed.rule.displayName).toList).map
      fun displayed =>
        ⟨Choice.cut s!"#{displayed.displayId} {displayed.rule.displayName}",
          displayed.displayId⟩).take 25)

/-- A choice has the number and the name of a rule that the list shows. -/
theorem listed_of_mem_ruleAutocomplete {casefold : String → String} {s : Store} {discordUserId : ℤ}
    {current : String} {choices : List (Choice ℕ)} {choice : Choice ℕ}
    (h : ruleAutocomplete casefold s discordUserId current = .ok choices) (hc : choice ∈ choices) :
    ∃ displayed d, WatchService.list discordUserId s = .ok displayed ∧ d ∈ displayed ∧
      choice.value = d.displayId ∧
        choice.name = Choice.cut s!"#{d.displayId} {d.rule.displayName}" := by
  rw [ruleAutocomplete] at h
  split at h
  · obtain rfl := Except.ok.inj h
    cases hc
  · cases h
  · next rules hlist =>
    obtain rfl := Except.ok.inj h
    obtain ⟨d, hd, rfl⟩ := List.mem_map.mp (List.mem_of_mem_take hc)
    exact ⟨rules, d, hlist, List.mem_of_mem_filter hd, rfl, rfl⟩

theorem requireValidUser_eq_error {s : Store} {discordUserId : ℤ} {error : ServiceError}
    (h : requireValidUser s discordUserId = .error error) : error = .notAuthenticatedError := by
  rw [requireValidUser] at h
  split at h
  · split_ifs at h
    exact (Except.error.inj h).symm
  · exact (Except.error.inj h).symm

theorem ruleByDisplayId_succ (rules : List WatchRule) (i : ℕ) :
    ruleByDisplayId rules ((i + 1 : ℕ) : ℤ) = rules[i]? := by
  have hi : (((i + 1 : ℕ) : ℤ) - 1).toNat = i := by omega
  rw [ruleByDisplayId, hi]
  split_ifs with hout
  · rw [List.getElem?_eq_none (by omega)]
  · rfl

theorem mem_of_ruleByDisplayId {rules : List WatchRule} {displayId : ℤ} {rule : WatchRule}
    (h : ruleByDisplayId rules displayId = some rule) : rule ∈ rules := by
  rw [ruleByDisplayId] at h
  split_ifs at h
  exact List.mem_of_getElem? h

/-! ### Listed rules -/

/-- The rules of a user are listed in the order of their keys. -/
theorem WatchRuleRepository.listForUser_sorted (s : Store) (discordUserId : ℤ) :
    ((WatchRuleRepository.listForUser s discordUserId).map (·.id)).Pairwise (· < ·) := by
  have hperm := List.perm_insertionSort (fun r r' : WatchRule => r.id ≤ r'.id)
    (s.watchRules.rows.filter (·.discordUserId = discordUserId))
  have hnodup : ((WatchRuleRepository.listForUser s discordUserId).map (·.id)).Nodup :=
    (hperm.map _).nodup_iff.mpr (s.nodup_rulesOf discordUserId)
  have hsorted : ((WatchRuleRepository.listForUser s discordUserId).map (·.id)).Pairwise (· ≤ ·) :=
    List.pairwise_map.mpr (List.pairwise_insertionSort _ _)
  exact hsorted.imp₂ (fun _ _ hle hne => hle.lt_of_ne hne) hnodup

theorem WatchRuleRepository.mem_listForUser {s : Store} {discordUserId : ℤ} {rule : WatchRule} :
    rule ∈ WatchRuleRepository.listForUser s discordUserId ↔
      s.watchRules.get? rule.id = some rule ∧ rule.discordUserId = discordUserId := by
  rw [WatchRuleRepository.listForUser, List.mem_insertionSort, List.mem_filter,
    Table.mem_rows_iff, decide_eq_true_iff]

/-! ### Commands -/

/-- `/watch delete`, `/watch pause` and `/watch resume`. -/
inductive RuleCommand where
  | delete
  | pause
  | resume
  deriving DecidableEq

namespace RuleCommand

/-- The transaction of a command. -/
def transaction (discordUserId displayId : ℤ) : RuleCommand → Transaction
  | delete => .delete discordUserId displayId
  | pause => .setEnabled discordUserId displayId false
  | resume => .setEnabled discordUserId displayId true

/-- The text that tells of a success. -/
def success : RuleCommand → String
  | delete => "Rule deleted."
  | pause => "Rule paused."
  | resume => "Rule resumed."

/-- What the command does with the rule that it finds. -/
def onRule (s : Store) (discordUserId : ℤ) (ruleId : ℕ) : RuleCommand → Store × Bool
  | delete => WatchRuleRepository.delete s discordUserId ruleId
  | pause => WatchRuleRepository.setEnabled s discordUserId ruleId false
  | resume => WatchRuleRepository.setEnabled s discordUserId ruleId true

/-- What the command does to its rule. -/
def event : RuleCommand → RuleEvent
  | delete => .deleted
  | pause => .enabledSet false
  | resume => .enabledSet true

variable (env : Environment) (db : Database) (discordUserId displayId : ℤ)

/-- `_change_rule`: the text that it sends, and what it makes of the database. -/
def change (command : RuleCommand) : String × Database :=
  match db.commit env none (command.transaction discordUserId displayId) with
  | .error error => (friendlyError error, db)
  | .ok (answer, db') => (if answer.hasChanged then command.success else "Rule not found.", db')

/-- The command has changed the rule, and nothing else. -/
structure Changed (command : RuleCommand) (db' : Database) (rule : WatchRule) : Prop where
  view : ∃ v, db.store.view rule.id = some v ∧ v.rule = rule ∧
    RuleLife.step env.decimal (some v) command.event = some (db'.store.view rule.id)
  only : db.OnlyRule db' rule.id

variable {env db discordUserId displayId}

theorem transaction_ruleEvent (command : RuleCommand) (s : Store) (key : ℕ) :
    (command.transaction discordUserId displayId).ruleEvent s key =
      if Transaction.displayedId s discordUserId displayId = some key then
        Transaction.ownedEvent s discordUserId key command.event else none := by
  cases command <;> rfl

/-- A command that is not refused looks for the rule under the number. -/
theorem exec_eq (command : RuleCommand) (s : Store) :
    (command.transaction discordUserId displayId).exec env s =
      (requireValidUser s discordUserId).bind fun _ =>
        (ruleByDisplayId (WatchRuleRepository.listForUser s discordUserId) displayId).elim
          (.ok (.changed false, s)) fun rule =>
            .ok (.changed (command.onRule s discordUserId rule.id).2,
              (command.onRule s discordUserId rule.id).1) := by
  cases command <;> dsimp only [transaction, Transaction.exec, WatchService.delete,
    WatchService.setEnabled] <;> cases requireValidUser s discordUserId with
    | error error => rfl
    | ok user =>
      cases ruleByDisplayId (WatchRuleRepository.listForUser s discordUserId) displayId <;> rfl

/-- A command is refused, finds no rule under the number, or changes the rule that it finds. -/
theorem change_cases (command : RuleCommand) :
    ((command.change env db discordUserId displayId) =
        (friendlyError .notAuthenticatedError, db) ∧
        ∀ user, requireValidUser db.store discordUserId ≠ .ok user) ∨
      ((command.change env db discordUserId displayId).1 = "Rule not found." ∧
        (command.change env db discordUserId displayId).2.store = db.store ∧
        ruleByDisplayId (WatchRuleRepository.listForUser db.store discordUserId) displayId = none) ∨
      ((command.change env db discordUserId displayId).1 = command.success ∧ ∃ rule,
        ruleByDisplayId (WatchRuleRepository.listForUser db.store discordUserId) displayId =
          some rule ∧
        command.Changed env db (command.change env db discordUserId displayId).2 rule) := by
  have hexec : (command.transaction discordUserId displayId).exec env db.store = _ :=
    exec_eq command db.store
  cases huser : requireValidUser db.store discordUserId with
  | error error =>
    obtain rfl := requireValidUser_eq_error huser
    rw [huser] at hexec
    exact .inl ⟨by rw [change, Database.commit, hexec]; rfl, nofun⟩
  | ok user =>
    rw [huser] at hexec
    cases hfound : ruleByDisplayId (WatchRuleRepository.listForUser db.store discordUserId)
        displayId with
    | none =>
      rw [hfound] at hexec
      refine .inr (.inl ⟨?_, ?_, rfl⟩) <;> rw [change, Database.commit, hexec] <;> rfl
    | some rule =>
      rw [hfound] at hexec
      obtain ⟨hrule, howner⟩ := WatchRuleRepository.mem_listForUser.mp
        (mem_of_ruleByDisplayId hfound)
      have howned := WatchRuleRepository.getOwned_eq_some.mpr ⟨hrule, howner⟩
      obtain ⟨store, hstore, husers, hobservations⟩ : ∃ store,
          (command.transaction discordUserId displayId).exec env db.store =
            .ok (.changed true, store) ∧ store.users = db.store.users ∧
              store.observations = db.store.observations := by
        have hsome := congrArg Option.isSome howned
        cases command <;> exact
          ⟨_, hexec.trans (congrArg (fun b => Except.ok (Answer.changed b, _)) hsome), rfl, rfl⟩
      have hevent : ∀ key, (command.transaction discordUserId displayId).ruleEvent db.store key =
          if key = rule.id then Transaction.ownedEvent db.store discordUserId key command.event
          else none := fun key => by
        have hdisplayed : Transaction.displayedId db.store discordUserId displayId = some rule.id :=
          congrArg (Option.map WatchRule.id) hfound
        rw [transaction_ruleEvent, hdisplayed]
        simp only [Option.some.injEq, eq_comm]
      obtain ⟨hothers, -, hown⟩ := Transaction.exec_own hevent hstore
      have hview : db.store.view rule.id = some ⟨rule, db.store.alerts rule.id⟩ :=
        Store.view_eq_some.mpr ⟨hrule, rfl⟩
      refine .inr (.inr ?_)
      rw [change, Database.commit, hstore]
      exact ⟨rfl, rule, rfl, ⟨_, hview, rfl, hown _ hview howner⟩, husers, hobservations, hothers⟩

end RuleCommand

/-! ### Larger keys -/

namespace System

/-- When a step creates a rule, its key is larger than all that have been given. -/
def LargestKey (s : System) : Label → Prop
  | .commit i input => ∀ draft ∈ s.tasks[i]?.bind Task.creates, ∀ key ∈ s.database.ruleKeys,
      key < input.ruleKey
  | .operation _ | .startAdd _ | .startPoll _ | .reject _ _ | .fetched _ _ | .sent _ _ => True

instance (s : System) : DecidablePred s.LargestKey
  | .commit i _ => inferInstanceAs (Decidable (∀ draft ∈ s.tasks[i]?.bind Task.creates, _))
  | .operation _ | .startAdd _ | .startPoll _ | .reject _ _ | .fetched _ _ | .sent _ _ =>
    .isTrue trivial

variable {env : Environment} {s s' : System} {label : Label} {later : List Label}

/-- A rule that is stored under an old key was there before the step, with the same terms. -/
theorem view_of_largestKey (hlargest : s.LargestKey label) (h : s.step env label = some s')
    {key id : ℕ} (hkey : key ∈ s.database.ruleKeys) (hid : id ≤ key) {v' : RuleView}
    (hv' : s'.database.store.view id = some v') :
    ∃ v, s.database.store.view id = some v ∧ v'.rule.discordUserId = v.rule.discordUserId ∧
      v'.rule.request = v.rule.request ∧ v'.rule.thresholdRule = v.rule.thresholdRule := by
  rcases step_database h with hsame | ⟨origin, t, answer, hcommit, hwho⟩
  · exact ⟨v', hsame ▸ hv', rfl, rfl, rfl⟩
  have hview := Transaction.exec_view (Database.commit_eq_ok.mp hcommit).1 id
  cases hevent : t.ruleEvent s.database.store id with
  | none =>
    rw [hevent] at hview
    exact ⟨v', (Option.some.inj hview).trans hv', rfl, rfl, rfl⟩
  | some e =>
    rw [hevent, Option.toList_some, run_singleton, hv'] at hview
    cases hv : s.database.store.view id with
    | some v =>
      rw [hv] at hview
      exact ⟨v, rfl, (RuleLife.step_terms hview).2⟩
    | none =>
      rw [hv] at hview
      cases e with
      | created id' draft =>
        obtain ⟨rfl, rfl⟩ := Transaction.ruleEvent_eq_created hevent
        rcases hwho with ⟨operation, -, ht⟩ | ⟨i, input, task, rfl, htask, hpending⟩
        · exact absurd ht Operation.not_create
        · obtain ⟨hcreates, rfl⟩ := Task.creates_of_pending hpending
          have hlt := hlargest draft (by rw [htask]; exact hcreates) key hkey
          omega
      | enabledSet enabled => simp at hview
      | deleted => simp at hview
      | evaluated o => simp at hview

/-- A rule that is stored under an old key was there before the run, with the same terms. -/
theorem run_view_of_largestKey (hlargest : Along (step env) LargestKey s later)
    (hrun : run (step env) s later = some s') {key id : ℕ} (hkey : key ∈ s.database.ruleKeys)
    (hid : id ≤ key) {v' : RuleView} (hv' : s'.database.store.view id = some v') :
    ∃ v, s.database.store.view id = some v ∧ v'.rule.discordUserId = v.rule.discordUserId ∧
      v'.rule.request = v.rule.request ∧ v'.rule.thresholdRule = v.rule.thresholdRule := by
  refine (run_invariant_along (step env) (I := fun t : System => key ∈ t.database.ruleKeys ∧
    ∀ v', t.database.store.view id = some v' → ∃ v, s.database.store.view id = some v ∧
      v'.rule.discordUserId = v.rule.discordUserId ∧ v'.rule.request = v.rule.request ∧
        v'.rule.thresholdRule = v.rule.thresholdRule) ?_ hlargest hrun
    ⟨hkey, fun v hv => ⟨v, hv, rfl, rfl, rfl⟩⟩).2 v' hv'
  rintro t label t' ⟨hgiven, hview⟩ hlargest hstep
  refine ⟨ruleKeys_subset hstep hgiven, fun v' hv' => ?_⟩
  obtain ⟨w, hw, huser, hrequest, hterms⟩ := view_of_largestKey hlargest hstep hgiven hid hv'
  obtain ⟨v, hv, huser', hrequest', hterms'⟩ := hview w hw
  exact ⟨v, hv, huser.trans huser', hrequest.trans hrequest', hterms.trans hterms'⟩

variable {discordUserId : ℤ} {key : ℕ} {rule : WatchRule}

/-- A rule that is listed under an old key was listed before the run. -/
theorem listed_of_largestKey (hlargest : Along (step env) LargestKey s later)
    (hrun : run (step env) s later = some s') (hkey : key ∈ s.database.ruleKeys)
    (hrule : rule ∈ WatchRuleRepository.listForUser s'.database.store discordUserId)
    (hle : rule.id ≤ key) :
    ∃ before ∈ WatchRuleRepository.listForUser s.database.store discordUserId,
      before.id = rule.id ∧ rule.request = before.request ∧
        rule.thresholdRule = before.thresholdRule := by
  obtain ⟨hrow, howner⟩ := WatchRuleRepository.mem_listForUser.mp hrule
  obtain ⟨v, hv, huser, hterms⟩ := run_view_of_largestKey hlargest hrun hkey hle
    (Store.view_eq_some (v := ⟨rule, _⟩).mpr ⟨hrow, rfl⟩)
  have hid := Store.id_of_view hv
  exact ⟨v.rule, WatchRuleRepository.mem_listForUser.mpr
    ⟨hid ▸ (Store.view_eq_some.mp hv).1, huser.symm.trans howner⟩, hid, hterms⟩

/-- A rule that was listed before the run is listed after it as long as it is stored. -/
theorem listed_iff_of_largestKey (hlargest : Along (step env) LargestKey s later)
    (hrun : run (step env) s later = some s') (hkey : key ∈ s.database.ruleKeys)
    (hrule : rule ∈ WatchRuleRepository.listForUser s.database.store discordUserId)
    (hle : rule.id ≤ key) :
    rule.id ∈ (WatchRuleRepository.listForUser s'.database.store discordUserId).map (·.id) ↔
      (s'.database.store.view rule.id).isSome := by
  obtain ⟨hrow, howner⟩ := WatchRuleRepository.mem_listForUser.mp hrule
  constructor
  · intro hmem
    obtain ⟨rule', hrule', hid⟩ := List.mem_map.mp hmem
    have hrow' := (WatchRuleRepository.mem_listForUser.mp hrule').1
    rw [← hid, Store.view_eq_some (v := ⟨rule', _⟩).mpr ⟨hrow', rfl⟩, Option.isSome_some]
  · intro hsome
    obtain ⟨v', hv'⟩ := Option.isSome_iff_exists.mp hsome
    obtain ⟨v, hv, huser, -⟩ := run_view_of_largestKey hlargest hrun hkey hle hv'
    obtain rfl := Option.some.inj (hrow.symm.trans (Store.view_eq_some.mp hv).1)
    have hid := Store.id_of_view hv'
    exact List.mem_map.mpr ⟨v'.rule, WatchRuleRepository.mem_listForUser.mpr
      ⟨hid ▸ (Store.view_eq_some.mp hv').1, huser.trans howner⟩, hid⟩

end System

/-! ### Numbers that were shown -/

namespace RuleCommand

variable {env : Environment} {s s' : System} {later : List Label} {discordUserId : ℤ}
  {displayed : List DisplayedRule} {d : DisplayedRule}

/-- A number that was shown leads to no older rule than the one that had it, and to this one if and
only if it and all older ones are still there. -/
theorem shown (hs : System.Reachable env s)
    (hlargest : Along (System.step env) System.LargestKey s later)
    (hrun : run (System.step env) s later = some s')
    (hshown : WatchService.list discordUserId s.database.store = .ok displayed)
    (hd : d ∈ displayed) :
    (∀ rule, ruleByDisplayId (WatchRuleRepository.listForUser s'.database.store discordUserId)
        d.displayId = some rule → d.rule.id ≤ rule.id ∧ (rule.id = d.rule.id →
          rule.request = d.rule.request ∧ rule.thresholdRule = d.rule.thresholdRule)) ∧
      ((∃ rule, ruleByDisplayId (WatchRuleRepository.listForUser s'.database.store discordUserId)
          d.displayId = some rule ∧ rule.id = d.rule.id) ↔
        ∀ d' ∈ displayed, d'.displayId ≤ d.displayId →
          (s'.database.store.view d'.rule.id).isSome) := by
  obtain ⟨user, -, hshown⟩ := Except.bind_eq_ok.mp hshown
  obtain rfl := Except.ok.inj hshown
  have hsorted := WatchRuleRepository.listForUser_sorted s.database.store discordUserId
  have hsorted' := WatchRuleRepository.listForUser_sorted s'.database.store discordUserId
  obtain ⟨i, hi, hnumber⟩ := mem_numberRules.mp hd
  have hindex : ((WatchRuleRepository.listForUser s.database.store discordUserId).map (·.id))[i]? =
      some d.rule.id := by rw [List.getElem?_map, hi, Option.map_some]
  have hgiven : d.rule.id ∈ s.database.ruleKeys := by
    have hrule := (WatchRuleRepository.mem_listForUser.mp (List.mem_of_getElem? hi)).1
    exact hs.database.mem_ruleKeys (Store.view_eq_some (v := ⟨d.rule, _⟩).mpr ⟨hrule, rfl⟩)
  have hold := fun rule => @System.listed_of_largestKey _ _ _ _ discordUserId _ rule hlargest hrun
    hgiven
  have hids : ∀ id ∈ (WatchRuleRepository.listForUser s'.database.store discordUserId).map (·.id),
      id ≤ d.rule.id →
        id ∈ (WatchRuleRepository.listForUser s.database.store discordUserId).map (·.id) := by
    intro id hid hle
    obtain ⟨rule, hrule, rfl⟩ := List.mem_map.mp hid
    obtain ⟨before, hbefore, hsame, -⟩ := hold rule hrule hle
    exact List.mem_map.mpr ⟨before, hbefore, hsame⟩
  rw [hnumber, ruleByDisplayId_succ]
  refine ⟨fun rule hrule => ?_, ?_⟩
  · have hindex' : ((WatchRuleRepository.listForUser s'.database.store discordUserId).map
        (·.id))[i]? = some rule.id := by rw [List.getElem?_map, hrule, Option.map_some]
    refine ⟨Rank.le_of_getElem? hsorted hsorted' hids hindex hindex', fun hsame => ?_⟩
    obtain ⟨before, hbefore, hid, hterms⟩ := hold rule (List.mem_of_getElem? hrule) hsame.le
    have hbefore := (WatchRuleRepository.mem_listForUser.mp hbefore).1
    have hlisted := (WatchRuleRepository.mem_listForUser.mp (List.mem_of_getElem? hi)).1
    rw [hid.trans hsame, hlisted] at hbefore
    rwa [Option.some.inj hbefore]
  have hkept := fun rule => @System.listed_iff_of_largestKey _ _ _ _ discordUserId _ rule hlargest
    hrun hgiven
  have hposition : (∃ rule,
      (WatchRuleRepository.listForUser s'.database.store discordUserId)[i]? = some rule ∧
        rule.id = d.rule.id) ↔ ((WatchRuleRepository.listForUser s'.database.store
          discordUserId).map (·.id))[i]? = some d.rule.id := by
    rw [List.getElem?_map, Option.map_eq_some_iff]
  rw [hposition, Rank.getElem?_iff_kept hsorted hsorted' hids hindex]
  constructor
  · rintro ⟨hself, holder⟩ d' hd' hle
    obtain ⟨j, hj, hnumber'⟩ := mem_numberRules.mp hd'
    have hmem := List.mem_of_getElem? hj
    have hle : d'.rule.id ≤ d.rule.id := (Rank.index_le_iff hsorted hindex
      (by rw [List.getElem?_map, hj, Option.map_some])).mp (by omega)
    refine (hkept d'.rule hmem hle).mp ?_
    rcases hle.eq_or_lt with heq | hlt
    · rwa [heq]
    · exact holder _ (List.mem_map_of_mem hmem) hlt
  · intro hall
    refine ⟨(hkept d.rule (List.mem_of_getElem? hi) le_rfl).mpr (hall d hd hnumber.le), ?_⟩
    intro id hid hlt
    obtain ⟨rule, hrule, rfl⟩ := List.mem_map.mp hid
    obtain ⟨j, hj⟩ := List.mem_iff_getElem?.mp hrule
    have hle := (Rank.index_le_iff hsorted hindex
      (by rw [List.getElem?_map, hj, Option.map_some])).mpr hlt.le
    exact (hkept rule hrule hlt.le).mpr
      (hall ⟨j + 1, rule⟩ (mem_numberRules.mpr ⟨j, hj, rfl⟩) (by simp only; omega))

/-- A command with the number of `d`, which was one of the displayed rules, is refused; or it finds
no rule, and changes none; or it changes a rule of the user that is not older than `d`, and this
very one if and only if it and all older ones are still there. -/
def ActsOnShown (env : Environment) (db : Database) (discordUserId : ℤ)
    (displayed : List DisplayedRule) (d : DisplayedRule) (command : RuleCommand) : Prop :=
  (command.change env db discordUserId d.displayId = (friendlyError .notAuthenticatedError, db) ∧
      ∀ user, requireValidUser db.store discordUserId ≠ .ok user) ∨
    ((command.change env db discordUserId d.displayId).1 = "Rule not found." ∧
      (command.change env db discordUserId d.displayId).2.store = db.store ∧
      ∃ d' ∈ displayed, d'.displayId ≤ d.displayId ∧ db.store.view d'.rule.id = none) ∨
    ((command.change env db discordUserId d.displayId).1 = command.success ∧ ∃ rule,
      command.Changed env db (command.change env db discordUserId d.displayId).2 rule ∧
      rule.discordUserId = discordUserId ∧ d.rule.id ≤ rule.id ∧
      (rule.id = d.rule.id ↔ ∀ d' ∈ displayed, d'.displayId ≤ d.displayId →
        (db.store.view d'.rule.id).isSome) ∧
      (rule.id = d.rule.id →
        rule.request = d.rule.request ∧ rule.thresholdRule = d.rule.thresholdRule))

private theorem actsOnShown_of_listed (hs : System.Reachable env s)
    (hlargest : Along (System.step env) System.LargestKey s later)
    (hrun : run (System.step env) s later = some s')
    (hshown : WatchService.list discordUserId s.database.store = .ok displayed)
    (hd : d ∈ displayed) (command : RuleCommand) :
    command.ActsOnShown env s'.database discordUserId displayed d := by
  obtain ⟨hfound, hsame⟩ := shown hs hlargest hrun hshown hd
  rcases @change_cases env s'.database discordUserId d.displayId command with
    hrefused | ⟨htext, hstore, hnone⟩ | ⟨htext, rule, hrule, hchanged⟩
  · exact .inl hrefused
  · refine .inr (.inl ⟨htext, hstore, ?_⟩)
    by_contra hall
    obtain ⟨rule, hrule, -⟩ := hsame.mpr fun d' hd' hle => by
      by_contra hgone
      exact hall ⟨d', hd', hle, by simpa using hgone⟩
    rw [hnone] at hrule
    cases hrule
  · obtain ⟨hle, hterms⟩ := hfound rule hrule
    refine .inr (.inr ⟨htext, rule, hchanged, ?_, hle, ?_, hterms⟩)
    · exact (WatchRuleRepository.mem_listForUser.mp (mem_of_ruleByDisplayId hrule)).2
    · rw [← hsame]
      refine ⟨fun hid => ⟨rule, hrule, hid⟩, ?_⟩
      rintro ⟨rule', hrule', hid⟩
      rw [hrule] at hrule'
      rwa [Option.some.inj hrule']

/-- What the commands do with a number that `/watch list` has shown, or that the autocompletion has
offered for any text: a choice has the number and the name of a rule of the list. -/
theorem change_shown (hs : System.Reachable env s)
    (hlargest : Along (System.step env) System.LargestKey s later)
    (hrun : run (System.step env) s later = some s') (discordUserId : ℤ) (command : RuleCommand) :
    (∀ displayed, WatchService.list discordUserId s.database.store = .ok displayed →
      ∀ d ∈ displayed, command.ActsOnShown env s'.database discordUserId displayed d) ∧
    ∀ (casefold : String → String) (current : String) (choices : List (Choice ℕ)),
      ruleAutocomplete casefold s.database.store discordUserId current = .ok choices →
        ∀ choice ∈ choices, ∃ displayed d,
          WatchService.list discordUserId s.database.store = .ok displayed ∧ d ∈ displayed ∧
          choice.value = d.displayId ∧
          choice.name = Choice.cut s!"#{d.displayId} {d.rule.displayName}" ∧
          command.ActsOnShown env s'.database discordUserId displayed d := by
  refine ⟨fun displayed hshown d hd => actsOnShown_of_listed hs hlargest hrun hshown hd command,
    fun casefold current choices hchoices choice hchoice => ?_⟩
  obtain ⟨displayed, d, hshown, hd, hvalue, hname⟩ :=
    listed_of_mem_ruleAutocomplete hchoices hchoice
  exact ⟨displayed, d, hshown, hd, hvalue, hname,
    actsOnShown_of_listed hs hlargest hrun hshown hd command⟩

/-- Two watches are listed. -/
def twoListed : List Label :=
  [.operation (.authenticate 1 "token" 0), .startAdd .elytra, .commit 0 { ruleKey := 1 },
    .startAdd .elytra, .commit 1 { ruleKey := 2 }]

/-- The first one is deleted, and another is added. -/
def renumbered : List Label :=
  [.operation (.deleteByDatabaseId 1 1), .startAdd .elytra, .commit 2 { ruleKey := 3 }]

/-- The number of the second watch, which the autocompletion has offered, then leads to the
third. -/
theorem change_shown_renumbered : ∃ s s' choices displayed d rule,
    run (System.step .plain) {} twoListed = some s ∧
    run (System.step .plain) s renumbered = some s' ∧
    ruleAutocomplete id s.database.store 1 "2" = .ok choices ∧
    choices.map (·.value) = [2] ∧ choices.map (·.name) = ["#2 Elytra"] ∧
    WatchService.list 1 s.database.store = .ok displayed ∧ d ∈ displayed ∧ d.displayId = 2 ∧
    Changed .plain s'.database .delete (change .plain s'.database 1 2 .delete).2 rule ∧
    d.rule.id ≤ rule.id ∧
    (rule.id = d.rule.id ↔ ∀ d' ∈ displayed, d'.displayId ≤ 2 →
      (s'.database.store.view d'.rule.id).isSome) := by
  have hrun : ((run (System.step .plain) {} twoListed).bind fun s : System =>
      (run (System.step .plain) s renumbered).bind fun s' : System =>
        (ruleAutocomplete id s.database.store 1 "2").toOption.map fun choices => decide (
          Along (System.step .plain) System.LargestKey s renumbered ∧
          choices.map (·.value) = [2] ∧ choices.map (·.name) = ["#2 Elytra"] ∧
          (change .plain s'.database 1 2 .delete).1 = "Rule deleted.")) = some true := by
    decide +kernel
  obtain ⟨s, hs, hrun⟩ := Option.bind_eq_some_iff.mp hrun
  obtain ⟨s', hs', hrun⟩ := Option.bind_eq_some_iff.mp hrun
  obtain ⟨choices, hchoices, hrun⟩ := Option.map_eq_some_iff.mp hrun
  obtain ⟨hlargest, hvalues, hnames, htext⟩ := of_decide_eq_true hrun
  have hok := Except.toOption_eq_some.mp hchoices
  obtain ⟨choice, rfl, hvalue⟩ := List.map_eq_singleton_iff.mp hvalues
  obtain ⟨displayed, d, hlist, hd, hnumber, -, hacts⟩ :=
    (change_shown ⟨twoListed, hs⟩ hlargest hs' 1 .delete).2 id "2" [choice] hok choice
      List.mem_cons_self
  have hdisplay : d.displayId = 2 := hnumber.symm.trans hvalue
  rw [ActsOnShown, hdisplay, Nat.cast_ofNat] at hacts
  rcases hacts with ⟨hrefused, -⟩ | ⟨hnone, -⟩ | ⟨-, rule, hchanged, -, hle, hsame, -⟩
  · rw [congrArg Prod.fst hrefused] at htext
    exact absurd htext (show friendlyError .notAuthenticatedError ≠ "Rule deleted." by decide)
  · rw [hnone] at htext
    exact absurd htext (by decide)
  · exact ⟨s, s', [choice], displayed, d, rule, hs, hs', hok, hvalues, hnames, hlist, hd, hdisplay,
      hchanged, hle, hsame⟩

end RuleCommand

end DonutMonitor
