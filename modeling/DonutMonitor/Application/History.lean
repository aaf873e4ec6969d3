import DonutMonitor.Application.Effects

/-!
# Histories of committed transactions

A `Database` is a store together with the transactions that led to it, each with the store it read.
Transactions commit one after another, whoever runs them; one that raises leaves no trace. The rows
of a rule and of a user are determined by the events in the history.

## Main definitions

* `Database`, `Database.commit`, `Database.step` — the database and one more transaction.
* `Database.ruleEvents`, `Database.userEvents` — the events of a rule and of a user.
* `CreatedBy` — the origin and the values of the rule that is stored under a key.

## Main results

* `Database.Reachable.view_eq`, `Database.Reachable.credentials_eq` — a rule is what its events
  make of it, and so is a user.
* `Database.Reachable.before` — each transaction of the history was committed in a database
  reachable itself.
* `Database.Reachable.createdBy` — every stored rule has an origin.
-/

namespace DonutMonitor

open Transition

/-- A committed transaction: the call that ran it, when it is one of several, and the store it
read. -/
structure Commit where
  origin : Option ℕ
  before : Store
  transaction : Transaction

/-- What the commit does to the rule with the given key. -/
def Commit.ruleEvent (c : Commit) (id : ℕ) : Option RuleEvent := c.transaction.ruleEvent c.before id

/-- What the commit does to the user with the given id. -/
def Commit.userEvent (c : Commit) (discordUserId : ℤ) : Option UserEvent :=
  c.transaction.userEvent c.before discordUserId

/-- The rule that the history leaves under a key was created from the draft by a commit of the
given origin. -/
def CreatedBy (history : List Commit) (id : ℕ) (origin : Option ℕ) (draft : RuleDraft) : Prop :=
  ∃ pre c post, history = pre ++ c :: post ∧ c.origin = origin ∧
    c.ruleEvent id = some (.created id draft) ∧ ∀ c' ∈ post, c'.ruleEvent id ≠ some .deleted

theorem CreatedBy.concat {history : List Commit} {id : ℕ} {origin : Option ℕ} {draft : RuleDraft}
    (h : CreatedBy history id origin draft) {c : Commit} (hc : c.ruleEvent id ≠ some .deleted) :
    CreatedBy (history ++ [c]) id origin draft := by
  obtain ⟨pre, c₀, post, rfl, horigin, hevent, hkept⟩ := h
  refine ⟨pre, c₀, post ++ [c], by simp, horigin, hevent, fun c' hc' => ?_⟩
  rcases List.mem_append.mp hc' with hc' | hc'
  · exact hkept c' hc'
  · exact List.mem_singleton.mp hc' ▸ hc

/-- The database, with the transactions committed so far. -/
structure Database where
  store : Store := .empty
  history : List Commit := []

namespace Database

variable (env : Environment)

/-- Run a transaction. An exception rolls it back. -/
def commit (db : Database) (origin : Option ℕ) (t : Transaction) :
    Except ServiceError (Answer × Database) :=
  match t.exec env db.store with
  | .error e => .error e
  | .ok (answer, store) => .ok (answer, ⟨store, db.history ++ [⟨origin, db.store, t⟩]⟩)

/-- One committed transaction. -/
def step (db : Database) (label : Option ℕ × Transaction) : Option Database :=
  match db.commit env label.1 label.2 with
  | .error _ => none
  | .ok (_, db') => some db'

/-- The databases that some order of transactions leads to. -/
abbrev Reachable (db : Database) : Prop := Transition.Reachable (step env) {} db

/-- The events of the rule with the given key. -/
def ruleEvents (db : Database) (id : ℕ) : List RuleEvent := db.history.filterMap (·.ruleEvent id)

/-- The events of a user. -/
def userEvents (db : Database) (discordUserId : ℤ) : List UserEvent :=
  db.history.filterMap (·.userEvent discordUserId)

variable {env} {db db' : Database} {origin : Option ℕ} {t : Transaction} {answer : Answer}

theorem commit_eq_ok :
    db.commit env origin t = .ok (answer, db') ↔
      t.exec env db.store = .ok (answer, db'.store) ∧
        db'.history = db.history ++ [⟨origin, db.store, t⟩] := by
  rw [commit]
  cases hexec : t.exec env db.store with
  | error e => simp
  | ok result =>
    obtain ⟨answer', store⟩ := result
    obtain ⟨store', history'⟩ := db'
    simp only [Except.ok.injEq, Prod.mk.injEq, mk.injEq]
    exact ⟨fun h => ⟨⟨h.1, h.2.1⟩, h.2.2.symm⟩, fun h => ⟨h.1.1, h.1.2, h.2.symm⟩⟩

theorem step_eq_some :
    db.step env (origin, t) = some db' ↔ ∃ answer, db.commit env origin t = .ok (answer, db') := by
  rw [step]
  cases db.commit env origin t with
  | error e => simp
  | ok result => simp [Prod.ext_iff]

theorem ruleEvents_commit (h : db.commit env origin t = .ok (answer, db')) (id : ℕ) :
    db'.ruleEvents id = db.ruleEvents id ++ (t.ruleEvent db.store id).toList := by
  rw [ruleEvents, (commit_eq_ok.mp h).2, List.filterMap_append]
  cases hevent : t.ruleEvent db.store id <;> simp [ruleEvents, Commit.ruleEvent, hevent]

theorem userEvents_commit (h : db.commit env origin t = .ok (answer, db')) (discordUserId : ℤ) :
    db'.userEvents discordUserId =
      db.userEvents discordUserId ++ (t.userEvent db.store discordUserId).toList := by
  rw [userEvents, (commit_eq_ok.mp h).2, List.filterMap_append]
  cases hevent : t.userEvent db.store discordUserId <;>
    simp [userEvents, Commit.userEvent, hevent]

namespace Reachable

theorem commit (h : Reachable env db) (hc : db.commit env origin t = .ok (answer, db')) :
    Reachable env db' :=
  h.tail (step_eq_some.mpr ⟨answer, hc⟩)

/-- A rule and its notifications are what the events of the rule make of them. -/
theorem view_eq (h : Reachable env db) (id : ℕ) :
    run (RuleLife.step env.decimal) none (db.ruleEvents id) = some (db.store.view id) := by
  refine h.invariant (I := fun db => run (RuleLife.step env.decimal) none (db.ruleEvents id) =
    some (db.store.view id)) (fun db label db' hdb hstep => ?_) rfl
  obtain ⟨answer, hc⟩ := step_eq_some.mp hstep
  rw [ruleEvents_commit hc, run_append]
  exact ⟨_, hdb, Transaction.exec_view (commit_eq_ok.mp hc).1 id⟩

/-- The credentials of a user are what the events of the user make of them. -/
theorem credentials_eq (h : Reachable env db) (discordUserId : ℤ) :
    run UserLife.step none (db.userEvents discordUserId) =
      some (db.store.credentials discordUserId) := by
  refine h.invariant (I := fun db => run UserLife.step none (db.userEvents discordUserId) =
    some (db.store.credentials discordUserId)) (fun db label db' hdb hstep => ?_) rfl
  obtain ⟨answer, hc⟩ := step_eq_some.mp hstep
  rw [userEvents_commit hc, run_append]
  exact ⟨_, hdb, Transaction.exec_credentials (commit_eq_ok.mp hc).1 discordUserId⟩

/-- Each transaction of the history was committed in a reachable database, whose history is the
part before it. -/
theorem before (h : Reachable env db) {pre post : List Commit} {c : Commit}
    (hsplit : db.history = pre ++ c :: post) :
    Reachable env ⟨c.before, pre⟩ ∧
      ∃ answer store, c.transaction.exec env c.before = .ok (answer, store) := by
  have hinv := h.invariant (I := fun db => Reachable env db ∧
    ∀ pre c post, db.history = pre ++ c :: post → Reachable env ⟨c.before, pre⟩ ∧
      ∃ answer store, c.transaction.exec env c.before = .ok (answer, store)) ?_ ?_
  · exact hinv.2 pre c post hsplit
  · rintro db ⟨origin, t⟩ db' ⟨hdb, hpre⟩ hstep
    obtain ⟨answer, hc⟩ := step_eq_some.mp hstep
    refine ⟨hdb.commit hc, fun pre c post hsplit => ?_⟩
    obtain ⟨hexec, hhistory⟩ := commit_eq_ok.mp hc
    rw [hhistory] at hsplit
    rcases List.eq_nil_or_concat post with rfl | ⟨post, last, rfl⟩
    · obtain ⟨rfl, hlast⟩ := List.append_inj' hsplit rfl
      obtain rfl := (List.singleton_inj.mp hlast).symm
      exact ⟨hdb, answer, db'.store, hexec⟩
    · rw [List.concat_eq_append, ← List.cons_append, ← List.append_assoc] at hsplit
      exact hpre pre c post (List.append_inj' hsplit rfl).1
  · exact ⟨.refl _, fun pre c post hnil => absurd hnil (by simp)⟩

/-- From a commit of the history on, a rule is what the events since then make of it. -/
theorem run_view (h : Reachable env db) {pre post : List Commit} {c : Commit}
    (hsplit : db.history = pre ++ c :: post) (id : ℕ) :
    run (RuleLife.step env.decimal) (c.before.view id) ((c :: post).filterMap (·.ruleEvent id)) =
      some (db.store.view id) := by
  have hview := h.view_eq id
  have hbefore : run (RuleLife.step env.decimal) none (pre.filterMap (·.ruleEvent id)) =
    some (c.before.view id) := (h.before hsplit).1.view_eq id
  rw [ruleEvents, hsplit, List.filterMap_append] at hview
  obtain ⟨view, hview, hrun⟩ := (run_append _).mp hview
  rw [hbefore] at hview
  obtain rfl := Option.some.inj hview
  exact hrun

/-- A rule that has been created is what the events since then make of it. -/
theorem view_of_created (h : Reachable env db) {id : ℕ} {draft : RuleDraft}
    {pre post : List Commit} {c : Commit} (hsplit : db.history = pre ++ c :: post)
    (hcreated : c.ruleEvent id = some (.created id draft)) :
    run (RuleLife.step env.decimal) (some ⟨draft.row id, []⟩) (post.filterMap (·.ruleEvent id)) =
      some (db.store.view id) := by
  have hview := h.run_view hsplit id
  simp only [List.filterMap_cons, hcreated] at hview
  obtain ⟨view, hstep, hrun⟩ := (run_cons _).mp hview
  obtain ⟨-, rfl⟩ := (RuleLife.step_created id draft).mp hstep
  exact hrun

/-- No rule is stored under a key that is about to be created. -/
theorem view_before_created (h : Reachable env db) {id : ℕ} {draft : RuleDraft}
    {pre post : List Commit} {c : Commit} (hsplit : db.history = pre ++ c :: post)
    (hcreated : c.ruleEvent id = some (.created id draft)) : c.before.view id = none := by
  obtain ⟨-, answer, store, hexec⟩ := h.before hsplit
  have hview := Transaction.exec_view hexec id
  have hevent : c.transaction.ruleEvent c.before id = some (.created id draft) := hcreated
  rw [hevent, Option.toList_some, run_singleton] at hview
  exact ((RuleLife.step_created id draft).mp hview).1

/-- The rule that the history leaves under a key is stored, with the terms of its draft. -/
theorem view_of_createdBy (h : Reachable env db) {id : ℕ} {draft : RuleDraft}
    (hcreated : CreatedBy db.history id origin draft) : ∃ v, db.store.view id = some v ∧
      v.rule.discordUserId = draft.discordUserId ∧
      v.rule.request = (draft.itemId, draft.priceType) := by
  obtain ⟨pre, c, post, hsplit, -, hevent, hkept⟩ := hcreated
  obtain ⟨v, hv, -, huser, hrequest, -⟩ :=
    RuleLife.run_remains (h.view_of_created hsplit hevent) fun e he hdeleted => by
      obtain ⟨c', hc', he⟩ := List.mem_filterMap.mp he
      exact hkept c' hc' (he.trans (congrArg some hdeleted))
  exact ⟨v, hv, huser, hrequest⟩

/-- A stored rule has one origin. -/
theorem createdBy_unique (h : Reachable env db) {id : ℕ} {origin' : Option ℕ}
    {draft draft' : RuleDraft} (hc : CreatedBy db.history id origin draft)
    (hc' : CreatedBy db.history id origin' draft') : origin = origin' := by
  -- the later of the two creations found a rule under the key
  have hlater : ∀ {c c' : Commit} {pre mid post : List Commit} {draft draft' : RuleDraft},
      db.history = pre ++ c :: mid ++ c' :: post → c.ruleEvent id = some (.created id draft) →
      (∀ d ∈ mid ++ c' :: post, d.ruleEvent id ≠ some .deleted) →
      c'.ruleEvent id ≠ some (.created id draft') := by
    intro c c' pre mid post draft draft' hsplit hevent hkept hevent'
    obtain ⟨v, hv, -⟩ := view_of_createdBy (h.before hsplit).1
      ⟨pre, c, mid, rfl, rfl, hevent, fun d hd => hkept d (List.mem_append_left _ hd)⟩
    rw [h.view_before_created hsplit hevent'] at hv
    cases hv
  obtain ⟨pre, c, post, hsplit, rfl, hevent, hkept⟩ := hc
  obtain ⟨pre', c', post', hsplit', rfl, hevent', hkept'⟩ := hc'
  rcases List.append_eq_append_iff.mp (hsplit.symm.trans hsplit') with
    ⟨mid, rfl, hmid⟩ | ⟨mid, rfl, hmid⟩
  · cases mid with
    | nil => rw [(List.cons.inj hmid).1]
    | cons d mid =>
      obtain ⟨rfl, rfl⟩ := List.cons.inj hmid
      exact absurd hevent' (hlater hsplit' hevent hkept)
  · cases mid with
    | nil => rw [(List.cons.inj hmid).1]
    | cons d mid =>
      obtain ⟨rfl, rfl⟩ := List.cons.inj hmid
      exact absurd hevent (hlater hsplit hevent' hkept')

/-- Every stored rule has been created, and not deleted since. -/
theorem createdBy (h : Reachable env db) {id : ℕ} {v : RuleView}
    (hv : db.store.view id = some v) : ∃ origin draft, CreatedBy db.history id origin draft := by
  refine h.invariant (I := fun db => ∀ v, db.store.view id = some v →
    ∃ origin draft, CreatedBy db.history id origin draft) ?_ (by simp) v hv
  rintro db ⟨origin, t⟩ db' hdb hstep v hv
  obtain ⟨answer, hc⟩ := step_eq_some.mp hstep
  obtain ⟨hexec, hhistory⟩ := commit_eq_ok.mp hc
  have hview := Transaction.exec_view hexec id
  have hold : ∀ w, db.store.view id = some w → t.ruleEvent db.store id ≠ some .deleted →
      ∃ origin draft, CreatedBy db'.history id origin draft := by
    intro w hw hkept
    obtain ⟨origin', draft, hcreated⟩ := hdb w hw
    exact ⟨origin', draft, hhistory ▸ hcreated.concat hkept⟩
  cases hevent : t.ruleEvent db.store id with
  | none =>
    rw [hevent] at hview
    exact hold v ((Option.some.inj hview).trans hv) (by simp [hevent])
  | some e =>
    rw [hevent, Option.toList_some, run_singleton, hv] at hview
    cases e with
    | created key draft =>
      obtain ⟨-, hrow⟩ := (RuleLife.step_created key draft).mp hview
      obtain rfl : key = id := by
        rw [← Store.id_of_view hv, Option.some.inj hrow]
        rfl
      exact ⟨origin, draft, db.history, _, [], hhistory, rfl, hevent, by simp⟩
    | enabledSet enabled =>
      obtain ⟨w, hw, -⟩ := (RuleLife.step_enabledSet enabled).mp hview
      exact hold w hw (by simp [hevent])
    | deleted => exact absurd (RuleLife.step_deleted.mp hview).2 (by simp)
    | evaluated o =>
      obtain ⟨w, hw, -, -⟩ := (RuleLife.step_evaluated o).mp hview
      exact hold w hw (by simp [hevent])

end Reachable

end Database

end DonutMonitor
