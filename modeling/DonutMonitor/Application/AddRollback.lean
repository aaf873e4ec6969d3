import DonutMonitor.Application.AddCalls

/-!
# A call of `add` that raises

After a failed price check a call of `WatchService.add` deletes the rule that it has created. The
transactions after the price check are not covered: when one of them raises, the rule stays. The
deletion itself goes by the key, and so meets another rule of the user when the database has given
the key away in the meantime.

## Main definitions

* `Database.Undone` — apart from the other transactions, a task has left the rules as they were.
* `System.Compensates` — no transaction of the task raises once its rule exists, and the key of the
  rule is not given away before the task deletes it.

## Main results

* `System.Reachable.add_undone_iff` — the exact condition under which a call that raises is undone.
* `System.not_add_undone` — a rejected observation leaves the rule.
-/

namespace DonutMonitor

open Transition

/-- Apart from what other transactions did, task `i` has left the set of rules as it was: no rule
that it created is stored, and every rule that it deleted was one that it created. -/
structure Database.Undone (db : Database) (i : ℕ) : Prop where
  created : ∀ id draft, ¬ CreatedBy db.history id (some i) draft
  deleted : ∀ pre c post id, db.history = pre ++ c :: post → c.origin = some i →
    c.ruleEvent id = some .deleted → ∃ draft, CreatedBy pre id (some i) draft

/-- The condition under which task `i` undoes its creation. -/
structure System.Compensates (s : System) (i : ℕ) : Prop where
  /-- When a transaction of the task raises, a rule that the task has created is deleted by
  another. -/
  raised : ∀ pre c post id draft, s.database.history = pre ++ c :: post → c.origin = some i →
    c.ruleEvent id = some (.created id draft) → .transactionRaised i ∈ s.incidents →
      ∃ c' ∈ post, c'.origin ≠ some i ∧ c'.ruleEvent id = some .deleted
  /-- When the task deletes its rule, no transaction of another origin has created a rule of the
  user under the key that is still there. -/
  kept : ∀ pre c post userId id, s.database.history = pre ++ c :: post → c.origin = some i →
    c.transaction = .undoCreate userId id → ∀ origin draft, CreatedBy pre id origin draft →
      draft.discordUserId = userId → origin = some i

namespace System

variable {env : Environment} {s : System} {i : ℕ} {call : AddCall} {created : CreatedRule}

/-- An evaluation or the record of a delivery neither creates nor deletes a rule. -/
private theorem evaluated_of_processes {d : Commit} {id : ℕ} {e : RuleEvent}
    (hd : (∃ snapshot, d.Processes call created snapshot) ∨ d.RecordsDelivery)
    (hevent : d.ruleEvent id = some e) : ∃ o, e = .evaluated o := by
  rcases hd with ⟨snapshot, hprocesses⟩ | hdelivery
  · exact hprocesses.evaluated hevent
  · rw [hdelivery.ruleEvent] at hevent
    cases hevent

section End

variable {failed : Prop} {rest : List Commit}
  (hend : ¬ failed ∧ (∃ u, rest = [u] ∧ u.Undoes call created) ∨
    failed ∧ ∀ d ∈ rest, (∃ snapshot, d.Processes call created snapshot) ∨ d.RecordsDelivery)
  {d : Commit} (hd : d ∈ rest) {id : ℕ}

include hend hd

private theorem not_created_of_end {draft : RuleDraft} :
    d.ruleEvent id ≠ some (.created id draft) := by
  intro hevent
  rcases hend with ⟨-, u, rfl, hundoes⟩ | ⟨-, hrest⟩
  · obtain rfl := List.mem_singleton.mp hd
    rw [hundoes.ruleEvent] at hevent
    split_ifs at hevent
    cases (Transaction.ownedEvent_eq_some.mp hevent).1
  · obtain ⟨o, ho⟩ := evaluated_of_processes (hrest d hd) hevent
    cases ho

private theorem not_deleted_of_end (hfailed : failed) : d.ruleEvent id ≠ some .deleted := by
  intro hevent
  rcases hend with ⟨hquiet, -⟩ | ⟨-, hrest⟩
  · exact hquiet hfailed
  · obtain ⟨o, ho⟩ := evaluated_of_processes (hrest d hd) hevent
    cases ho

end End

/-- The rule of a call under its key, as long as it is not deleted. -/
private theorem view_of_creates {pre mid post : List Commit} {c u : Commit}
    (h : Reachable env s) (hcreates : c.Creates env call created)
    (hsplit : s.database.history = pre ++ c :: mid ++ u :: post)
    (hkept : ∀ c' ∈ mid, c'.ruleEvent created.rule.id ≠ some .deleted) :
    ∃ v, u.before.view created.rule.id = some v ∧ v.rule.discordUserId = call.discordUserId := by
  obtain ⟨draft, hevent⟩ := hcreates.ruleEvent_self
  obtain ⟨-, draft', hdraft, -, huser'⟩ := hcreates.eq_created hevent
  obtain ⟨-, rfl⟩ := RuleEvent.created.inj hdraft
  obtain ⟨v, hv, huser, -⟩ := (h.database.before hsplit).1.view_of_createdBy
    ⟨pre, c, mid, rfl, rfl, hevent, hkept⟩
  exact ⟨v, hv, huser.trans huser'⟩

section Raised

variable {c₀ : Commit} {rest : List Commit} (h : Reachable env s)
  (hrest : s.database.committedBy i = c₀ :: rest) (hcreates : c₀.Creates env call created)
  (hend : .transactionRaised i ∉ s.incidents ∧ (∃ u, rest = [u] ∧ u.Undoes call created) ∨
    .transactionRaised i ∈ s.incidents ∧
      ∀ d ∈ rest, (∃ snapshot, d.Processes call created snapshot) ∨ d.RecordsDelivery)

include hrest hcreates hend

/-- The only creation of a call is its first commit. -/
private theorem creation_first {pre post : List Commit} {c : Commit} {id : ℕ} {draft : RuleDraft}
    (hsplit : s.database.history = pre ++ c :: post) (hown : c.origin = some i)
    (hevent : c.ruleEvent id = some (.created id draft)) :
    c = c₀ ∧ id = created.rule.id ∧ (post.filter fun c => c.origin = some i) = rest := by
  rcases Database.own_split hrest hsplit hown with ⟨rfl, hpost⟩ | hmem
  · exact ⟨rfl, (hcreates.eq_created hevent).1, hpost⟩
  · exact absurd hevent (not_created_of_end hend hmem)

/-- The only deletion of a call is the compensation. -/
private theorem deletion_undoes {pre post : List Commit} {c : Commit} {id : ℕ}
    (hsplit : s.database.history = pre ++ c :: post) (hown : c.origin = some i)
    (hdeleted : c.ruleEvent id = some .deleted) :
    id = created.rule.id ∧ c.Undoes call created ∧
      ∃ v, c.before.view id = some v ∧ v.rule.discordUserId = call.discordUserId := by
  rcases Database.own_split hrest hsplit hown with ⟨rfl, -⟩ | hmem
  · obtain ⟨-, draft, hdraft, -⟩ := hcreates.eq_created hdeleted
    cases hdraft
  · rcases hend with ⟨-, u, rfl, hundoes⟩ | hraised
    · obtain rfl := List.mem_singleton.mp hmem
      rw [hundoes.ruleEvent] at hdeleted
      split_ifs at hdeleted with hid
      exact ⟨hid, hundoes, (Transaction.ownedEvent_eq_some.mp hdeleted).2⟩
    · exact absurd hdeleted (not_deleted_of_end (.inr hraised) hmem hraised.1)

include h

private theorem compensates_of_undone (hundone : s.database.Undone i) : s.Compensates i := by
  refine ⟨fun pre c post id draft hsplit hown hevent hraised => ?_,
    fun pre c post userId id hsplit hown htransaction origin draft hcreated huser => ?_⟩
  · obtain ⟨c', hc', hdeleted⟩ : ∃ c' ∈ post, c'.ruleEvent id = some .deleted := by
      by_contra hkept
      exact hundone.created id draft
        ⟨pre, c, post, hsplit, hown, hevent, fun c' hc' he => hkept ⟨c', hc', he⟩⟩
    refine ⟨c', hc', fun hown' => ?_, hdeleted⟩
    have hmem : c' ∈ rest := by
      rw [← (creation_first hrest hcreates hend hsplit hown hevent).2.2]
      exact List.mem_filter.mpr ⟨hc', by simpa using hown'⟩
    exact not_deleted_of_end hend hmem hraised hdeleted
  · obtain ⟨hbefore, -⟩ := h.database.before hsplit
    obtain ⟨v, hv, hvuser, -⟩ := hbefore.view_of_createdBy hcreated
    have hdeleted : c.ruleEvent id = some .deleted := by
      rw [Commit.ruleEvent, htransaction, Transaction.ruleEvent, if_pos rfl]
      exact Transaction.ownedEvent_eq_some.mpr ⟨rfl, v, hv, hvuser.trans huser⟩
    obtain ⟨draft', hcreated'⟩ := hundone.deleted pre c post id hsplit hown hdeleted
    exact hbefore.createdBy_unique hcreated hcreated'

private theorem undone_of_compensates (hcompensates : s.Compensates i) : s.database.Undone i := by
  constructor
  · rintro id draft ⟨pre, c, post, hsplit, hown, hevent, hkept⟩
    obtain ⟨rfl, rfl, hpost⟩ := creation_first hrest hcreates hend hsplit hown hevent
    rcases hend with ⟨-, u, rfl, hundoes⟩ | ⟨hraised, -⟩
    · obtain ⟨mid, post', rfl, -, -, -⟩ := List.filter_eq_cons_iff.mp hpost
      obtain ⟨v, hv, huser⟩ := view_of_creates h hcreates (by simpa using hsplit)
        fun c' hc' => hkept c' (List.mem_append_left _ hc')
      refine hkept u (by simp) ?_
      rw [hundoes.ruleEvent, if_pos rfl]
      exact Transaction.ownedEvent_eq_some.mpr ⟨rfl, v, hv, huser⟩
    · obtain ⟨c', hc', -, hdeleted⟩ :=
        hcompensates.raised pre c post _ draft hsplit hown hevent hraised
      exact hkept c' hc' hdeleted
  · intro pre c post id hsplit hown hdeleted
    obtain ⟨rfl, hundoes, v, hv, huser⟩ :=
      deletion_undoes hrest hcreates hend hsplit hown hdeleted
    obtain ⟨hbefore, -⟩ := h.database.before hsplit
    obtain ⟨origin, draft, hcreated⟩ := hbefore.createdBy hv
    obtain ⟨v', hv', hdraft, -⟩ := hbefore.view_of_createdBy hcreated
    have hsame : v' = v := Option.some.inj (hv'.symm.trans hv)
    obtain rfl := hcompensates.kept pre c post call.discordUserId _ hsplit hown hundoes origin
      draft hcreated (hdraft.symm.trans (hsame ▸ huser))
    exact ⟨draft, hcreated⟩

end Raised

/-- A call that raises leaves the rules as they were, apart from what other transactions did, if
and only if it compensates: none of its transactions raises once its rule is created, unless
another transaction deletes the rule, and the key of the rule is not given away before the call
deletes it. -/
theorem Reachable.add_undone_iff (h : Reachable env s) {creation : Option CreatedRule}
    {error : ServiceError} (htask : s.tasks[i]? = some (.add call (.raised creation error))) :
    s.database.Undone i ↔ s.Compensates i := by
  have hcommits := h.add_commits htask
  cases creation with
  | none =>
    have hnone : ∀ pre c post, s.database.history = pre ++ c :: post → c.origin ≠ some i := by
      intro pre c post hsplit hown
      have hcommitted := Database.committedBy_split hsplit hown
      rw [show s.database.committedBy i = [] from hcommits] at hcommitted
      simp at hcommitted
    refine ⟨fun _ => ⟨fun pre c post id draft hsplit hown => absurd hown (hnone pre c post hsplit),
      fun pre c post userId id hsplit hown => absurd hown (hnone pre c post hsplit)⟩,
      fun _ => ⟨?_, fun pre c post id hsplit hown => absurd hown (hnone pre c post hsplit)⟩⟩
    rintro id draft ⟨pre, c, post, hsplit, hown, -, -⟩
    exact hnone pre c post hsplit hown
  | some created =>
    obtain ⟨c₀, rest, hrest, hcreates, hend⟩ := hcommits
    exact ⟨compensates_of_undone h hrest hcreates hend,
      undone_of_compensates h hrest hcreates hend⟩

/-- A watch for elytras is added, and the price check fails. -/
def failedCheck : List Label :=
  [.operation (.authenticate 1 "token" 0), .startAdd .elytra, .commit 0 { ruleKey := 1 },
    .fetched 0 (.donutApiError (.transient "timeout")), .commit 0 {}]

/-- The call raises, and leaves the rules as they were. -/
theorem add_undone_iff_failedCheck : ∃ s created error,
    run (step .plain) {} failedCheck = some s ∧
      s.tasks[0]? = some (.add .elytra (.raised (some created) error)) ∧ s.database.Undone 0 := by
  have hrun : ((run (step .plain) {} failedCheck).bind fun s : System =>
      (s.tasks[0]?.bind Task.raisedAdd).map fun raised => decide (raised.1 = AddCall.elytra ∧
        s.incidents = [] ∧ (s.database.history.map fun c => (c.origin, c.transaction.isCreate)) =
          [(none, false), (some 0, true), (some 0, false)])) = some true := by
    decide +kernel
  obtain ⟨s, hs, htask⟩ := Option.bind_eq_some_iff.mp hrun
  obtain ⟨⟨call, created, error⟩, hraised, hfacts⟩ := Option.map_eq_some_iff.mp htask
  obtain ⟨rfl, hincidents, horigins⟩ := of_decide_eq_true hfacts
  obtain ⟨task, htask, hraised⟩ := Option.bind_eq_some_iff.mp hraised
  obtain rfl := Task.raisedAdd_eq_some.mp hraised
  refine ⟨s, created, error, hs, htask, (Reachable.add_undone_iff ⟨_, hs⟩ htask).mpr ⟨?_, ?_⟩⟩
  · intro pre c post id draft hsplit hown hevent hmem
    rw [hincidents] at hmem
    cases hmem
  · rintro pre c post userId id hsplit - - origin draft ⟨before, c', between, rfl, rfl, hevent, -⟩ -
    obtain ⟨-, hcreate⟩ := Transaction.ruleEvent_eq_created hevent
    have hmem := List.mem_map_of_mem (f := fun c : Commit => (c.origin, c.transaction.isCreate))
      (show c' ∈ s.database.history by simp [hsplit])
    rw [horigins, hcreate] at hmem
    simpa [Transaction.isCreate] using hmem

/-- A watch for elytras is added; the cheapest one is offered at a price that no column holds, so
that the database rejects the observation. -/
def rejectedObservation : List Label :=
  [.operation (.authenticate 1 "token" 0), .startAdd .elytra, .commit 0 { ruleKey := 1 },
    .fetched 0 (.listing (some (.elytra (10 ^ 25))) 0 1),
    .reject 0 .dataError]

/-- The call raises and its rule stays. -/
theorem not_add_undone : ∃ s created error, run (step .plain) {} rejectedObservation = some s ∧
    s.tasks[0]? = some (.add .elytra (.raised (some created) error)) ∧
    (∃ rule, s.database.store.watchRules.get? 1 = some rule) ∧ ¬ s.database.Undone 0 := by
  have hrun : ((run (step .plain) {} rejectedObservation).bind fun s : System =>
      (s.tasks[0]?.bind Task.raisedAdd).map fun raised => decide (raised.1 = AddCall.elytra ∧
        (s.database.store.watchRules.get? 1).isSome = true ∧
        (s.database.history.map fun c => (c.origin, c.ruleEvent 1)) =
          [(none, none), (some 0, some (.created 1 .elytra))])) = some true := by
    decide +kernel
  obtain ⟨s, hs, htask⟩ := Option.bind_eq_some_iff.mp hrun
  obtain ⟨⟨call, created, error⟩, hraised, hfacts⟩ := Option.map_eq_some_iff.mp htask
  obtain ⟨rfl, hrule, hevents⟩ := of_decide_eq_true hfacts
  obtain ⟨task, htask, hraised⟩ := Option.bind_eq_some_iff.mp hraised
  obtain rfl := Task.raisedAdd_eq_some.mp hraised
  refine ⟨s, created, error, hs, htask, Option.isSome_iff_exists.mp hrule, fun hundone => ?_⟩
  obtain ⟨c, cs, hhistory, -, hcs⟩ := List.map_eq_cons_iff.mp hevents
  obtain ⟨c', cs', rfl, hc', hcs'⟩ := List.map_eq_cons_iff.mp hcs
  obtain rfl := List.map_eq_nil_iff.mp hcs'
  obtain ⟨horigin, hevent⟩ := Prod.mk.inj hc'
  exact hundone.created 1 .elytra ⟨[c], c', [], hhistory, horigin, hevent, by simp⟩

end System

end DonutMonitor
