import DonutMonitor.Application.AddCalls
import DonutMonitor.Application.Polls

/-!
# Rule ids in flight

Between its request and the processing of the answer, a task keeps the ids of rules, and
`RuleProcessor.process` reads the rows under these ids again. When a rule has been deleted in the
meantime and its id has been given to another one of the same user, the other rule is evaluated
with a price of the wrong item.

## Main definitions

* `PriceSnapshot.FetchedFor` — the answer to a request for an item and a price type.
* `Task.holds` — the rule ids that a task is going to process, with what it requests for them.
* `System.EvaluatesOwn` — every rule is evaluated with a price of its own item and price type.
* `System.KeepsIds` — no id that a task holds is given to a rule with another request.

## Main results

* `System.evaluatesOwn_of_keepsIds` — along runs whose creations keep the ids in flight, every rule
  is evaluated with its own prices.
* `System.not_evaluatesOwn` — ids that are one above the largest existing one are not kept.
-/

namespace DonutMonitor

open Transition

/-- The snapshot is one that `get_price` returns for the item and the price type. -/
def PriceSnapshot.FetchedFor (env : Environment) (snapshot : PriceSnapshot)
    (request : String × PriceType) : Prop :=
  snapshot.itemId = normalizeItemId env.lower request.1 ∧ snapshot.priceType = request.2

/-- A rule id that a task is going to process, with the item and the price type for which it
requests a price. -/
structure Hold where
  discordUserId : ℤ
  ruleId : ℕ
  request : String × PriceType
  deriving DecidableEq

/-- The item and the price type of a group. -/
def PollGroup.request (group : PollGroup) : String × PriceType := (group.itemId, group.priceType)

namespace Task

variable (env : Environment)

/-- The rule ids that a task is going to process. -/
def holds : Task → List Hold
  | add call (.fetching created) | add call (.processing created _ .evaluating) =>
    [⟨call.discordUserId, created.rule.id, normalizeItemId env.lower call.itemId, call.priceType⟩]
  | add _ _ => []
  | poll p phase => phase.groups.flatMap fun g => g.rules.map fun r =>
      ⟨p.user.discordUserId, r.id, g.request⟩

/-- The draft of the rule that a task is about to create. -/
def creates : Task → Option RuleDraft
  | add _ (.creating draft) => some draft
  | _ => none

/-- The snapshot that a task processes is the answer to its request. -/
def ProcessesFetched : Task → Prop
  | add call (.processing _ snapshot _) =>
    snapshot.FetchedFor env (normalizeItemId env.lower call.itemId, call.priceType)
  | poll _ (.processing _ group snapshot _ _) => snapshot.FetchedFor env group.request
  | _ => True

end Task

namespace System

variable (env : Environment)

/-- The transaction that a step is about to commit evaluates stored rules only with a snapshot that
was fetched for their own item and price type. -/
def EvaluatesOwn (s : System) (label : Label) : Prop :=
  ∀ i input task call observationKey notificationKey, label = .commit i input →
    s.tasks[i]? = some task →
    task.pending input = some (.process call observationKey notificationKey) →
      ∀ rule ∈ s.database.store.watchRules.rows, RuleProcessor.Evaluates call rule →
        call.snapshot.FetchedFor env rule.request

/-- When a step creates a rule, no task holds its id for the same user with another request. -/
def KeepsIds (s : System) : Label → Prop
  | .commit i input => ∀ draft ∈ s.tasks[i]?.bind Task.creates, ∀ task ∈ s.tasks,
      ∀ hold ∈ task.holds env, hold.discordUserId = draft.discordUserId →
        hold.ruleId = input.ruleKey → hold.request = (draft.itemId, draft.priceType)
  | .operation _ | .startAdd _ | .startPoll _ | .reject _ _ | .fetched _ _ | .sent _ _ => True

instance (s : System) : DecidablePred (KeepsIds env s)
  | .commit i _ => inferInstanceAs (Decidable (∀ draft ∈ s.tasks[i]?.bind Task.creates, _))
  | .operation _ | .startAdd _ | .startPoll _ | .reject _ _ | .fetched _ _ | .sent _ _ =>
    .isTrue trivial

end System

/-! ### What a task holds -/

namespace Task

variable {env : Environment}

theorem creates_of_pending {task : Task} {input : CommitInput} {draft : RuleDraft} {key : ℕ}
    (h : task.pending input = some (.create draft key)) :
    task.creates = some draft ∧ input.ruleKey = key := by
  cases task with
  | add call phase =>
    cases phase with
    | creating draft' =>
      obtain ⟨rfl, rfl⟩ := Transaction.create.inj (Option.some.inj h)
      exact ⟨rfl, rfl⟩
    | processing created snapshot phase => exact absurd h ProcessPhase.pending_ne_create
    | undoing created error => cases h
    | _ => cases h
  | poll p phase =>
    cases phase with
    | processing token group snapshot rest phase => exact absurd h ProcessPhase.pending_ne_create
    | _ => cases h

/-- A task that processes a snapshot holds the ids of the rules, for the request whose answer the
snapshot is. -/
theorem holds_of_pending {task : Task} {input : CommitInput} {call : ProcessCall}
    {observationKey : ℕ} {notificationKey : ℕ → ℕ}
    (h : task.pending input = some (.process call observationKey notificationKey))
    (hfetched : task.ProcessesFetched env) : ∃ request, call.snapshot.FetchedFor env request ∧
      ∀ id ∈ call.ruleIds, ⟨call.discordUserId, id, request⟩ ∈ task.holds env := by
  cases task with
  | add call' phase =>
    cases phase with
    | processing created snapshot phase =>
      obtain ⟨rfl, hcall⟩ := ProcessPhase.pending_process h
      obtain ⟨hperm, hids, huser, hsnapshot, -⟩ := ProcessArgs.call_eq_some hcall
      refine ⟨_, by rw [hsnapshot]; exact hfetched, fun id hid => ?_⟩
      rw [hids, hperm.mem_iff] at hid
      obtain rfl := List.mem_singleton.mp hid
      rw [huser]
      exact List.mem_singleton_self _
    | _ => cases h
  | poll p phase =>
    cases phase with
    | processing token group snapshot rest phase =>
      obtain ⟨rfl, hcall⟩ := ProcessPhase.pending_process h
      obtain ⟨hperm, hids, huser, hsnapshot, -⟩ := ProcessArgs.call_eq_some hcall
      refine ⟨_, by rw [hsnapshot]; exact hfetched, fun id hid => ?_⟩
      rw [hids, hperm.mem_iff, List.mem_dedup] at hid
      obtain ⟨r, hr, rfl⟩ := List.mem_map.mp hid
      rw [huser]
      exact List.mem_flatMap.mpr ⟨group, List.mem_cons_self, List.mem_map.mpr ⟨r, hr, rfl⟩⟩
    | _ => cases h

end Task

/-! ### Invariants -/

/-- The rule under a held id, if the user has one there, is one for the same request. -/
def Hold.Refers (store : Store) (hold : Hold) : Prop :=
  ∀ rule, store.watchRules.get? hold.ruleId = some rule →
    rule.discordUserId = hold.discordUserId → rule.request = hold.request

namespace AddPhase

variable {env : Environment} {call : AddCall} {phase phase' : AddPhase}

/-- Processing holds the rule until it has evaluated it. -/
private theorem holds_ofProcess {created : CreatedRule} {snapshot : PriceSnapshot}
    {next : Option ProcessPhase} (hnext : next ≠ some .evaluating) :
    (Task.add call (ofProcess created snapshot next)).holds env = [] := by
  cases next with
  | none => rfl
  | some next =>
    cases next with
    | evaluating => exact absurd rfl hnext
    | delivering event rest => rfl
    | recording event outcome rest => rfl

/-- Only a commit that creates a rule gives a call an id to hold. -/
theorem holds_resume {answer : Answer} (h : phase.resume answer = some phase') :
    (Task.add call phase').holds env = [] ∨
      ∃ draft created, phase = creating draft ∧ answer = .created created ∧
        phase' = fetching created := by
  cases phase with
  | creating draft =>
    cases answer with
    | created created => exact .inr ⟨draft, created, rfl, rfl, (Option.some.inj h).symm⟩
    | _ => cases h
  | undoing created error =>
    cases answer with
    | changed changed =>
      obtain rfl := Option.some.inj h
      exact .inl rfl
    | _ => cases h
  | processing created snapshot phase =>
    obtain ⟨next, hnext, rfl⟩ := Option.map_eq_some_iff.mp h
    exact .inl (holds_ofProcess fun heq => phase.resume_ne_evaluating answer (heq ▸ hnext))
  | _ => cases h

theorem holds_fail {error : ServiceError} (h : phase.fail error = some phase') :
    (Task.add call phase').holds env = [] := by
  obtain ⟨created, rfl⟩ := fail_raises h
  rfl

theorem holds_fetched {outcome : PriceOutcome} (h : phase.fetched env call outcome = some phase') :
    ∀ hold ∈ (Task.add call phase').holds env, hold ∈ (Task.add call phase).holds env := by
  cases phase with
  | fetching created =>
    cases outcome with
    | listing listing checkedAt pagesScanned =>
      obtain rfl := Option.some.inj h
      exact fun hold hhold => hhold
    | donutApiError error =>
      obtain rfl := Option.some.inj h
      exact nofun
    | exception name =>
      obtain rfl := Option.some.inj h
      exact nofun
  | _ => cases h

theorem holds_sent {outcome : Except String ℤ} (h : phase.sent outcome = some phase') :
    (Task.add call phase').holds env = [] := by
  cases phase with
  | processing created snapshot phase =>
    obtain ⟨next, hnext, rfl⟩ := Option.map_eq_some_iff.mp h
    have hne : some next ≠ some ProcessPhase.evaluating :=
      fun heq => phase.sent_ne_evaluating outcome (heq ▸ hnext)
    exact holds_ofProcess hne
  | _ => cases h

end AddPhase

namespace Task

variable {env : Environment} {task task' : Task}

private theorem fetched_next {p : Poll} {token : String} {anySuccess : Bool}
    {rest : List PollGroup} : (poll p (.next token anySuccess rest)).ProcessesFetched env := by
  cases rest with
  | nil => cases anySuccess <;> trivial
  | cons group rest => trivial

private theorem fetched_ofProcess {p : Poll} {token : String} {group : PollGroup}
    {snapshot : PriceSnapshot} {rest : List PollGroup} {next : Option ProcessPhase}
    (h : snapshot.FetchedFor env group.request) :
    (poll p (.ofProcess token group snapshot rest next)).ProcessesFetched env := by
  cases next with
  | none => exact fetched_next
  | some next => exact h

theorem ProcessesFetched.resume (h : task.ProcessesFetched env) {answer : Answer}
    (hresume : task.resume answer = some task') : task'.ProcessesFetched env := by
  cases task with
  | add call phase =>
    obtain ⟨phase', hphase, rfl⟩ := Option.map_eq_some_iff.mp hresume
    cases phase with
    | processing created snapshot phase =>
      obtain ⟨next, -, rfl⟩ := Option.map_eq_some_iff.mp hphase
      cases next with
      | none => trivial
      | some next => exact h
    | creating draft =>
      cases answer <;> cases hphase
      trivial
    | undoing created error =>
      cases answer <;> cases hphase
      trivial
    | _ => cases hphase
  | poll p phase =>
    obtain ⟨phase', hphase, rfl⟩ := Option.map_eq_some_iff.mp hresume
    cases phase with
    | processing token group snapshot rest phase =>
      obtain ⟨next, -, rfl⟩ := Option.map_eq_some_iff.mp hphase
      exact fetched_ofProcess h
    | markingSuccess =>
      cases answer <;> cases hphase
      trivial
    | invalidating =>
      cases answer with
      | done =>
        obtain rfl := Option.some.inj hphase
        split_ifs <;> trivial
      | _ => cases hphase
    | recordingDmError message =>
      cases answer <;> cases hphase
      trivial
    | _ => cases hphase

theorem processesFetched_fail {error : ServiceError} (hfail : task.fail error = some task') :
    task'.ProcessesFetched env := by
  cases task with
  | add call phase =>
    obtain ⟨phase', hphase, rfl⟩ := Option.map_eq_some_iff.mp hfail
    obtain ⟨created, rfl⟩ := AddPhase.fail_raises hphase
    trivial
  | poll p phase =>
    obtain ⟨phase', hphase, rfl⟩ := Option.map_eq_some_iff.mp hfail
    obtain rfl := PollPhase.fail_raises hphase
    trivial

theorem processesFetched_fetched {outcome : PriceOutcome}
    (hfetched : task.fetched env outcome = some task') : task'.ProcessesFetched env := by
  cases task with
  | add call phase =>
    obtain ⟨phase', hphase, rfl⟩ := Option.map_eq_some_iff.mp hfetched
    cases phase with
    | fetching created =>
      cases outcome with
      | listing listing checkedAt pagesScanned =>
        obtain rfl := Option.some.inj hphase
        exact ⟨rfl, rfl⟩
      | donutApiError error =>
        obtain rfl := Option.some.inj hphase
        trivial
      | exception name =>
        obtain rfl := Option.some.inj hphase
        trivial
    | _ => cases hphase
  | poll p phase =>
    obtain ⟨phase', hphase, rfl⟩ := Option.map_eq_some_iff.mp hfetched
    cases phase with
    | fetching token group rest anySuccess =>
      cases outcome with
      | listing listing checkedAt pagesScanned =>
        obtain rfl := Option.some.inj hphase
        exact fetched_ofProcess ⟨rfl, rfl⟩
      | donutApiError error =>
        cases error with
        | authentication message =>
          obtain rfl := Option.some.inj hphase
          trivial
        | _ =>
          obtain rfl := Option.some.inj hphase
          exact fetched_next
      | exception name =>
        obtain rfl := Option.some.inj hphase
        trivial
    | _ => cases hphase

theorem ProcessesFetched.sent (h : task.ProcessesFetched env) {outcome : Except String ℤ}
    (hsent : task.sent outcome = some task') : task'.ProcessesFetched env := by
  cases task with
  | add call phase =>
    obtain ⟨phase', hphase, rfl⟩ := Option.map_eq_some_iff.mp hsent
    cases phase with
    | processing created snapshot phase =>
      obtain ⟨next, -, rfl⟩ := Option.map_eq_some_iff.mp hphase
      exact h
    | _ => cases hphase
  | poll p phase =>
    obtain ⟨phase', hphase, rfl⟩ := Option.map_eq_some_iff.mp hsent
    cases phase with
    | processing token group snapshot rest phase =>
      obtain ⟨next, -, rfl⟩ := Option.map_eq_some_iff.mp hphase
      exact h
    | notifying => cases outcome <;> cases hphase <;> trivial
    | _ => cases hphase

end Task

theorem Operation.not_create {env : Environment} {operation : Operation} {draft : RuleDraft}
    {key : ℕ} : operation.transaction env ≠ .ok (.create draft key) := by
  intro h
  cases operation with
  | authenticate userId rawToken nonce =>
    obtain ⟨encrypted, fingerprint, hcreate⟩ := AuthService.authenticate_ok h
    cases hcreate
  | _ => cases h

namespace System

variable {env : Environment} {s s' : System} {label : Label} {i : ℕ} {task task' : Task}

/-- What the held ids refer to survives a step that keeps the ids in flight. -/
private theorem refers_step (hstep : s.step env label = some s') (hkeeps : KeepsIds env s label)
    (htask : task ∈ s.tasks) {hold : Hold} (hhold : hold ∈ task.holds env)
    (h : hold.Refers s.database.store) : hold.Refers s'.database.store := by
  intro rule hrule howner
  rcases step_database hstep with hsame | ⟨origin, t, answer, hcommit, hwho⟩
  · rw [hsame] at hrule
    exact h rule hrule howner
  · have hview : s'.database.store.view hold.ruleId = some ⟨rule, _⟩ :=
      Store.view_eq_some.mpr ⟨hrule, rfl⟩
    rcases Transaction.exec_rule (Database.commit_eq_ok.mp hcommit).1 hview with
      ⟨v, hv, huser, hrequest⟩ | ⟨draft, rfl, hrow⟩
    · exact hrequest.trans (h v.rule (Store.view_eq_some.mp hv).1 (huser.symm.trans howner))
    · rcases hwho with ⟨operation, -, ht⟩ | ⟨j, input, creator, rfl, hcreator, hpending⟩
      · exact absurd ht Operation.not_create
      · obtain ⟨hcreates, hkey⟩ := Task.creates_of_pending hpending
        have hrow' : rule = draft.row hold.ruleId := hrow
        subst hrow'
        exact (hkeeps draft (by rw [hcreator]; exact hcreates) task htask hold hhold howner.symm
          hkey.symm).symm

/-- The id that a call holds from the creation of its rule on. -/
private theorem refers_created {call : AddCall} {draft : RuleDraft} {created : CreatedRule}
    {key : ℕ} (hdraft : WatchService.draft env call = .ok draft)
    (hcommit : s.database.commit env (some i) (.create draft key) =
      .ok (.created created, s'.database)) :
    ∀ hold ∈ (Task.add call (.fetching created)).holds env, hold.Refers s'.database.store := by
  obtain ⟨⟨created', store⟩, hcreate, hanswer⟩ :=
    Except.bind_eq_ok.mp (Database.commit_eq_ok.mp hcommit).1
  obtain ⟨hcreated, hstore⟩ := Prod.mk.inj (Except.ok.inj hanswer)
  obtain rfl := Answer.created.inj hcreated
  obtain ⟨hrow, -, hid, huser, rfl⟩ := WatchService.create_ok hcreate
  intro hold hhold rule hrule howner
  obtain rfl := List.mem_singleton.mp hhold
  rw [← hstore, hrow, Store.insertRule_watchRules, Table.get?_insert, if_pos rfl] at hrule
  obtain rfl := Option.some.inj hrule
  exact (WatchService.draft_ok hdraft).2

private theorem holds_of_narrows {p : Poll} {phase phase' : PollPhase}
    (h : phase'.Narrows phase) :
    ∀ hold ∈ (Task.poll p phase').holds env, hold ∈ (Task.poll p phase).holds env := by
  intro hold hhold
  obtain ⟨group, hgroup, hhold⟩ := List.mem_flatMap.mp hhold
  exact List.mem_flatMap.mpr ⟨group, h.groups group hgroup, hhold⟩

/-- What a task holds after a step of its own. -/
private theorem Moves.refers (hs : Reachable env s) (htask : s.tasks[i]? = some task)
    (hmoves : Moves env s s' i task task')
    (h : ∀ hold ∈ task.holds env, hold.Refers s'.database.store) :
    ∀ hold ∈ task'.holds env, hold.Refers s'.database.store := by
  cases hmoves with
  | committed input t answer hpending hcommit hresume hincidents =>
    cases task with
    | add call phase =>
      obtain ⟨phase', hphase, rfl⟩ := Option.map_eq_some_iff.mp hresume
      rcases AddPhase.holds_resume hphase with hnil | ⟨draft, created, rfl, rfl, rfl⟩
      · rw [hnil]
        exact nofun
      · obtain rfl := Option.some.inj hpending
        exact refers_created (hs.add_commits htask).2.2 hcommit
    | poll p phase =>
      obtain ⟨phase', hphase, rfl⟩ := Option.map_eq_some_iff.mp hresume
      exact fun hold hhold => h hold
        (holds_of_narrows (PollPhase.narrows_resume hphase) hold hhold)
  | raised error hfail hdatabase hincidents =>
    cases task with
    | add call phase =>
      obtain ⟨phase', hphase, rfl⟩ := Option.map_eq_some_iff.mp hfail
      rw [AddPhase.holds_fail hphase]
      exact nofun
    | poll p phase =>
      obtain ⟨phase', hphase, rfl⟩ := Option.map_eq_some_iff.mp hfail
      exact fun hold hhold => h hold
        (holds_of_narrows (PollPhase.narrows_fail hphase) hold hhold)
  | fetched request outcome hrequest hfetched hdatabase hincidents =>
    cases task with
    | add call phase =>
      obtain ⟨phase', hphase, rfl⟩ := Option.map_eq_some_iff.mp hfetched
      exact fun hold hhold => h hold (AddPhase.holds_fetched hphase hold hhold)
    | poll p phase =>
      obtain ⟨phase', hphase, rfl⟩ := Option.map_eq_some_iff.mp hfetched
      rcases PollPhase.narrows_fetched hphase with hnarrows | ⟨rfl, -⟩
      · exact fun hold hhold => h hold (holds_of_narrows hnarrows hold hhold)
      · exact nofun
  | sent outcome hsent hdatabase hincidents =>
    cases task with
    | add call phase =>
      obtain ⟨phase', hphase, rfl⟩ := Option.map_eq_some_iff.mp hsent
      rw [AddPhase.holds_sent hphase]
      exact nofun
    | poll p phase =>
      obtain ⟨phase', hphase, rfl⟩ := Option.map_eq_some_iff.mp hsent
      exact fun hold hhold => h hold
        (holds_of_narrows (PollPhase.narrows_sent hphase) hold hhold)

/-- The ids that a poll holds when it starts. -/
private theorem refers_start {p : Poll} {discordUserId : ℤ} (hsound : p.Sound env s' (.start env p))
    (hload : loadPoll s.database discordUserId = some p) :
    ∀ hold ∈ (Task.poll p (.start env p)).holds env, hold.Refers s.database.store := by
  obtain ⟨-, -, -, hrules⟩ := loadPoll_eq_some hload
  intro hold hhold rule hrule howner
  obtain ⟨group, hgroup, hhold⟩ := List.mem_flatMap.mp hhold
  obtain ⟨r, hr, rfl⟩ := List.mem_map.mp hhold
  obtain ⟨hmem, hrequest⟩ := hsound.groups group hgroup r hr
  obtain rfl := Option.some.inj (hrule.symm.trans (hrules r hmem).1)
  exact hrequest

/-- Held ids refer to rules with the same request, and snapshots are answers to the requests. -/
structure Consistent (env : Environment) (s : System) : Prop where
  refers : ∀ (i : ℕ) (task : Task), s.tasks[i]? = some task →
    ∀ hold ∈ task.holds env, hold.Refers s.database.store
  fetched : ∀ (i : ℕ) (task : Task), s.tasks[i]? = some task → task.ProcessesFetched env

private theorem Consistent.step (h : Consistent env s) (hs : Reachable env s)
    (hkeeps : KeepsIds env s label) (hstep : s.step env label = some s') :
    Consistent env s' := by
  have hkept : ∀ {i : ℕ} {task : Task}, s.tasks[i]? = some task →
      ∀ hold ∈ task.holds env, hold.Refers s'.database.store := fun htask hold hhold =>
    refers_step hstep hkeeps (List.mem_of_getElem? htask) hhold (h.refers _ _ htask hold hhold)
  refine ⟨fun i task' htask' => ?_, fun i task' htask' => ?_⟩
  · rcases step_tasks hstep htask' with ⟨-, hdatabase, -, hnew⟩ | ⟨hold, -⟩ |
      ⟨task, htask, hmoves⟩
    · rcases hnew with ⟨call, rfl⟩ | ⟨discordUserId, p, hload, rfl⟩
      · rw [AddPhase.start]
        intro hold hhold
        split at hhold <;> cases hhold
      · rw [hdatabase]
        exact refers_start (Reachable.poll_sound (hs.tail hstep) htask') hload
    · exact hkept hold
    · exact hmoves.refers hs htask (hkept htask)
  · rcases step_tasks hstep htask' with ⟨-, -, -, hnew⟩ | ⟨hold, -⟩ | ⟨task, htask, hmoves⟩
    · rcases hnew with ⟨call, rfl⟩ | ⟨discordUserId, p, -, rfl⟩
      · rw [AddPhase.start]
        split <;> trivial
      · rw [PollPhase.start]
        split
        · trivial
        · exact Task.fetched_next
    · exact h.fetched i task' hold
    · cases hmoves with
      | committed input t answer hpending hcommit hresume hincidents =>
        exact (h.fetched i task htask).resume hresume
      | raised error hfail hdatabase hincidents => exact Task.processesFetched_fail hfail
      | fetched request outcome hrequest hfetched hdatabase hincidents =>
        exact Task.processesFetched_fetched hfetched
      | sent outcome hsent hdatabase hincidents => exact (h.fetched i task htask).sent hsent

/-- Along a run in which no id that a task holds is given to a rule of the same user with another
request, every rule is evaluated with prices of its own item and price type. -/
theorem evaluatesOwn_of_keepsIds {labels : List Label}
    (h : Along (step env) (KeepsIds env) {} labels) :
    Along (step env) (EvaluatesOwn env) {} labels := by
  refine h.of_invariant (I := fun s => Reachable env s ∧ Consistent env s) (step env) ?_ ?_ ?_
  · exact fun s label s' ⟨hs, hconsistent⟩ hkeeps hstep =>
      ⟨hs.tail hstep, hconsistent.step hs hkeeps hstep⟩
  · rintro s label ⟨-, hconsistent⟩ - i input task call observationKey notificationKey - htask
      hpending rule hrule ⟨hid, howner, -⟩
    obtain ⟨request, hfetched, hholds⟩ :=
      Task.holds_of_pending hpending (hconsistent.fetched i task htask)
    have hrefers := hconsistent.refers i task htask _ (hholds rule.id hid)
    rw [hrefers rule (Table.mem_rows_iff.mp hrule) howner]
    exact hfetched
  · exact ⟨.refl _, fun i task hnone => by simp at hnone, fun i task hnone => by simp at hnone⟩

/-- A watch for elytras is added, and a poll evaluates it. -/
def evaluatedWatch : List Label :=
  [.operation (.authenticate 1 "token" 0), .startAdd .elytra, .commit 0 { ruleKey := 1 },
    .startPoll 1, .fetched 1 (.listing (some (.elytra 50)) 0 1),
    .commit 1 { observationKey := 1, order := [1] }]

theorem evaluatesOwn_of_keepsIds_evaluatedWatch :
    (∃ s, run (step .plain) {} evaluatedWatch = some s ∧
      s.database.store.watchRules.rows.map (·.lastObservedPrice) = [some 50]) ∧
    Along (step .plain) (EvaluatesOwn .plain) {} evaluatedWatch := by
  have hrun : (run (step .plain) {} evaluatedWatch).map (fun s : System =>
      s.database.store.watchRules.rows.map (·.lastObservedPrice)) = some [some 50] := by
    decide +kernel
  exact ⟨Option.map_eq_some_iff.mp hrun, evaluatesOwn_of_keepsIds (by decide +kernel)⟩

/-- The ids of new rules are one above the largest existing id. -/
def AllocatesNext (s : System) : Label → Prop
  | .commit i input => (s.tasks[i]?.bind Task.creates).isSome →
      input.ruleKey = (s.database.store.watchRules.rows.map (·.id)).foldr max 0 + 1
  | .operation _ | .startAdd _ | .startPoll _ | .reject _ _ | .fetched _ _ | .sent _ _ => True

instance (s : System) : DecidablePred (AllocatesNext s)
  | .commit i _ => inferInstanceAs (Decidable ((s.tasks[i]?.bind Task.creates).isSome → _))
  | .operation _ | .startAdd _ | .startPoll _ | .reject _ _ | .fetched _ _ | .sent _ _ =>
    .isTrue trivial

/-- While a poll waits for the price of an elytra, the user deletes its watch and adds one for the
price of a single item, which gets the same id. -/
def reusedId : List Label :=
  [.operation (.authenticate 1 "token" 0), .startAdd .elytra, .commit 0 { ruleKey := 1 },
    .startPoll 1, .operation (.deleteByDatabaseId 1 1),
    .startAdd { AddCall.elytra with priceType := .perItem }, .commit 2 { ruleKey := 1 },
    .fetched 1 (.listing (some (.elytraStack 640)) 0 1)]

/-- The poll then records the price of 64 elytras for the watch of a single item. -/
theorem not_evaluatesOwn : ∃ s s' input, run (step .plain) {} reusedId = some s ∧
    Along (step .plain) AllocatesNext {} (reusedId ++ [.commit 1 input]) ∧
    s.step .plain (.commit 1 input) = some s' ∧
    s'.database.store.watchRules.rows.map (fun r => (r.priceType, r.lastObservedPrice)) =
      [(.perItem, some 640)] ∧
    ¬ Along (step .plain) (EvaluatesOwn .plain) {} (reusedId ++ [.commit 1 input]) := by
  let input : CommitInput := { observationKey := 1, order := [1] }
  have hrun : ((run (step .plain) {} reusedId).bind fun s : System =>
      ((s.tasks[1]?.bind fun task => task.pending input).bind Transaction.processCall).map
        fun call => decide ((∃ rule ∈ s.database.store.watchRules.rows,
          RuleProcessor.Evaluates call rule ∧ call.snapshot.priceType ≠ rule.priceType) ∧
          (s.step .plain (.commit 1 input)).map (fun s' : System =>
            s'.database.store.watchRules.rows.map fun r => (r.priceType, r.lastObservedPrice)) =
              some [(.perItem, some 640)])) = some true := by
    decide +kernel
  obtain ⟨s, hs, hcall⟩ := Option.bind_eq_some_iff.mp hrun
  obtain ⟨call, hcall, hfacts⟩ := Option.map_eq_some_iff.mp hcall
  obtain ⟨⟨rule, hrule, hevaluates, hother⟩, hstep⟩ := of_decide_eq_true hfacts
  obtain ⟨t, hpending, hcall⟩ := Option.bind_eq_some_iff.mp hcall
  obtain ⟨observationKey, notificationKey, rfl⟩ := Transaction.processCall_eq_some.mp hcall
  obtain ⟨task, htask, hpending⟩ := Option.bind_eq_some_iff.mp hpending
  obtain ⟨s', hs', hrows⟩ := Option.map_eq_some_iff.mp hstep
  refine ⟨s, s', input, hs, by decide +kernel, hs', hrows, fun halong => ?_⟩
  have hown := ((along_append (step .plain)).mp halong).2 s hs |>.1
  exact hother (hown 1 input task call observationKey notificationKey rfl htask hpending rule
    hrule hevaluates).2

end System

end DonutMonitor
