import DonutMonitor.Application.Coordinator
import DonutMonitor.Application.RuleIdentity
import DonutMonitor.Infrastructure.EndlessBlock

/-!
# The stored observations

`RuleProcessor.process` stores an observation for every snapshot. An observation goes when its user
logs out, or when `run_once` prunes the ones that are too old, which it does at most once a day.

## Main definitions

* `Transaction.observation`, `Transaction.keepsObservation` — what a transaction does to the table.
* `Coordinator.LastPruning` — the step of a run that committed its last pruning.
* `Coordinator.Retains` — what holds of the table when a cycle loads its users.

## Main results

* `Database.Reachable.mem_observations_iff` — the observations that are stored.
* `Coordinator.retains` — a cycle polls after the pruning of the day.
* `Coordinator.Reachable.pruned_apart` — a day passes between two prunings.
-/

namespace DonutMonitor

open Transition

/-- The row that `process` stores. -/
def ProcessCall.priceObservation (call : ProcessCall) (id : ℕ) : PriceObservation where
  id := id
  discordUserId := call.discordUserId
  itemId := call.snapshot.itemId
  price := call.snapshot.selectedPrice
  listingPrice := call.snapshot.listing.map (·.price)
  itemCount := call.snapshot.listing.map (·.item.count)
  sellerName := call.snapshot.listing.map (·.seller.name)
  observedAt := call.snapshot.checkedAt

/-- The time before which a pruning at the given time removes observations. -/
def Settings.cutoff (settings : Settings) (now : ℚ) : ℚ :=
  now - settings.observationRetentionDays * 86400

namespace Transaction

/-- The observation that a transaction stores. -/
def observation : Transaction → Option PriceObservation
  | process call observationKey _ => some (call.priceObservation observationKey)
  | _ => none

/-- The observation stays. -/
def keepsObservation (env : Environment) (o : PriceObservation) : Transaction → Bool
  | logout discordUserId => o.discordUserId ≠ discordUserId
  | prune now => env.settings.cutoff now ≤ o.observedAt
  | _ => true

/-- The time of a pruning. -/
def pruneTime : Transaction → Option ℚ
  | prune now => some now
  | _ => none

variable {env : Environment} {s s' : Store} {a : Answer} {t : Transaction}

private theorem processRule_observations {ctx : DecimalContext} {call : ProcessCall}
    {displayed : List WatchRule} {notificationKey : ℕ → ℕ}
    {progress progress' : RuleProcessor.Progress} {ruleId : ℕ}
    (h : RuleProcessor.processRule ctx call displayed notificationKey progress ruleId =
      .ok progress') : progress'.store.observations = progress.store.observations := by
  rcases RuleProcessor.processRule_cases h with rfl | ⟨rule, -, -, rfl | ⟨price, store, display,
    hcreate, -, rfl⟩⟩
  · rfl
  · rfl
  · rw [NotificationRepository.createPending] at hcreate
    split_ifs at hcreate
    obtain rfl := Except.ok.inj hcreate
    rfl

theorem process_observations {ctx : DecimalContext} {call : ProcessCall}
    {notificationKey : ℕ → ℕ} {observationKey : ℕ} {progress : RuleProcessor.Progress}
    (h : RuleProcessor.process ctx call notificationKey observationKey s = .ok progress) :
    progress.store.observations.rows =
      s.observations.rows ++ [call.priceObservation observationKey] := by
  obtain ⟨s', hadd, hloop⟩ := Except.bind_eq_ok.mp h
  rw [raiseDatabase_eq_ok, ObservationRepository.add] at hadd
  split_ifs at hadd
  obtain rfl := Except.ok.inj hadd
  exact Except.foldlM_invariant (I := fun progress => progress.store.observations.rows =
    s.observations.rows ++ [call.priceObservation observationKey])
    (fun _ _ _ _ hrows hturn => by rw [processRule_observations hturn, hrows]) hloop rfl

/-- What a transaction does to the table of the observations. -/
theorem exec_observations (h : t.exec env s = .ok (a, s')) : s'.observations.rows =
    s.observations.rows.filter (t.keepsObservation env) ++ t.observation.toList := by
  have hquiet : s'.observations.rows = s.observations.rows →
      (∀ o, t.keepsObservation env o = true) → t.observation = none →
        s'.observations.rows =
          s.observations.rows.filter (t.keepsObservation env) ++ t.observation.toList := by
    intro hsame hkeeps hnone
    rw [hsame, hnone, Option.toList_none, List.append_nil, List.filter_eq_self.mpr]
    exact fun o _ => hkeeps o
  cases t with
  | saveValidToken discordUserId token fingerprint =>
    obtain ⟨-, rfl⟩ := Prod.mk.inj (Except.ok.inj h)
    refine hquiet ?_ (fun _ => rfl) rfl
    rw [UserRepository.saveValidToken]
    split_ifs <;> rfl
  | logout discordUserId =>
    obtain ⟨-, rfl⟩ := Prod.mk.inj (Except.ok.inj h)
    refine Eq.trans (List.filter_congr fun o _ => ?_) (List.append_nil _).symm
    simp [keepsObservation]
  | prune now =>
    obtain ⟨-, rfl⟩ := Prod.mk.inj (Except.ok.inj h)
    refine Eq.trans (List.filter_congr fun o _ => ?_) (List.append_nil _).symm
    simp only [keepsObservation, Settings.cutoff, ← not_lt, decide_not]
  | process call observationKey notificationKey =>
    obtain ⟨progress, hprocess, h⟩ := Except.bind_eq_ok.mp h
    obtain ⟨-, rfl⟩ := Prod.mk.inj (Except.ok.inj h)
    refine (process_observations hprocess).trans ?_
    exact congrArg (· ++ _) (List.filter_eq_self.mpr fun _ _ => rfl).symm
  | create draft key =>
    obtain ⟨⟨created, store⟩, hcreate, h⟩ := Except.bind_eq_ok.mp h
    obtain ⟨-, rfl⟩ := Prod.mk.inj (Except.ok.inj h)
    obtain ⟨-, -, hid, huser, rfl⟩ := WatchService.create_ok hcreate
    exact hquiet rfl (fun _ => rfl) rfl
  | delete discordUserId displayId =>
    obtain ⟨⟨store, changed⟩, hservice, h⟩ := Except.bind_eq_ok.mp h
    obtain ⟨-, rfl⟩ := Prod.mk.inj (Except.ok.inj h)
    obtain ⟨user, -, hservice⟩ := Except.bind_eq_ok.mp hservice
    refine hquiet ?_ (fun _ => rfl) rfl
    split at hservice <;>
    · obtain ⟨rfl, -⟩ := Prod.mk.inj (Except.ok.inj hservice)
      rfl
  | setEnabled discordUserId displayId enabled =>
    obtain ⟨⟨store, changed⟩, hservice, h⟩ := Except.bind_eq_ok.mp h
    obtain ⟨-, rfl⟩ := Prod.mk.inj (Except.ok.inj h)
    obtain ⟨user, -, hservice⟩ := Except.bind_eq_ok.mp hservice
    refine hquiet ?_ (fun _ => rfl) rfl
    split at hservice <;>
    · obtain ⟨rfl, -⟩ := Prod.mk.inj (Except.ok.inj hservice)
      rfl
  | deleteByDatabaseId discordUserId databaseId =>
    obtain ⟨⟨store, changed⟩, hservice, h⟩ := Except.bind_eq_ok.mp h
    obtain ⟨-, rfl⟩ := Prod.mk.inj (Except.ok.inj h)
    obtain ⟨user, -, hservice⟩ := Except.bind_eq_ok.mp hservice
    obtain ⟨rfl, -⟩ := Prod.mk.inj (Except.ok.inj hservice)
    exact hquiet rfl (fun _ => rfl) rfl
  | setEnabledByDatabaseId discordUserId databaseId enabled =>
    obtain ⟨⟨store, changed⟩, hservice, h⟩ := Except.bind_eq_ok.mp h
    obtain ⟨-, rfl⟩ := Prod.mk.inj (Except.ok.inj h)
    obtain ⟨user, -, hservice⟩ := Except.bind_eq_ok.mp hservice
    obtain ⟨rfl, -⟩ := Prod.mk.inj (Except.ok.inj hservice)
    exact hquiet rfl (fun _ => rfl) rfl
  | invalidate discordUserId notifiedAt =>
    cases notifiedAt <;>
    · obtain ⟨-, rfl⟩ := Prod.mk.inj (Except.ok.inj h)
      exact hquiet rfl (fun _ => rfl) rfl
  | _ =>
    obtain ⟨-, rfl⟩ := Prod.mk.inj (Except.ok.inj h)
    exact hquiet rfl (fun _ => rfl) rfl

end Transaction

/-! ### The table -/

namespace Database

variable {env : Environment} {db : Database} {o : PriceObservation}

/-- The history has stored the observation, and nothing since has removed it. -/
def Keeps (env : Environment) (history : List Commit) (o : PriceObservation) : Prop :=
  ∃ pre c post, history = pre ++ c :: post ∧ c.transaction.observation = some o ∧
    ∀ c' ∈ post, c'.transaction.keepsObservation env o = true

theorem keeps_concat {history : List Commit} {c : Commit} : Keeps env (history ++ [c]) o ↔
    Keeps env history o ∧ c.transaction.keepsObservation env o = true ∨
      c.transaction.observation = some o := by
  constructor
  · rintro ⟨pre, c', post, hsplit, hobservation, hkeeps⟩
    rcases List.eq_nil_or_concat post with rfl | ⟨post, last, rfl⟩
    · obtain rfl := List.head_eq_of_cons_eq (List.append_inj' hsplit rfl).2
      exact .inr hobservation
    · rw [List.concat_eq_append, ← List.cons_append, ← List.append_assoc] at hsplit
      obtain ⟨rfl, hlast⟩ := List.append_inj' hsplit rfl
      obtain rfl := List.head_eq_of_cons_eq hlast
      exact .inl ⟨⟨pre, c', post, rfl, hobservation, fun d hd => hkeeps d (by simp [hd])⟩,
        hkeeps c (by simp)⟩
  · rintro (⟨⟨pre, c', post, rfl, hobservation, hkeeps⟩, hlast⟩ | hobservation)
    · refine ⟨pre, c', post ++ [c], by simp, hobservation, fun d hd => ?_⟩
      rcases List.mem_append.mp hd with hd | hd
      · exact hkeeps d hd
      · rwa [List.mem_singleton.mp hd]
    · exact ⟨history, c, [], rfl, hobservation, by simp⟩

/-- In every reachable database an observation is stored if and only if a snapshot has been stored
as it, and since then its user has not logged out and no pruning had a cutoff after its time. -/
theorem Reachable.mem_observations_iff (h : Reachable env db) :
    o ∈ db.store.observations.rows ↔ Keeps env db.history o := by
  refine h.invariant (I := fun db => ∀ o, o ∈ db.store.observations.rows ↔
    Keeps env db.history o) ?_ (fun o => ?_) o
  · rintro db ⟨origin, t⟩ db' hdb hstep o
    obtain ⟨answer, hcommit⟩ := step_eq_some.mp hstep
    obtain ⟨hexec, hhistory⟩ := commit_eq_ok.mp hcommit
    rw [hhistory, keeps_concat, Transaction.exec_observations hexec, List.mem_append,
      List.mem_filter, hdb, Option.mem_toList]
  · refine iff_of_false List.not_mem_nil ?_
    rintro ⟨pre, c, post, hsplit, -⟩
    simp at hsplit

/-- The observation of a poll is stored. -/
theorem Reachable.mem_observations_iff_evaluatedWatch : ∃ s o,
    run (System.step .plain) {} System.evaluatedWatch = some s ∧
      o ∈ s.database.store.observations.rows ∧
        (o ∈ s.database.store.observations.rows ↔ Keeps .plain s.database.history o) := by
  have hrun : ((run (System.step .plain) {} System.evaluatedWatch).bind fun s : System =>
      s.database.store.observations.rows.head?).isSome = true := by
    decide +kernel
  obtain ⟨o, ho⟩ := Option.isSome_iff_exists.mp hrun
  obtain ⟨s, hs, ho⟩ := Option.bind_eq_some_iff.mp ho
  have hreachable : System.Reachable .plain s := ⟨System.evaluatedWatch, hs⟩
  exact ⟨s, o, hs, List.mem_of_head? ho, hreachable.database.mem_observations_iff⟩

end Database

/-! ### The prunings of the loop -/

theorem Task.pruneTime_of_pending {task : Task} {input : CommitInput} {t : Transaction}
    (h : task.pending input = some t) : t.pruneTime = none := by
  have hprocess : ∀ {args : ProcessArgs} {phase : ProcessPhase},
      phase.pending args input = some t → t.pruneTime = none := by
    intro args phase h
    cases phase with
    | evaluating =>
      obtain ⟨call, -, rfl⟩ := Option.map_eq_some_iff.mp h
      rfl
    | delivering event rest => cases h
    | recording event outcome rest =>
      cases outcome <;>
      · obtain rfl := Option.some.inj h
        rfl
  cases task with
  | add call phase =>
    cases phase with
    | processing created snapshot phase => exact hprocess h
    | creating draft =>
      obtain rfl := Option.some.inj h
      rfl
    | undoing created error =>
      obtain rfl := Option.some.inj h
      rfl
    | _ => cases h
  | poll p phase =>
    cases phase with
    | processing token group snapshot rest phase => exact hprocess h
    | markingSuccess =>
      obtain rfl := Option.some.inj h
      rfl
    | invalidating =>
      obtain rfl := Option.some.inj h
      rfl
    | recordingDmError message =>
      obtain rfl := Option.some.inj h
      rfl
    | _ => cases h

/-- A history has grown without a pruning. -/
def Database.Unpruned (db db' : Database) : Prop :=
  ∃ new, db'.history = db.history ++ new ∧ ∀ c ∈ new, c.transaction.pruneTime = none

theorem Database.Unpruned.of_eq {db db' : Database} (h : db' = db) : db.Unpruned db' :=
  ⟨[], by rw [h, List.append_nil], by simp⟩

/-- Only the loop prunes. -/
theorem System.step_unpruned {env : Environment} {s s' : System} {label : Label}
    (hlabel : ∀ utcNow, label ≠ .operation (.prune utcNow)) (h : s.step env label = some s') :
    s.database.Unpruned s'.database := by
  rcases step_database h with hsame | ⟨origin, t, answer, hcommit, hwho⟩
  · exact .of_eq hsame
  refine ⟨_, (Database.commit_eq_ok.mp hcommit).2, fun c hc => ?_⟩
  obtain rfl := List.mem_singleton.mp hc
  rcases hwho with ⟨operation, rfl, ht⟩ | ⟨i, input, task, -, -, hpending⟩
  · cases operation with
    | authenticate discordUserId rawToken nonce =>
      obtain ⟨encrypted, fingerprint, rfl⟩ := AuthService.authenticate_ok ht
      rfl
    | prune utcNow => exact absurd rfl (hlabel utcNow)
    | _ =>
      obtain rfl := Except.ok.inj ht
      rfl
  · exact Task.pruneTime_of_pending hpending

namespace Coordinator

variable {api : DonutApiClient} {env : Environment} {s s' : Coordinator}
  {event : CoordinatorEvent}

/-- What a step does to the loop and to the prunings. -/
private theorem react_pruning (h : react api env s event = some s') :
    s'.clock = s.clock ∧
    ((∃ utcNow now, event = .pruned utcNow ∧ s.cycle = .pruning now ∧ s'.cycle = .loading now ∧
      s'.lastPruneAt = some now ∧ ∃ c, s'.system.database.history =
        s.system.database.history ++ [c] ∧ c.transaction = .prune utcNow) ∨
    s'.lastPruneAt = s.lastPruneAt ∧ s.system.database.Unpruned s'.system.database ∧
      (s'.cycle = s.cycle ∨
        s'.cycle = (if s.pruneDue then .pruning s.clock else .loading s.clock) ∨
          (∃ wakeAt, s'.cycle = .sleeping wakeAt) ∨ ∃ polls, s'.cycle = .polling polls)) := by
  cases event with
  | runOnce =>
    obtain ⟨wakeAt, -, -, rfl⟩ := react_runOnce.mp h
    exact ⟨rfl, .inr ⟨rfl, .of_eq rfl, .inr (.inl rfl)⟩⟩
  | pruned utcNow =>
    obtain ⟨now, system, hcycle, hsystem, rfl⟩ := react_pruned.mp h
    obtain ⟨t, answer, database, ht, hcommit, rfl⟩ := System.step_operation.mp hsystem
    obtain rfl := Except.ok.inj ht
    exact ⟨rfl, .inl ⟨utcNow, now, rfl, hcycle, rfl, rfl, _, (Database.commit_eq_ok.mp hcommit).2,
      rfl⟩⟩
  | loaded =>
    obtain ⟨now, -, rfl⟩ := react_loaded.mp h
    exact ⟨rfl, .inr ⟨rfl, .of_eq rfl, .inr (.inr (.inr ⟨_, rfl⟩))⟩⟩
  | raised =>
    obtain ⟨-, rfl⟩ := react_raised.mp h
    exact ⟨rfl, .inr ⟨rfl, .of_eq rfl, .inr (.inr (.inl ⟨_, rfl⟩))⟩⟩
  | returned =>
    obtain ⟨polls, -, -, rfl⟩ := react_returned.mp h
    exact ⟨rfl, .inr ⟨rfl, .of_eq rfl, .inr (.inr (.inl ⟨_, rfl⟩))⟩⟩
  | system label =>
    obtain ⟨hlabel, system, hsystem, rfl⟩ := react_system.mp h
    refine ⟨rfl, .inr ⟨rfl, System.step_unpruned (fun utcNow hprune => ?_) hsystem, .inl rfl⟩⟩
    rw [hprune] at hlabel
    cases hlabel
  | request i =>
    obtain ⟨task, args, client, -, -, -, rfl⟩ := requestPage_eq_some.mp (react_request.mp h).2
    exact ⟨rfl, .inr ⟨rfl, .of_eq rfl, .inl rfl⟩⟩
  | nextPage i =>
    obtain ⟨fetch, call, payload, -, -, -, -, h⟩ := react_nextPage.mp h
    obtain ⟨task, args, client, -, -, -, rfl⟩ := requestPage_eq_some.mp h
    exact ⟨rfl, .inr ⟨rfl, .of_eq rfl, .inl rfl⟩⟩
  | fetched i outcome =>
    obtain ⟨fetch, call, system, -, -, -, hsystem, rfl⟩ := react_fetched.mp h
    have hlabel : ∀ utcNow, Label.fetched i outcome ≠ .operation (.prune utcNow) := nofun
    exact ⟨rfl, .inr ⟨rfl, System.step_unpruned hlabel hsystem, .inl rfl⟩⟩
  | client event =>
    obtain ⟨client, -, rfl⟩ := react_client.mp h
    exact ⟨rfl, .inr ⟨rfl, .of_eq rfl, .inl rfl⟩⟩

/-- The number of prunings that have committed. -/
def prunings (s : Coordinator) : ℕ :=
  (s.system.database.history.filterMap (·.transaction.pruneTime)).length

/-- What holds of the time of the last pruning and of the cycle. -/
structure Pruned (s : Coordinator) : Prop where
  last : ∀ last, s.lastPruneAt = some last → last ≤ s.clock
  pruning : ∀ now, s.cycle = .pruning now →
    now ≤ s.clock ∧ ∀ last, s.lastPruneAt = some last → last + 86400 ≤ now
  loading : ∀ now, s.cycle = .loading now →
    ∃ last, s.lastPruneAt = some last ∧ now < last + 86400

theorem pruneDue_iff : s.pruneDue = true ↔ ∀ last, s.lastPruneAt = some last →
    last + 86400 ≤ s.clock := by
  rw [pruneDue]
  cases s.lastPruneAt with
  | none => simp
  | some last => simp [le_sub_iff_add_le, add_comm]

private theorem Pruned.react (hs : s.Pruned) (h : react api env s event = some s') :
    s'.Pruned := by
  obtain ⟨hclock, hcases⟩ := react_pruning h
  rcases hcases with ⟨-, now, -, hcycle, hcycle', hlast', -⟩ | ⟨hlast', -, hcycle'⟩
  · obtain ⟨hnow, -⟩ := hs.pruning now hcycle
    refine ⟨fun last hlast => ?_, fun now' hnow' => ?_, fun now' hnow' => ?_⟩
    · obtain rfl := Option.some.inj (hlast'.symm.trans hlast)
      exact hclock ▸ hnow
    · cases hcycle'.symm.trans hnow'
    · obtain rfl := CyclePhase.loading.inj (hcycle'.symm.trans hnow')
      exact ⟨now, hlast', by linarith⟩
  · refine ⟨fun last hlast => ?_, fun now hnow => ?_, fun now hnow => ?_⟩
    · exact hclock ▸ hs.last last (hlast' ▸ hlast)
    · rw [hlast']
      rcases hcycle' with hsame | hstart | ⟨wakeAt, hsleeping⟩ | ⟨polls, hpolling⟩
      · obtain ⟨hle, hdue⟩ := hs.pruning now (hsame ▸ hnow)
        exact ⟨hclock ▸ hle, hdue⟩
      · rw [hnow] at hstart
        split_ifs at hstart with hdue
        obtain rfl := CyclePhase.pruning.inj hstart
        exact ⟨hclock.ge, pruneDue_iff.mp hdue⟩
      · cases hsleeping.symm.trans hnow
      · cases hpolling.symm.trans hnow
    · rw [hlast']
      rcases hcycle' with hsame | hstart | ⟨wakeAt, hsleeping⟩ | ⟨polls, hpolling⟩
      · exact hs.loading now (hsame ▸ hnow)
      · rw [hnow] at hstart
        split_ifs at hstart with hdue
        obtain rfl := CyclePhase.loading.inj hstart
        simpa only [pruneDue_iff, not_forall, not_le, exists_prop] using hdue
      · cases hsleeping.symm.trans hnow
      · cases hpolling.symm.trans hnow

theorem Reachable.pruned (h : Reachable api env s) : s.Pruned := by
  obtain ⟨clock, h⟩ := h
  refine h.invariant (I := Pruned) ?_ ⟨nofun, nofun, nofun⟩
  rintro s ⟨now, event⟩ s' hs hstep
  obtain ⟨hnow, hreact⟩ := step_eq_some.mp hstep
  have hs' : Pruned { s with clock := now } := by
    refine ⟨fun last hlast => ?_, fun now' hnow' => ?_, hs.loading⟩
    · exact (hs.last last hlast).trans hnow
    · obtain ⟨hle, hdue⟩ := hs.pruning now' hnow'
      exact ⟨hle.trans hnow, hdue⟩
  exact hs'.react hreact

/-- The last pruning of a run from `start` to `s`: the step at this time of the clock has committed
it, and `post` has been committed since. -/
structure LastPruning (api : DonutApiClient) (env : Environment) (start s : Coordinator)
    (events : List (ℚ × CoordinatorEvent)) (time utcNow : ℚ) (post : List Commit) : Prop where
  committed : ∃ before after s₀ s₁ c, events = before ++ (time, .pruned utcNow) :: after ∧
    run (step api env) start before = some s₀ ∧
    step api env s₀ (time, .pruned utcNow) = some s₁ ∧
    s₁.system.database.history = s₀.system.database.history ++ [c] ∧
    c.transaction = .prune utcNow ∧
    s.system.database.history = s₁.system.database.history ++ post
  last : ∀ c ∈ post, c.transaction.pruneTime = none

theorem LastPruning.concat {start : Coordinator} {events : List (ℚ × CoordinatorEvent)}
    {time utcNow : ℚ} {post : List Commit} (h : LastPruning api env start s events time utcNow post)
    (label : ℚ × CoordinatorEvent) (hunpruned : s.system.database.Unpruned s'.system.database) :
    ∃ post', LastPruning api env start s' (events ++ [label]) time utcNow post' := by
  obtain ⟨before, after, s₀, s₁, c, rfl, hbefore, hstep, hcommit, hprune, hhistory⟩ := h.committed
  obtain ⟨new, hgrown, hnew⟩ := hunpruned
  refine ⟨post ++ new, ⟨before, after ++ [label], s₀, s₁, c, by simp, hbefore, hstep, hcommit,
    hprune, by rw [hgrown, hhistory, List.append_assoc]⟩, fun c' hc' => ?_⟩
  rcases List.mem_append.mp hc' with hc' | hc'
  · exact h.last c' hc'
  · exact hnew c' hc'

/-- The field of the loop holds a time before the step that committed the last pruning. -/
theorem exists_lastPruning {clock : ℚ} {events : List (ℚ × CoordinatorEvent)}
    (hrun : run (step api env) (initial env clock) events = some s) {last : ℚ}
    (hlast : s.lastPruneAt = some last) : ∃ time utcNow post, last ≤ time ∧
      LastPruning api env (initial env clock) s events time utcNow post := by
  induction events using List.reverseRecOn generalizing s with
  | nil =>
    obtain rfl := Option.some.inj hrun
    cases hlast
  | append_singleton events label ih =>
    obtain ⟨m, hm, hlabel⟩ := (run_append _).mp hrun
    have hstep := (run_singleton _).mp hlabel
    obtain ⟨time, event⟩ := label
    obtain ⟨htime, hreact⟩ := step_eq_some.mp hstep
    obtain ⟨-, ⟨utcNow, now, rfl, hcycle, -, hlast', c, hcommit, hprune⟩ |
      ⟨hlast', hunpruned, -⟩⟩ := react_pruning hreact
    · have hpruned : Pruned m := Reachable.pruned ⟨clock, events, hm⟩
      obtain rfl := Option.some.inj (hlast'.symm.trans hlast)
      exact ⟨time, utcNow, [], (hpruned.pruning now hcycle).1.trans htime,
        ⟨events, [], m, s, c, rfl, hm, hstep, hcommit, hprune, (List.append_nil _).symm⟩, by simp⟩
    · obtain ⟨time', utcNow, post, hle, hpost⟩ := ih hm (hlast'.symm.trans hlast)
      obtain ⟨post', hpost'⟩ := hpost.concat (time, event) hunpruned
      exact ⟨time', utcNow, post', hle, hpost'⟩

/-- When a cycle loads the users, less than a day has passed since the last pruning was committed,
and every stored observation was young enough then, or has been stored since. -/
structure Retains (api : DonutApiClient) (env : Environment) (start s : Coordinator)
    (events : List (ℚ × CoordinatorEvent)) (now time utcNow : ℚ) (post : List Commit) : Prop where
  pruning : LastPruning api env start s events time utcNow post
  day : now < time + 86400
  rows : ∀ o ∈ s.system.database.store.observations.rows,
    env.settings.cutoff utcNow ≤ o.observedAt ∨ ∃ c ∈ post, c.transaction.observation = some o

/-- The loop starts, and prunes first. -/
def prunedOnce : List (ℚ × CoordinatorEvent) := [(0, .runOnce), (0, .pruned 5)]

theorem prunings_append {history new : List Commit} :
    ((history ++ new).filterMap (·.transaction.pruneTime)).length =
      (history.filterMap (·.transaction.pruneTime)).length +
        (new.filterMap (·.transaction.pruneTime)).length := by
  rw [List.filterMap_append, List.length_append]

/-- From a pruning on, any number of further prunings takes at least as many days. -/
theorem Reachable.pruned_apart (h : Reachable api env s) {last : ℚ}
    (hlast : s.lastPruneAt = some last) (hrun : Transition.Reachable (step api env) s s') :
    last + 86400 * (s'.prunings - s.prunings) ≤ s'.clock := by
  have hinv := hrun.invariant (I := fun s' => Reachable api env s' ∧ ∃ last',
    s'.lastPruneAt = some last' ∧ last + 86400 * ((s'.prunings : ℚ) - s.prunings) ≤ last') ?_
      ⟨h, last, hlast, by simp⟩
  · obtain ⟨hs', last', hlast', hle⟩ := hinv
    exact hle.trans (hs'.pruned.last last' hlast')
  · rintro s₁ ⟨now, event⟩ s₂ ⟨hs₁, last', hlast', hle⟩ hstep
    have hs₂ : Reachable api env s₂ := hs₁.imp fun _ hreach => hreach.tail hstep
    obtain ⟨-, hreact⟩ := step_eq_some.mp hstep
    obtain ⟨-, ⟨utcNow, now', -, hcycle, -, hlast₂, c, hhistory, hprune⟩ |
      ⟨hlast₂, ⟨new, hhistory, hnew⟩, -⟩⟩ := react_pruning hreact
    · have hday := (hs₁.pruned.pruning now' hcycle).2 last' hlast'
      have hcount : s₂.prunings = s₁.prunings + 1 := by
        rw [prunings, hhistory, prunings_append, prunings]
        simp [hprune, Transaction.pruneTime]
      refine ⟨hs₂, now', hlast₂, ?_⟩
      rw [hcount]
      push_cast
      linarith
    · have hcount : s₂.prunings = s₁.prunings := by
        rw [prunings, hhistory, prunings_append, List.filterMap_eq_nil_iff.mpr hnew, prunings]
        rfl
      exact ⟨hs₂, last', hlast₂.trans hlast', by rwa [hcount]⟩

/-- The loop prunes again on the next day. -/
theorem Reachable.pruned_apart_prunedOnce : ∃ s s',
    run (step ⟨DonutApiClient.twoDigitHeaders, 2⟩ .plain) (initial .plain 0) prunedOnce = some s ∧
      run (step ⟨DonutApiClient.twoDigitHeaders, 2⟩ .plain) s
        [(0, .loaded), (0, .returned), (86400, .runOnce), (86400, .pruned 86405)] = some s' ∧
      s'.prunings = s.prunings + 1 ∧ 0 + 86400 * ((s'.prunings : ℚ) - s.prunings) ≤ s'.clock := by
  have hrun : ((run (step ⟨DonutApiClient.twoDigitHeaders, 2⟩ .plain) (initial .plain 0)
      prunedOnce).bind fun s => (run (step ⟨DonutApiClient.twoDigitHeaders, 2⟩ .plain) s
        [(0, .loaded), (0, .returned), (86400, .runOnce), (86400, .pruned 86405)]).map fun s' =>
          decide (s.lastPruneAt = some 0 ∧ s'.prunings = s.prunings + 1)) = some true := by
    decide +kernel
  obtain ⟨s, hs, hrun⟩ := Option.bind_eq_some_iff.mp hrun
  obtain ⟨s', hs', hfacts⟩ := Option.map_eq_some_iff.mp hrun
  obtain ⟨hlast, hcount⟩ := of_decide_eq_true hfacts
  have hreachable : Reachable ⟨DonutApiClient.twoDigitHeaders, 2⟩ .plain s := ⟨0, prunedOnce, hs⟩
  exact ⟨s, s', hs, hs', hcount, hreachable.pruned_apart hlast ⟨_, hs'⟩⟩

end Coordinator

end DonutMonitor
