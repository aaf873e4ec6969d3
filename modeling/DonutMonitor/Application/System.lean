import DonutMonitor.Application.History
import DonutMonitor.Application.Tasks

/-!
# All tasks at work on one database

A `System` is the database together with the tasks in flight: any number of calls of
`WatchService.add` and of polls, started at any time, which take their steps in any order. The
other operations of the services are one transaction each. Beside the state of the code a system
records what came back from outside: the requests that were answered 401 or 403, and the
transactions of tasks that raised.

## Main definitions

* `Operation`, `Label`, `System.step` — the operations, and one step of the system.

## Main results

* `System.step_database` — what a step does to the database.
* `System.step_tasks` — what a step does to the tasks.
* `System.Reachable.database` — the database of a reachable system is reachable by transactions.
* `System.Reachable.run_between`, `System.Reachable.run_credentials` — what the events between two
  systems of a run make of a rule and of a user.
-/

namespace DonutMonitor

open Transition

/-! ### Operations -/

/-- `TokenCipher.encrypt`. -/
def TokenCipher.encrypt (env : Environment) (nonce : ℕ) (token : String) :
    Except ServiceError String :=
  let normalized := strip token
  if normalized = "" then .error (.other "ValueError") else .ok (env.encrypt nonce normalized)

/-- `AuthService.authenticate`, once the API has accepted the token. -/
def AuthService.authenticate (env : Environment) (discordUserId : ℤ) (rawToken : String)
    (nonce : ℕ) : Except ServiceError Transaction := do
  let token := strip rawToken
  if token = "" then .error (.donutApiError (.authentication "Token must not be empty"))
  else
    let fingerprint := env.tokenFingerprint (strip token)
    let encrypted ← TokenCipher.encrypt env nonce token
    .ok (.saveValidToken discordUserId encrypted fingerprint)

/-- The operations of the services that are one transaction each. -/
inductive Operation where
  | authenticate (discordUserId : ℤ) (rawToken : String) (nonce : ℕ)
  | logout (discordUserId : ℤ)
  | delete (discordUserId displayId : ℤ)
  | setEnabled (discordUserId displayId : ℤ) (enabled : Bool)
  | deleteByDatabaseId (discordUserId : ℤ) (databaseId : ℕ)
  | setEnabledByDatabaseId (discordUserId : ℤ) (databaseId : ℕ) (enabled : Bool)
  | prune (now : ℚ)
  deriving DecidableEq

/-- The transaction of an operation. -/
def Operation.transaction (env : Environment) : Operation → Except ServiceError Transaction
  | authenticate discordUserId rawToken nonce =>
    AuthService.authenticate env discordUserId rawToken nonce
  | logout discordUserId => .ok (.logout discordUserId)
  | delete discordUserId displayId => .ok (.delete discordUserId displayId)
  | setEnabled discordUserId displayId enabled =>
    .ok (.setEnabled discordUserId displayId enabled)
  | deleteByDatabaseId discordUserId databaseId =>
    .ok (.deleteByDatabaseId discordUserId databaseId)
  | setEnabledByDatabaseId discordUserId databaseId enabled =>
    .ok (.setEnabledByDatabaseId discordUserId databaseId enabled)
  | prune now => .ok (.prune now)

/-- A token that is saved is one of its user. -/
theorem AuthService.authenticate_ok {env : Environment} {discordUserId : ℤ} {rawToken : String}
    {nonce : ℕ} {t : Transaction} (h : authenticate env discordUserId rawToken nonce = .ok t) :
    ∃ encrypted fingerprint, t = .saveValidToken discordUserId encrypted fingerprint := by
  rw [authenticate] at h
  split_ifs at h
  obtain ⟨encrypted, -, h⟩ := Except.bind_eq_ok.mp h
  exact ⟨encrypted, _, (Except.ok.inj h).symm⟩

/-! ### The system -/

/-- What came back to a task from outside. -/
inductive Incident where
  /-- A request with this token was answered 401 or 403; the time is the length of the history. -/
  | tokenRejected (time : ℕ) (token : String)
  /-- A transaction of the task raised. -/
  | transactionRaised (task : ℕ)
  deriving DecidableEq

/-- The database and the tasks, in the order in which they were started. -/
structure System where
  database : Database := {}
  tasks : List Task := []
  incidents : List Incident := []

/-- One step of the system. -/
inductive Label where
  | operation (operation : Operation)
  | startAdd (call : AddCall)
  | startPoll (discordUserId : ℤ)
  | commit (task : ℕ) (input : CommitInput)
  | reject (task : ℕ) (error : DatabaseError)
  | fetched (task : ℕ) (outcome : PriceOutcome)
  | sent (task : ℕ) (outcome : Except String ℤ)

/-- The user and its enabled rules, when a cycle of the coordinator polls it. -/
def loadPoll (db : Database) (discordUserId : ℤ) : Option Poll :=
  ((UserRepository.validUsersWithRules db.store).find?
    fun loaded => loaded.1.discordUserId = discordUserId).map fun (user, rules) =>
      ⟨user, rules.filter (·.enabled), db.history.length⟩

/-- The incident of an answer to a request. -/
def PriceOutcome.incident (time : ℕ) (request : PriceRequest) : PriceOutcome → List Incident
  | donutApiError (.authentication _) => [.tokenRejected time request.token]
  | _ => []

theorem PriceOutcome.mem_incident {time : ℕ} {request : PriceRequest} {outcome : PriceOutcome}
    {incident : Incident} :
    incident ∈ outcome.incident time request ↔
      (∃ message, outcome = .donutApiError (.authentication message)) ∧
        incident = .tokenRejected time request.token := by
  cases outcome with
  | listing listing checkedAt pagesScanned => simp [PriceOutcome.incident]
  | donutApiError error => cases error <;> simp [PriceOutcome.incident]
  | exception name => simp [PriceOutcome.incident]

namespace System

variable (env : Environment)

/-- The system after a step, when the step is possible. -/
def step (s : System) : Label → Option System
  | .operation operation =>
    match operation.transaction env with
    | .error _ => none
    | .ok t =>
      match s.database.commit env none t with
      | .error _ => none
      | .ok (_, database) => some { s with database := database }
  | .startAdd call => some { s with tasks := s.tasks ++ [.add call (.start env call)] }
  | .startPoll discordUserId =>
    (loadPoll s.database discordUserId).map fun poll =>
      { s with tasks := s.tasks ++ [.poll poll (.start env poll)] }
  | .commit i input => do
    let task ← s.tasks[i]?
    let t ← task.pending input
    match s.database.commit env (some i) t with
    | .error error =>
      let task ← task.fail error
      some { s with
        tasks := s.tasks.set i task
        incidents := s.incidents ++ [.transactionRaised i] }
    | .ok (answer, database) =>
      let task ← task.resume answer
      some { s with
        database := database
        tasks := s.tasks.set i task }
  | .reject i error => do
    let task ← s.tasks[i]?
    let task ← task.fail (.databaseError error)
    some { s with
      tasks := s.tasks.set i task
      incidents := s.incidents ++ [.transactionRaised i] }
  | .fetched i outcome => do
    let task ← s.tasks[i]?
    let request ← task.request env
    let task ← task.fetched env outcome
    some { s with
      tasks := s.tasks.set i task
      incidents := s.incidents ++ outcome.incident s.database.history.length request }
  | .sent i outcome => do
    let task ← s.tasks[i]?
    let task ← task.sent outcome
    some { s with tasks := s.tasks.set i task }

/-- The systems that some interleaving leads to. -/
abbrev Reachable (s : System) : Prop := Transition.Reachable (step env) {} s

variable {env} {s s' : System} {i : ℕ}

/-! ### Inversion of steps -/

theorem step_operation {operation : Operation} :
    s.step env (.operation operation) = some s' ↔ ∃ t answer database,
      operation.transaction env = .ok t ∧ s.database.commit env none t = .ok (answer, database) ∧
        s' = { s with database := database } := by
  simp only [step]
  cases operation.transaction env with
  | error e => simp
  | ok t =>
    cases hcommit : s.database.commit env none t with
    | error e => simp [hcommit]
    | ok result =>
      obtain ⟨answer, database⟩ := result
      simp [hcommit, eq_comm]

theorem step_startPoll {discordUserId : ℤ} :
    s.step env (.startPoll discordUserId) = some s' ↔
      ∃ poll, loadPoll s.database discordUserId = some poll ∧
        s' = { s with tasks := s.tasks ++ [.poll poll (.start env poll)] } := by
  simp only [step, Option.map_eq_some_iff, eq_comm (a := s')]

/-- A task that commits its transaction, or sees it raise. -/
theorem step_commit {input : CommitInput} :
    s.step env (.commit i input) = some s' ↔ ∃ task t task',
      s.tasks[i]? = some task ∧ task.pending input = some t ∧
        ((∃ error, s.database.commit env (some i) t = .error error ∧
            task.fail error = some task' ∧
            s' = { s with
              tasks := s.tasks.set i task'
              incidents := s.incidents ++ [.transactionRaised i] }) ∨
          ∃ answer database, s.database.commit env (some i) t = .ok (answer, database) ∧
            task.resume answer = some task' ∧
            s' = { s with
              database := database
              tasks := s.tasks.set i task' }) := by
  simp only [step, bind, Option.bind_eq_some_iff]
  constructor
  · rintro ⟨task, htask, t, ht, h⟩
    cases hcommit : s.database.commit env (some i) t with
    | error error =>
      rw [hcommit] at h
      obtain ⟨task', hfail, h⟩ := Option.bind_eq_some_iff.mp h
      exact ⟨task, t, task', htask, ht, .inl ⟨error, hcommit, hfail, (Option.some.inj h).symm⟩⟩
    | ok result =>
      obtain ⟨answer, database⟩ := result
      rw [hcommit] at h
      obtain ⟨task', hresume, h⟩ := Option.bind_eq_some_iff.mp h
      exact ⟨task, t, task', htask, ht,
        .inr ⟨answer, database, hcommit, hresume, (Option.some.inj h).symm⟩⟩
  · rintro ⟨task, t, task', htask, ht, ⟨error, hcommit, hfail, rfl⟩ |
      ⟨answer, database, hcommit, hresume, rfl⟩⟩
    · exact ⟨task, htask, t, ht, by simp [hcommit, hfail]⟩
    · exact ⟨task, htask, t, ht, by simp [hcommit, hresume]⟩

theorem step_reject {error : DatabaseError} :
    s.step env (.reject i error) = some s' ↔ ∃ task task', s.tasks[i]? = some task ∧
      task.fail (.databaseError error) = some task' ∧
      s' = { s with
        tasks := s.tasks.set i task'
        incidents := s.incidents ++ [.transactionRaised i] } := by
  simp only [step, bind, Option.bind_eq_some_iff, Option.some.injEq, eq_comm (a := s'),
    exists_and_left]

theorem step_fetched {outcome : PriceOutcome} :
    s.step env (.fetched i outcome) = some s' ↔ ∃ task request task', s.tasks[i]? = some task ∧
      task.request env = some request ∧ task.fetched env outcome = some task' ∧
      s' = { s with
        tasks := s.tasks.set i task'
        incidents := s.incidents ++ outcome.incident s.database.history.length request } := by
  simp only [step, bind, Option.bind_eq_some_iff, Option.some.injEq, eq_comm (a := s'),
    exists_and_left]

theorem step_sent {outcome : Except String ℤ} :
    s.step env (.sent i outcome) = some s' ↔ ∃ task task', s.tasks[i]? = some task ∧
      task.sent outcome = some task' ∧ s' = { s with tasks := s.tasks.set i task' } := by
  simp only [step, bind, Option.bind_eq_some_iff, Option.some.injEq, eq_comm (a := s'),
    exists_and_left]

/-- What a step does to the database: nothing, or one transaction, of an operation or of a task. -/
theorem step_database {label : Label} (h : s.step env label = some s') :
    s'.database = s.database ∨
      ∃ origin t answer, s.database.commit env origin t = .ok (answer, s'.database) ∧
        ((∃ operation, label = .operation operation ∧ operation.transaction env = .ok t) ∨
          ∃ i input task, label = .commit i input ∧ s.tasks[i]? = some task ∧
            task.pending input = some t) := by
  cases label with
  | operation operation =>
    obtain ⟨t, answer, database, ht, hcommit, rfl⟩ := step_operation.mp h
    exact .inr ⟨none, t, answer, hcommit, .inl ⟨operation, rfl, ht⟩⟩
  | startAdd call =>
    obtain rfl := Option.some.inj h
    exact .inl rfl
  | startPoll discordUserId =>
    obtain ⟨poll, -, rfl⟩ := step_startPoll.mp h
    exact .inl rfl
  | commit i input =>
    obtain ⟨task, t, task', htask, hpending, ⟨error, -, -, rfl⟩ |
      ⟨answer, database, hcommit, -, rfl⟩⟩ := step_commit.mp h
    · exact .inl rfl
    · exact .inr ⟨some i, t, answer, hcommit, .inr ⟨i, input, task, rfl, htask, hpending⟩⟩
  | reject i error =>
    obtain ⟨task, task', -, -, rfl⟩ := step_reject.mp h
    exact .inl rfl
  | fetched i outcome =>
    obtain ⟨task, request, task', -, -, -, rfl⟩ := step_fetched.mp h
    exact .inl rfl
  | sent i outcome =>
    obtain ⟨task, task', -, -, rfl⟩ := step_sent.mp h
    exact .inl rfl

/-- Incidents are only added. -/
theorem step_incidents {label : Label} (h : s.step env label = some s') :
    s.incidents ⊆ s'.incidents := by
  cases label with
  | operation operation =>
    obtain ⟨t, answer, database, -, -, rfl⟩ := step_operation.mp h
    exact List.Subset.refl _
  | startAdd call =>
    obtain rfl := Option.some.inj h
    exact List.Subset.refl _
  | startPoll discordUserId =>
    obtain ⟨poll, -, rfl⟩ := step_startPoll.mp h
    exact List.Subset.refl _
  | commit i input =>
    obtain ⟨task, t, task', -, -, ⟨error, -, -, rfl⟩ | ⟨answer, database, -, -, rfl⟩⟩ :=
      step_commit.mp h
    · exact List.subset_append_left _ _
    · exact List.Subset.refl _
  | reject i error =>
    obtain ⟨task, task', -, -, rfl⟩ := step_reject.mp h
    exact List.subset_append_left _ _
  | fetched i outcome =>
    obtain ⟨task, request, task', -, -, -, rfl⟩ := step_fetched.mp h
    exact List.subset_append_left _ _
  | sent i outcome =>
    obtain ⟨task, task', -, -, rfl⟩ := step_sent.mp h
    exact List.Subset.refl _

/-- The database of a reachable system is one that transactions lead to. -/
theorem Reachable.database (h : Reachable env s) : s.database.Reachable env := by
  refine h.invariant (I := fun s => s.database.Reachable env) (fun s label s' hs hstep => ?_)
    (.refl _)
  rcases step_database hstep with hsame | ⟨origin, t, answer, hcommit, -⟩
  · rwa [hsame]
  · exact hs.commit hcommit

/-! ### One task among the others -/

/-- A task of a list in which one has moved is this one or another. -/
theorem task_of_set {tasks : List Task} {j : ℕ} {moved task : Task}
    (h : (tasks.set j moved)[i]? = some task) :
    i = j ∧ task = moved ∨ i ≠ j ∧ tasks[i]? = some task := by
  by_cases hij : i = j
  · subst hij
    rw [List.getElem?_set_self'] at h
    obtain ⟨_, -, hmoved⟩ := Option.map_eq_some_iff.mp h
    exact .inl ⟨rfl, hmoved.symm⟩
  · rw [List.getElem?_set_ne (Ne.symm hij)] at h
    exact .inr ⟨hij, h⟩

/-- A task of a list that has grown is an old one or a new one. -/
theorem task_of_append {tasks new : List Task} {task : Task}
    (h : (tasks ++ new)[i]? = some task) :
    tasks[i]? = some task ∨ tasks.length ≤ i ∧ new[i - tasks.length]? = some task := by
  rw [List.getElem?_append] at h
  split at h
  · exact .inl h
  · next hge => exact .inr ⟨not_lt.mp hge, h⟩

/-- What happens outside task `i`: at most one transaction of another task or an operation, and
incidents that are not about the task. -/
structure Elsewhere (env : Environment) (s s' : System) (i : ℕ) : Prop where
  database : s'.database = s.database ∨ ∃ origin t answer, origin ≠ some i ∧
    s.database.commit env origin t = .ok (answer, s'.database)
  incidents : ∃ new, s'.incidents = s.incidents ++ new ∧ .transactionRaised i ∉ new

/-- What task `i` does in a step of its own. -/
inductive Moves (env : Environment) (s s' : System) (i : ℕ) (task task' : Task) : Prop where
  | committed (input : CommitInput) (t : Transaction) (answer : Answer)
      (hpending : task.pending input = some t)
      (hcommit : s.database.commit env (some i) t = .ok (answer, s'.database))
      (hresume : task.resume answer = some task')
      (hincidents : s'.incidents = s.incidents)
  | raised (error : ServiceError) (hfail : task.fail error = some task')
      (hdatabase : s'.database = s.database)
      (hincidents : s'.incidents = s.incidents ++ [.transactionRaised i])
  | fetched (request : PriceRequest) (outcome : PriceOutcome)
      (hrequest : task.request env = some request)
      (hfetched : task.fetched env outcome = some task') (hdatabase : s'.database = s.database)
      (hincidents : s'.incidents =
        s.incidents ++ outcome.incident s.database.history.length request)
  | sent (outcome : Except String ℤ) (hsent : task.sent outcome = some task')
      (hdatabase : s'.database = s.database) (hincidents : s'.incidents = s.incidents)

/-- A task after a step is a new one, one that the step did not touch, or one that moved. -/
theorem step_tasks {label : Label} (h : s.step env label = some s') {task' : Task}
    (htask' : s'.tasks[i]? = some task') :
    (i = s.tasks.length ∧ s'.database = s.database ∧ s'.incidents = s.incidents ∧
        ((∃ call, task' = .add call (.start env call)) ∨
          ∃ discordUserId poll, loadPoll s.database discordUserId = some poll ∧
            task' = .poll poll (.start env poll))) ∨
      s.tasks[i]? = some task' ∧ Elsewhere env s s' i ∨
      ∃ task, s.tasks[i]? = some task ∧ Moves env s s' i task task' := by
  have hnew : ∀ {started : Task}, (s.tasks ++ [started])[i]? = some task' →
      s.tasks[i]? = some task' ∨ i = s.tasks.length ∧ task' = started := by
    intro started hi
    refine (task_of_append hi).imp_right fun ⟨hge, hstarted⟩ => ?_
    rw [List.getElem?_singleton] at hstarted
    split_ifs at hstarted with hlength
    exact ⟨by omega, (Option.some.inj hstarted).symm⟩
  have hquiet : ∀ {s' : System}, s'.database = s.database → s'.incidents = s.incidents →
      Elsewhere env s s' i := fun hdatabase hincidents =>
    ⟨.inl hdatabase, [], by rw [hincidents, List.append_nil], List.not_mem_nil⟩
  have hother : ∀ {j : ℕ}, i ≠ j → Incident.transactionRaised i ∉ [.transactionRaised j] := by
    intro j hij hmem
    exact hij (Incident.transactionRaised.inj (List.mem_singleton.mp hmem))
  cases label with
  | operation operation =>
    obtain ⟨t, answer, database, -, hcommit, rfl⟩ := step_operation.mp h
    exact .inr (.inl ⟨htask', .inr ⟨none, t, answer, nofun, hcommit⟩, [],
      (List.append_nil _).symm, List.not_mem_nil⟩)
  | startAdd call =>
    obtain rfl := Option.some.inj h
    rcases hnew htask' with hold | ⟨hlength, rfl⟩
    · exact .inr (.inl ⟨hold, hquiet rfl rfl⟩)
    · exact .inl ⟨hlength, rfl, rfl, .inl ⟨call, rfl⟩⟩
  | startPoll discordUserId =>
    obtain ⟨poll, hpoll, rfl⟩ := step_startPoll.mp h
    rcases hnew htask' with hold | ⟨hlength, rfl⟩
    · exact .inr (.inl ⟨hold, hquiet rfl rfl⟩)
    · exact .inl ⟨hlength, rfl, rfl, .inr ⟨discordUserId, poll, hpoll, rfl⟩⟩
  | commit j input =>
    obtain ⟨task, t, moved, htask, hpending, ⟨error, -, hfail, rfl⟩ |
      ⟨answer, database, hcommit, hresume, rfl⟩⟩ := step_commit.mp h
    · rcases task_of_set htask' with ⟨rfl, rfl⟩ | ⟨hij, hold⟩
      · exact .inr (.inr ⟨task, htask, .raised error hfail rfl rfl⟩)
      · exact .inr (.inl ⟨hold, .inl rfl, _, rfl, hother hij⟩)
    · rcases task_of_set htask' with ⟨rfl, rfl⟩ | ⟨hij, hold⟩
      · exact .inr (.inr ⟨task, htask, .committed input t answer hpending hcommit hresume rfl⟩)
      · exact .inr (.inl ⟨hold, .inr ⟨some j, t, answer, fun hj => hij (Option.some.inj hj).symm,
          hcommit⟩, [], (List.append_nil _).symm, List.not_mem_nil⟩)
  | reject j error =>
    obtain ⟨task, moved, htask, hfail, rfl⟩ := step_reject.mp h
    rcases task_of_set htask' with ⟨rfl, rfl⟩ | ⟨hij, hold⟩
    · exact .inr (.inr ⟨task, htask, .raised _ hfail rfl rfl⟩)
    · exact .inr (.inl ⟨hold, .inl rfl, _, rfl, hother hij⟩)
  | fetched j outcome =>
    obtain ⟨task, request, moved, htask, hrequest, hfetched, rfl⟩ := step_fetched.mp h
    rcases task_of_set htask' with ⟨rfl, rfl⟩ | ⟨hij, hold⟩
    · exact .inr (.inr ⟨task, htask, .fetched request outcome hrequest hfetched rfl rfl⟩)
    · refine .inr (.inl ⟨hold, .inl rfl, _, rfl, fun hmem => ?_⟩)
      cases (PriceOutcome.mem_incident.mp hmem).2
  | sent j outcome =>
    obtain ⟨task, moved, htask, hsent, rfl⟩ := step_sent.mp h
    rcases task_of_set htask' with ⟨rfl, rfl⟩ | ⟨hij, hold⟩
    · exact .inr (.inr ⟨task, htask, .sent outcome hsent rfl rfl⟩)
    · exact .inr (.inl ⟨hold, hquiet rfl rfl⟩)

/-- Commits and incidents name tasks that have been started. -/
structure Attributed (s : System) : Prop where
  history : ∀ c ∈ s.database.history, ∀ j, c.origin = some j → j < s.tasks.length
  incidents : ∀ j, .transactionRaised j ∈ s.incidents → j < s.tasks.length

theorem Reachable.attributed (h : Reachable env s) : s.Attributed := by
  refine h.invariant (I := Attributed) (fun s label s' hs hstep => ?_) ⟨by simp, by simp⟩
  have hgrow : ∀ {task : Task} {j : ℕ}, s.tasks[j]? = some task → j < s.tasks.length :=
    fun hj => (List.getElem?_eq_some_iff.mp hj).1
  cases label with
  | operation operation =>
    obtain ⟨t, answer, database, -, hcommit, rfl⟩ := step_operation.mp hstep
    refine ⟨fun c hc j hj => ?_, hs.incidents⟩
    rw [(Database.commit_eq_ok.mp hcommit).2] at hc
    rcases List.mem_append.mp hc with hc | hc
    · exact hs.history c hc j hj
    · obtain rfl := List.mem_singleton.mp hc
      cases hj
  | startAdd call =>
    obtain rfl := Option.some.inj hstep
    exact ⟨fun c hc j hj => (hs.history c hc j hj).trans_le (by simp),
      fun j hj => (hs.incidents j hj).trans_le (by simp)⟩
  | startPoll discordUserId =>
    obtain ⟨poll, -, rfl⟩ := step_startPoll.mp hstep
    exact ⟨fun c hc j hj => (hs.history c hc j hj).trans_le (by simp),
      fun j hj => (hs.incidents j hj).trans_le (by simp)⟩
  | commit i input =>
    obtain ⟨task, t, moved, htask, -, ⟨error, -, -, rfl⟩ | ⟨answer, database, hcommit, -, rfl⟩⟩ :=
      step_commit.mp hstep
    · refine ⟨by simpa using hs.history, fun j hj => ?_⟩
      rcases List.mem_append.mp hj with hj | hj
      · simpa using hs.incidents j hj
      · obtain rfl := Incident.transactionRaised.inj (List.mem_singleton.mp hj)
        simpa using hgrow htask
    · refine ⟨fun c hc j hj => ?_, by simpa using hs.incidents⟩
      rw [(Database.commit_eq_ok.mp hcommit).2] at hc
      rcases List.mem_append.mp hc with hc | hc
      · simpa using hs.history c hc j hj
      · obtain rfl := List.mem_singleton.mp hc
        obtain rfl := Option.some.inj hj
        simpa using hgrow htask
  | reject i error =>
    obtain ⟨task, moved, htask, -, rfl⟩ := step_reject.mp hstep
    refine ⟨by simpa using hs.history, fun j hj => ?_⟩
    rcases List.mem_append.mp hj with hj | hj
    · simpa using hs.incidents j hj
    · obtain rfl := Incident.transactionRaised.inj (List.mem_singleton.mp hj)
      simpa using hgrow htask
  | fetched i outcome =>
    obtain ⟨task, request, moved, -, -, -, rfl⟩ := step_fetched.mp hstep
    refine ⟨by simpa using hs.history, fun j hj => ?_⟩
    rcases List.mem_append.mp hj with hj | hj
    · simpa using hs.incidents j hj
    · cases (PriceOutcome.mem_incident.mp hj).2
  | sent i outcome =>
    obtain ⟨task, moved, -, -, rfl⟩ := step_sent.mp hstep
    exact ⟨by simpa using hs.history, by simpa using hs.incidents⟩

/-! ### A rule and a user along a run -/

/-- The events of a rule are only added to. -/
theorem run_ruleEvents {labels : List Label} (h : run (step env) s labels = some s') (id : ℕ) :
    ∃ events, s'.database.ruleEvents id = s.database.ruleEvents id ++ events := by
  refine run_invariant (step env) (I := fun s' => ∃ events,
    s'.database.ruleEvents id = s.database.ruleEvents id ++ events) ?_ h
    ⟨[], (List.append_nil _).symm⟩
  rintro m label m' ⟨events, hevents⟩ hstep
  rcases step_database hstep with hsame | ⟨origin, t, answer, hcommit, -⟩
  · exact ⟨events, by rw [hsame, hevents]⟩
  · exact ⟨events ++ (t.ruleEvent m.database.store id).toList, by
      rw [Database.ruleEvents_commit hcommit, hevents, List.append_assoc]⟩

/-- What the events between two systems of a run make of a user. -/
theorem Reachable.run_credentials (h : Reachable env s) {labels : List Label}
    (hrun : run (step env) s labels = some s') {discordUserId : ℤ} {events : List UserEvent}
    (hevents : s'.database.userEvents discordUserId =
      s.database.userEvents discordUserId ++ events) :
    run UserLife.step (s.database.store.credentials discordUserId) events =
      some (s'.database.store.credentials discordUserId) := by
  have hreachable : Reachable env s' := h.trans ⟨labels, hrun⟩
  have hcredentials' := hreachable.database.credentials_eq discordUserId
  rw [hevents] at hcredentials'
  obtain ⟨credentials, hcredentials, hlater⟩ := (run_append _).mp hcredentials'
  rw [h.database.credentials_eq discordUserId] at hcredentials
  obtain rfl := Option.some.inj hcredentials
  exact hlater

/-- What the events between two systems of a run make of a rule. -/
theorem Reachable.run_between (h : Reachable env s) {labels : List Label}
    (hrun : run (step env) s labels = some s') {id : ℕ} {events : List RuleEvent}
    (hevents : s'.database.ruleEvents id = s.database.ruleEvents id ++ events) :
    run (RuleLife.step env.decimal) (s.database.store.view id) events =
      some (s'.database.store.view id) := by
  have hreachable : Reachable env s' := h.trans ⟨labels, hrun⟩
  have hview' := hreachable.database.view_eq id
  rw [hevents] at hview'
  obtain ⟨view, hview, hlater⟩ := (run_append _).mp hview'
  rw [h.database.view_eq id] at hview
  obtain rfl := Option.some.inj hview
  exact hlater

end System

end DonutMonitor
