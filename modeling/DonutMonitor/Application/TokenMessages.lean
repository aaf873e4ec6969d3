import DonutMonitor.Application.GroupIsolation
import DonutMonitor.Application.TokenStanding

/-!
# Messages about invalid tokens

A poll calls `send_invalid_token` right after the transaction that invalidates its user, whether or
not the token that was rejected is still the stored one. Each message is paid for by an
authentication of the user: one that is `VALID`, or that a poll has loaded and may still invalidate,
can be notified once more, and only `authenticate` makes it `VALID` again. This needs that no two
polls of a user are at work at once, as `run_once` ensures.

## Main definitions

* `Coordinator.messages`, `Coordinator.authentications` — the numbers of both in a run.

## Main results

* `Coordinator.messages_le_authentications` — the standing of all users after every run, and the
  bound on the messages.
-/

namespace DonutMonitor

open Transition

/-! ### What is counted -/

/-- The poll may still invalidate its user. -/
def PollPhase.mayInvalidate : PollPhase → Bool
  | fetching _ _ _ _ | processing _ _ _ _ _ | invalidating => true
  | markingSuccess | notifying | recordingDmError _ | returned | raised _ => false

/-- The task is a poll of the user that may still invalidate it. -/
def Task.mayInvalidate (discordUserId : ℤ) : Task → Bool
  | add _ _ => false
  | poll p phase => p.user.discordUserId = discordUserId && phase.mayInvalidate

/-- The task waits for `send_invalid_token` to notify the user. -/
def Task.notifies (discordUserId : ℤ) : Task → Bool
  | poll p .notifying => p.user.discordUserId = discordUserId
  | _ => false

/-- The event is a successful `authenticate` of the user. -/
def CoordinatorEvent.authenticates (discordUserId : ℤ) : CoordinatorEvent → Bool
  | system (.operation (.authenticate userId _ _)) => userId = discordUserId
  | _ => false

/-- The user is stored with a valid token. -/
def Store.isValid (s : Store) (discordUserId : ℤ) : Bool :=
  (s.credentials discordUserId).any (·.tokenStatus = .valid)

/-- The user can be notified without another authentication. -/
def System.mayBeNotified (s : System) (discordUserId : ℤ) : Bool :=
  s.tasks.any (·.mayInvalidate discordUserId) || s.database.store.isValid discordUserId

theorem Store.isValid_eq_true {s : Store} {discordUserId : ℤ} :
    s.isValid discordUserId = true ↔
      ∃ c, s.credentials discordUserId = some c ∧ c.tokenStatus = .valid := by
  rw [isValid]
  cases s.credentials discordUserId <;> simp

theorem Store.isValid_of_mem {s : Store} {user : User}
    (h : user ∈ s.users.rows ∧ user.tokenStatus = .valid) : s.isValid user.discordUserId = true :=
  isValid_eq_true.mpr ⟨user.credentials,
    by rw [credentials, Table.mem_rows_iff.mp h.1, Option.map_some], h.2⟩

theorem System.mayBeNotified_eq_true {s : System} {discordUserId : ℤ} :
    s.mayBeNotified discordUserId = true ↔
      (∃ (i : ℕ) (task : Task), s.tasks[i]? = some task ∧
        task.mayInvalidate discordUserId = true) ∨
      s.database.store.isValid discordUserId = true := by
  simp only [mayBeNotified, Bool.or_eq_true, List.any_eq_true, List.mem_iff_getElem?]
  refine or_congr_left ⟨?_, ?_⟩
  · rintro ⟨task, ⟨i, hi⟩, hmay⟩
    exact ⟨i, task, hi, hmay⟩
  · rintro ⟨i, task, hi, hmay⟩
    exact ⟨task, ⟨i, hi⟩, hmay⟩

namespace Coordinator

variable (api : DonutApiClient) (env : Environment) (discordUserId : ℤ) (s : Coordinator)

/-- The event that has led to the coordinator is the commit after which a poll of the user calls
`send_invalid_token`. -/
def sendsInvalidToken : CoordinatorEvent → Bool
  | .system (.commit i _) => s.system.tasks[i]?.any (·.notifies discordUserId)
  | _ => false

/-- The number of calls of `send_invalid_token` for the user in a run. -/
def messages (events : List (ℚ × CoordinatorEvent)) : ℕ :=
  total (step api env) (fun _ event t => (t.sendsInvalidToken discordUserId event.2).toNat) s events

/-- The number of successful calls of `authenticate` of the user in a run. -/
def authentications (events : List (ℚ × CoordinatorEvent)) : ℕ :=
  total (step api env) (fun _ event _ => (event.2.authenticates discordUserId).toNat) s events

end Coordinator

/-! ### Tasks -/

namespace Task

variable {env : Environment} {discordUserId : ℤ} {p : Poll} {phase' : PollPhase}

theorem mayInvalidate_eq_true {task : Task} : task.mayInvalidate discordUserId = true ↔
    ∃ p phase, task = poll p phase ∧ p.user.discordUserId = discordUserId ∧
      phase.mayInvalidate = true := by
  cases task with
  | add call phase => simp [mayInvalidate]
  | poll p phase => simp [mayInvalidate]

theorem notifies_eq_true {task : Task} : task.notifies discordUserId = true ↔
    ∃ p, task = poll p .notifying ∧ p.user.discordUserId = discordUserId := by
  cases task with
  | add call phase => simp [notifies]
  | poll p phase => cases phase <;> simp [notifies]

end Task

namespace PollPhase

variable {env : Environment} {p : Poll} {phase phase' : PollPhase}

theorem ended_of_mayInvalidate (h : phase.mayInvalidate = true) : phase.ended = false := by
  cases phase with
  | returned => cases h
  | raised error => cases h
  | _ => rfl

theorem mayInvalidate_of_resume {answer : Answer} (h : phase.resume p answer = some phase')
    (hphase : phase'.mayInvalidate = true) : phase.mayInvalidate = true := by
  cases phase with
  | processing token group snapshot rest phase => rfl
  | invalidating => rfl
  | markingSuccess =>
    cases answer <;> cases h
    cases hphase
  | recordingDmError message =>
    cases answer <;> cases h
    cases hphase
  | _ => cases h

theorem mayInvalidate_of_sent {outcome : Except String ℤ} (h : phase.sent outcome = some phase')
    (hphase : phase'.mayInvalidate = true) : phase.mayInvalidate = true := by
  cases phase with
  | processing token group snapshot rest phase => rfl
  | notifying => cases outcome <;> cases h <;> cases hphase
  | _ => cases h

/-- A poll calls `send_invalid_token` after its invalidation. -/
theorem resume_eq_notifying {answer : Answer} (h : phase.resume p answer = some notifying) :
    phase = invalidating := by
  cases phase with
  | processing token group snapshot rest phase =>
    obtain ⟨next, -, hnext⟩ := Option.map_eq_some_iff.mp h
    cases next with
    | none =>
      cases rest with
      | nil => cases hnext
      | cons group rest => cases hnext
    | some next => cases hnext
  | invalidating => rfl
  | markingSuccess => cases answer <;> cases h
  | recordingDmError message => cases answer <;> cases h
  | _ => cases h

end PollPhase

/-! ### Steps of the system -/

/-- After an invalidation the user is not stored with a valid token, if at all. -/
theorem Transaction.not_isValid_of_invalidate {env : Environment} {s s' : Store} {a : Answer}
    {discordUserId : ℤ} {notifiedAt : Option ℚ}
    (h : (invalidate discordUserId notifiedAt).exec env s = .ok (a, s')) :
    ¬ s'.isValid discordUserId = true := by
  intro hvalid
  obtain ⟨c', hc', hstatus⟩ := Store.isValid_eq_true.mp hvalid
  have hrun := exec_credentials h discordUserId
  rw [hc', userEvent] at hrun
  split_ifs at hrun with hmem
  · rw [Option.toList_some, run_singleton] at hrun
    obtain ⟨c, -, hrow⟩ := (UserLife.step_invalidated notifiedAt).mp hrun
    obtain rfl := Option.some.inj hrow
    cases hstatus
  · have hnone : s.credentials discordUserId = none := by
      rw [Store.credentials, Table.get?_eq_none.mpr fun hin => hmem ⟨rfl, hin⟩, Option.map_none]
    rw [hnone] at hrun
    cases Option.some.inj hrun

namespace System

variable {env : Environment} {s s' : System} {label : Label} {discordUserId : ℤ} {i : ℕ}

/-- A user that is `VALID` after a step has been so before, or has authenticated. -/
theorem step_isValid (h : s.step env label = some s')
    (hvalid : s'.database.store.isValid discordUserId = true) :
    s.database.store.isValid discordUserId = true ∨
      ∃ rawToken nonce, label = .operation (.authenticate discordUserId rawToken nonce) := by
  rcases step_database h with hsame | ⟨origin, t, answer, hcommit, hwho⟩
  · exact .inl (hsame ▸ hvalid)
  · obtain ⟨c', hc', hstatus⟩ := Store.isValid_eq_true.mp hvalid
    have hrun := Transaction.exec_credentials (Database.commit_eq_ok.mp hcommit).1 discordUserId
    rw [hc'] at hrun
    cases hevent : t.userEvent s.database.store discordUserId with
    | none =>
      rw [hevent] at hrun
      exact .inl (Store.isValid_eq_true.mpr ⟨c', Option.some.inj hrun, hstatus⟩)
    | some event =>
      rw [hevent, Option.toList_some, run_singleton] at hrun
      cases event with
      | tokenSaved token fingerprint =>
        rcases hwho with ⟨operation, rfl, ht⟩ | ⟨i, input, task, rfl, -, hpending⟩
        · obtain ⟨rawToken, nonce, rfl⟩ := Operation.eq_authenticate ht hevent
          exact .inr ⟨rawToken, nonce, rfl⟩
        · obtain ⟨p, -, -, hinvalidated⟩ := Task.userEvent_of_pending hpending hevent
          cases hinvalidated
      | loggedOut => exact absurd (UserLife.step_loggedOut.mp hrun).2 nofun
      | invalidated notifiedAt =>
        obtain ⟨c, -, hrow⟩ := (UserLife.step_invalidated notifiedAt).mp hrun
        obtain rfl := Option.some.inj hrow
        cases hstatus

/-- A poll that may invalidate its user after a step might do so before, or has just loaded it. -/
theorem step_mayInvalidate (h : s.step env label = some s') {task' : Task}
    (htask' : s'.tasks[i]? = some task') (hmay : task'.mayInvalidate discordUserId = true) :
    (∃ task, s.tasks[i]? = some task ∧ task.mayInvalidate discordUserId = true) ∨
      s.database.store.isValid discordUserId = true := by
  obtain ⟨p, phase', rfl, huser, hphase'⟩ := Task.mayInvalidate_eq_true.mp hmay
  have hbefore : ∀ {phase : PollPhase}, s.tasks[i]? = some (.poll p phase) →
      phase.mayInvalidate = true →
        (∃ task, s.tasks[i]? = some task ∧ task.mayInvalidate discordUserId = true) ∨
          s.database.store.isValid discordUserId = true := fun htask hphase =>
    .inl ⟨_, htask, Task.mayInvalidate_eq_true.mpr ⟨p, _, rfl, huser, hphase⟩⟩
  rcases step_tasks h htask' with ⟨rfl, -, -, hnew⟩ | ⟨hold, -⟩ | ⟨task, htask, hmoves⟩
  · rcases hnew with ⟨call, hcall⟩ | ⟨userId, poll, hload, hpoll⟩
    · cases hcall
    · obtain ⟨rfl, -⟩ := Task.poll.inj hpoll
      exact .inr (huser ▸ Store.isValid_of_mem (valid_of_loadPoll hload))
  · exact hbefore hold hphase'
  · cases hmoves with
    | committed input t answer hpending hcommit hresume hincidents =>
      obtain ⟨phase, rfl, hphase⟩ := Task.resume_eq_poll.mp hresume
      exact hbefore htask (PollPhase.mayInvalidate_of_resume hphase hphase')
    | raised error hfail hdatabase hincidents =>
      obtain ⟨phase, rfl, hphase⟩ := Task.fail_eq_poll.mp hfail
      obtain rfl := PollPhase.fail_raises hphase
      cases hphase'
    | fetched request outcome hrequest hfetched hdatabase hincidents =>
      obtain ⟨phase, rfl, hphase⟩ := Task.fetched_eq_poll.mp hfetched
      cases phase with
      | fetching token group rest anySuccess => exact hbefore htask rfl
      | _ => cases hphase
    | sent outcome hsent hdatabase hincidents =>
      obtain ⟨phase, rfl, hphase⟩ := Task.sent_eq_poll.mp hsent
      exact hbefore htask (PollPhase.mayInvalidate_of_sent hphase hphase')

/-- Only an authentication makes it possible to notify a user again. -/
theorem step_mayBeNotified (h : s.step env label = some s')
    (hmay : s'.mayBeNotified discordUserId = true) :
    s.mayBeNotified discordUserId = true ∨
      ∃ rawToken nonce, label = .operation (.authenticate discordUserId rawToken nonce) := by
  rcases mayBeNotified_eq_true.mp hmay with ⟨i, task', htask', hmay⟩ | hvalid
  · refine .inl (mayBeNotified_eq_true.mpr ?_)
    exact (step_mayInvalidate h htask' hmay).imp_left fun ⟨task, htask⟩ => ⟨i, task, htask⟩
  · exact (step_isValid h hvalid).imp_left fun hvalid => mayBeNotified_eq_true.mpr (.inr hvalid)

/-- A task that calls `send_invalid_token` after a commit has invalidated its user, whose token is
not valid any more. -/
theorem notifies_of_commit {input : CommitInput} (h : s.step env (.commit i input) = some s')
    {task' : Task} (htask' : s'.tasks[i]? = some task')
    (hnotifies : task'.notifies discordUserId = true) :
    (∃ p, s.tasks[i]? = some (.poll p .invalidating) ∧ p.user.discordUserId = discordUserId) ∧
      s'.database.store.isValid discordUserId = false ∧
      ∃ p, s'.tasks = s.tasks.set i (.poll p .notifying) := by
  obtain ⟨p, rfl, huser⟩ := Task.notifies_eq_true.mp hnotifies
  obtain ⟨task, t, moved, htask, hpending, hcase⟩ := step_commit.mp h
  have hmoved : ∀ {tasks : List Task}, tasks = s.tasks.set i moved →
      tasks[i]? = some (.poll p .notifying) → moved = .poll p .notifying := by
    rintro _ rfl hi
    rw [List.getElem?_set_self (List.getElem?_eq_some_iff.mp htask).1] at hi
    exact Option.some.inj hi
  rcases hcase with ⟨error, -, hfail, rfl⟩ | ⟨answer, database, hcommit, hresume, rfl⟩
  · obtain rfl := hmoved rfl htask'
    obtain ⟨phase, -, hphase⟩ := Task.fail_eq_poll.mp hfail
    cases PollPhase.fail_raises hphase
  · obtain rfl := hmoved rfl htask'
    obtain ⟨phase, rfl, hphase⟩ := Task.resume_eq_poll.mp hresume
    obtain rfl := PollPhase.resume_eq_notifying hphase
    obtain rfl := Option.some.inj hpending
    refine ⟨⟨p, htask, huser⟩, Bool.eq_false_iff.mpr fun hvalid => ?_, p, rfl⟩
    exact Transaction.not_isValid_of_invalidate (huser ▸ (Database.commit_eq_ok.mp hcommit).1)
      hvalid

end System

/-! ### One poll for each user -/

namespace Coordinator

variable {api : DonutApiClient} {env : Environment} {s s' : Coordinator} {discordUserId : ℤ}

/-- No two polls of one user are at work. -/
def Solitary (s : Coordinator) : Prop :=
  ∀ (i j : ℕ) p q phase phase',
    s.system.tasks[i]? = some (Task.poll p phase) → phase.ended = false →
    s.system.tasks[j]? = some (Task.poll q phase') → phase'.ended = false →
      p.user.discordUserId = q.user.discordUserId → i = j

private theorem eq_of_duePolls {now : ℚ} {i j : ℕ} {p q : Poll}
    (hi : (s.duePolls now)[i]? = some p) (hj : (s.duePolls now)[j]? = some q)
    (hsame : p.user.discordUserId = q.user.discordUserId) : i = j := by
  refine (List.getElem?_inj ?_ (s.nodup_duePolls now)).mp ?_
  · rw [List.length_map]
    exact (List.getElem?_eq_some_iff.mp hi).1
  · rw [List.getElem?_map, List.getElem?_map, hi, hj, Option.map_some, Option.map_some, hsame]

/-- When no poll is at work, the polls that start are those of different users. -/
private theorem solitary_startPolls {now : ℚ} (hidle : ∀ i, s.pollsAt i = false) :
    (s.startPolls env now).Solitary := by
  have hstarted : ∀ {i : ℕ} {p : Poll} {phase : PollPhase},
      (s.startPolls env now).system.tasks[i]? = some (.poll p phase) → phase.ended = false →
        ∃ k, i = s.system.tasks.length + k ∧ (s.duePolls now)[k]? = some p := by
    intro i p phase hpoll hphase
    have hpoll : (s.system.tasks ++ (s.duePolls now).map fun p => Task.poll p (.start env p))[i]? =
      some (Task.poll p phase) := hpoll
    rcases System.task_of_append hpoll with hold | ⟨hnew, hstarted⟩
    · exact absurd (pollsAt_eq_true.mpr ⟨p, phase, hold, hphase⟩) (by simp [hidle])
    · rw [List.getElem?_map, Option.map_eq_some_iff] at hstarted
      obtain ⟨q, hq, heq⟩ := hstarted
      obtain ⟨rfl, -⟩ := Task.poll.inj heq
      exact ⟨i - s.system.tasks.length, by omega, hq⟩
  intro i j p q phase phase' hi hphase hj hphase' hsame
  obtain ⟨k, rfl, hk⟩ := hstarted hi hphase
  obtain ⟨l, rfl, hl⟩ := hstarted hj hphase'
  rw [eq_of_duePolls hk hl hsame]

theorem Solitary.react (h : s.Solitary) (hs : s.Coherent env) {event : CoordinatorEvent}
    (hstep : s.react api env event = some s') : s'.Solitary := by
  by_cases hevent : event = .loaded
  · subst hevent
    obtain ⟨now, hcycle, rfl⟩ := react_loaded.mp hstep
    exact solitary_startPolls fun i => hs.idle (by simp [hcycle])
  · have hbefore : ∀ {i : ℕ} {p : Poll} {phase : PollPhase},
        s'.system.tasks[i]? = some (.poll p phase) → phase.ended = false →
          ∃ phase', s.system.tasks[i]? = some (.poll p phase') ∧ phase'.ended = false := by
      intro i p phase hpoll hphase
      rcases react_poll hstep hevent hpoll with hsame | hbefore
      · exact ⟨phase, hsame, hphase⟩
      · exact hbefore
    intro i j p q phase phase' hi hphase hj hphase' hsame
    obtain ⟨before, hi, hbefore_i⟩ := hbefore hi hphase
    obtain ⟨before', hj, hbefore_j⟩ := hbefore hj hphase'
    exact h i j p q before before' hi hbefore_i hj hbefore_j hsame

/-- What the accounting of messages needs of a coordinator. -/
def Accountable (env : Environment) (s : Coordinator) : Prop := s.Coherent env ∧ s.Solitary

theorem accountable_step {label : ℚ × CoordinatorEvent} (h : s.Accountable env)
    (hstep : step api env s label = some s') : s'.Accountable env := by
  obtain ⟨now, event⟩ := label
  obtain ⟨hnow, hreact⟩ := step_eq_some.mp hstep
  have hwait : Solitary { s with clock := now } := h.2
  exact ⟨(h.1.wait hnow).react hreact, hwait.react (h.1.wait hnow) hreact⟩

/-! ### The accounting -/

/-- The steps of the system that authenticate a user are those of its commands. -/
private theorem authenticates_of_label {event : CoordinatorEvent} {label : Label}
    (hlabel : event.label = some label)
    (h : ∃ rawToken nonce, label = .operation (.authenticate discordUserId rawToken nonce)) :
    event.authenticates discordUserId = true := by
  obtain ⟨rawToken, nonce, rfl⟩ := h
  cases event with
  | system label =>
    obtain rfl := Option.some.inj hlabel
    exact decide_eq_true rfl
  | pruned utcNow => cases Option.some.inj hlabel
  | fetched i outcome => cases Option.some.inj hlabel
  | _ => cases hlabel

/-- Only an authentication makes the token of a user valid. -/
private theorem react_isValid {event : CoordinatorEvent} (h : react api env s event = some s')
    (hvalid : s'.system.database.store.isValid discordUserId = true) :
    s.system.database.store.isValid discordUserId = true ∨
      event.authenticates discordUserId = true := by
  rcases react_cases h with ⟨label, hlabel, hstep⟩ | ⟨-, hdatabase, -⟩
  · exact (System.step_isValid hstep hvalid).imp_right (authenticates_of_label hlabel)
  · exact .inl (hdatabase ▸ hvalid)

/-- Only an authentication makes it possible to notify a user again. -/
private theorem react_mayBeNotified {event : CoordinatorEvent}
    (h : react api env s event = some s') (hmay : s'.system.mayBeNotified discordUserId = true) :
    s.system.mayBeNotified discordUserId = true ∨ event.authenticates discordUserId = true := by
  rcases react_cases h with ⟨label, hlabel, hstep⟩ | ⟨-, hdatabase, polls, hpolls, htasks⟩
  · exact (System.step_mayBeNotified hstep hmay).imp_right (authenticates_of_label hlabel)
  · refine .inl (System.mayBeNotified_eq_true.mpr ?_)
    rcases System.mayBeNotified_eq_true.mp hmay with ⟨i, task, htask, hmay⟩ | hvalid
    · rw [htasks] at htask
      rcases List.mem_append.mp (List.mem_of_getElem? htask) with hold | hnew
      · obtain ⟨j, hj⟩ := List.mem_iff_getElem?.mp hold
        exact .inl ⟨j, task, hj, hmay⟩
      · obtain ⟨p, hp, rfl⟩ := List.mem_map.mp hnew
        obtain ⟨now, hp⟩ := hpolls p hp
        obtain ⟨⟨user, rules⟩, hdue, rfl⟩ := List.mem_map.mp hp
        obtain ⟨hmem, hvalid, -⟩ :=
          (UserRepository.mem_validUsersWithRules _).mp (List.mem_of_mem_filter hdue)
        obtain ⟨_, _, heq, huser, -⟩ := Task.mayInvalidate_eq_true.mp hmay
        obtain ⟨rfl, -⟩ := Task.poll.inj heq
        exact .inr (huser ▸ Store.isValid_of_mem ⟨hmem, hvalid⟩)
    · exact .inr (hdatabase ▸ hvalid)

/-- A message uses up what allowed it: the only poll of the user at work has invalidated it. -/
theorem react_sendsInvalidToken (hs : s.Solitary) {event : CoordinatorEvent}
    (h : react api env s event = some s')
    (hsends : s'.sendsInvalidToken discordUserId event = true) :
    s.system.mayBeNotified discordUserId = true ∧
      s'.system.mayBeNotified discordUserId = false := by
  cases event with
  | system label =>
    obtain ⟨-, system, hsystem, rfl⟩ := react_system.mp h
    cases label with
    | commit i input =>
      obtain ⟨task', htask', hnotifies⟩ := (Option.any_eq_true _ _).mp hsends
      obtain ⟨⟨p, htask, huser⟩, hinvalid, q, htasks⟩ :=
        System.notifies_of_commit hsystem htask' hnotifies
      refine ⟨System.mayBeNotified_eq_true.mpr (.inl ⟨i, _, htask,
        Task.mayInvalidate_eq_true.mpr ⟨p, _, rfl, huser, rfl⟩⟩), Bool.eq_false_iff.mpr ?_⟩
      intro hmay
      rcases System.mayBeNotified_eq_true.mp hmay with ⟨j, other, hother, hmay⟩ | hvalid
      · obtain ⟨r, phase, rfl, hother', hphase⟩ := Task.mayInvalidate_eq_true.mp hmay
        have hother : (system.tasks)[j]? = some (Task.poll r phase) := hother
        rw [htasks] at hother
        rcases System.task_of_set hother with ⟨rfl, hnotifying⟩ | ⟨hji, hold⟩
        · obtain ⟨-, rfl⟩ := Task.poll.inj hnotifying
          cases hphase
        · exact hji (hs i j p r _ phase htask rfl hold (PollPhase.ended_of_mayInvalidate hphase)
            (huser.trans hother'.symm)).symm
      · exact Bool.eq_false_iff.mp hinvalid hvalid
    | _ => cases hsends
  | _ => cases hsends

/-- A fact that only an authentication establishes is paid for by it. -/
private theorem toNat_le {before after authenticates : Bool}
    (h : after = true → before = true ∨ authenticates = true) :
    after.toNat ≤ before.toNat + authenticates.toNat := by
  cases after with
  | false => exact Nat.zero_le _
  | true =>
    rcases h rfl with rfl | rfl
    · exact Nat.le_add_right _ _
    · exact Nat.le_add_left _ _

/-- What a step adds to the messages is paid for. -/
theorem step_account (discordUserId : ℤ) {label : ℚ × CoordinatorEvent}
    (h : s.Accountable env) (hstep : step api env s label = some s') :
    (s'.sendsInvalidToken discordUserId label.2).toNat +
        (s'.system.mayBeNotified discordUserId).toNat ≤
      (s.system.mayBeNotified discordUserId).toNat +
        (label.2.authenticates discordUserId).toNat := by
  obtain ⟨now, event⟩ := label
  obtain ⟨hnow, hreact⟩ := step_eq_some.mp hstep
  have hmay := toNat_le (@react_mayBeNotified _ _ _ _ discordUserId _ hreact)
  cases hsends : s'.sendsInvalidToken discordUserId event with
  | true =>
    have hsolitary : Solitary { s with clock := now } := h.2
    obtain ⟨hbefore, hafter⟩ := react_sendsInvalidToken hsolitary hreact hsends
    have hbefore : s.system.mayBeNotified discordUserId = true := hbefore
    rw [hbefore, hafter]
    exact Nat.le_add_right _ _
  | false => exact (Nat.zero_add _).trans_le hmay

/-- As long as a user does not authenticate, it does not become `VALID`. -/
private theorem isValid_of_run {events : List (ℚ × CoordinatorEvent)}
    (hrun : run (step api env) s events = some s')
    (hnone : s.authentications api env discordUserId events = 0)
    (hinvalid : s.system.database.store.isValid discordUserId = false) :
    s'.system.database.store.isValid discordUserId = false := by
  have haccount := run_account (step api env) (fun _ _ _ => 0)
    (fun _ event _ => (event.2.authenticates discordUserId).toNat)
    (fun s => (s.system.database.store.isValid discordUserId).toNat) (I := fun _ => True)
    (fun _ _ _ _ _ => trivial) ?_ hrun trivial
  · rw [authentications] at hnone
    rw [hnone, hinvalid] at haccount
    refine Bool.eq_false_iff.mpr fun hvalid => ?_
    rw [hvalid] at haccount
    exact absurd ((Nat.le_add_left _ _).trans haccount) (by decide)
  · rintro s ⟨now, event⟩ s' - hstep
    obtain ⟨-, hreact⟩ := step_eq_some.mp hstep
    have hvalid := toNat_le (@react_isValid _ _ _ _ discordUserId _ hreact)
    exact (Nat.zero_add _).trans_le hvalid

/-- After every run the tokens of all users are handled: a user with a valid one has not been
notified, one with an invalid one has been, has no enabled rule, is not polled and not alerted, and
stays so until it authenticates. The calls of `send_invalid_token` for a user are at most as many as
its successful calls of `authenticate`. -/
theorem messages_le_authentications {clock : ℚ} {events : List (ℚ × CoordinatorEvent)}
    (hrun : run (step api env) (initial env clock) events = some s) (discordUserId : ℤ) :
    (∀ user ∈ s.system.database.store.users.rows,
      s.system.database.store.TokenStanding env user ∧
      (user.tokenStatus = .invalid → ∀ later s', run (step api env) s later = some s' →
        s.authentications api env user.discordUserId later = 0 →
          ∀ user' ∈ s'.system.database.store.users.rows,
            user'.discordUserId = user.discordUserId → user'.tokenStatus = .invalid)) ∧
    (initial env clock).messages api env discordUserId events ≤
      (initial env clock).authentications api env discordUserId events := by
  have hreachable : Reachable api env s := ⟨clock, events, hrun⟩
  refine ⟨fun user huser => ⟨hreachable.parts.1.settled.1.standing env huser, ?_⟩, ?_⟩
  · intro hinvalid later s' hlater hnone user' huser' hsame
    have hbefore : s.system.database.store.isValid user.discordUserId = false := by
      refine Bool.eq_false_iff.mpr fun hvalid => ?_
      obtain ⟨c, hc, hstatus⟩ := Store.isValid_eq_true.mp hvalid
      rw [Store.credentials, Table.mem_rows_iff.mp huser] at hc
      obtain rfl := Option.some.inj hc
      cases hstatus.symm.trans hinvalid
    have hafter := isValid_of_run hlater hnone hbefore
    cases hstatus : user'.tokenStatus with
    | invalid => rfl
    | valid =>
      rw [← hsame, Store.isValid_of_mem ⟨huser', hstatus⟩] at hafter
      cases hafter
  · have hinitial : Reachable api env (initial env clock) := ⟨clock, .refl _⟩
    have haccount := run_account (step api env)
      (fun _ event t => (t.sendsInvalidToken discordUserId event.2).toNat)
      (fun _ event _ => (event.2.authenticates discordUserId).toNat)
      (fun s => (s.system.mayBeNotified discordUserId).toNat) (I := Accountable env)
      (fun s label s' hs hstep => accountable_step hs hstep)
      (fun s label s' hs hstep => step_account discordUserId hs hstep) hrun
      ⟨hinitial.coherent, fun i j p q _ _ hi => by cases hi⟩
    have hcredit : (initial env clock).system.mayBeNotified discordUserId = false := rfl
    rw [hcredit] at haccount
    exact (Nat.le_add_right _ _).trans (haccount.trans_eq (Nat.zero_add _))

/-- The first request of a poll is rejected; the poll invalidates its user and notifies it. -/
def rejectedPoll : List (ℚ × CoordinatorEvent) :=
  [(0, .system (.operation (.authenticate 1 "a" 0))), (0, .system (.startAdd .elytra)),
    (0, .system (.commit 0 { ruleKey := 1 })), (0, .runOnce), (0, .pruned 0), (0, .loaded),
    (1, .request 1), (1, .client (.tryAcquire 0)),
    (2, .client (.respond 0 (.response ⟨401, none, none⟩) 2)),
    (2, .fetched 1 (.donutApiError (.authentication "DonutSMP rejected the token"))),
    (2, .system (.commit 1 { now := 2 }))]

theorem messages_le_authentications_rejectedPoll : ∃ s user,
    run (step twoDigitClient .plain) (initial .plain 0) rejectedPoll = some s ∧
    (initial .plain 0).messages twoDigitClient .plain 1 rejectedPoll = 1 ∧
    user ∈ s.system.database.store.users.rows ∧ user.tokenStatus = .invalid ∧
    s.system.database.store.TokenStanding .plain user ∧
    (initial .plain 0).messages twoDigitClient .plain 1 rejectedPoll ≤
      (initial .plain 0).authentications twoDigitClient .plain 1 rejectedPoll := by
  have hrun : (run (step twoDigitClient .plain) (initial .plain 0) rejectedPoll).bind
      (fun s : Coordinator => (s.system.database.store.users.rows[0]?).map fun user =>
        decide (user.tokenStatus = .invalid)) = some true := by
    decide +kernel
  have hmessages : (initial .plain 0).messages twoDigitClient .plain 1 rejectedPoll = 1 := by
    decide +kernel
  obtain ⟨s, hs, hrow⟩ := Option.bind_eq_some_iff.mp hrun
  obtain ⟨user, huser, hinvalid⟩ := Option.map_eq_some_iff.mp hrow
  have hmem := List.mem_of_getElem? huser
  obtain ⟨hstanding, hle⟩ := messages_le_authentications hs 1
  exact ⟨s, user, hs, hmessages, hmem, of_decide_eq_true hinvalid, (hstanding user hmem).1, hle⟩

end Coordinator

end DonutMonitor
