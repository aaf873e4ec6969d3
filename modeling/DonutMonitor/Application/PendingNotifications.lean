import DonutMonitor.Application.Deliveries
import DonutMonitor.Application.System
import DonutMonitor.Foundations.Latest
import Mathlib.Data.List.Pairwise

/-!
# Pending notifications

`RuleProcessor.process` stores a pending notification for each of its alerts and then delivers the
alerts one after the other, so that until its delivery is over an alert exists as a row of the
database and as an event in the task that has raised it. No row is left behind without its event,
unless a transaction of the task raises. The key of a row identifies it only while keys are not
given again.

## Main definitions

* `Task.queue` — the events whose deliveries are not over.
* `Commit.alerts` — the events of a commit of `process`.

## Main results

* `System.pending_queued` — a pending notification is queued in the task that has created it.
* `System.settled_of_run` — a notification that is not pending was sent, or its message failed.
-/

namespace DonutMonitor

open Transition Latest

/-! ### The events of a task -/

namespace Transaction

/-- The notification whose delivery the transaction finishes, and the outcome. -/
def delivered : Transaction → Option (ℕ × Except String ℤ)
  | deliveryFailed notificationId _ name => some (notificationId, .error name)
  | deliverySent notificationId _ messageId => some (notificationId, .ok messageId)
  | _ => none

@[simp] theorem delivered_delivery (event : AlertEvent × ℕ) (outcome : Except String ℤ) :
    (delivery event outcome).delivered = some (event.2, outcome) := by
  cases outcome <;> rfl

end Transaction

namespace ProcessPhase

variable {args : ProcessArgs} {input : CommitInput} {phase : ProcessPhase} {t : Transaction}
  {answer : Answer} {next : Option ProcessPhase}

/-- A commit of `process` queues its events, and one of `_deliver` takes its event away. -/
theorem commit_cases (hpending : phase.pending args input = some t)
    (hresume : phase.resume answer = some next) :
    (∃ call observationKey notificationKey, phase = evaluating ∧
      t = .process call observationKey notificationKey ∧ answer = .alerts (left next)) ∨
    ∃ event outcome rest, phase = recording event outcome rest ∧ t = .delivery event outcome ∧
      left next = rest := by
  cases phase with
  | evaluating =>
    obtain ⟨call, -, rfl⟩ := Option.map_eq_some_iff.mp hpending
    cases answer with
    | alerts events =>
      obtain rfl := Option.some.inj hresume
      exact .inl ⟨call, _, _, rfl, rfl, by rw [left_deliver]⟩
    | _ => cases hresume
  | delivering event rest => cases hpending
  | recording event outcome rest =>
    cases answer with
    | done =>
      obtain rfl := Option.some.inj hresume
      refine .inr ⟨event, outcome, rest, rfl, ?_, left_deliver rest⟩
      cases outcome <;> exact (Option.some.inj hpending).symm
    | _ => cases hresume

/-- After a commit, the next event is being sent. -/
theorem resume_ne_recording {event : AlertEvent × ℕ} {outcome : Except String ℤ}
    {rest : List (AlertEvent × ℕ)} :
    phase.resume answer ≠ some (some (recording event outcome rest)) := by
  have hdeliver : ∀ events, deliver events ≠ some (recording event outcome rest) := by
    intro events
    cases events <;> exact nofun
  intro h
  cases phase with
  | evaluating =>
    cases answer with
    | alerts events => exact hdeliver events (Option.some.inj h)
    | _ => cases h
  | delivering event rest => cases h
  | recording event outcome rest' =>
    cases answer with
    | done => exact hdeliver rest' (Option.some.inj h)
    | _ => cases h

end ProcessPhase

namespace Task

/-- The call of `process` in which the task is. -/
def processPhase : Task → Option ProcessPhase
  | add _ (.processing _ _ phase) | poll _ (.processing _ _ _ _ phase) => some phase
  | _ => none

/-- The events of the task whose deliveries are not over. -/
def queue (task : Task) : List (AlertEvent × ℕ) := ProcessPhase.left task.processPhase

theorem processPhase_ofProcess {call : AddCall} {created : CreatedRule} {snapshot : PriceSnapshot}
    (next : Option ProcessPhase) :
    (add call (.ofProcess created snapshot next)).processPhase = next := by
  cases next <;> rfl

theorem processPhase_next {p : Poll} {token : String} {anySuccess : Bool}
    (groups : List PollGroup) : (poll p (.next token anySuccess groups)).processPhase = none := by
  cases groups with
  | nil => cases anySuccess <;> rfl
  | cons group rest => rfl

theorem processPhase_pollOfProcess {p : Poll} {token : String} {group : PollGroup}
    {snapshot : PriceSnapshot} {rest : List PollGroup} (next : Option ProcessPhase) :
    (poll p (.ofProcess token group snapshot rest next)).processPhase = next := by
  cases next with
  | none => exact processPhase_next rest
  | some phase => rfl

variable {env : Environment} {task task' : Task} {input : CommitInput} {t : Transaction}
  {answer : Answer}

/-- A commit of a task is one of its call of `process`, or one that leaves notifications alone. -/
theorem commit_cases (hpending : task.pending input = some t)
    (hresume : task.resume answer = some task') :
    (∃ args phase, task.processPhase = some phase ∧ phase.pending args input = some t ∧
      phase.resume answer = some task'.processPhase) ∨
    task.processPhase = none ∧ task'.processPhase = none ∧ t.delivered = none ∧
      t.processCall = none := by
  cases task with
  | add call phase =>
    obtain ⟨next, hnext, rfl⟩ := Option.map_eq_some_iff.mp hresume
    cases phase with
    | creating draft =>
      obtain rfl := Option.some.inj hpending
      cases answer with
      | created created' =>
        obtain rfl := Option.some.inj hnext
        exact .inr ⟨rfl, rfl, rfl, rfl⟩
      | _ => cases hnext
    | undoing created error =>
      obtain rfl := Option.some.inj hpending
      cases answer with
      | changed changed =>
        obtain rfl := Option.some.inj hnext
        exact .inr ⟨rfl, rfl, rfl, rfl⟩
      | _ => cases hnext
    | processing created snapshot phase =>
      obtain ⟨next', hnext', rfl⟩ := Option.map_eq_some_iff.mp hnext
      exact .inl ⟨_, phase, rfl, hpending, by rw [processPhase_ofProcess, hnext']⟩
    | _ => cases hpending
  | poll p phase =>
    obtain ⟨next, hnext, rfl⟩ := Option.map_eq_some_iff.mp hresume
    cases phase with
    | processing token group snapshot rest phase =>
      obtain ⟨next', hnext', rfl⟩ := Option.map_eq_some_iff.mp hnext
      exact .inl ⟨_, phase, rfl, hpending, by rw [processPhase_pollOfProcess, hnext']⟩
    | markingSuccess =>
      obtain rfl := Option.some.inj hpending
      cases answer with
      | done =>
        obtain rfl := Option.some.inj hnext
        exact .inr ⟨rfl, rfl, rfl, rfl⟩
      | _ => cases hnext
    | invalidating =>
      obtain rfl := Option.some.inj hpending
      cases answer with
      | done =>
        obtain rfl := Option.some.inj hnext
        refine .inr ⟨rfl, ?_, rfl, rfl⟩
        split_ifs <;> rfl
      | _ => cases hnext
    | recordingDmError message =>
      obtain rfl := Option.some.inj hpending
      cases answer with
      | done =>
        obtain rfl := Option.some.inj hnext
        exact .inr ⟨rfl, rfl, rfl, rfl⟩
      | _ => cases hnext
    | _ => cases hpending

/-- An answer to a request queues nothing. -/
theorem queue_fetched {outcome : PriceOutcome} (h : task.fetched env outcome = some task') :
    task.processPhase = none ∧ task'.queue = [] := by
  have hstart : ∀ args, ProcessPhase.left (ProcessPhase.start args) = [] := by
    intro args
    rw [ProcessPhase.start]
    split_ifs <;> rfl
  cases task with
  | add call phase =>
    obtain ⟨next, hnext, rfl⟩ := Option.map_eq_some_iff.mp h
    cases phase with
    | fetching created =>
      cases outcome with
      | listing listing checkedAt pagesScanned =>
        obtain rfl := Option.some.inj hnext
        exact ⟨rfl, by rw [queue, processPhase_ofProcess, hstart]⟩
      | donutApiError error =>
        obtain rfl := Option.some.inj hnext
        exact ⟨rfl, rfl⟩
      | exception name =>
        obtain rfl := Option.some.inj hnext
        exact ⟨rfl, rfl⟩
    | _ => cases hnext
  | poll p phase =>
    obtain ⟨next, hnext, rfl⟩ := Option.map_eq_some_iff.mp h
    cases phase with
    | fetching token group rest anySuccess =>
      cases outcome with
      | listing listing checkedAt pagesScanned =>
        obtain rfl := Option.some.inj hnext
        exact ⟨rfl, by rw [queue, processPhase_pollOfProcess, hstart]⟩
      | donutApiError error =>
        cases error with
        | authentication message =>
          obtain rfl := Option.some.inj hnext
          exact ⟨rfl, rfl⟩
        | _ =>
          obtain rfl := Option.some.inj hnext
          exact ⟨rfl, by rw [queue, processPhase_next]; rfl⟩
      | exception name =>
        obtain rfl := Option.some.inj hnext
        exact ⟨rfl, rfl⟩
    | _ => cases hnext

/-- A message that has been sent is still queued, until its delivery is over. -/
theorem processPhase_sent {outcome : Except String ℤ} (h : task.sent outcome = some task') :
    (∃ event rest, task.processPhase = some (.delivering event rest) ∧
      task'.processPhase = some (.recording event outcome rest)) ∨
    task.processPhase = none ∧ task'.processPhase = none := by
  have hsent : ∀ {phase phase' : ProcessPhase}, phase.sent outcome = some phase' →
      ∃ event rest, phase = .delivering event rest ∧ phase' = .recording event outcome rest := by
    intro phase phase' h
    cases phase with
    | delivering event rest => exact ⟨event, rest, rfl, (Option.some.inj h).symm⟩
    | _ => cases h
  cases task with
  | add call phase =>
    obtain ⟨next, hnext, rfl⟩ := Option.map_eq_some_iff.mp h
    cases phase with
    | processing created snapshot phase =>
      obtain ⟨phase', hphase, rfl⟩ := Option.map_eq_some_iff.mp hnext
      obtain ⟨event, rest, rfl, rfl⟩ := hsent hphase
      exact .inl ⟨event, rest, rfl, rfl⟩
    | _ => cases hnext
  | poll p phase =>
    obtain ⟨next, hnext, rfl⟩ := Option.map_eq_some_iff.mp h
    cases phase with
    | processing token group snapshot rest phase =>
      obtain ⟨phase', hphase, rfl⟩ := Option.map_eq_some_iff.mp hnext
      obtain ⟨event, rest', rfl, rfl⟩ := hsent hphase
      exact .inl ⟨event, rest', rfl, rfl⟩
    | notifying =>
      cases outcome <;>
      · obtain rfl := Option.some.inj hnext
        exact .inr ⟨rfl, rfl⟩
    | _ => cases hnext

/-- A transaction that raises leaves nothing queued. -/
theorem processPhase_fail {error : ServiceError} (h : task.fail error = some task') :
    task'.processPhase = none := by
  cases task with
  | add call phase =>
    obtain ⟨next, hnext, rfl⟩ := Option.map_eq_some_iff.mp h
    obtain ⟨created, rfl⟩ := AddPhase.fail_raises hnext
    rfl
  | poll p phase =>
    obtain ⟨next, hnext, rfl⟩ := Option.map_eq_some_iff.mp h
    obtain rfl := PollPhase.fail_raises hnext
    rfl

end Task

/-! ### The rows of a commit -/

/-- The events that a transaction has answered. -/
def Answer.events : Answer → List (AlertEvent × ℕ)
  | alerts events => events
  | done | changed _ | created _ => []

/-- The row is about the event. -/
structure Notification.IsAbout (row : Notification) (event : AlertEvent × ℕ) : Prop where
  id : row.id = event.2
  watchRuleId : row.watchRuleId = event.1.databaseRuleId
  price : row.price = event.1.currentPrice
  previousPrice : row.previousPrice = event.1.previousPrice

theorem Announces.isAbout {event : AlertEvent × ℕ} {row : Notification} (h : Announces event row) :
    row.IsAbout event :=
  ⟨h.id, h.watchRuleId, h.price, h.previousPrice⟩

/-- What a delivery writes to its row. -/
def Notification.settled (row : Notification) : Except String ℤ → Notification
  | .ok messageId => { row with
      deliveryStatus := .sent, discordMessageId := some messageId, errorMessage := none }
  | .error name => { row with
      deliveryStatus := .failed, errorMessage := some (UserRepository.truncate name) }

theorem Notification.settles_settled (row : Notification) (outcome : Except String ℤ) :
    Settles outcome (row.settled outcome) := by
  cases outcome <;> exact ⟨rfl, rfl⟩

theorem Notification.IsAbout.settled {row : Notification} {event : AlertEvent × ℕ}
    (h : row.IsAbout event) (outcome : Except String ℤ) : (row.settled outcome).IsAbout event := by
  cases outcome <;> exact ⟨h.id, h.watchRuleId, h.price, h.previousPrice⟩

theorem Settles.ne_pending {row : Notification} {outcome : Except String ℤ}
    (h : Settles outcome row) : row.deliveryStatus ≠ .pending := by
  cases outcome <;> simp [h.1]

namespace Transaction

variable {env : Environment} {s s' : Store} {a : Answer} {t : Transaction}

/-- Only `process` answers events. -/
theorem events_eq_nil (h : t.exec env s = .ok (a, s')) (hcall : t.processCall = none) :
    a.events = [] := by
  have hbind : ∀ {ε α : Type} {x : Except ε α} {f : α → Answer × Store},
      (∀ y, (f y).1.events = []) → (x >>= fun y => .ok (f y)) = .ok (a, s') → a.events = [] := by
    intro ε α x f hf h
    obtain ⟨y, -, h⟩ := Except.bind_eq_ok.mp h
    have ha : (f y).1 = a := congrArg Prod.fst (Except.ok.inj h)
    rw [← ha, hf]
  cases t with
  | process call observationKey notificationKey => cases hcall
  | invalidate discordUserId notifiedAt =>
    cases notifiedAt <;>
    · obtain ⟨rfl, -⟩ := Prod.mk.inj (Except.ok.inj h)
      rfl
  | create draft key => exact hbind (fun _ => rfl) h
  | delete discordUserId displayId => exact hbind (fun _ => rfl) h
  | setEnabled discordUserId displayId enabled => exact hbind (fun _ => rfl) h
  | deleteByDatabaseId discordUserId databaseId => exact hbind (fun _ => rfl) h
  | setEnabledByDatabaseId discordUserId databaseId enabled => exact hbind (fun _ => rfl) h
  | _ =>
    obtain ⟨rfl, -⟩ := Prod.mk.inj (Except.ok.inj h)
    rfl

/-- A transaction that finishes a delivery raises no alert. -/
theorem events_of_delivered (h : t.exec env s = .ok (a, s')) {d : ℕ × Except String ℤ}
    (hdelivered : t.delivered = some d) : a.events = [] := by
  refine events_eq_nil h ?_
  cases t with
  | process call observationKey notificationKey => cases hdelivered
  | _ => rfl

/-- A row after a transaction was there before, is about one of its events, or has been settled by
the transaction. -/
theorem exec_rows (h : t.exec env s = .ok (a, s')) {row : Notification}
    (hrow : row ∈ s'.notifications.rows) :
    (row ∈ s.notifications.rows ∧ (∀ event ∈ a.events, event.2 ≠ row.id) ∧
      ∀ d, t.delivered = some d → d.1 ≠ row.id) ∨
    (∃ event ∈ a.events, Announces event row) ∨
    ∃ outcome, t.delivered = some (row.id, outcome) ∧
      ∃ before ∈ s.notifications.rows, row = before.settled outcome := by
  have hquiet : (∀ id, t.writesNotification id = false) → t.delivered = none →
      t.processCall = none → row ∈ s.notifications.rows ∧
        (∀ event ∈ a.events, event.2 ≠ row.id) ∧ ∀ d, t.delivered = some d → d.1 ≠ row.id := by
    intro hwrites hdelivered hcall
    refine ⟨((exec_keepsDeliveries h).rows row hrow).resolve_right (by simp [hwrites]), ?_, ?_⟩
    · simp [events_eq_nil h hcall]
    · simp [hdelivered]
  have hmap : ∀ {id : ℕ} {outcome : Except String ℤ}, t.delivered = some (id, outcome) →
      a.events = [] → (∃ before ∈ s.notifications.rows,
        row = if decide (before.id = id) then before.settled outcome else before) →
      (row ∈ s.notifications.rows ∧ (∀ event ∈ a.events, event.2 ≠ row.id) ∧
        ∀ d, t.delivered = some d → d.1 ≠ row.id) ∨
      ∃ outcome, t.delivered = some (row.id, outcome) ∧
        ∃ before ∈ s.notifications.rows, row = before.settled outcome := by
    rintro id outcome hdelivered hnil ⟨before, hbefore, rfl⟩
    by_cases hid : before.id = id
    · subst hid
      refine .inr ⟨outcome, ?_, before, hbefore, by simp⟩
      cases outcome <;> simpa [Notification.settled] using hdelivered
    · refine .inl ⟨by simpa [hid] using hbefore, by simp [hnil], fun d hd => ?_⟩
      obtain rfl := Option.some.inj (hdelivered.symm.trans hd)
      simpa [hid] using Ne.symm hid
  cases t with
  | process call observationKey notificationKey =>
    obtain ⟨progress, hprocess, h⟩ := Except.bind_eq_ok.mp h
    obtain ⟨rfl, rfl⟩ := Prod.mk.inj (Except.ok.inj h)
    obtain ⟨rows, hannounced⟩ := RuleProcessor.process_announces hprocess
    have hnodup := progress.store.notifications.nodup
    rw [hannounced.added, List.map_append] at hnodup
    have hdisjoint := List.disjoint_of_nodup_append hnodup
    rw [hannounced.added] at hrow
    rcases List.mem_append.mp hrow with hold | hnew
    · refine .inl ⟨hold, fun event hevent heq => ?_, nofun⟩
      have hkey : event.2 ∈ rows.map (·.id) :=
        Announces.map_id hannounced.announces ▸ List.mem_map_of_mem hevent
      exact hdisjoint (List.mem_map_of_mem hold) (heq ▸ hkey)
    · exact .inr (.inl (Announces.exists_event hannounced.announces hnew))
  | deliveryFailed notificationId discordUserId name =>
    obtain ⟨rfl, rfl⟩ := Prod.mk.inj (Except.ok.inj h)
    obtain ⟨before, hbefore, rfl⟩ := List.mem_map.mp hrow
    exact (hmap rfl rfl ⟨before, hbefore, rfl⟩).imp_right .inr
  | deliverySent notificationId discordUserId messageId =>
    obtain ⟨rfl, rfl⟩ := Prod.mk.inj (Except.ok.inj h)
    obtain ⟨before, hbefore, rfl⟩ := List.mem_map.mp hrow
    exact (hmap rfl rfl ⟨before, hbefore, rfl⟩).imp_right .inr
  | _ => exact .inl (hquiet (fun _ => rfl) rfl rfl)

end Transaction

theorem Transaction.nodup_events {env : Environment} {s s' : Store} {a : Answer} {t : Transaction}
    (h : t.exec env s = .ok (a, s')) : (a.events.map Prod.snd).Nodup := by
  cases hcall : t.processCall with
  | none => simp [events_eq_nil h hcall]
  | some call =>
    obtain ⟨observationKey, notificationKey, rfl⟩ := processCall_eq_some.mp hcall
    obtain ⟨progress, hprocess, h⟩ := Except.bind_eq_ok.mp h
    obtain ⟨rfl, rfl⟩ := Prod.mk.inj (Except.ok.inj h)
    obtain ⟨rows, hannounced⟩ := RuleProcessor.process_announces hprocess
    have hnodup := progress.store.notifications.nodup
    rw [hannounced.added, List.map_append] at hnodup
    exact (Announces.map_id hannounced.announces).symm ▸ (List.nodup_append.mp hnodup).2.1

/-- The events of a commit of `process`. -/
def Commit.alerts (env : Environment) (c : Commit) : List (AlertEvent × ℕ) :=
  match c.transaction.exec env c.before with
  | .ok (a, _) => a.events
  | .error _ => []

/-- The event for which the commit creates the notification with the key, and the task. -/
def Commit.announcement (env : Environment) (id : ℕ) (c : Commit) :
    Option (Option ℕ × AlertEvent × ℕ) :=
  ((c.alerts env).find? (·.2 = id)).map (c.origin, ·)

namespace Database

variable {env : Environment} {db db' : Database} {origin : Option ℕ} {t : Transaction} {a : Answer}

theorem alerts_eq (h : db.commit env origin t = .ok (a, db')) :
    Commit.alerts env ⟨origin, db.store, t⟩ = a.events := by
  rw [Commit.alerts, (commit_eq_ok.mp h).1]

theorem announcement_eq_none (h : db.commit env origin t = .ok (a, db')) {id : ℕ}
    (hid : ∀ event ∈ a.events, event.2 ≠ id) :
    Commit.announcement env id ⟨origin, db.store, t⟩ = none := by
  rw [Commit.announcement, alerts_eq h, Option.map_eq_none_iff, List.find?_eq_none]
  simpa using hid

theorem announcement_eq_some (h : db.commit env origin t = .ok (a, db'))
    {event : AlertEvent × ℕ} (hevent : event ∈ a.events) :
    Commit.announcement env event.2 ⟨origin, db.store, t⟩ = some (origin, event) := by
  rw [Commit.announcement, alerts_eq h]
  have hnodup := Transaction.nodup_events (commit_eq_ok.mp h).1
  cases hfind : a.events.find? (·.2 = event.2) with
  | none => exact absurd (List.find?_eq_none.mp hfind event hevent) (by simp)
  | some event' =>
    have hkey : event'.2 = event.2 := by simpa using List.find?_some hfind
    rw [Option.map_some,
      List.inj_on_of_nodup_map hnodup (List.mem_of_find?_eq_some hfind) hevent hkey]

/-- A commit leaves its trace in the history. -/
theorem commit_ne (h : db.commit env origin t = .ok (a, db')) : db' ≠ db := by
  rintro rfl
  simpa using congrArg List.length (commit_eq_ok.mp h).2

theorem commit_inj (h : db.commit env origin t = .ok (a, db')) {origin' : Option ℕ}
    {t' : Transaction} {a' : Answer} (h' : db.commit env origin' t' = .ok (a', db')) :
    origin = origin' ∧ t = t' ∧ a = a' := by
  have hhistory := (commit_eq_ok.mp h).2.symm.trans (commit_eq_ok.mp h').2
  have hcommit := List.head_eq_of_cons_eq (List.append_cancel_left hhistory)
  obtain ⟨rfl, -, rfl⟩ := Commit.mk.inj hcommit
  exact ⟨rfl, rfl, (Prod.mk.inj (Except.ok.inj (h.symm.trans h'))).1⟩

end Database

/-! ### The queues of the system -/

namespace System

variable {env : Environment} {s s' : System} {i : ℕ} {task task' : Task} {label : Label}

theorem step_length (h : s.step env label = some s') : s.tasks.length ≤ s'.tasks.length := by
  cases label with
  | operation operation =>
    obtain ⟨t, answer, database, -, -, rfl⟩ := step_operation.mp h
    exact le_rfl
  | startAdd call =>
    obtain rfl := Option.some.inj h
    simp
  | startPoll discordUserId =>
    obtain ⟨poll, -, rfl⟩ := step_startPoll.mp h
    simp
  | commit j input =>
    obtain ⟨task, t, moved, -, -, ⟨error, -, -, rfl⟩ | ⟨answer, database, -, -, rfl⟩⟩ :=
      step_commit.mp h <;> simp
  | reject j error =>
    obtain ⟨task, moved, -, -, rfl⟩ := step_reject.mp h
    simp
  | fetched j outcome =>
    obtain ⟨task, request, moved, -, -, -, rfl⟩ := step_fetched.mp h
    simp
  | sent j outcome =>
    obtain ⟨task, moved, -, -, rfl⟩ := step_sent.mp h
    simp

/-- A task before a step is one that the step does not touch, or one that moves. -/
theorem step_task (h : s.step env label = some s') (htask : s.tasks[i]? = some task) :
    s'.tasks[i]? = some task ∧ Elsewhere env s s' i ∨
      ∃ task', s'.tasks[i]? = some task' ∧ Moves env s s' i task task' := by
  have hlt := (List.getElem?_eq_some_iff.mp htask).1
  have hnext := List.getElem?_eq_getElem (hlt.trans_le (step_length h))
  rcases step_tasks h hnext with ⟨hlength, -⟩ | ⟨hold, helsewhere⟩ | ⟨before, hbefore, hmoves⟩
  · exact absurd hlength hlt.ne
  · obtain hsame := Option.some.inj (hold.symm.trans htask)
    exact .inl ⟨hsame ▸ hnext, helsewhere⟩
  · obtain rfl := Option.some.inj (hbefore.symm.trans htask)
    exact .inr ⟨_, hnext, hmoves⟩

/-- A commit of a task queues its events, or takes away the one whose delivery it finishes. -/
theorem queue_of_resume {input : CommitInput} {t : Transaction} {a : Answer}
    (hpending : task.pending input = some t)
    (hcommit : s.database.commit env (some i) t = .ok (a, s'.database))
    (hresume : task.resume a = some task') :
    (task.queue = [] ∧ t.delivered = none ∧ task'.queue = a.events) ∨
    ∃ event outcome, task.processPhase = some (.recording event outcome task'.queue) ∧
      t.delivered = some (event.2, outcome) ∧ a.events = [] := by
  have hevents := Transaction.events_eq_nil (Database.commit_eq_ok.mp hcommit).1
  rcases Task.commit_cases hpending hresume with ⟨args, phase, hphase, hpending, hresume⟩ |
    ⟨hphase, hphase', hdelivered, hcall⟩
  · rcases ProcessPhase.commit_cases hpending hresume with
      ⟨call, observationKey, notificationKey, rfl, rfl, rfl⟩ |
      ⟨event, outcome, rest, rfl, rfl, hleft⟩
    · exact .inl ⟨by rw [Task.queue, hphase]; rfl, rfl, rfl⟩
    · refine .inr ⟨event, outcome, ?_, Transaction.delivered_delivery event outcome, hevents ?_⟩
      · rw [hphase, Task.queue, hleft]
      · cases outcome <;> rfl
  · refine .inl ⟨by rw [Task.queue, hphase]; rfl, hdelivered, ?_⟩
    rw [hevents hcall, Task.queue, hphase']
    rfl

/-- The queue of a task that moves keeps its events, except for the one whose delivery is over,
unless a transaction of the task raises. -/
theorem Moves.queue (h : Moves env s s' i task task') :
    task'.queue = task.queue ∨
    .transactionRaised i ∈ s'.incidents ∧ task'.queue = [] ∨
    ∃ t a, s.database.commit env (some i) t = .ok (a, s'.database) ∧
      ((task.queue = [] ∧ t.delivered = none ∧ task'.queue = a.events) ∨
        ∃ event outcome, task.processPhase = some (.recording event outcome task'.queue) ∧
          t.delivered = some (event.2, outcome) ∧ a.events = []) := by
  cases h with
  | committed input t answer hpending hcommit hresume hincidents =>
    exact .inr (.inr ⟨t, answer, hcommit, queue_of_resume hpending hcommit hresume⟩)
  | raised error hfail hdatabase hincidents =>
    refine .inr (.inl ⟨by simp [hincidents], ?_⟩)
    rw [Task.queue, Task.processPhase_fail hfail]
    rfl
  | fetched request outcome hrequest hfetched hdatabase hincidents =>
    obtain ⟨hphase, hqueue⟩ := Task.queue_fetched hfetched
    exact .inl (by rw [hqueue, Task.queue, hphase]; rfl)
  | sent outcome hsent hdatabase hincidents =>
    refine .inl ?_
    rcases Task.processPhase_sent hsent with ⟨event, rest, hphase, hphase'⟩ | ⟨hphase, hphase'⟩
    · rw [Task.queue, Task.queue, hphase, hphase']
      rfl
    · rw [Task.queue, Task.queue, hphase, hphase']

/-- An operation of a user raises no alert and finishes no delivery. -/
private theorem leaves_of_operation {operation : Operation} {t : Transaction}
    (h : operation.transaction env = .ok t) : t.processCall = none ∧ t.delivered = none := by
  cases operation with
  | authenticate discordUserId rawToken nonce =>
    obtain ⟨encrypted, fingerprint, rfl⟩ := AuthService.authenticate_ok h
    exact ⟨rfl, rfl⟩
  | _ =>
    obtain rfl := Except.ok.inj h
    exact ⟨rfl, rfl⟩

/-- The row has been created for an event of a task, in which the event is queued, unless a
transaction of the task has raised. -/
def Outstanding (env : Environment) (s : System) (row : Notification) : Prop :=
  ∃ i event, latest (Commit.announcement env row.id) s.database.history = some (some i, event) ∧
    Announces event row ∧
      ((∃ task, s.tasks[i]? = some task ∧ event ∈ task.queue) ∨
        .transactionRaised i ∈ s.incidents)

/-- An event that is queued stays so, unless its delivery is over or a transaction raises. -/
private theorem mem_queue_step (h : s.step env label = some s') {event : AlertEvent × ℕ}
    (hqueued : (∃ task, s.tasks[i]? = some task ∧ event ∈ task.queue) ∨
      .transactionRaised i ∈ s.incidents)
    (hdelivered : ∀ origin t a, s.database.commit env origin t = .ok (a, s'.database) →
      ∀ d, t.delivered = some d → d.1 ≠ event.2) :
    (∃ task, s'.tasks[i]? = some task ∧ event ∈ task.queue) ∨
      .transactionRaised i ∈ s'.incidents := by
  rcases hqueued with ⟨task, htask, hevent⟩ | hraised
  · rcases step_task h htask with ⟨hsame, -⟩ | ⟨task', htask', hmoves⟩
    · exact .inl ⟨task, hsame, hevent⟩
    · rcases hmoves.queue with hqueue | ⟨hraised, -⟩ | ⟨t, a, hcommit, ⟨hempty, -⟩ |
        ⟨event', outcome, hphase, hover, -⟩⟩
      · exact .inl ⟨task', htask', hqueue ▸ hevent⟩
      · exact .inr hraised
      · rw [hempty] at hevent
        cases hevent
      · rw [Task.queue, hphase] at hevent
        rcases List.mem_cons.mp hevent with rfl | hrest
        · exact absurd rfl (hdelivered _ t a hcommit _ hover)
        · exact .inl ⟨task', htask', hrest⟩
  · exact .inr (step_incidents h hraised)

/-- A commit that raises alerts or finishes a delivery is one of a task. -/
private theorem commit_task (h : s.step env label = some s') {origin : Option ℕ}
    {t : Transaction} {a : Answer}
    (hcommit : s.database.commit env origin t = .ok (a, s'.database)) :
    (a.events = [] ∧ t.delivered = none) ∨ ∃ i task task', origin = some i ∧
      s.tasks[i]? = some task ∧ s'.tasks[i]? = some task' ∧
        ((task.queue = [] ∧ t.delivered = none ∧ task'.queue = a.events) ∨
          ∃ event outcome, task.processPhase = some (.recording event outcome task'.queue) ∧
            t.delivered = some (event.2, outcome) ∧ a.events = []) := by
  rcases step_database h with hsame | ⟨origin', t', a', hcommit', hwho⟩
  · exact absurd hsame (Database.commit_ne hcommit)
  · obtain ⟨rfl, rfl, rfl⟩ := Database.commit_inj hcommit hcommit'
    rcases hwho with ⟨operation, -, hoperation⟩ | ⟨i, input, task, rfl, -, -⟩
    · obtain ⟨hcall, hdelivered⟩ := leaves_of_operation hoperation
      exact .inl ⟨Transaction.events_eq_nil (Database.commit_eq_ok.mp hcommit).1 hcall, hdelivered⟩
    · obtain ⟨task, t', task', htask, hpending, ⟨error, -, -, rfl⟩ |
        ⟨a', database, hcommit₂, hresume, rfl⟩⟩ := step_commit.mp h
      · exact absurd rfl (Database.commit_ne hcommit)
      · obtain ⟨rfl, rfl, rfl⟩ := Database.commit_inj hcommit hcommit₂
        exact .inr ⟨i, task, task', rfl, htask,
          List.getElem?_set_self (List.getElem?_eq_some_iff.mp htask).1,
          queue_of_resume hpending hcommit hresume⟩

/-- A pending notification is queued in the task that has created it, together with its event,
unless a transaction of this task has raised. -/
theorem pending_queued (h : Reachable env s) {row : Notification}
    (hrow : row ∈ s.database.store.notifications.rows) (hpending : row.deliveryStatus = .pending) :
    s.Outstanding env row := by
  refine h.invariant (I := fun s => ∀ row ∈ s.database.store.notifications.rows,
    row.deliveryStatus = .pending → s.Outstanding env row) (fun s label s' hs hstep => ?_)
    nofun row hrow hpending
  intro row hrow hpending
  rcases step_database hstep with hsame | ⟨origin, t, a, hcommit, -⟩
  · obtain ⟨i, event, hlatest, hannounces, hqueued⟩ := hs row (hsame ▸ hrow) hpending
    exact ⟨i, event, hsame ▸ hlatest, hannounces, mem_queue_step hstep hqueued
      fun _ _ _ hcommit => absurd hsame (Database.commit_ne hcommit)⟩
  · have hhistory := (Database.commit_eq_ok.mp hcommit).2
    rcases Transaction.exec_rows (Database.commit_eq_ok.mp hcommit).1 hrow with
      ⟨hold, hevents, hdelivered⟩ | ⟨event, hevent, hannounces⟩ | ⟨outcome, -, before, -, rfl⟩
    · obtain ⟨i, event, hlatest, hannounces, hqueued⟩ := hs row hold hpending
      refine ⟨i, event, ?_, hannounces, mem_queue_step hstep hqueued ?_⟩
      · rw [hhistory, latest_concat, Database.announcement_eq_none hcommit hevents, hlatest]
        rfl
      · intro origin' t' a' hcommit'
        obtain ⟨-, rfl, -⟩ := Database.commit_inj hcommit hcommit'
        exact hannounces.id ▸ hdelivered
    · rcases commit_task hstep hcommit with ⟨hnil, -⟩ |
        ⟨i, task, task', rfl, -, htask', ⟨-, -, hqueue⟩ | ⟨_, _, -, -, hnil⟩⟩
      · exact absurd hnil (List.ne_nil_of_mem hevent)
      · refine ⟨i, event, ?_, hannounces, .inl ⟨task', htask', hqueue ▸ hevent⟩⟩
        rw [hhistory, latest_concat, hannounces.id, Database.announcement_eq_some hcommit hevent]
        rfl
      · exact absurd hnil (List.ne_nil_of_mem hevent)
    · exact absurd hpending (before.settles_settled outcome).ne_pending

/-- A watch for elytras at or below 100 is added, and the price check finds one at 50. -/
def unsent : List Label :=
  [.operation (.authenticate 1 "token" 0), .startAdd .elytra, .commit 0 { ruleKey := 1 },
    .fetched 0 (.listing (some (.elytra 50)) 0 1), .commit 0 { order := [1] }]

/-- Before its message is sent, the alert is queued. -/
theorem pending_queued_unsent : ∃ s, run (step .plain) {} unsent = some s ∧
    ∃ row ∈ s.database.store.notifications.rows, row.deliveryStatus = .pending ∧
      s.Outstanding .plain row := by
  have hrun : ((run (step .plain) {} unsent).bind fun s : System =>
      s.database.store.notifications.rows.head?.map fun row =>
        decide (row.deliveryStatus = .pending)) = some true := by
    decide +kernel
  obtain ⟨s, hs, hrun⟩ := Option.bind_eq_some_iff.mp hrun
  obtain ⟨row, hrow, hpending⟩ := Option.map_eq_some_iff.mp hrun
  have hmem := List.mem_of_head? hrow
  exact ⟨s, hs, row, hmem, of_decide_eq_true hpending,
    pending_queued ⟨_, hs⟩ hmem (of_decide_eq_true hpending)⟩

/-! ### Settled notifications -/

/-- The keys that notifications have been given. -/
def notificationKeys (env : Environment) (s : System) : List ℕ :=
  s.database.history.flatMap fun c => (c.alerts env).map Prod.snd

/-- In the course of the steps, the sender has come to the outcome for an event of task `i`. -/
def Sends (env : Environment) (labels : List Label) (i : ℕ) (event : AlertEvent × ℕ)
    (outcome : Except String ℤ) : Prop :=
  ∃ before after m task rest, labels = before ++ .sent i outcome :: after ∧
    run (step env) {} before = some m ∧ m.tasks[i]? = some task ∧
      task.processPhase = some (.delivering event rest)

theorem Sends.concat {labels : List Label} {event : AlertEvent × ℕ} {outcome : Except String ℤ}
    (h : Sends env labels i event outcome) (label : Label) :
    Sends env (labels ++ [label]) i event outcome := by
  obtain ⟨before, after, m, task, rest, rfl, hbefore, htask, hphase⟩ := h
  exact ⟨before, after ++ [label], m, task, rest, by simp, hbefore, htask, hphase⟩

/-- The events that are queued have been raised by their tasks and have pending rows, if any; the
other rows have been settled by what the sender came to for their events. -/
structure Accounted (env : Environment) (labels : List Label) (s : System) : Prop where
  queue : ∀ (i : ℕ) task, s.tasks[i]? = some task → task.queue = [] ∨
    ∃ c ∈ s.database.history, c.origin = some i ∧ task.queue.Sublist (c.alerts env)
  recording : ∀ (i : ℕ) task event outcome rest, s.tasks[i]? = some task →
    task.processPhase = some (.recording event outcome rest) → Sends env labels i event outcome
  pending : ∀ (i : ℕ) task event, s.tasks[i]? = some task → event ∈ task.queue →
    ∀ row ∈ s.database.store.notifications.rows, row.id = event.2 → Announces event row
  settled : ∀ row ∈ s.database.store.notifications.rows, row.deliveryStatus ≠ .pending →
    ∃ i event outcome, Sends env labels i event outcome ∧ row.IsAbout event ∧
      Settles outcome row

/-- With keys given once, a key is that of one event of one commit. -/
private theorem event_unique (hkeys : (s.notificationKeys env).Nodup) {c c' : Commit}
    (hc : c ∈ s.database.history) (hc' : c' ∈ s.database.history) {event event' : AlertEvent × ℕ}
    (hevent : event ∈ c.alerts env) (hevent' : event' ∈ c'.alerts env)
    (hkey : event.2 = event'.2) : c = c' ∧ event = event' := by
  have hsymm : Std.Symm (Function.onFun List.Disjoint fun c : Commit =>
    (c.alerts env).map Prod.snd) := ⟨fun _ _ h => h.symm⟩
  obtain ⟨hnodup, hdisjoint⟩ := List.nodup_flatMap.mp hkeys
  have hsame : c = c' := by
    by_contra hne
    exact hdisjoint.forall hc hc' hne (List.mem_map_of_mem hevent)
      (hkey ▸ List.mem_map_of_mem hevent')
  subst hsame
  exact ⟨rfl, List.inj_on_of_nodup_map (hnodup c hc) hevent hevent' hkey⟩

/-- With keys given once, an event is queued in one task only. -/
private theorem Accounted.owner {labels : List Label} (hs : s.Accounted env labels)
    (hkeys : (s.notificationKeys env).Nodup) {j : ℕ} (htask : s.tasks[i]? = some task)
    (htask' : s.tasks[j]? = some task') {event event' : AlertEvent × ℕ}
    (hevent : event ∈ task.queue) (hevent' : event' ∈ task'.queue) (hkey : event.2 = event'.2) :
    i = j := by
  rcases hs.queue i task htask with hempty | ⟨c, hc, horigin, hsub⟩
  · rw [hempty] at hevent
    cases hevent
  rcases hs.queue j task' htask' with hempty | ⟨c', hc', horigin', hsub'⟩
  · rw [hempty] at hevent'
    cases hevent'
  obtain ⟨rfl, -⟩ := event_unique hkeys hc hc' (hsub.subset hevent) (hsub'.subset hevent') hkey
  exact Option.some.inj (horigin.symm.trans horigin')

/-- A task that has just been started has nothing queued. -/
private theorem processPhase_of_new
    (h : (∃ call, task = .add call (.start env call)) ∨ ∃ discordUserId poll,
      loadPoll s.database discordUserId = some poll ∧ task = .poll poll (.start env poll)) :
    task.processPhase = none := by
  rcases h with ⟨call, rfl⟩ | ⟨discordUserId, poll, -, rfl⟩
  · rw [AddPhase.start]
    split <;> rfl
  · rw [PollPhase.start]
    split
    · rfl
    · exact Task.processPhase_next _

theorem step_history (h : s.step env label = some s') :
    s.database.history ⊆ s'.database.history := by
  rcases step_database h with hsame | ⟨origin, t, a, hcommit, -⟩
  · rw [hsame]
    exact List.Subset.refl _
  · rw [(Database.commit_eq_ok.mp hcommit).2]
    exact List.subset_append_left _ _

/-- A message that comes to be recorded has just been sent. -/
private theorem step_sends (h : s.step env label = some s') (htask' : s'.tasks[i]? = some task')
    {event : AlertEvent × ℕ} {outcome : Except String ℤ} {rest : List (AlertEvent × ℕ)}
    (hphase' : task'.processPhase = some (.recording event outcome rest)) :
    s.tasks[i]? = some task' ∨ label = .sent i outcome ∧ ∃ task, s.tasks[i]? = some task ∧
      task.processPhase = some (.delivering event rest) := by
  have hnone : task'.processPhase ≠ none := by simp [hphase']
  cases label with
  | operation operation =>
    obtain ⟨t, a, database, -, -, rfl⟩ := step_operation.mp h
    exact .inl htask'
  | startAdd call =>
    obtain rfl := Option.some.inj h
    rcases task_of_append htask' with hold | ⟨-, hnew⟩
    · exact .inl hold
    · obtain rfl := List.mem_singleton.mp (List.mem_of_getElem? hnew)
      exact absurd (processPhase_of_new (s := s) (.inl ⟨call, rfl⟩)) hnone
  | startPoll discordUserId =>
    obtain ⟨poll, hpoll, rfl⟩ := step_startPoll.mp h
    rcases task_of_append htask' with hold | ⟨-, hnew⟩
    · exact .inl hold
    · obtain rfl := List.mem_singleton.mp (List.mem_of_getElem? hnew)
      exact absurd (processPhase_of_new (.inr ⟨discordUserId, poll, hpoll, rfl⟩)) hnone
  | commit j input =>
    obtain ⟨task, t, moved, htask, hpending, ⟨error, -, hfail, rfl⟩ |
      ⟨a, database, hcommit, hresume, rfl⟩⟩ := step_commit.mp h
    · rcases task_of_set htask' with ⟨rfl, rfl⟩ | ⟨-, hold⟩
      · exact absurd (Task.processPhase_fail hfail) hnone
      · exact .inl hold
    · rcases task_of_set htask' with ⟨rfl, rfl⟩ | ⟨-, hold⟩
      · rcases Task.commit_cases hpending hresume with ⟨args, phase, -, -, hresume⟩ |
          ⟨-, hphase, -⟩
        · exact absurd (hphase' ▸ hresume) ProcessPhase.resume_ne_recording
        · exact absurd hphase hnone
      · exact .inl hold
  | reject j error =>
    obtain ⟨task, moved, htask, hfail, rfl⟩ := step_reject.mp h
    rcases task_of_set htask' with ⟨rfl, rfl⟩ | ⟨-, hold⟩
    · exact absurd (Task.processPhase_fail hfail) hnone
    · exact .inl hold
  | fetched j outcome' =>
    obtain ⟨task, request, moved, htask, hrequest, hfetched, rfl⟩ := step_fetched.mp h
    rcases task_of_set htask' with ⟨rfl, rfl⟩ | ⟨-, hold⟩
    · have hqueue := (Task.queue_fetched hfetched).2
      rw [Task.queue, hphase'] at hqueue
      cases hqueue
    · exact .inl hold
  | sent j outcome' =>
    obtain ⟨task, moved, htask, hsent, rfl⟩ := step_sent.mp h
    rcases task_of_set htask' with ⟨rfl, rfl⟩ | ⟨-, hold⟩
    · rcases Task.processPhase_sent hsent with ⟨event', rest', hphase, hmoved⟩ | ⟨-, hmoved⟩
      · obtain ⟨rfl, rfl, rfl⟩ :=
          ProcessPhase.recording.inj (Option.some.inj (hmoved.symm.trans hphase'))
        exact .inr ⟨rfl, task, htask, hphase⟩
      · exact absurd hmoved hnone
    · exact .inl hold

/-- A queue after a step holds events that were in it before, or the events of the commit. -/
theorem queue_step (h : s.step env label = some s') (htask' : s'.tasks[i]? = some task') :
    task'.queue = [] ∨
    (∃ task, s.tasks[i]? = some task ∧ task'.queue = task.queue) ∨
    (∃ t a, s.database.commit env (some i) t = .ok (a, s'.database) ∧ task'.queue = a.events) ∨
    ∃ task event outcome t a, s.tasks[i]? = some task ∧
      task.processPhase = some (.recording event outcome task'.queue) ∧
      s.database.commit env (some i) t = .ok (a, s'.database) ∧
        t.delivered = some (event.2, outcome) := by
  rcases step_tasks h htask' with ⟨-, -, -, hnew⟩ | ⟨hold, -⟩ | ⟨task, htask, hmoves⟩
  · rw [Task.queue, processPhase_of_new hnew]
    exact .inl rfl
  · exact .inr (.inl ⟨task', hold, rfl⟩)
  · rcases hmoves.queue with hqueue | ⟨-, hempty⟩ | ⟨t, a, hcommit, ⟨-, -, hqueue⟩ |
      ⟨event, outcome, hphase, hover, -⟩⟩
    · exact .inr (.inl ⟨task, htask, hqueue⟩)
    · exact .inl hempty
    · exact .inr (.inr (.inl ⟨t, a, hcommit, hqueue⟩))
    · exact .inr (.inr (.inr ⟨task, event, outcome, t, a, htask, hphase, hcommit, hover⟩))

/-- The events that are queued have been raised by commits. -/
theorem Reachable.queue_alerts (h : Reachable env s) {i : ℕ} {task : Task}
    (htask : s.tasks[i]? = some task) {event : AlertEvent × ℕ} (hevent : event ∈ task.queue) :
    ∃ c ∈ s.database.history, event ∈ c.alerts env := by
  refine h.invariant (I := fun s => ∀ (i : ℕ) task, s.tasks[i]? = some task →
    ∀ event ∈ task.queue, ∃ c ∈ s.database.history, event ∈ c.alerts env) ?_ ?_ i task htask
      event hevent
  · intro s label s' hs hstep i task' htask' event hevent
    have hlater : (∃ c ∈ s.database.history, event ∈ c.alerts env) →
        ∃ c ∈ s'.database.history, event ∈ c.alerts env :=
      fun ⟨c, hc, hmem⟩ => ⟨c, step_history hstep hc, hmem⟩
    rcases queue_step hstep htask' with hempty | ⟨task, htask, hqueue⟩ | ⟨t, a, hcommit, hqueue⟩ |
      ⟨task, event', outcome, t, a, htask, hphase, -⟩
    · rw [hempty] at hevent
      cases hevent
    · exact hlater (hs i task htask event (hqueue ▸ hevent))
    · refine ⟨⟨some i, s.database.store, t⟩, ?_, ?_⟩
      · rw [(Database.commit_eq_ok.mp hcommit).2]
        exact List.mem_append_right _ (List.mem_singleton_self _)
      · rwa [Database.alerts_eq hcommit, ← hqueue]
    · refine hlater (hs i task htask event ?_)
      rw [Task.queue, hphase]
      exact List.mem_cons_of_mem _ hevent
  · exact fun i task hnone => by simp at hnone

private theorem Accounted.queue_step {labels : List Label} (hs : s.Accounted env labels)
    (h : s.step env label = some s') (htask' : s'.tasks[i]? = some task') :
    task'.queue = [] ∨ ∃ c ∈ s'.database.history, c.origin = some i ∧
      task'.queue.Sublist (c.alerts env) := by
  rcases System.queue_step h htask' with hempty | ⟨task, htask, hqueue⟩ | ⟨t, a, hcommit, hqueue⟩ |
    ⟨task, event, outcome, t, a, htask, hphase, -⟩
  · exact .inl hempty
  · rw [hqueue]
    exact (hs.queue i task htask).imp_right
      fun ⟨c, hc, horigin, hsub⟩ => ⟨c, step_history h hc, horigin, hsub⟩
  · refine .inr ⟨⟨some i, s.database.store, t⟩, ?_, rfl, ?_⟩
    · rw [(Database.commit_eq_ok.mp hcommit).2]
      exact List.mem_append_right _ (List.mem_singleton_self _)
    · rw [hqueue, Database.alerts_eq hcommit]
  · have hcons : task.queue = event :: task'.queue := by
      rw [Task.queue, hphase]
      rfl
    rcases hs.queue i task htask with hempty | ⟨c, hc, horigin, hsub⟩
    · rw [hcons] at hempty
      cases hempty
    · rw [hcons] at hsub
      exact .inr ⟨c, step_history h hc, horigin, (List.sublist_cons_self _ _).trans hsub⟩

/-- A row that a step has settled is about the event whose delivery is over. -/
private theorem Accounted.delivered {labels : List Label} (hs : s.Accounted env labels)
    (h : s.step env label = some s') {origin : Option ℕ} {t : Transaction} {a : Answer}
    (hcommit : s.database.commit env origin t = .ok (a, s'.database)) {id : ℕ}
    {outcome : Except String ℤ} (hover : t.delivered = some (id, outcome)) {row : Notification}
    (hrow : row ∈ s.database.store.notifications.rows) (hid : row.id = id) :
    ∃ i event, Sends env labels i event outcome ∧ row.IsAbout event := by
  rcases commit_task h hcommit with ⟨-, hnone⟩ | ⟨i, task, task', rfl, htask, -, ⟨-, hnone, -⟩ |
    ⟨event, outcome', hphase, hover', -⟩⟩
  · rw [hover] at hnone
    cases hnone
  · rw [hover] at hnone
    cases hnone
  · obtain ⟨rfl, rfl⟩ := Prod.mk.inj (Option.some.inj (hover.symm.trans hover'))
    have hmem : event ∈ task.queue := by
      rw [Task.queue, hphase]
      exact List.mem_cons_self
    exact ⟨i, event, hs.recording i task event outcome _ htask hphase,
      (hs.pending i task event htask hmem row hrow hid).isAbout⟩

theorem notificationKeys_step (h : s.step env label = some s')
    (hkeys : (s'.notificationKeys env).Nodup) : (s.notificationKeys env).Nodup := by
  rcases step_database h with hsame | ⟨origin, t, a, hcommit, -⟩
  · rwa [notificationKeys, ← hsame]
  · rw [notificationKeys, (Database.commit_eq_ok.mp hcommit).2, List.flatMap_append] at hkeys
    exact (List.nodup_append.mp hkeys).1

/-- An event that stays in the queue of its task keeps its pending row. -/
private theorem Accounted.kept {labels : List Label} (hs : s.Accounted env labels)
    (hqueue : ∃ c ∈ s'.database.history, c.origin = some i ∧ task'.queue.Sublist (c.alerts env))
    (hkeys : (s'.notificationKeys env).Nodup) (h : s.step env label = some s')
    (htask : s.tasks[i]? = some task) (htask' : s'.tasks[i]? = some task')
    (hsame : task'.queue = task.queue) {event : AlertEvent × ℕ} (hevent : event ∈ task'.queue)
    {row : Notification} (hrow : row ∈ s'.database.store.notifications.rows)
    (hid : row.id = event.2) : Announces event row := by
  have hbefore : event ∈ task.queue := hsame ▸ hevent
  rcases step_database h with hsame' | ⟨origin, t, a, hcommit, -⟩
  · exact hs.pending i task event htask hbefore row (hsame' ▸ hrow) hid
  obtain ⟨hexec, hhistory⟩ := Database.commit_eq_ok.mp hcommit
  rcases Transaction.exec_rows hexec hrow with
    ⟨hold, -⟩ | ⟨event₀, hevent₀, hannounces⟩ | ⟨outcome, hover, before, -, rfl⟩
  · exact hs.pending i task event htask hbefore row hold hid
  · obtain ⟨c, hc, -, hsub⟩ := hqueue
    have hnew : (⟨origin, s.database.store, t⟩ : Commit) ∈ s'.database.history :=
      hhistory ▸ List.mem_append_right _ (List.mem_singleton_self _)
    obtain ⟨-, rfl⟩ := event_unique hkeys hc hnew (hsub.subset hevent)
      (Database.alerts_eq hcommit ▸ hevent₀) (hid.symm.trans hannounces.id)
    exact hannounces
  · rcases commit_task h hcommit with ⟨-, hnone⟩ | ⟨j, task₁, task₁', -, htask₁, htask₁',
      ⟨-, hnone, -⟩ | ⟨event₁, outcome₁, hphase, hover₁, -⟩⟩
    · cases hover.symm.trans hnone
    · cases hover.symm.trans hnone
    · obtain ⟨hkey, -⟩ := Prod.mk.inj (Option.some.inj (hover.symm.trans hover₁))
      have hcons : task₁.queue = event₁ :: task₁'.queue := by
        rw [Task.queue, hphase]
        rfl
      obtain rfl := hs.owner (notificationKeys_step h hkeys) htask htask₁ hbefore
        (hcons ▸ List.mem_cons_self) (hid.symm.trans hkey)
      obtain rfl := Option.some.inj (htask.symm.trans htask₁)
      obtain rfl := Option.some.inj (htask'.symm.trans htask₁')
      rw [hcons] at hsame
      exact absurd (congrArg List.length hsame) (by simp)

private theorem Accounted.step {labels : List Label} (hs : s.Accounted env labels)
    (hkeys : (s'.notificationKeys env).Nodup) (h : s.step env label = some s')
    (hrun : run (System.step env) {} labels = some s) :
    s'.Accounted env (labels ++ [label]) := by
  have hqueue := fun (i : ℕ) task' (htask' : s'.tasks[i]? = some task') =>
    hs.queue_step h htask'
  refine ⟨hqueue, ?_, ?_, ?_⟩
  · intro i task' event outcome rest htask' hphase'
    rcases step_sends h htask' hphase' with hold | ⟨rfl, task, htask, hphase⟩
    · exact (hs.recording i task' event outcome rest hold hphase').concat label
    · exact ⟨labels, [], s, task, rest, rfl, hrun, htask, hphase⟩
  · intro i task' event htask' hevent row hrow hid
    have halerts := (hqueue i task' htask').resolve_left (List.ne_nil_of_mem hevent)
    rcases System.queue_step h htask' with hempty | ⟨task, htask, hsame⟩ | ⟨t, a, hcommit, hnew⟩ |
      ⟨task, event₁, outcome, t, a, htask, hphase, hcommit, hover⟩
    · exact absurd hempty (List.ne_nil_of_mem hevent)
    · exact hs.kept halerts hkeys h htask htask' hsame hevent hrow hid
    · have hexec := (Database.commit_eq_ok.mp hcommit).1
      rcases Transaction.exec_rows hexec hrow with
        ⟨-, hother, -⟩ | ⟨event₀, hevent₀, hannounces⟩ | ⟨outcome, hover, -⟩
      · exact absurd hid.symm (hother event (hnew ▸ hevent))
      · rwa [List.inj_on_of_nodup_map (Transaction.nodup_events hexec) (hnew ▸ hevent) hevent₀
          (hid.symm.trans hannounces.id)]
      · exact absurd (hnew.trans (Transaction.events_of_delivered hexec hover))
          (List.ne_nil_of_mem hevent)
    · have hexec := (Database.commit_eq_ok.mp hcommit).1
      have hcons : task.queue = event₁ :: task'.queue := by
        rw [Task.queue, hphase]
        rfl
      rcases Transaction.exec_rows hexec hrow with
        ⟨hold, -⟩ | ⟨event₀, hevent₀, -⟩ | ⟨outcome', hover', before, -, rfl⟩
      · exact hs.pending i task event htask (hcons ▸ List.mem_cons_of_mem _ hevent) row hold hid
      · rw [Transaction.events_of_delivered hexec hover] at hevent₀
        cases hevent₀
      · obtain ⟨hkey, -⟩ := Prod.mk.inj (Option.some.inj (hover.symm.trans hover'))
        obtain ⟨c, hc, -, hsub⟩ :=
          (hs.queue i task htask).resolve_left (hcons ▸ List.cons_ne_nil _ _)
        have hnodup := (hsub.map Prod.snd).nodup
          ((List.nodup_flatMap.mp (notificationKeys_step h hkeys)).1 c hc)
        rw [hcons, List.map_cons, List.nodup_cons, hkey, hid] at hnodup
        exact absurd (List.mem_map_of_mem hevent) hnodup.1
  · intro row hrow hsettled
    rcases step_database h with hsame | ⟨origin, t, a, hcommit, -⟩
    · obtain ⟨i, event, outcome, hsends, habout, hsettles⟩ := hs.settled row (hsame ▸ hrow) hsettled
      exact ⟨i, event, outcome, hsends.concat label, habout, hsettles⟩
    · rcases Transaction.exec_rows (Database.commit_eq_ok.mp hcommit).1 hrow with
        ⟨hold, -⟩ | ⟨event, -, hannounces⟩ | ⟨outcome, hover, before, hbefore, rfl⟩
      · obtain ⟨i, event, outcome, hsends, habout, hsettles⟩ := hs.settled row hold hsettled
        exact ⟨i, event, outcome, hsends.concat label, habout, hsettles⟩
      · exact absurd hannounces.deliveryStatus hsettled
      · obtain ⟨i, event, hsends, habout⟩ :=
          hs.delivered h hcommit hover hbefore (by cases outcome <;> rfl)
        exact ⟨i, event, outcome, hsends.concat label, habout.settled outcome,
          before.settles_settled outcome⟩

/-- While keys are given once, a notification that is `SENT` or `FAILED` is so because the sender
has returned the id of its message or has raised, for the event of the row. -/
theorem settled_of_run {labels : List Label} (hrun : run (step env) {} labels = some s)
    (hkeys : (s.notificationKeys env).Nodup) {row : Notification}
    (hrow : row ∈ s.database.store.notifications.rows) (hsettled : row.deliveryStatus ≠ .pending) :
    ∃ i event outcome, Sends env labels i event outcome ∧ row.IsAbout event ∧
      Settles outcome row := by
  refine (run_induction (step env) (P := fun labels s => (s.notificationKeys env).Nodup →
    s.Accounted env labels) ?_ ?_ hrun hkeys).settled row hrow hsettled
  · exact fun _ => ⟨fun i task hi => by simp at hi, fun i task _ _ _ hi => by simp at hi,
      fun i task _ hi => by simp at hi, nofun⟩
  · exact fun labels s label s' hrun hs h hkeys =>
      (hs (notificationKeys_step h hkeys)).step hkeys h hrun

/-- The alert is sent, and its delivery is over. -/
theorem settled_of_run_sent : ∃ s row,
    run (step .plain) {} (unsent ++ [.sent 0 (.ok 7), .commit 0 {}]) = some s ∧
    (s.notificationKeys .plain).Nodup ∧ row ∈ s.database.store.notifications.rows ∧
    row.deliveryStatus ≠ .pending ∧ ∃ i event outcome,
      Sends .plain (unsent ++ [.sent 0 (.ok 7), .commit 0 {}]) i event outcome ∧
        row.IsAbout event ∧ Settles outcome row := by
  have hrun : ((run (step .plain) {} (unsent ++ [.sent 0 (.ok 7), .commit 0 {}])).bind
      fun s : System => s.database.store.notifications.rows.head?.map fun row =>
        decide ((s.notificationKeys .plain).Nodup ∧ row.deliveryStatus ≠ .pending)) =
          some true := by
    decide +kernel
  obtain ⟨s, hs, hrun⟩ := Option.bind_eq_some_iff.mp hrun
  obtain ⟨row, hrow, hfacts⟩ := Option.map_eq_some_iff.mp hrun
  obtain ⟨hkeys, hsettled⟩ := of_decide_eq_true hfacts
  have hmem := List.mem_of_head? hrow
  exact ⟨s, row, hs, hkeys, hmem, hsettled, settled_of_run hs hkeys hmem hsettled⟩

end System

end DonutMonitor
