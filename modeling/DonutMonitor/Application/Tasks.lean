import DonutMonitor.Application.Transactions
import Mathlib.Data.List.Dedup

/-!
# The coroutines of the application layer

`WatchService.add` and `MonitoringCoordinator._poll_user` run as tasks of one event loop. A task is
atomic between two suspension points: it waits for a transaction to commit, for `get_price` or for
a message to be sent. Its state is the point at which it waits together with the local variables
that it still needs. `RuleProcessor.process` and `_deliver`, which both call, are a coroutine of
their own.

## Main definitions

* `ProcessPhase`, `AddPhase`, `PollPhase`, `Task` — the suspension points.
* `Task.pending` — the transaction that a task is about to commit.
* `Task.resume`, `Task.fail`, `Task.fetched`, `Task.sent` — the continuation after a commit, after
  a rejected transaction, after `get_price` and after a message.
-/

namespace DonutMonitor

/-- What `get_price` comes back with: the listing it selected, a `DonutApiError`, or another
exception, by its name. -/
inductive PriceOutcome where
  | listing (listing : Option AuctionListing) (checkedAt : ℚ) (pagesScanned : ℤ)
  | donutApiError (error : DonutApiError)
  | exception (name : String)

/-- The arguments of `get_price`. -/
structure PriceRequest where
  token : String
  tokenKey : String
  itemId : String
  priceType : PriceType
  deriving DecidableEq

/-- The snapshot that `get_price` returns for a request. -/
def PriceRequest.snapshot (env : Environment) (request : PriceRequest)
    (listing : Option AuctionListing) (checkedAt : ℚ) (pagesScanned : ℤ) : PriceSnapshot :=
  .ofListing env.decimal (normalizeItemId env.lower request.itemId) request.priceType listing
    checkedAt pagesScanned

/-- What the database chooses when a transaction commits: the keys of new rows, the order in which
a set of rule ids is iterated, and the reading of the clock. -/
structure CommitInput where
  ruleKey : ℕ := 0
  observationKey : ℕ := 0
  notificationKey : ℕ → ℕ := fun _ => 0
  order : List ℕ := []
  now : ℚ := 0

/-! ### Processing a snapshot -/

/-- The arguments of `RuleProcessor.process`, with the list of rules. -/
structure ProcessArgs where
  discordUserId : ℤ
  ruleIds : List ℕ
  snapshot : PriceSnapshot
  notifyInitialRuleId : Option ℕ := none

/-- The call, for an order in which the set of the rule ids is iterated. -/
def ProcessArgs.call (args : ProcessArgs) (order : List ℕ) : Option ProcessCall :=
  if h : order.Perm args.ruleIds.dedup then
    some
      { discordUserId := args.discordUserId
        ruleIds := order
        snapshot := args.snapshot
        notifyInitialRuleId := args.notifyInitialRuleId
        nodup := h.nodup_iff.mpr args.ruleIds.nodup_dedup }
  else none

theorem ProcessArgs.call_eq_some {args : ProcessArgs} {order : List ℕ} {call : ProcessCall}
    (h : args.call order = some call) : order.Perm args.ruleIds.dedup ∧ call.ruleIds = order ∧
      call.discordUserId = args.discordUserId ∧ call.snapshot = args.snapshot ∧
      call.notifyInitialRuleId = args.notifyInitialRuleId := by
  rw [ProcessArgs.call] at h
  split_ifs at h with hperm
  obtain rfl := Option.some.inj h
  exact ⟨hperm, rfl, rfl, rfl, rfl⟩

/-- Where `RuleProcessor.process` is suspended: before its transaction, while an event is being
sent, and before the bookkeeping of a delivery. -/
inductive ProcessPhase where
  | evaluating
  | delivering (event : AlertEvent × ℕ) (rest : List (AlertEvent × ℕ))
  | recording (event : AlertEvent × ℕ) (outcome : Except String ℤ) (rest : List (AlertEvent × ℕ))

namespace ProcessPhase

/-- The beginning of `process`. It returns at once when there is no rule. -/
def start (args : ProcessArgs) : Option ProcessPhase :=
  if args.ruleIds = [] then none else some evaluating

/-- The loop over the events. It returns after the last one. -/
def deliver : List (AlertEvent × ℕ) → Option ProcessPhase
  | [] => none
  | event :: rest => some (delivering event rest)

/-- The transaction that `process` is about to commit. -/
def pending (args : ProcessArgs) (input : CommitInput) : ProcessPhase → Option Transaction
  | evaluating =>
    (args.call input.order).map fun call =>
      .process call input.observationKey input.notificationKey
  | delivering _ _ => none
  | recording (event, notificationId) outcome _ =>
    match outcome with
    | .error name => some (.deliveryFailed notificationId event.discordUserId name)
    | .ok messageId => some (.deliverySent notificationId event.discordUserId messageId)

/-- The phase after a commit, where `none` inside means that `process` has returned. -/
def resume : ProcessPhase → Answer → Option (Option ProcessPhase)
  | evaluating, .alerts events => some (deliver events)
  | recording _ _ rest, .done => some (deliver rest)
  | _, _ => none

/-- The phase is one before a transaction. -/
def commits : ProcessPhase → Bool
  | evaluating | recording _ _ _ => true
  | delivering _ _ => false

/-- The phase after the sender has returned or raised. -/
def sent (outcome : Except String ℤ) : ProcessPhase → Option ProcessPhase
  | delivering event rest => some (recording event outcome rest)
  | _ => none

theorem pending_ne_create {args : ProcessArgs} {input : CommitInput} {phase : ProcessPhase}
    {draft : RuleDraft} {key : ℕ} : phase.pending args input ≠ some (.create draft key) := by
  cases phase with
  | evaluating => simp [pending]
  | delivering event rest => exact nofun
  | recording event outcome rest => cases outcome <;> exact nofun

theorem pending_process {args : ProcessArgs} {input : CommitInput} {phase : ProcessPhase}
    {call : ProcessCall} {observationKey : ℕ} {notificationKey : ℕ → ℕ}
    (h : phase.pending args input = some (.process call observationKey notificationKey)) :
    phase = evaluating ∧ args.call input.order = some call := by
  cases phase with
  | evaluating =>
    obtain ⟨call', hcall, hprocess⟩ := Option.map_eq_some_iff.mp h
    obtain ⟨rfl, -, -⟩ := Transaction.process.inj hprocess
    exact ⟨rfl, hcall⟩
  | delivering event rest => cases h
  | recording event outcome rest => cases outcome <;> cases h

theorem deliver_ne_evaluating (events : List (AlertEvent × ℕ)) :
    deliver events ≠ some evaluating := by
  cases events <;> exact nofun

theorem resume_ne_evaluating (phase : ProcessPhase) (answer : Answer) :
    phase.resume answer ≠ some (some evaluating) := by
  intro h
  cases phase with
  | evaluating =>
    cases answer with
    | alerts events => exact deliver_ne_evaluating events (Option.some.inj h)
    | _ => cases h
  | delivering event rest => cases h
  | recording event outcome rest =>
    cases answer with
    | done => exact deliver_ne_evaluating rest (Option.some.inj h)
    | _ => cases h

theorem sent_ne_evaluating (phase : ProcessPhase) (outcome : Except String ℤ) :
    phase.sent outcome ≠ some evaluating := by
  cases phase <;> exact nofun

end ProcessPhase

/-! ### Adding a watch -/

/-- Where `WatchService.add` is suspended. -/
inductive AddPhase where
  | creating (draft : RuleDraft)
  | fetching (created : CreatedRule)
  | undoing (created : CreatedRule) (error : ServiceError)
  | processing (created : CreatedRule) (snapshot : PriceSnapshot) (phase : ProcessPhase)
  | returned (created : CreatedRule) (snapshot : PriceSnapshot)
  | raised (created : Option CreatedRule) (error : ServiceError)

namespace AddPhase

variable (env : Environment) (call : AddCall)

/-- The call up to its first transaction. -/
def start : AddPhase :=
  match WatchService.draft env call with
  | .error e => raised none e
  | .ok draft => creating draft

/-- The request of the call. -/
def request (created : CreatedRule) : PriceRequest where
  token := created.token
  tokenKey := created.fingerprint
  itemId := normalizeItemId env.lower call.itemId
  priceType := call.priceType

/-- The arguments with which the call processes its snapshot. -/
def processArgs (created : CreatedRule) (snapshot : PriceSnapshot) : ProcessArgs where
  discordUserId := call.discordUserId
  ruleIds := [created.rule.id]
  snapshot := snapshot
  notifyInitialRuleId := some created.rule.id

/-- The call while its snapshot is processed, and after that. -/
def ofProcess (created : CreatedRule) (snapshot : PriceSnapshot) : Option ProcessPhase → AddPhase
  | some phase => processing created snapshot phase
  | none => returned created snapshot

/-- The transaction that the call is about to commit. -/
def pending (input : CommitInput) : AddPhase → Option Transaction
  | creating draft => some (.create draft input.ruleKey)
  | undoing created _ => some (.undoCreate call.discordUserId created.rule.id)
  | processing created snapshot phase => phase.pending (processArgs call created snapshot) input
  | fetching _ | returned _ _ | raised _ _ => none

/-- The phase after a commit. -/
def resume : AddPhase → Answer → Option AddPhase
  | creating _, .created created => some (fetching created)
  | undoing created error, .changed _ => some (raised (some created) error)
  | processing created snapshot phase, answer =>
    (phase.resume answer).map (ofProcess created snapshot)
  | _, _ => none

/-- The phase after an exception of the pending transaction. -/
def fail (error : ServiceError) : AddPhase → Option AddPhase
  | creating _ => some (raised none error)
  | undoing created _ => some (raised (some created) error)
  | processing created _ phase =>
    if phase.commits then some (raised (some created) error) else none
  | fetching _ | returned _ _ | raised _ _ => none

/-- An exception ends the call. -/
theorem fail_raises {error : ServiceError} {phase phase' : AddPhase}
    (h : phase.fail error = some phase') : ∃ created, phase' = raised created error := by
  cases phase with
  | creating draft => exact ⟨none, (Option.some.inj h).symm⟩
  | undoing created error => exact ⟨some created, (Option.some.inj h).symm⟩
  | processing created snapshot phase =>
    rw [fail] at h
    split_ifs at h
    exact ⟨some created, (Option.some.inj h).symm⟩
  | _ => cases h

/-- The phase after `get_price`. -/
def fetched (outcome : PriceOutcome) : AddPhase → Option AddPhase
  | fetching created =>
    match outcome with
    | .listing listing checkedAt pagesScanned =>
      let snapshot := (request env call created).snapshot env listing checkedAt pagesScanned
      some (ofProcess created snapshot (ProcessPhase.start (processArgs call created snapshot)))
    | .donutApiError error => some (undoing created (.donutApiError error))
    | .exception name => some (undoing created (.other name))
  | _ => none

/-- The phase after the sender has returned or raised. -/
def sent (outcome : Except String ℤ) : AddPhase → Option AddPhase
  | processing created snapshot phase => (phase.sent outcome).map (processing created snapshot)
  | _ => none

end AddPhase

/-! ### Polling a user -/

/-- The rules that share a request. -/
structure PollGroup where
  itemId : String
  priceType : PriceType
  rules : List WatchRule
  deriving DecidableEq

/-- `grouped[(rule.item_id, rule.price_type)].append(rule)`. -/
def addToGroups (groups : List PollGroup) (rule : WatchRule) : List PollGroup :=
  if groups.any fun g => (g.itemId, g.priceType) = rule.request then
    groups.map fun g =>
      if (g.itemId, g.priceType) = rule.request then { g with rules := g.rules ++ [rule] } else g
  else groups ++ [⟨rule.itemId, rule.priceType, [rule]⟩]

/-- The rules by request, in the order in which the requests first occur. -/
def groupRules (rules : List WatchRule) : List PollGroup := rules.foldl addToGroups []

private theorem mem_addToGroups {groups : List PollGroup} {rule r : WatchRule} {g : PollGroup}
    (hg : g ∈ addToGroups groups rule) (hr : r ∈ g.rules) :
    (∃ g' ∈ groups, r ∈ g'.rules ∧ (g.itemId, g.priceType) = (g'.itemId, g'.priceType)) ∨
      r = rule ∧ (g.itemId, g.priceType) = rule.request := by
  rw [addToGroups] at hg
  split_ifs at hg
  · obtain ⟨g', hg', rfl⟩ := List.mem_map.mp hg
    split_ifs at hr ⊢ with hrequest
    · rcases List.mem_append.mp hr with hr | hr
      · exact .inl ⟨g', hg', hr, rfl⟩
      · exact .inr ⟨List.mem_singleton.mp hr, hrequest⟩
    · exact .inl ⟨g', hg', hr, rfl⟩
  · rcases List.mem_append.mp hg with hg | hg
    · exact .inl ⟨g, hg, hr, rfl⟩
    · obtain rfl := List.mem_singleton.mp hg
      exact .inr ⟨List.mem_singleton.mp hr, rfl⟩

/-- Each group holds rules that share its request. -/
theorem mem_groupRules {rules : List WatchRule} {g : PollGroup} (hg : g ∈ groupRules rules)
    {r : WatchRule} (hr : r ∈ g.rules) : r ∈ rules ∧ r.request = (g.itemId, g.priceType) := by
  induction rules using List.reverseRecOn generalizing g with
  | nil => cases hg
  | append_singleton rules rule ih =>
    rw [groupRules, List.foldl_append] at hg
    rcases mem_addToGroups hg hr with ⟨g', hg', hr', hsame⟩ | ⟨rfl, hsame⟩
    · obtain ⟨hmem, hrequest⟩ := ih hg' hr'
      exact ⟨List.mem_append_left _ hmem, hrequest.trans hsame.symm⟩
    · exact ⟨by simp, hsame.symm⟩

/-- The rows that a poll has loaded, with the length of the history at that time. The rules are
the enabled ones. -/
structure Poll where
  user : User
  rules : List WatchRule
  loadedAt : ℕ
  deriving DecidableEq

/-- Where `_poll_user` is suspended. -/
inductive PollPhase where
  | fetching (token : String) (group : PollGroup) (rest : List PollGroup) (anySuccess : Bool)
  | processing (token : String) (group : PollGroup) (snapshot : PriceSnapshot)
      (rest : List PollGroup) (phase : ProcessPhase)
  | markingSuccess
  | invalidating
  | notifying
  | recordingDmError (message : String)
  | returned
  | raised (error : ServiceError)

namespace PollPhase

variable (env : Environment) (poll : Poll)

/-- The next turn of the loop over the groups, and what follows the last one. -/
def next (token : String) (anySuccess : Bool) : List PollGroup → PollPhase
  | group :: rest => fetching token group rest anySuccess
  | [] => if anySuccess then markingSuccess else returned

/-- The poll up to its first suspension. -/
def start : PollPhase :=
  match env.decrypt poll.user.encryptedDonutToken with
  | none => invalidating
  | some token => next token false (groupRules poll.rules)

/-- The request for a group. -/
def request (token : String) (group : PollGroup) : PriceRequest where
  token := token
  tokenKey := poll.user.tokenFingerprint
  itemId := group.itemId
  priceType := group.priceType

/-- The arguments with which the poll processes the snapshot of a group. -/
def processArgs (group : PollGroup) (snapshot : PriceSnapshot) : ProcessArgs where
  discordUserId := poll.user.discordUserId
  ruleIds := group.rules.map (·.id)
  snapshot := snapshot

/-- The poll while a snapshot is processed, and after that. -/
def ofProcess (token : String) (group : PollGroup) (snapshot : PriceSnapshot)
    (rest : List PollGroup) : Option ProcessPhase → PollPhase
  | some phase => processing token group snapshot rest phase
  | none => next token true rest

/-- `should_notify`. -/
def shouldNotify : Bool := poll.user.invalidTokenNotifiedAt.isNone

/-- The transaction that the poll is about to commit. -/
def pending (input : CommitInput) : PollPhase → Option Transaction
  | processing _ group snapshot _ phase => phase.pending (processArgs poll group snapshot) input
  | markingSuccess => some (.markApiSuccess poll.user.discordUserId input.now)
  | invalidating =>
    some (.invalidate poll.user.discordUserId (if shouldNotify poll then some input.now else none))
  | recordingDmError message => some (.recordDmError poll.user.discordUserId message)
  | fetching _ _ _ _ | notifying | returned | raised _ => none

/-- The phase after a commit. -/
def resume : PollPhase → Answer → Option PollPhase
  | processing token group snapshot rest phase, answer =>
    (phase.resume answer).map (ofProcess token group snapshot rest)
  | markingSuccess, .done => some returned
  | invalidating, .done => some (if shouldNotify poll then notifying else returned)
  | recordingDmError _, .done => some returned
  | _, _ => none

/-- The phase after an exception of the pending transaction. -/
def fail (error : ServiceError) : PollPhase → Option PollPhase
  | processing _ _ _ _ phase => if phase.commits then some (raised error) else none
  | markingSuccess | invalidating | recordingDmError _ => some (raised error)
  | fetching _ _ _ _ | notifying | returned | raised _ => none

/-- An exception ends the poll. -/
theorem fail_raises {error : ServiceError} {phase phase' : PollPhase}
    (h : phase.fail error = some phase') : phase' = raised error := by
  cases phase with
  | processing token group snapshot rest phase =>
    rw [fail] at h
    split_ifs at h
    exact (Option.some.inj h).symm
  | markingSuccess => exact (Option.some.inj h).symm
  | invalidating => exact (Option.some.inj h).symm
  | recordingDmError message => exact (Option.some.inj h).symm
  | _ => cases h

/-- The phase after `get_price`. -/
def fetched (outcome : PriceOutcome) : PollPhase → Option PollPhase
  | fetching token group rest anySuccess =>
    match outcome with
    | .listing listing checkedAt pagesScanned =>
      let snapshot := (request poll token group).snapshot env listing checkedAt pagesScanned
      some (ofProcess token group snapshot rest
        (ProcessPhase.start (processArgs poll group snapshot)))
    | .donutApiError (.authentication _) => some invalidating
    | .donutApiError _ => some (next token anySuccess rest)
    | .exception name => some (raised (.other name))
  | _ => none

/-- The phase after the sender has returned or raised. -/
def sent (outcome : Except String ℤ) : PollPhase → Option PollPhase
  | processing token group snapshot rest phase =>
    (phase.sent outcome).map (processing token group snapshot rest)
  | notifying =>
    match outcome with
    | .ok _ => some returned
    | .error name => some (recordingDmError name)
  | _ => none

end PollPhase

/-! ### Tasks -/

/-- A call of `WatchService.add`, or a run of `_poll_user`. -/
inductive Task where
  | add (call : AddCall) (phase : AddPhase)
  | poll (poll : Poll) (phase : PollPhase)

namespace Task

variable (env : Environment)

/-- The transaction that a task is about to commit. -/
def pending (input : CommitInput) : Task → Option Transaction
  | add call phase => phase.pending call input
  | poll p phase => phase.pending p input

/-- The task after a commit. -/
def resume (answer : Answer) : Task → Option Task
  | add call phase => (phase.resume answer).map (add call)
  | poll p phase => (phase.resume p answer).map (poll p)

/-- The task after an exception of its pending transaction. -/
def fail (error : ServiceError) : Task → Option Task
  | add call phase => (phase.fail error).map (add call)
  | poll p phase => (phase.fail error).map (poll p)

/-- The task after `get_price`. -/
def fetched (outcome : PriceOutcome) : Task → Option Task
  | add call phase => (phase.fetched env call outcome).map (add call)
  | poll p phase => (phase.fetched env p outcome).map (poll p)

/-- The task after the sender has returned or raised. -/
def sent (outcome : Except String ℤ) : Task → Option Task
  | add call phase => (phase.sent outcome).map (add call)
  | poll p phase => (phase.sent outcome).map (poll p)

/-- The request whose answer a task waits for. -/
def request : Task → Option PriceRequest
  | add call (.fetching created) => some (AddPhase.request env call created)
  | poll p (.fetching token group _ _) => some (PollPhase.request p token group)
  | _ => none

/-- A call of `WatchService.add` that has returned. -/
def returnedAdd : Task → Option (AddCall × CreatedRule × PriceSnapshot)
  | add call (.returned created snapshot) => some (call, created, snapshot)
  | _ => none

/-- A call of `WatchService.add` that has created its rule and raised. -/
def raisedAdd : Task → Option (AddCall × CreatedRule × ServiceError)
  | add call (.raised (some created) error) => some (call, created, error)
  | _ => none

variable {env : Environment} {task : Task} {call : AddCall} {phase' : AddPhase}

theorem returnedAdd_eq_some {returned : AddCall × CreatedRule × PriceSnapshot} :
    task.returnedAdd = some returned ↔
      task = add returned.1 (.returned returned.2.1 returned.2.2) := by
  obtain ⟨call, created, snapshot⟩ := returned
  cases task with
  | add call' phase => cases phase <;> simp [returnedAdd]
  | poll p phase => simp [returnedAdd]

theorem raisedAdd_eq_some {raised : AddCall × CreatedRule × ServiceError} :
    task.raisedAdd = some raised ↔ task = add raised.1 (.raised (some raised.2.1) raised.2.2) := by
  obtain ⟨call, created, error⟩ := raised
  cases task with
  | add call' phase =>
    cases phase with
    | raised created' error => cases created' <;> simp [raisedAdd]
    | _ => simp [raisedAdd]
  | poll p phase => simp [raisedAdd]

theorem resume_eq_add {answer : Answer} :
    task.resume answer = some (add call phase') ↔
      ∃ phase, task = add call phase ∧ phase.resume answer = some phase' := by
  cases task <;> simp [resume, and_comm]

theorem fail_eq_add {error : ServiceError} :
    task.fail error = some (add call phase') ↔
      ∃ phase, task = add call phase ∧ phase.fail error = some phase' := by
  cases task <;> simp [fail, and_comm]

theorem fetched_eq_add {outcome : PriceOutcome} :
    task.fetched env outcome = some (add call phase') ↔
      ∃ phase, task = add call phase ∧ phase.fetched env call outcome = some phase' := by
  cases task with
  | add call' phase =>
    simp only [fetched, Option.map_eq_some_iff, add.injEq]
    constructor
    · rintro ⟨_, hphase, rfl, rfl⟩
      exact ⟨phase, ⟨rfl, rfl⟩, hphase⟩
    · rintro ⟨_, ⟨rfl, rfl⟩, hphase⟩
      exact ⟨phase', hphase, rfl, rfl⟩
  | poll p phase => simp [fetched]

theorem resume_eq_poll {answer : Answer} {p : Poll} {next : PollPhase} :
    task.resume answer = some (poll p next) ↔
      ∃ phase, task = poll p phase ∧ phase.resume p answer = some next := by
  cases task with
  | add call phase => simp [resume]
  | poll p' phase =>
    simp only [resume, Option.map_eq_some_iff, poll.injEq]
    constructor
    · rintro ⟨_, hphase, rfl, rfl⟩
      exact ⟨phase, ⟨rfl, rfl⟩, hphase⟩
    · rintro ⟨_, ⟨rfl, rfl⟩, hphase⟩
      exact ⟨next, hphase, rfl, rfl⟩

theorem fail_eq_poll {error : ServiceError} {p : Poll} {next : PollPhase} :
    task.fail error = some (poll p next) ↔
      ∃ phase, task = poll p phase ∧ phase.fail error = some next := by
  cases task <;> simp [fail, and_comm]

theorem fetched_eq_poll {outcome : PriceOutcome} {p : Poll} {next : PollPhase} :
    task.fetched env outcome = some (poll p next) ↔
      ∃ phase, task = poll p phase ∧ phase.fetched env p outcome = some next := by
  cases task with
  | add call phase => simp [fetched]
  | poll p' phase =>
    simp only [fetched, Option.map_eq_some_iff, poll.injEq]
    constructor
    · rintro ⟨_, hphase, rfl, rfl⟩
      exact ⟨phase, ⟨rfl, rfl⟩, hphase⟩
    · rintro ⟨_, ⟨rfl, rfl⟩, hphase⟩
      exact ⟨next, hphase, rfl, rfl⟩

theorem sent_eq_poll {outcome : Except String ℤ} {p : Poll} {next : PollPhase} :
    task.sent outcome = some (poll p next) ↔
      ∃ phase, task = poll p phase ∧ phase.sent outcome = some next := by
  cases task <;> simp [sent, and_comm]

theorem sent_eq_add {outcome : Except String ℤ} :
    task.sent outcome = some (add call phase') ↔
      ∃ phase, task = add call phase ∧ phase.sent outcome = some phase' := by
  cases task <;> simp [sent, and_comm]

end Task

end DonutMonitor
