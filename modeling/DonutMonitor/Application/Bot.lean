import DonutMonitor.Application.TokenMessages

/-!
# The bot with its price commands

`PriceService.get` reads the row of the user, makes its requests and writes nothing. A `Bot` is the
coordinator together with the calls of `PriceService.get`, which share its database and its API
client. Beside the state of the code a bot records which operations were answered 401 or 403, and
how often each user has been told so since its last authentication.

## Main definitions

* `PriceService.get` — the call up to its request.
* `Bot`, `Bot.step` — the bot, and one step of it.

## Main results

* `Bot.step_coordinator` — a step of the bot is at most one step of its coordinator.
-/

namespace DonutMonitor

open Transition

/-- `PriceService.get` up to its request. -/
def PriceService.get (env : Environment) (s : Store) (discordUserId : ℤ) (itemId : String)
    (priceType : PriceType) : Except ServiceError PriceRequest :=
  let normalized := normalizeItemId env.lower itemId
  if env.icons.contains env.lower normalized = false then .error .invalidItemError
  else do
    let user ← requireValidUser s discordUserId
    match env.decrypt user.encryptedDonutToken with
    | none => .error .tokenDecryptionError
    | some token => .ok ⟨token, user.tokenFingerprint, normalized, priceType⟩

/-- Where `PriceService.get` is suspended, or how it ended. -/
inductive PricePhase where
  | fetching (request : PriceRequest)
  | returned (snapshot : PriceSnapshot)
  | raised (error : ServiceError)

/-- The phase after the row of the user has been read. -/
def PricePhase.start : Except ServiceError PriceRequest → PricePhase
  | .ok request => fetching request
  | .error error => raised error

/-- The phase after `get_price`. -/
def PricePhase.fetched (env : Environment) (outcome : PriceOutcome) : PricePhase → Option PricePhase
  | fetching request =>
    match outcome with
    | .listing listing checkedAt pagesScanned =>
      some (returned (request.snapshot env listing checkedAt pagesScanned))
    | .donutApiError error => some (raised (.donutApiError error))
    | .exception name => some (raised (.other name))
  | _ => none

/-- A call of `PriceService.get`, with the length of the history when it read the user and the page
that it waits for. -/
structure PriceCall where
  discordUserId : ℤ
  loadedAt : ℕ
  phase : PricePhase
  fetch : Option Fetch := none

/-- The arguments of `_request_page` for a page of the price that the call requests. -/
def PriceCall.pageArgs (env : Environment) (page : ℤ) (c : PriceCall) : Option PageArgs :=
  match c.phase with
  | .fetching request => some
    { token := request.token
      tokenKey := request.tokenKey
      page := page
      search := normalizeItemId env.lower request.itemId
      interactive := true }
  | _ => none

/-- An operation that makes requests with the stored token of a user: a poll or a call of
`WatchService.add`, by its task, or a call of `PriceService.get`. -/
inductive TokenUse where
  | task (i : ℕ)
  | price (i : ℕ)
  deriving DecidableEq

/-- `get_price` has raised the error of a request that was answered 401 or 403. -/
def PriceOutcome.rejects : PriceOutcome → Bool
  | donutApiError (.authentication _) => true
  | _ => false

/-- The coordinator with the calls of `PriceService.get`, in the order in which they were started,
the operations that were answered 401 or 403, and the number of messages about an invalid token that
each user has been sent since its last authentication. -/
structure Bot where
  coordinator : Coordinator
  prices : List PriceCall := []
  rejected : List TokenUse := []
  messages : ℤ → ℕ := fun _ => 0

/-- What happens in a step of the bot. -/
inductive BotEvent where
  | coordinator (now : ℚ) (event : CoordinatorEvent)
  /-- A user calls `PriceService.get`. -/
  | get (discordUserId : ℤ) (itemId : String) (priceType : PriceType)
  /-- A call of `PriceService.get` requests its first page. -/
  | request (now : ℚ) (call : ℕ)
  /-- It goes on to the next page. -/
  | nextPage (now : ℚ) (call : ℕ)
  /-- Its `get_price` returns or raises. -/
  | fetched (call : ℕ) (outcome : PriceOutcome)

/-- The task that the event answers with 401 or 403. -/
def CoordinatorEvent.rejects : CoordinatorEvent → List TokenUse
  | fetched i outcome => if outcome.rejects then [.task i] else []
  | _ => []

namespace Bot

variable (api : DonutApiClient) (env : Environment)

/-- The bot that has just been started. -/
def initial (clock : ℚ) : Bot where
  coordinator := .initial env clock

variable (s : Bot)

/-- The store of the bot. -/
def store : Store := s.coordinator.system.database.store

/-- The committed transactions. -/
def history : List Commit := s.coordinator.system.database.history

/-- A call of `PriceService.get` requests a page. -/
def requestPage (now : ℚ) (i : ℕ) (page : ℤ) : Option Bot := do
  let c ← s.prices[i]?
  let args ← c.pageArgs env page
  let coordinator ← s.coordinator.step api env (now, .client (.start args))
  some { s with
    coordinator := coordinator
    prices := s.prices.set i
      { c with fetch := some ⟨page, s.coordinator.client.calls.length⟩ } }

/-- The bot after a step, when the step is possible. -/
def step : BotEvent → Option Bot
  | .coordinator now event => (s.coordinator.step api env (now, event)).map fun coordinator =>
    { s with
      coordinator := coordinator
      rejected := s.rejected ++ event.rejects
      messages := fun discordUserId =>
        if event.authenticates discordUserId then 0
        else s.messages discordUserId + (coordinator.sendsInvalidToken discordUserId event).toNat }
  | .get discordUserId itemId priceType => some
    { s with
      prices := s.prices ++ [{
        discordUserId := discordUserId
        loadedAt := s.history.length
        phase := .start (PriceService.get env s.store discordUserId itemId priceType) }] }
  | .request now i => do
    let c ← s.prices[i]?
    match c.fetch with
    | none => s.requestPage api env now i 1
    | some _ => none
  | .nextPage now i => do
    let c ← s.prices[i]?
    let fetch ← c.fetch
    let call ← s.coordinator.client.calls[fetch.call]?
    match call.phase with
    | .returned _ =>
      if fetch.page < env.settings.maxSearchPages then
        s.requestPage api env now i (fetch.page + 1)
      else none
    | _ => none
  | .fetched i outcome => do
    let c ← s.prices[i]?
    let fetch ← c.fetch
    let call ← s.coordinator.client.calls[fetch.call]?
    if outcome.comesFrom call.phase then
      let phase ← c.phase.fetched env outcome
      some { s with
        prices := s.prices.set i { c with phase := phase, fetch := none }
        rejected := s.rejected ++ if outcome.rejects then [.price i] else [] }
    else none

variable {api env} {s s' : Bot} {i : ℕ} {now : ℚ}

/-! ### Inversion of steps -/

theorem step_coordinator_event {event : CoordinatorEvent} :
    s.step api env (.coordinator now event) = some s' ↔ ∃ coordinator,
      s.coordinator.step api env (now, event) = some coordinator ∧ s' = { s with
        coordinator := coordinator
        rejected := s.rejected ++ event.rejects
        messages := fun discordUserId =>
          if event.authenticates discordUserId then 0
          else s.messages discordUserId +
            (coordinator.sendsInvalidToken discordUserId event).toNat } := by
  simp only [step, Option.map_eq_some_iff, eq_comm (a := s')]

theorem requestPage_eq_some {page : ℤ} :
    s.requestPage api env now i page = some s' ↔ ∃ c args coordinator,
      s.prices[i]? = some c ∧ c.pageArgs env page = some args ∧
        s.coordinator.step api env (now, .client (.start args)) = some coordinator ∧
          s' = { s with
            coordinator := coordinator
            prices := s.prices.set i
              { c with fetch := some ⟨page, s.coordinator.client.calls.length⟩ } } := by
  simp only [requestPage, bind, Option.bind_eq_some_iff, Option.some.injEq, eq_comm (a := s'),
    exists_and_left]

theorem step_fetched {outcome : PriceOutcome} :
    s.step api env (.fetched i outcome) = some s' ↔ ∃ c fetch call phase,
      s.prices[i]? = some c ∧ c.fetch = some fetch ∧
        s.coordinator.client.calls[fetch.call]? = some call ∧
          outcome.comesFrom call.phase = true ∧ c.phase.fetched env outcome = some phase ∧
            s' = { s with
              prices := s.prices.set i { c with phase := phase, fetch := none }
              rejected := s.rejected ++ if outcome.rejects then [.price i] else [] } := by
  simp only [step, bind, Option.bind_eq_some_iff, ite_eq_iff, Option.some.injEq, reduceCtorEq,
    and_false, or_false, eq_comm (a := s'), exists_and_left]

/-- A page is requested for a call that waits for its price. -/
theorem step_requestsPage {event : BotEvent}
    (hevent : event = .request now i ∨ event = .nextPage now i)
    (h : s.step api env event = some s') : ∃ page, s.requestPage api env now i page = some s' := by
  rcases hevent with rfl | rfl
  · simp only [step, bind, Option.bind_eq_some_iff] at h
    obtain ⟨c, -, h⟩ := h
    split at h
    · exact ⟨1, h⟩
    · cases h
  · simp only [step, bind, Option.bind_eq_some_iff] at h
    obtain ⟨c, -, fetch, -, call, -, h⟩ := h
    split at h
    · split_ifs at h
      exact ⟨_, h⟩
    · cases h

end Bot

end DonutMonitor
