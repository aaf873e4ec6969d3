import DonutMonitor.Application.StoredTokens
import DonutMonitor.Infrastructure.RequestAttempts
import Mathlib.Data.List.DropRight

/-!
# Authentication

`AuthService.authenticate` strips the token, has it validated by a request to the API, encrypts it
and stores it with its fingerprint. An `AuthBot` is the bot with any number of these calls, which
are the only way by which a token gets into the database. Each of its steps is at most one step of
the bot.

## Main definitions

* `AuthPhase`, `AuthCall` — a call of `AuthService.authenticate`.
* `AuthBot`, `AuthBot.step` — the bot with its calls, and one step of it.
* `AuthBot.Accepted` — the API has answered a request with the token by a success.

## Main results

* `AuthBot.stored_verified` — only tokens that the API has accepted are stored.
-/

namespace DonutMonitor

open Transition

/-- The exception of a service when `_request_page` raises. -/
def RequestFailure.serviceError : RequestFailure → ServiceError
  | api error => .donutApiError error
  | transport error => .other error.name
  | overflowError => .other "OverflowError"

/-- Where `AuthService.authenticate` is suspended, or how it ended. -/
inductive AuthPhase where
  | validating (call : ℕ)
  | saving
  | returned (fingerprint : String)
  | raised (error : ServiceError)

/-- A call of `AuthService.authenticate`. -/
structure AuthCall where
  discordUserId : ℤ
  rawToken : String
  phase : AuthPhase

/-- `token = raw_token.strip()`. -/
def AuthCall.token (c : AuthCall) : String := strip c.rawToken

/-- The arguments of the request of `DonutApiClient.validate_token`. -/
def DonutApiClient.validateArgs (token tokenKey : String) : PageArgs where
  token := token
  tokenKey := tokenKey
  page := 1
  search := "diamond"
  interactive := true

/-- The bot with the calls of `AuthService.authenticate`, in the order in which they started. -/
structure AuthBot where
  bot : Bot
  auths : List AuthCall := []

/-- What happens in a step. -/
inductive AuthEvent where
  | bot (event : BotEvent)
  /-- A user submits a token, and the request that validates it begins. -/
  | submit (now : ℚ) (discordUserId : ℤ) (rawToken : String)
  /-- `validate_token` returns or raises. -/
  | validated (call : ℕ)
  /-- The transaction of the call commits. -/
  | saved (now : ℚ) (call : ℕ) (nonce : ℕ)
  /-- The transaction of the call is rejected. -/
  | rejected (call : ℕ) (error : DatabaseError)

/-- The event stores a token without a call of `AuthService.authenticate`. -/
def BotEvent.savesToken : BotEvent → Bool
  | coordinator _ (.system (.operation (.authenticate _ _ _))) => true
  | _ => false

namespace AuthBot

variable (api : DonutApiClient) (env : Environment)

/-- The bot that has just been started. -/
def initial (clock : ℚ) : AuthBot where
  bot := .initial env clock

variable (s : AuthBot)

/-- The calls of `_request_page`. -/
def calls : List PageCall := s.bot.coordinator.client.calls

/-- The state with a call in another phase. -/
def setPhase (i : ℕ) (c : AuthCall) (phase : AuthPhase) : AuthBot :=
  { s with auths := s.auths.set i { c with phase } }

/-- The state after a step, when the step is possible. -/
def step : AuthEvent → Option AuthBot
  | .bot event =>
    if event.savesToken then none
    else (s.bot.step api env event).map fun bot => { s with bot := bot }
  | .submit now discordUserId rawToken =>
    let token := strip rawToken
    if token = "" then some { s with
      auths := s.auths ++ [⟨discordUserId, rawToken,
        .raised (.donutApiError (.authentication "Token must not be empty"))⟩] }
    else
      let fingerprint := env.tokenFingerprint (strip token)
      (s.bot.step api env (.coordinator now (.client (.start
        (DonutApiClient.validateArgs token fingerprint))))).map fun bot =>
          { s with
            bot := bot
            auths := s.auths ++ [⟨discordUserId, rawToken, .validating s.calls.length⟩] }
  | .validated i => do
    let c ← s.auths[i]?
    match c.phase with
    | .validating k =>
      let call ← s.calls[k]?
      match call.phase with
      | .returned _ => some (s.setPhase i c .saving)
      | .raised failure => some (s.setPhase i c (.raised failure.serviceError))
      | _ => none
    | _ => none
  | .saved now i nonce => do
    let c ← s.auths[i]?
    match c.phase with
    | .saving =>
      (s.bot.step api env (.coordinator now (.system (.operation
        (.authenticate c.discordUserId c.rawToken nonce))))).map fun bot =>
          { s with bot := bot }.setPhase i c (.returned (env.tokenFingerprint (strip c.token)))
    | _ => none
  | .rejected i error => do
    let c ← s.auths[i]?
    match c.phase with
    | .saving => some (s.setPhase i c (.raised (.databaseError error)))
    | _ => none

/-- A request with the token, charged to its fingerprint, has been answered by a success. -/
def Accepted (token : String) : Prop :=
  ∃ call ∈ s.calls, call.args = DonutApiClient.validateArgs token (env.tokenFingerprint token) ∧
    ∃ payload, call.phase = .returned payload

end AuthBot

/-! ### The token -/

/-- `str.strip` leaves a stripped string as it is. -/
theorem strip_strip (s : String) : strip (strip s) = strip s := by
  have hpre := List.rdropWhile_prefix isSpace (s.toList.dropWhile isSpace)
  have hdrop : ((s.toList.dropWhile isSpace).rdropWhile isSpace).dropWhile isSpace =
      (s.toList.dropWhile isSpace).rdropWhile isSpace := by
    refine List.dropWhile_eq_self_iff.mpr fun hlength => ?_
    have hsame := List.dropWhile_eq_self_iff.mp (List.dropWhile_idempotent isSpace s.toList)
    rw [hpre.getElem hlength]
    exact hsame (hlength.trans_le hpre.length_le)
  show String.ofList (((String.ofList _).toList.dropWhile isSpace).rdropWhile isSpace) = _
  rw [String.toList_ofList]
  exact congrArg _ ((congrArg _ hdrop).trans (List.rdropWhile_idempotent isSpace _))

/-! ### The calls of the client -/

/-- The call is still there with its arguments and, when it had ended, with its result. -/
def PageCall.Persists (c : PageCall) (calls : List PageCall) (i : ℕ) : Prop :=
  ∃ c', calls[i]? = some c' ∧ c'.args = c.args ∧ (c.phase.isEnded = true → c' = c)

theorem DonutApiClient.persists_of_reachable {api : DonutApiClient} {s s' : ClientState}
    (h : Reachable api.step s s') {i : ℕ} {c : PageCall} (hc : s.calls[i]? = some c) :
    c.Persists s'.calls i := by
  obtain ⟨events, hrun⟩ := h
  refine run_invariant api.step (I := fun s => c.Persists s.calls i) ?_ hrun
    ⟨c, hc, rfl, fun _ => rfl⟩
  rintro s ⟨now, event⟩ s' ⟨c₁, hc₁, hargs₁, hended₁⟩ hstep
  obtain ⟨c₂, hc₂, hargs₂, -⟩ := api.step_call hstep hc₁
  refine ⟨c₂, hc₂, hargs₂.trans hargs₁, fun hended => ?_⟩
  obtain rfl := hended₁ hended
  have hcall := api.callStep_of_step hstep hc₂
  rw [hc₁] at hcall
  exact hcall.of_isEnded hended

namespace Bot

variable {api : DonutApiClient} {env : Environment} {s s' : Bot} {event : BotEvent}

theorem step_client (h : s.step api env event = some s') :
    Reachable api.step s.coordinator.client s'.coordinator.client := by
  rcases step_coordinator h with hsame | ⟨label, hstep⟩
  · exact hsame ▸ .refl _
  · exact (Coordinator.step_parts hstep).2

/-- A step of the bot leaves the database as it is, or is a step of the system. -/
theorem step_system (h : s.step api env event = some s') :
    s'.coordinator.system.database = s.coordinator.system.database ∨
      ∃ now e label, event = .coordinator now e ∧ e.label = some label ∧
        s.coordinator.system.step env label = some s'.coordinator.system := by
  have hpage : ∀ {now : ℚ} {i : ℕ} {page : ℤ}, s.requestPage api env now i page = some s' →
      s'.coordinator.system.database = s.coordinator.system.database := by
    intro now i page h
    obtain ⟨c, args, coordinator, -, -, hstep, rfl⟩ := requestPage_eq_some.mp h
    obtain ⟨client, -, rfl⟩ := Coordinator.react_client.mp (Coordinator.step_eq_some.mp hstep).2
    rfl
  cases event with
  | coordinator now e =>
    obtain ⟨coordinator, hstep, rfl⟩ := step_coordinator_event.mp h
    rcases Coordinator.react_cases (Coordinator.step_eq_some.mp hstep).2 with
      ⟨label, hlabel, hsystem⟩ | ⟨-, hdatabase, -⟩
    · exact .inr ⟨now, e, label, rfl, hlabel, hsystem⟩
    · exact .inl hdatabase
  | get discordUserId itemId priceType =>
    obtain rfl := Option.some.inj h
    exact .inl rfl
  | request now i =>
    obtain ⟨page, h⟩ := step_requestsPage (.inl rfl) h
    exact .inl (hpage h)
  | nextPage now i =>
    obtain ⟨page, h⟩ := step_requestsPage (.inr rfl) h
    exact .inl (hpage h)
  | fetched i outcome =>
    obtain ⟨c, fetch, call, phase, -, -, -, -, -, rfl⟩ := step_fetched.mp h
    exact .inl rfl

/-- The token of a user after a step was there before, or the event has saved it. -/
theorem step_credentials (h : s.step api env event = some s') {discordUserId : ℤ}
    {c' : Credentials} (hc' : s'.store.credentials discordUserId = some c') :
    (∃ c, s.store.credentials discordUserId = some c ∧
      c'.encryptedDonutToken = c.encryptedDonutToken ∧ c'.tokenFingerprint = c.tokenFingerprint) ∨
    ∃ now rawToken nonce, event =
        .coordinator now (.system (.operation (.authenticate discordUserId rawToken nonce))) ∧
      AuthService.authenticate env discordUserId rawToken nonce =
        .ok (.saveValidToken discordUserId c'.encryptedDonutToken c'.tokenFingerprint) := by
  rcases step_system h with hsame | ⟨now, e, label, rfl, hlabel, hstep⟩
  · rw [store, hsame] at hc'
    exact .inl ⟨c', hc', rfl, rfl⟩
  · rcases System.step_credentials hstep hc' with hbefore | ⟨rawToken, nonce, rfl, hsaved⟩
    · exact .inl hbefore
    · cases e with
      | system label =>
        obtain rfl := Option.some.inj hlabel
        exact .inr ⟨now, rawToken, nonce, rfl, hsaved⟩
      | _ => cases hlabel

end Bot

namespace AuthBot

variable {api : DonutApiClient} {env : Environment} {s s' : AuthBot}

/-! ### Verified tokens -/

theorem Accepted.mono {token : String} (h : s.Accepted env token)
    (hclient : Reachable api.step s.bot.coordinator.client s'.bot.coordinator.client) :
    s'.Accepted env token := by
  obtain ⟨call, hcall, hargs, payload, hphase⟩ := h
  obtain ⟨k, hk⟩ := List.mem_iff_getElem?.mp hcall
  obtain ⟨call', hk', -, hsame⟩ := DonutApiClient.persists_of_reachable hclient hk
  obtain rfl := hsame (by rw [hphase]; rfl)
  exact ⟨call', List.mem_of_getElem? hk', hargs, payload, hphase⟩

/-- A call that waits has made its request, and a token that is about to be stored has been
accepted. -/
structure Requested (env : Environment) (s : AuthBot) : Prop where
  validating : ∀ (i : ℕ) c k, s.auths[i]? = some c → c.phase = .validating k →
    ∃ call, s.calls[k]? = some call ∧
      call.args = DonutApiClient.validateArgs c.token (env.tokenFingerprint c.token)
  saving : ∀ (i : ℕ) c, s.auths[i]? = some c → c.phase = .saving → s.Accepted env c.token

namespace Requested

/-- The requests stay while the bot moves. -/
theorem bot (hs : s.Requested env) {bot : Bot}
    (hclient : Reachable api.step s.bot.coordinator.client bot.coordinator.client) :
    Requested env { s with bot := bot } := by
  refine ⟨fun i c k hi hphase => ?_, fun i c hi hphase => ?_⟩
  · obtain ⟨call, hcall, hargs⟩ := hs.validating i c k hi hphase
    obtain ⟨call', hcall', hargs', -⟩ := DonutApiClient.persists_of_reachable hclient hcall
    exact ⟨call', hcall', hargs'.trans hargs⟩
  · exact (hs.saving i c hi hphase).mono hclient

/-- A call may go on to another phase, when it has cause to. -/
theorem setPhase (hs : s.Requested env) {i : ℕ} {c : AuthCall} {phase : AuthPhase}
    (hc : s.auths[i]? = some c) (hvalidating : ∀ k, phase ≠ .validating k)
    (hsaving : phase = .saving → s.Accepted env c.token) :
    Requested env (s.setPhase i c phase) := by
  have hlength := (List.getElem?_eq_some_iff.mp hc).1
  refine ⟨fun j c' k hj hphase => ?_, fun j c' hj hphase => ?_⟩
  · by_cases hij : i = j
    · subst hij
      rw [AuthBot.setPhase, List.getElem?_set_self hlength] at hj
      obtain rfl := Option.some.inj hj
      exact absurd hphase (hvalidating k)
    · rw [AuthBot.setPhase, List.getElem?_set_ne hij] at hj
      exact hs.validating j c' k hj hphase
  · by_cases hij : i = j
    · subst hij
      rw [AuthBot.setPhase, List.getElem?_set_self hlength] at hj
      obtain rfl := Option.some.inj hj
      exact hsaving hphase
    · rw [AuthBot.setPhase, List.getElem?_set_ne hij] at hj
      exact hs.saving j c' hj hphase

/-- A call may be submitted, when its request is there. -/
theorem append (hs : s.Requested env) {c : AuthCall} (hsaving : c.phase ≠ .saving)
    (hvalidating : ∀ k, c.phase = .validating k → ∃ call, s.calls[k]? = some call ∧
      call.args = DonutApiClient.validateArgs c.token (env.tokenFingerprint c.token)) :
    Requested env { s with auths := s.auths ++ [c] } := by
  refine ⟨fun i c' k hi hphase => ?_, fun i c' hi hphase => ?_⟩
  · rw [List.getElem?_append] at hi
    split at hi
    · exact hs.validating i c' k hi hphase
    · obtain rfl := List.mem_singleton.mp (List.mem_of_getElem? hi)
      exact hvalidating k hphase
  · rw [List.getElem?_append] at hi
    split at hi
    · exact hs.saving i c' hi hphase
    · obtain rfl := List.mem_singleton.mp (List.mem_of_getElem? hi)
      exact absurd hphase hsaving

end Requested

/-- The request that validates a token begins as the next call of the client. -/
private theorem start_eq_some {now : ℚ} {args : PageArgs} {bot : Bot}
    (h : s.bot.step api env (.coordinator now (.client (.start args))) = some bot) :
    bot.coordinator.client.calls[s.calls.length]? = some (api.start now args) := by
  obtain ⟨coordinator, hstep, rfl⟩ := Bot.step_coordinator_event.mp h
  obtain ⟨client, hclient, rfl⟩ := Coordinator.react_client.mp (Coordinator.step_eq_some.mp hstep).2
  obtain ⟨-, rfl⟩ := api.step_start.mp hclient
  exact List.getElem?_concat_length ..

/-- What a step does: the bot moves without saving a token, a call without a token fails at once, a
request begins, a call learns the outcome of its request, its transaction commits, or it is
rejected. -/
theorem step_cases {event : AuthEvent} (h : s.step api env event = some s') :
    (∃ e bot, s.bot.step api env e = some bot ∧ e.savesToken = false ∧
        s' = { s with bot := bot }) ∨
      (∃ c, c.token = "" ∧
        c.phase = .raised (.donutApiError (.authentication "Token must not be empty")) ∧
        s' = { s with auths := s.auths ++ [c] }) ∨
      (∃ now c bot, c.phase = .validating s.calls.length ∧
        s.bot.step api env (.coordinator now (.client (.start
          (DonutApiClient.validateArgs c.token (env.tokenFingerprint c.token))))) = some bot ∧
        s' = { s with bot := bot, auths := s.auths ++ [c] }) ∨
      (∃ i c k call, s.auths[i]? = some c ∧ c.phase = .validating k ∧ s.calls[k]? = some call ∧
        ((∃ payload, call.phase = .returned payload ∧ s' = s.setPhase i c .saving) ∨
          ∃ failure, call.phase = .raised failure ∧
            s' = s.setPhase i c (.raised failure.serviceError))) ∨
      (∃ now i nonce c bot, s.auths[i]? = some c ∧ c.phase = .saving ∧
        s.bot.step api env (.coordinator now (.system (.operation
          (.authenticate c.discordUserId c.rawToken nonce)))) = some bot ∧
        s' = { s with bot := bot }.setPhase i c (.returned (env.tokenFingerprint c.token))) ∨
      ∃ i c error, s.auths[i]? = some c ∧ c.phase = .saving ∧
        s' = s.setPhase i c (.raised (.databaseError error)) := by
  cases event with
  | bot event =>
    simp only [AuthBot.step] at h
    split_ifs at h with hevent
    obtain ⟨bot, hbot, rfl⟩ := Option.map_eq_some_iff.mp h
    exact .inl ⟨event, bot, hbot, by simpa using hevent, rfl⟩
  | submit now discordUserId rawToken =>
    simp only [AuthBot.step] at h
    split_ifs at h with hempty
    · obtain rfl := Option.some.inj h
      exact .inr (.inl ⟨⟨discordUserId, rawToken, .raised (.donutApiError (.authentication
        "Token must not be empty"))⟩, hempty, rfl, rfl⟩)
    · obtain ⟨bot, hbot, rfl⟩ := Option.map_eq_some_iff.mp h
      rw [strip_strip] at hbot
      exact .inr (.inr (.inl ⟨now, ⟨discordUserId, rawToken, .validating s.calls.length⟩, bot, rfl,
        hbot, rfl⟩))
  | validated i =>
    obtain ⟨c, hc, h⟩ := Option.bind_eq_some_iff.mp h
    split at h
    · next k hphase =>
      obtain ⟨call, hcall, h⟩ := Option.bind_eq_some_iff.mp h
      refine .inr (.inr (.inr (.inl ⟨i, c, k, call, hc, hphase, hcall, ?_⟩)))
      split at h
      · next payload hreturned => exact .inl ⟨payload, hreturned, (Option.some.inj h).symm⟩
      · next failure hraised => exact .inr ⟨failure, hraised, (Option.some.inj h).symm⟩
      · cases h
    · cases h
  | saved now i nonce =>
    obtain ⟨c, hc, h⟩ := Option.bind_eq_some_iff.mp h
    split at h
    · next hphase =>
      obtain ⟨bot, hbot, rfl⟩ := Option.map_eq_some_iff.mp h
      rw [AuthCall.token, strip_strip]
      exact .inr (.inr (.inr (.inr (.inl ⟨now, i, nonce, c, bot, hc, hphase, hbot, rfl⟩))))
    · cases h
  | rejected i error =>
    obtain ⟨c, hc, h⟩ := Option.bind_eq_some_iff.mp h
    split at h
    · next hphase =>
      exact .inr (.inr (.inr (.inr (.inr ⟨i, c, error, hc, hphase, (Option.some.inj h).symm⟩))))
    · cases h

theorem Requested.step (hs : s.Requested env) {event : AuthEvent}
    (h : s.step api env event = some s') : s'.Requested env := by
  rcases step_cases h with ⟨e, bot, hbot, -, rfl⟩ | ⟨c, -, hphase, rfl⟩ |
    ⟨now, c, bot, hphase, hbot, rfl⟩ | ⟨i, c, k, call, hc, hphase, hcall, hended⟩ |
    ⟨now, i, nonce, c, bot, hc, -, hbot, rfl⟩ | ⟨i, c, error, hc, -, rfl⟩
  · exact hs.bot (Bot.step_client hbot)
  · exact hs.append (by simp [hphase]) fun k hk => by simp [hphase] at hk
  · refine (hs.bot (Bot.step_client hbot)).append (by simp [hphase]) fun k hk => ?_
    obtain rfl := AuthPhase.validating.inj (hphase.symm.trans hk)
    exact ⟨_, start_eq_some hbot, DonutApiClient.start_args ..⟩
  · obtain ⟨call', hcall', hargs⟩ := hs.validating i c k hc hphase
    obtain rfl := Option.some.inj (hcall'.symm.trans hcall)
    rcases hended with ⟨payload, hreturned, rfl⟩ | ⟨failure, -, rfl⟩
    · exact hs.setPhase hc (by simp) fun _ =>
        ⟨call', List.mem_of_getElem? hcall', hargs, payload, hreturned⟩
    · exact hs.setPhase hc (by simp) (by simp)
  · exact (hs.bot (Bot.step_client hbot)).setPhase hc (by simp) (by simp)
  · exact hs.setPhase hc (by simp) (by simp)

theorem requested_initial (clock : ℚ) : (initial env clock).Requested env :=
  ⟨fun i c k hi => by simp [initial] at hi, fun i c hi => by simp [initial] at hi⟩

/-- The stored tokens have been accepted. -/
def Verified (env : Environment) (s : AuthBot) : Prop :=
  ∀ discordUserId c, s.bot.store.credentials discordUserId = some c →
    ∃ token, c.Holds env token ∧ s.Accepted env token

/-- A step of the bot that saves no token but accepted ones keeps the stored tokens verified. -/
private theorem Verified.bot (hcipher : env.CipherInverts) (hs : s.Verified env) {bot : Bot}
    {event : BotEvent} (h : s.bot.step api env event = some bot)
    (hsaves : ∀ now discordUserId rawToken nonce, event = .coordinator now
      (.system (.operation (.authenticate discordUserId rawToken nonce))) →
        s.Accepted env (strip rawToken)) :
    Verified env { s with bot := bot } := by
  intro u c hc
  rcases Bot.step_credentials h hc with ⟨before, hbefore, hencrypted, hfingerprint⟩ |
    ⟨now, rawToken, nonce, rfl, hsaved⟩
  · obtain ⟨token, hholds, haccepted⟩ := hs u before hbefore
    exact ⟨token, hholds.of_eq hencrypted hfingerprint, haccepted.mono (Bot.step_client h)⟩
  · have hholds := AuthService.authenticate_holds hcipher hsaved
    rw [strip_strip] at hholds
    exact ⟨strip rawToken, hholds,
      (hsaves now u rawToken nonce rfl).mono (Bot.step_client h)⟩

private theorem Verified.step (hcipher : env.CipherInverts) (hrequested : s.Requested env)
    (hs : s.Verified env) {event : AuthEvent} (h : s.step api env event = some s') :
    s'.Verified env := by
  rcases step_cases h with ⟨e, bot, hbot, hsaves, rfl⟩ | ⟨c, -, -, rfl⟩ |
    ⟨now, c, bot, -, hbot, rfl⟩ | ⟨i, c, k, call, -, -, -, hended⟩ |
    ⟨now, i, nonce, c, bot, hc, hphase, hbot, rfl⟩ | ⟨i, c, error, -, -, rfl⟩
  · refine hs.bot hcipher hbot fun now u rawToken nonce he => ?_
    rw [he] at hsaves
    cases hsaves
  · exact hs
  · exact hs.bot hcipher hbot (by simp)
  · rcases hended with ⟨payload, -, rfl⟩ | ⟨failure, -, rfl⟩ <;> exact hs
  · refine hs.bot hcipher hbot fun now' u rawToken nonce' he => ?_
    cases he
    exact hrequested.saving i c hc hphase
  · exact hs

/-- Every stored token has been accepted by the API, in a request that was charged to it. -/
theorem stored_verified (hcipher : env.CipherInverts) {clock : ℚ} {events : List AuthEvent}
    (hrun : run (step api env) (initial env clock) events = some s) {discordUserId : ℤ}
    {c : Credentials} (hc : s.bot.store.credentials discordUserId = some c) :
    ∃ token, c.Holds env token ∧ s.Accepted env token := by
  have hs := run_invariant (step api env) (I := fun s => s.Requested env ∧ s.Verified env)
    (fun s event s' hs h => ⟨hs.1.step h, hs.2.step hcipher hs.1 h⟩) hrun
    ⟨requested_initial clock, nofun⟩
  exact hs.2 discordUserId c hc

/-- User 1 submits a token, which the API accepts. -/
def acceptedToken : List AuthEvent :=
  [.submit 0 1 " a", .bot (.coordinator 0 (.client (.tryAcquire 0))),
    .bot (.coordinator 0 (.client (.respond 0 DonutApiClient.emptyPage 0))), .validated 0,
    .saved 0 0 0]

theorem stored_verified_acceptedToken : ∃ s c,
    run (step ⟨DonutApiClient.twoDigitHeaders, 2⟩ .plain) (initial .plain 0) acceptedToken =
      some s ∧ s.bot.store.credentials 1 = some c ∧
        ∃ token, c.Holds .plain token ∧ s.Accepted .plain token := by
  have hrun : ((run (step ⟨DonutApiClient.twoDigitHeaders, 2⟩ .plain) (initial .plain 0)
      acceptedToken).bind fun s => (s.bot.store.credentials 1).map fun c => true) = some true := by
    decide +kernel
  obtain ⟨s, hs, hrun⟩ := Option.bind_eq_some_iff.mp hrun
  obtain ⟨c, hc, -⟩ := Option.map_eq_some_iff.mp hrun
  exact ⟨s, c, hs, hc, stored_verified (fun _ _ => rfl) hs hc⟩

end AuthBot

end DonutMonitor
