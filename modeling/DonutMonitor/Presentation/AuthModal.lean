import DonutMonitor.Application.Authentication
import DonutMonitor.Presentation.AlertActions

/-!
# The replies to an authentication

`AuthModal.on_submit` replies to each submitted token once `AuthService.authenticate` has returned
or raised. Any number of these calls, of the same user or of several, may be under way at once.

## Main definitions

* `AuthPhase.reply` — the text of the reply.
* `Bot.savedTokens`, `AuthBot.confirmedTokens` — the tokens that transactions have stored, and
  those whose storage has been confirmed by a reply.
* `AuthBot.Explained` — what a reply says is so.

## Main results

* `AuthBot.replies` — exactly the tokens that have been stored are confirmed, and the other replies
  have their cause.
-/

namespace DonutMonitor

open Transition

/-- The reply to a token that has been stored. -/
def authorizationSucceeded : String :=
  "Authorization succeeded. The verified token was stored encrypted."

/-- The reply of `AuthModal.on_submit`, once there is one. -/
def AuthPhase.reply : AuthPhase → Option String
  | validating _ | saving => none
  | returned _ => some authorizationSucceeded
  | raised (.donutApiError (.authentication _)) =>
    some "DonutSMP rejected the token. Check it and run `/auth` again."
  | raised (.donutApiError (.rateLimit retryAfter)) =>
    some ("DonutSMP temporarily rate-limited requests. Try again in " ++
      retryAfter.formatInteger ++ " seconds.")
  | raised (.donutApiError (.transient _)) =>
    some "DonutSMP is unavailable. The token was not saved; try again later."
  | raised (.donutApiError (.response _)) =>
    some "DonutSMP returned an unexpected response. The token was not saved; try again later."
  | raised _ => some "Authorization failed because of an internal error. Try again later."

/-- Only a call that has returned is told of a success. -/
theorem AuthPhase.reply_eq_succeeded {phase : AuthPhase} :
    phase.reply = some authorizationSucceeded ↔ ∃ fingerprint, phase = .returned fingerprint := by
  refine ⟨fun h => ?_, fun ⟨fingerprint, h⟩ => h ▸ rfl⟩
  cases phase with
  | returned fingerprint => exact ⟨fingerprint, rfl⟩
  | raised error =>
    cases error with
    | donutApiError error =>
      cases error with
      | rateLimit retryAfter =>
        have hhead := congrArg (fun text => text.toList.head?) (Option.some.inj h)
        simp [authorizationSucceeded] at hhead
      | _ => simp [reply, authorizationSucceeded] at h
    | _ => simp [reply, authorizationSucceeded] at h
  | _ => cases h

/-- The user and the fingerprint of a token that the transaction stores. -/
def Transaction.savedToken : Transaction → Option (ℤ × String)
  | saveValidToken discordUserId _ fingerprint => some (discordUserId, fingerprint)
  | _ => none

theorem Transaction.savedToken_eq_some {t : Transaction} {discordUserId : ℤ} {fingerprint : String}
    (h : t.savedToken = some (discordUserId, fingerprint)) (s : Store) :
    ∃ encrypted, t = .saveValidToken discordUserId encrypted fingerprint ∧
      t.userEvent s discordUserId = some (.tokenSaved encrypted fingerprint) := by
  cases t with
  | saveValidToken userId encrypted fingerprint' =>
    obtain ⟨rfl, rfl⟩ := Prod.mk.inj (Option.some.inj h)
    exact ⟨encrypted, rfl, if_pos rfl⟩
  | _ => cases h

/-- The user and the fingerprint of a token whose storage is confirmed by the reply. -/
def AuthCall.confirmedToken (env : Environment) (c : AuthCall) : Option (ℤ × String) :=
  if c.phase.reply = some authorizationSucceeded then
    some (c.discordUserId, env.tokenFingerprint c.token)
  else none

/-- A call that has not succeeded confirms nothing. -/
theorem AuthCall.confirmedToken_eq_none {env : Environment} {c : AuthCall}
    (h : ∀ fingerprint, c.phase ≠ .returned fingerprint) : c.confirmedToken env = none :=
  if_neg fun hreply => by
    obtain ⟨fingerprint, hphase⟩ := AuthPhase.reply_eq_succeeded.mp hreply
    exact h fingerprint hphase

theorem AuthCall.confirmedToken_of_returned {env : Environment} {c : AuthCall}
    {fingerprint : String} (h : c.phase = .returned fingerprint) :
    c.confirmedToken env = some (c.discordUserId, env.tokenFingerprint c.token) :=
  if_pos (AuthPhase.reply_eq_succeeded.mpr ⟨fingerprint, h⟩)

/-- An entry for which a function has no value may be replaced by one for which it has. -/
theorem filterMap_set_perm {α β : Type*} {f : α → Option β} {l : List α} {i : ℕ} {a : α} (b : α)
    (ha : l[i]? = some a) (hf : f a = none) :
    ((l.set i b).filterMap f).Perm (l.filterMap f ++ (f b).toList) := by
  induction l generalizing i with
  | nil => cases ha
  | cons x l ih =>
    cases i with
    | zero =>
      obtain rfl := Option.some.inj ha
      rw [List.set_cons_zero, List.filterMap_cons_none hf]
      cases hb : f b with
      | none => rw [List.filterMap_cons_none hb, Option.toList_none, List.append_nil]
      | some v =>
        rw [List.filterMap_cons_some hb]
        exact (List.perm_append_singleton v _).symm
    | succ i =>
      rw [List.set_cons_succ]
      cases hx : f x with
      | none =>
        rw [List.filterMap_cons_none hx, List.filterMap_cons_none hx]
        exact ih ha
      | some v =>
        rw [List.filterMap_cons_some hx, List.filterMap_cons_some hx]
        exact (ih ha).cons v

namespace Bot

variable {api : DonutApiClient} {env : Environment} {s s' : Bot}

/-- The tokens that have been stored, in the order of the transactions. -/
def savedTokens (s : Bot) : List (ℤ × String) :=
  s.coordinator.system.database.history.filterMap (·.transaction.savedToken)

/-- A step of the bot that is no authentication stores no token. -/
theorem savedTokens_of_step {event : BotEvent} (h : s.step api env event = some s')
    (hevent : event.savesToken = false) : s'.savedTokens = s.savedTokens := by
  rcases step_system h with hsame | ⟨now, e, label, rfl, hlabel, hstep⟩
  · rw [savedTokens, hsame]
    rfl
  rcases System.step_database hstep with hsame | ⟨origin, t, answer, hcommit, hwho⟩
  · rw [savedTokens, hsame]
    rfl
  rw [savedTokens, (Database.commit_eq_ok.mp hcommit).2, List.filterMap_append]
  cases hsaved : t.savedToken with
  | none =>
    rw [List.filterMap_cons_none (by exact hsaved), List.filterMap_nil, List.append_nil]
    rfl
  | some saved =>
    obtain ⟨encrypted, rfl, htoken⟩ :=
      Transaction.savedToken_eq_some hsaved s.coordinator.system.database.store
    rcases hwho with ⟨operation, rfl, ht⟩ | ⟨i, input, task, -, -, hpending⟩
    · obtain ⟨rawToken, nonce, rfl⟩ := Operation.eq_authenticate ht htoken
      cases e with
      | system label =>
        obtain rfl := Option.some.inj hlabel
        cases hevent
      | _ => cases hlabel
    · obtain ⟨p, -, -, hinvalidated⟩ := Task.userEvent_of_pending hpending htoken
      cases hinvalidated

/-- The transaction of an authentication stores its token. -/
theorem savedTokens_of_authenticate {now : ℚ} {discordUserId : ℤ} {rawToken : String} {nonce : ℕ}
    (h : s.step api env (.coordinator now (.system (.operation
      (.authenticate discordUserId rawToken nonce)))) = some s') :
    s'.savedTokens =
      s.savedTokens ++ [(discordUserId, env.tokenFingerprint (strip rawToken))] := by
  obtain ⟨coordinator, hstep, rfl⟩ := step_coordinator_event.mp h
  obtain ⟨-, system, hsystem, rfl⟩ := Coordinator.react_system.mp
    (Coordinator.step_eq_some.mp hstep).2
  obtain ⟨t, answer, database, ht, hcommit, rfl⟩ := System.step_operation.mp hsystem
  change AuthService.authenticate env discordUserId rawToken nonce = .ok t at ht
  rw [AuthService.authenticate] at ht
  split_ifs at ht
  obtain ⟨encrypted, -, ht⟩ := Except.bind_eq_ok.mp ht
  obtain rfl := Except.ok.inj ht
  rw [savedTokens, (Database.commit_eq_ok.mp hcommit).2, List.filterMap_append, strip_strip]
  rfl

end Bot

namespace AuthBot

variable {api : DonutApiClient} {env : Environment} {s s' : AuthBot} {c : AuthCall}

/-- The tokens whose storage has been confirmed, in the order of the calls. -/
def confirmedTokens (env : Environment) (s : AuthBot) : List (ℤ × String) :=
  s.auths.filterMap (·.confirmedToken env)

/-- What is behind the reply to a call. -/
structure Explained (env : Environment) (s : AuthBot) (c : AuthCall) : Prop where
  /-- A token that was stored has been accepted. -/
  succeeded : ∀ fingerprint, c.phase = .returned fingerprint → s.Accepted env c.token
  /-- The token was empty, or its request has failed, or it was accepted and could not be stored. -/
  failed : ∀ error, c.phase = .raised error →
    (c.token = "" ∧ error = .donutApiError (.authentication "Token must not be empty")) ∨
      (∃ call ∈ s.calls,
        call.args = DonutApiClient.validateArgs c.token (env.tokenFingerprint c.token) ∧
          ∃ failure, call.phase = .raised failure ∧ error = failure.serviceError) ∨
      s.Accepted env c.token ∧ ∃ databaseError, error = .databaseError databaseError

theorem Explained.mono (h : s.Explained env c)
    (hclient : Reachable api.step s.bot.coordinator.client s'.bot.coordinator.client) :
    s'.Explained env c := by
  refine ⟨fun fingerprint hphase => (h.succeeded fingerprint hphase).mono hclient,
    fun error hphase => ?_⟩
  rcases h.failed error hphase with hempty | ⟨call, hcall, hargs, failure, hraised, herror⟩ |
    ⟨haccepted, hdatabase⟩
  · exact .inl hempty
  · obtain ⟨k, hk⟩ := List.mem_iff_getElem?.mp hcall
    obtain ⟨call', hk', -, hsame⟩ := DonutApiClient.persists_of_reachable hclient hk
    obtain rfl := hsame (by rw [hraised]; rfl)
    exact .inr (.inl ⟨call', List.mem_of_getElem? hk', hargs, failure, hraised, herror⟩)
  · exact .inr (.inr ⟨haccepted.mono hclient, hdatabase⟩)

/-- A call that waits has nothing to explain. -/
theorem explained_of_waits (hreturned : ∀ fingerprint, c.phase ≠ .returned fingerprint)
    (hraised : ∀ error, c.phase ≠ .raised error) : s.Explained env c :=
  ⟨fun fingerprint h => absurd h (hreturned fingerprint), fun error h => absurd h (hraised error)⟩

/-- The replies agree with what has been stored, and have their causes. -/
structure Replied (env : Environment) (s : AuthBot) : Prop where
  perm : s.bot.savedTokens.Perm (s.confirmedTokens env)
  explained : ∀ c ∈ s.auths, s.Explained env c

namespace Replied

/-- The bot may move, as long as it stores no token. -/
theorem bot (hs : s.Replied env) {bot : Bot}
    (hclient : Reachable api.step s.bot.coordinator.client bot.coordinator.client)
    (hsaved : bot.savedTokens = s.bot.savedTokens) : Replied env { s with bot := bot } where
  perm := by
    rw [hsaved]
    exact hs.perm
  explained c hc := (hs.explained c hc).mono hclient

/-- A call may be submitted. -/
theorem append (hs : s.Replied env) (hc : c.confirmedToken env = none)
    (hexplained : s.Explained env c) : Replied env { s with auths := s.auths ++ [c] } where
  perm := by
    rw [confirmedTokens, List.filterMap_append, List.filterMap_cons_none hc, List.filterMap_nil,
      List.append_nil]
    exact hs.perm
  explained c' hc' := by
    rcases List.mem_append.mp hc' with hc' | hc'
    · exact ⟨(hs.explained c' hc').succeeded, (hs.explained c' hc').failed⟩
    · obtain rfl := List.mem_singleton.mp hc'
      exact ⟨hexplained.succeeded, hexplained.failed⟩

/-- A call may go on, when the stored tokens are what it confirms. -/
theorem setPhase (hs : s.Replied env) {i : ℕ} {phase : AuthPhase} {bot : Bot}
    (hc : s.auths[i]? = some c) (hwaits : c.confirmedToken env = none)
    (hclient : Reachable api.step s.bot.coordinator.client bot.coordinator.client)
    (hsaved : bot.savedTokens =
      s.bot.savedTokens ++ (AuthCall.confirmedToken env { c with phase := phase }).toList)
    (hexplained : s.Explained env { c with phase := phase }) :
    Replied env ({ s with bot := bot }.setPhase i c phase) where
  perm := by
    change bot.savedTokens.Perm _
    rw [hsaved]
    exact (hs.perm.append_right _).trans (filterMap_set_perm _ hc hwaits).symm
  explained c' hc' := by
    have hmoved : ∀ d, s.Explained env d →
        Explained env ({ s with bot := bot }.setPhase i c phase) d := fun d h => by
      have h' : Explained env { s with bot := bot } d := h.mono hclient
      exact ⟨h'.succeeded, h'.failed⟩
    rcases List.mem_or_eq_of_mem_set hc' with hc' | rfl
    · exact hmoved c' (hs.explained c' hc')
    · exact hmoved _ hexplained

theorem step (hrequested : s.Requested env) (hs : s.Replied env) {event : AuthEvent}
    (h : s.step api env event = some s') : s'.Replied env := by
  have hstill : Reachable api.step s.bot.coordinator.client s.bot.coordinator.client := .refl _
  rcases step_cases h with ⟨e, bot, hbot, hsaves, rfl⟩ | ⟨c, hempty, hphase, rfl⟩ |
    ⟨now, c, bot, hphase, hbot, rfl⟩ | ⟨i, c, k, call, hc, hphase, hcall, hended⟩ |
    ⟨now, i, nonce, c, bot, hc, hphase, hbot, rfl⟩ | ⟨i, c, error, hc, hphase, rfl⟩
  · exact hs.bot (Bot.step_client hbot) (Bot.savedTokens_of_step hbot hsaves)
  · refine hs.append (AuthCall.confirmedToken_eq_none (by simp [hphase])) ⟨by simp [hphase], ?_⟩
    intro error herror
    exact .inl ⟨hempty, (AuthPhase.raised.inj (hphase.symm.trans herror)).symm⟩
  · exact (hs.bot (Bot.step_client hbot) (Bot.savedTokens_of_step hbot rfl)).append
      (AuthCall.confirmedToken_eq_none (by simp [hphase]))
      (explained_of_waits (by simp [hphase]) (by simp [hphase]))
  · have hwaits : c.confirmedToken env = none :=
      AuthCall.confirmedToken_eq_none (by simp [hphase])
    rcases hended with ⟨payload, -, rfl⟩ | ⟨failure, hraised, rfl⟩
    · exact hs.setPhase hc hwaits hstill
        (by rw [AuthCall.confirmedToken_eq_none (by simp), Option.toList_none, List.append_nil])
        (explained_of_waits (by simp) (by simp))
    · refine hs.setPhase hc hwaits hstill
        (by rw [AuthCall.confirmedToken_eq_none (by simp), Option.toList_none, List.append_nil])
        ⟨by simp, fun error herror => ?_⟩
      obtain ⟨call', hcall', hargs⟩ := hrequested.validating i c k hc hphase
      obtain rfl := Option.some.inj (hcall'.symm.trans hcall)
      exact .inr (.inl ⟨call', List.mem_of_getElem? hcall', hargs, failure, hraised,
        (AuthPhase.raised.inj herror).symm⟩)
  · refine hs.setPhase hc (AuthCall.confirmedToken_eq_none (by simp [hphase]))
      (Bot.step_client hbot) ?_ ⟨fun _ _ => hrequested.saving i c hc hphase, by simp⟩
    rw [Bot.savedTokens_of_authenticate hbot, AuthCall.confirmedToken_of_returned rfl]
    rfl
  · refine hs.setPhase hc (AuthCall.confirmedToken_eq_none (by simp [hphase])) hstill
      (by rw [AuthCall.confirmedToken_eq_none (by simp), Option.toList_none, List.append_nil])
      ⟨by simp, fun error' herror => ?_⟩
    exact .inr (.inr ⟨hrequested.saving i c hc hphase, error, (AuthPhase.raised.inj herror).symm⟩)

end Replied

/-- In every run, the tokens that have been stored are those whose storage has been confirmed by a
reply, each as often as it has been, and each reply has its cause. -/
theorem replies {clock : ℚ} {events : List AuthEvent}
    (hrun : run (step api env) (initial env clock) events = some s) :
    s.bot.savedTokens.Perm (s.confirmedTokens env) ∧ ∀ c ∈ s.auths, s.Explained env c := by
  have hs := run_invariant (step api env) (I := fun s => s.Requested env ∧ s.Replied env)
    (fun s event s' hs h => ⟨hs.1.step h, hs.2.step hs.1 h⟩) hrun
    ⟨requested_initial clock, .nil, by simp [initial]⟩
  exact ⟨hs.2.perm, hs.2.explained⟩

/-- The token that has been accepted is stored and confirmed. -/
theorem replies_acceptedToken : ∃ s,
    run (step ⟨DonutApiClient.twoDigitHeaders, 2⟩ .plain) (initial .plain 0) acceptedToken =
      some s ∧ s.bot.savedTokens.length = 1 ∧
        s.bot.savedTokens.Perm (s.confirmedTokens .plain) ∧
          ∀ c ∈ s.auths, s.Explained .plain c := by
  have hrun : (run (step ⟨DonutApiClient.twoDigitHeaders, 2⟩ .plain) (initial .plain 0)
      acceptedToken).map (fun s => s.bot.savedTokens.length) = some 1 := by
    decide +kernel
  obtain ⟨s, hs, hlength⟩ := Option.map_eq_some_iff.mp hrun
  exact ⟨s, hs, hlength, replies hs⟩

end AuthBot

end DonutMonitor
