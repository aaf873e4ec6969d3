import DonutMonitor.Application.Bot
import DonutMonitor.Application.TokenRace

/-!
# The tokens that are stored

`AuthService.authenticate` stores a token encrypted, together with its fingerprint. When the cipher
decrypts what it has encrypted, every row of `users` holds a token that can be decrypted and the
fingerprint of this token. The operations that make requests take both from one row, so that each
request is charged to the budget of the token that it carries, and no poll finds a token that it
cannot decrypt.

## Main definitions

* `Environment.CipherInverts` — `decrypt` inverts `encrypt`.
* `Credentials.Holds` — the columns of a row hold a token.
* `PriceRequest.Charged` — a request is charged to the token that it carries.

## Main results

* `System.Reachable.holds` — every stored row and every poll holds a token.
* `Bot.charged_of_run` — every request is charged to the token that it carries.
* `System.rejected_of_invalidated` — a user is invalidated after the API has rejected its token.
-/

namespace DonutMonitor

open Transition

/-- `TokenCipher.decrypt` inverts `TokenCipher.encrypt`, with the key of the configuration. -/
def Environment.CipherInverts (env : Environment) : Prop :=
  ∀ nonce token, env.decrypt (env.encrypt nonce token) = some token

/-- The columns hold a token and its fingerprint. -/
structure Credentials.Holds (env : Environment) (c : Credentials) (token : String) : Prop where
  decrypt : env.decrypt c.encryptedDonutToken = some token
  fingerprint : c.tokenFingerprint = env.tokenFingerprint token
  ne_empty : token ≠ ""

theorem Credentials.Holds.of_eq {env : Environment} {c c' : Credentials} {token : String}
    (h : c.Holds env token) (hencrypted : c'.encryptedDonutToken = c.encryptedDonutToken)
    (hfingerprint : c'.tokenFingerprint = c.tokenFingerprint) : c'.Holds env token :=
  ⟨by rw [hencrypted, h.decrypt], by rw [hfingerprint, h.fingerprint], h.ne_empty⟩

/-- The request is charged to the budget of the token that it carries, which is not empty. -/
structure PriceRequest.Charged (env : Environment) (request : PriceRequest) : Prop where
  tokenKey : request.tokenKey = env.tokenFingerprint request.token
  ne_empty : request.token ≠ ""

section Transactions

variable {env : Environment} {s s' : Store} {discordUserId : ℤ}

/-- A token that is saved can be decrypted. -/
theorem AuthService.authenticate_holds (hcipher : env.CipherInverts) {rawToken : String}
    {nonce : ℕ} {c : Credentials} (h : authenticate env discordUserId rawToken nonce =
      .ok (.saveValidToken discordUserId c.encryptedDonutToken c.tokenFingerprint)) :
    c.Holds env (strip (strip rawToken)) := by
  rw [authenticate] at h
  split_ifs at h
  obtain ⟨encrypted', hencrypt, h⟩ := Except.bind_eq_ok.mp h
  obtain ⟨-, rfl, hfingerprint⟩ := Transaction.saveValidToken.inj (Except.ok.inj h)
  rw [TokenCipher.encrypt] at hencrypt
  split_ifs at hencrypt with hempty
  exact ⟨Except.ok.inj hencrypt ▸ hcipher _ _, hfingerprint.symm, hempty⟩

/-- The token and the fingerprint of an added rule are those of one row. -/
theorem WatchService.create_credentials {draft : RuleDraft} {key : ℕ} {created : CreatedRule}
    (h : create env draft key s = .ok (created, s')) : ∃ user,
      s.users.get? draft.discordUserId = some user ∧
        env.decrypt user.encryptedDonutToken = some created.token ∧
          user.tokenFingerprint = created.fingerprint := by
  obtain ⟨user, huser, h⟩ := Except.bind_eq_ok.mp h
  obtain ⟨⟨rule, s₁⟩, -, h⟩ := Except.bind_eq_ok.mp h
  obtain ⟨displayedRule, -, h⟩ := Except.bind_eq_ok.mp h
  split at h
  · cases h
  · next token htoken =>
    obtain ⟨rfl, -⟩ := Prod.mk.inj (Except.ok.inj h)
    exact ⟨user, (requireValidUser_eq_ok.mp huser).1, htoken, rfl⟩

end Transactions

namespace AddPhase

variable {env : Environment} {call : AddCall} {phase : AddPhase} {created : CreatedRule}

theorem ofProcess_ne_fetching {created' : CreatedRule} {snapshot : PriceSnapshot}
    {next : Option ProcessPhase} : ofProcess created' snapshot next ≠ fetching created := by
  cases next <;> exact nofun

/-- A call requests its price once its rule has been created. -/
theorem resume_fetching {answer : Answer} (h : phase.resume answer = some (fetching created)) :
    ∃ draft, phase = creating draft ∧ answer = .created created := by
  cases phase with
  | creating draft =>
    cases answer with
    | created created' =>
      obtain rfl := fetching.inj (Option.some.inj h)
      exact ⟨draft, rfl, rfl⟩
    | _ => cases h
  | undoing created' error => cases answer <;> cases h
  | processing created' snapshot phase =>
    obtain ⟨next, -, hnext⟩ := Option.map_eq_some_iff.mp h
    exact absurd hnext ofProcess_ne_fetching
  | _ => cases h

theorem fetched_ne_fetching {outcome : PriceOutcome} :
    phase.fetched env call outcome ≠ some (fetching created) := by
  intro h
  cases phase with
  | fetching created' =>
    cases outcome with
    | listing listing checkedAt pagesScanned => exact ofProcess_ne_fetching (Option.some.inj h)
    | _ => cases h
  | _ => cases h

theorem sent_ne_fetching {outcome : Except String ℤ} :
    phase.sent outcome ≠ some (fetching created) := by
  intro h
  cases phase with
  | processing created' snapshot phase =>
    obtain ⟨next, -, hnext⟩ := Option.map_eq_some_iff.mp h
    cases hnext
  | _ => cases h

end AddPhase

namespace System

variable {env : Environment} {s s' : System} {i : ℕ}

/-- The rows of the users and the rows that the polls have loaded hold tokens, and the tasks make
requests that are charged to the token they carry. -/
structure HoldsTokens (env : Environment) (s : System) : Prop where
  stored : ∀ discordUserId c, s.database.store.credentials discordUserId = some c →
    ∃ token, c.Holds env token
  polls : ∀ (i : ℕ) p phase, s.tasks[i]? = some (Task.poll p phase) →
    ∃ token, p.user.credentials.Holds env token
  adds : ∀ (i : ℕ) call created, s.tasks[i]? = some (Task.add call (.fetching created)) →
    created.fingerprint = env.tokenFingerprint created.token ∧ created.token ≠ ""

/-- The token of a user after a step was there before, or has been saved by `authenticate`. -/
theorem step_credentials {label : Label} (h : s.step env label = some s') {discordUserId : ℤ}
    {c' : Credentials} (hc' : s'.database.store.credentials discordUserId = some c') :
    (∃ c, s.database.store.credentials discordUserId = some c ∧
      c'.encryptedDonutToken = c.encryptedDonutToken ∧ c'.tokenFingerprint = c.tokenFingerprint) ∨
    ∃ rawToken nonce, label = .operation (.authenticate discordUserId rawToken nonce) ∧
      AuthService.authenticate env discordUserId rawToken nonce =
        .ok (.saveValidToken discordUserId c'.encryptedDonutToken c'.tokenFingerprint) := by
  rcases step_database h with hsame | ⟨origin, t, answer, hcommit, hwho⟩
  · exact .inl ⟨c', hsame ▸ hc', rfl, rfl⟩
  · have hrun := Transaction.exec_credentials (Database.commit_eq_ok.mp hcommit).1 discordUserId
    cases hevent : t.userEvent s.database.store discordUserId with
    | none =>
      rw [hevent, hc'] at hrun
      exact .inl ⟨c', Option.some.inj hrun, rfl, rfl⟩
    | some event =>
      rw [hevent, Option.toList_some, run_singleton, hc'] at hrun
      cases event with
      | tokenSaved encrypted fingerprint =>
        obtain rfl := Option.some.inj ((UserLife.step_tokenSaved _ _).mp hrun)
        rcases hwho with ⟨operation, rfl, ht⟩ | ⟨j, input, task, rfl, htask, hpending⟩
        · obtain ⟨rawToken, nonce, rfl⟩ := Operation.eq_authenticate ht hevent
          obtain ⟨encrypted', fingerprint', rfl⟩ := AuthService.authenticate_ok ht
          rw [Transaction.userEvent, if_pos rfl] at hevent
          obtain ⟨rfl, rfl⟩ := UserEvent.tokenSaved.inj (Option.some.inj hevent)
          exact .inr ⟨rawToken, nonce, rfl, ht⟩
        · obtain ⟨p, -, -, hinvalidated⟩ := Task.userEvent_of_pending hpending hevent
          cases hinvalidated
      | loggedOut => cases (UserLife.step_loggedOut.mp hrun).2
      | invalidated notifiedAt =>
        obtain ⟨before, hbefore, hafter⟩ := (UserLife.step_invalidated _).mp hrun
        obtain rfl := Option.some.inj hafter
        exact .inl ⟨before, hbefore, rfl, rfl⟩

private theorem stored_step (hcipher : env.CipherInverts) (hs : s.HoldsTokens env) {label : Label}
    (h : s.step env label = some s') (discordUserId : ℤ) (c : Credentials)
    (hc : s'.database.store.credentials discordUserId = some c) :
    ∃ token, c.Holds env token := by
  rcases step_credentials h hc with ⟨before, hbefore, hencrypted, hfingerprint⟩ |
    ⟨rawToken, nonce, -, hsaved⟩
  · obtain ⟨token, htoken⟩ := hs.stored discordUserId before hbefore
    exact ⟨token, htoken.of_eq hencrypted hfingerprint⟩
  · exact ⟨_, AuthService.authenticate_holds hcipher hsaved⟩

private theorem polls_step (hs : s.HoldsTokens env) {label : Label}
    (h : s.step env label = some s') {p : Poll} {phase : PollPhase}
    (htask : s'.tasks[i]? = some (Task.poll p phase)) :
    ∃ token, p.user.credentials.Holds env token := by
  rcases step_tasks h htask with ⟨-, -, -, hnew⟩ | ⟨hold, -⟩ | ⟨task, hbefore, hmoves⟩
  · rcases hnew with ⟨call, hcall⟩ | ⟨discordUserId, poll, hload, hpoll⟩
    · cases hcall
    · obtain ⟨rfl, -⟩ := Task.poll.inj hpoll
      obtain ⟨-, -, huser, -⟩ := loadPoll_eq_some hload
      exact hs.stored discordUserId _ (by rw [Store.credentials, huser, Option.map_some])
  · exact hs.polls i p phase hold
  · obtain ⟨phase', rfl⟩ := hmoves.poll
    exact hs.polls i p phase' hbefore

private theorem adds_step (hs : s.HoldsTokens env) {label : Label}
    (h : s.step env label = some s') {call : AddCall} {created : CreatedRule}
    (htask : s'.tasks[i]? = some (Task.add call (.fetching created))) :
    created.fingerprint = env.tokenFingerprint created.token ∧ created.token ≠ "" := by
  rcases step_tasks h htask with ⟨-, -, -, hnew⟩ | ⟨hold, -⟩ | ⟨task, hbefore, hmoves⟩
  · rcases hnew with ⟨call', hcall⟩ | ⟨discordUserId, poll, hload, hpoll⟩
    · have hstart := (Task.add.inj hcall).2
      rw [AddPhase.start] at hstart
      split at hstart <;> cases hstart
    · cases hpoll
  · exact hs.adds i call created hold
  · cases hmoves with
    | committed input t answer hpending hcommit hresume hincidents =>
      obtain ⟨phase, rfl, hphase⟩ := Task.resume_eq_add.mp hresume
      obtain ⟨draft, rfl, rfl⟩ := AddPhase.resume_fetching hphase
      obtain rfl := Option.some.inj hpending
      obtain ⟨⟨created', s₁⟩, hcreate, hanswer⟩ :=
        Except.bind_eq_ok.mp (Database.commit_eq_ok.mp hcommit).1
      obtain rfl := Answer.created.inj (Prod.mk.inj (Except.ok.inj hanswer)).1
      obtain ⟨user, huser, htoken, hfingerprint⟩ := WatchService.create_credentials hcreate
      obtain ⟨token, hholds⟩ := hs.stored draft.discordUserId user.credentials
        (by rw [Store.credentials, huser, Option.map_some])
      obtain rfl := Option.some.inj (htoken.symm.trans hholds.decrypt)
      exact ⟨hfingerprint.symm.trans hholds.fingerprint, hholds.ne_empty⟩
    | raised error hfail hdatabase hincidents =>
      obtain ⟨phase, rfl, hphase⟩ := Task.fail_eq_add.mp hfail
      obtain ⟨created', hraised⟩ := AddPhase.fail_raises hphase
      cases hraised
    | fetched request outcome hrequest hfetched hdatabase hincidents =>
      obtain ⟨phase, rfl, hphase⟩ := Task.fetched_eq_add.mp hfetched
      exact absurd hphase AddPhase.fetched_ne_fetching
    | sent outcome hsent hdatabase hincidents =>
      obtain ⟨phase, rfl, hphase⟩ := Task.sent_eq_add.mp hsent
      exact absurd hphase AddPhase.sent_ne_fetching

/-- With an intact cipher, every reachable system holds tokens. -/
theorem Reachable.holds (hcipher : env.CipherInverts) (h : Reachable env s) :
    s.HoldsTokens env := by
  refine h.invariant (I := HoldsTokens env) (fun s label s' hs hstep => ?_) ?_
  · exact ⟨stored_step hcipher hs hstep, fun i p phase => polls_step hs hstep,
      fun i call created => adds_step hs hstep⟩
  · exact ⟨nofun, fun i p phase hi => by simp at hi, fun i call created hi => by simp at hi⟩

/-- With an intact cipher, a request of a task is charged to the token that it carries. -/
theorem Reachable.charged (hcipher : env.CipherInverts) (h : Reachable env s) {task : Task}
    (htask : s.tasks[i]? = some task) {request : PriceRequest}
    (hrequest : task.request env = some request) : request.Charged env := by
  have hs := h.holds hcipher
  rcases Task.request_eq_some hrequest with ⟨call, created, rfl⟩ | ⟨p, token, group, rest, any, rfl⟩
  · obtain rfl := Option.some.inj hrequest
    exact ⟨(hs.adds i call created htask).1, (hs.adds i call created htask).2⟩
  · obtain ⟨token', hholds⟩ := hs.polls i p _ htask
    have htoken := (h.poll_sound htask).token token rfl
    obtain rfl := Option.some.inj (htoken.symm.trans hholds.decrypt)
    obtain rfl := Option.some.inj hrequest
    exact ⟨hholds.fingerprint, hholds.ne_empty⟩

/-- With an intact cipher, a step that makes a `VALID` user `INVALID` is one of a poll of this user,
after the API has answered 401 or 403 to a request with the token that the poll had loaded. -/
theorem rejected_of_invalidated (hcipher : env.CipherInverts) (h : Reachable env s) {label : Label}
    (hstep : s.step env label = some s') {discordUserId : ℤ} {c c' : Credentials}
    (hc : s.database.store.credentials discordUserId = some c) (hvalid : c.tokenStatus = .valid)
    (hc' : s'.database.store.credentials discordUserId = some c')
    (hinvalid : c'.tokenStatus = .invalid) :
    ∃ i input p token time, label = .commit i input ∧
      s.tasks[i]? = some (.poll p .invalidating) ∧ p.user.discordUserId = discordUserId ∧
        p.user.credentials.Holds env token ∧ .tokenRejected time token ∈ s.incidents ∧
          p.loadedAt ≤ time := by
  rcases step_database hstep with hsame | ⟨origin, t, answer, hcommit, hwho⟩
  · rw [hsame, hc] at hc'
    obtain rfl := Option.some.inj hc'
    cases hvalid.symm.trans hinvalid
  have hrun := Transaction.exec_credentials (Database.commit_eq_ok.mp hcommit).1 discordUserId
  rw [hc, hc'] at hrun
  cases hevent : t.userEvent s.database.store discordUserId with
  | none =>
    rw [hevent] at hrun
    obtain rfl := Option.some.inj (Option.some.inj hrun)
    cases hvalid.symm.trans hinvalid
  | some event =>
    rw [hevent, Option.toList_some, run_singleton] at hrun
    cases event with
    | tokenSaved encrypted fingerprint =>
      obtain rfl := Option.some.inj ((UserLife.step_tokenSaved _ _).mp hrun)
      cases hinvalid
    | loggedOut => cases (UserLife.step_loggedOut.mp hrun).2
    | invalidated notifiedAt =>
      rcases hwho with ⟨operation, rfl, ht⟩ | ⟨i, input, task, rfl, htask, hpending⟩
      · exact absurd hevent (Operation.not_invalidated ht)
      · obtain ⟨p, rfl, huser, -⟩ := Task.userEvent_of_pending hpending hevent
        obtain ⟨token, hholds⟩ := (h.holds hcipher).polls i p _ htask
        rcases (h.poll_sound htask).invalidating rfl with
          hnone | ⟨time, token', hmem, hdecrypt, hle⟩
        · have hsome : env.decrypt p.user.encryptedDonutToken = some token := hholds.decrypt
          rw [hnone] at hsome
          cases hsome
        · obtain rfl := Option.some.inj (hdecrypt.symm.trans hholds.decrypt)
          exact ⟨i, input, p, token', time, rfl, htask, huser, hholds, hmem, hle⟩

/-- User 1 has authenticated and added a rule, and a poll finds its token rejected. -/
def rejection : List Label :=
  [.operation (.authenticate 1 "a" 0), .startAdd .elytra, .commit 0 { ruleKey := 1 },
    .startPoll 1, .fetched 1 (.donutApiError (.authentication "DonutSMP rejected the token"))]

/-- The poll invalidates the user. -/
theorem rejected_of_invalidated_rejection : ∃ s s' c c', run (step .plain) {} rejection = some s ∧
    s.step .plain (.commit 1 {}) = some s' ∧ s.database.store.credentials 1 = some c ∧
    c.tokenStatus = .valid ∧ s'.database.store.credentials 1 = some c' ∧
    c'.tokenStatus = .invalid ∧ ∃ i input p token time, Label.commit 1 {} = .commit i input ∧
      s.tasks[i]? = some (.poll p .invalidating) ∧ p.user.discordUserId = 1 ∧
        p.user.credentials.Holds .plain token ∧ .tokenRejected time token ∈ s.incidents ∧
          p.loadedAt ≤ time := by
  have hrun : (run (step .plain) {} rejection).bind (fun s => (s.step .plain (.commit 1 {})).bind
      fun s' => (s.database.store.credentials 1).bind fun c =>
        (s'.database.store.credentials 1).map fun c' =>
          decide (c.tokenStatus = .valid ∧ c'.tokenStatus = .invalid)) = some true := by
    decide +kernel
  obtain ⟨s, hs, hrun⟩ := Option.bind_eq_some_iff.mp hrun
  obtain ⟨s', hs', hrun⟩ := Option.bind_eq_some_iff.mp hrun
  obtain ⟨c, hc, hrun⟩ := Option.bind_eq_some_iff.mp hrun
  obtain ⟨c', hc', hrun⟩ := Option.map_eq_some_iff.mp hrun
  obtain ⟨hvalid, hinvalid⟩ := of_decide_eq_true hrun
  exact ⟨s, s', c, c', hs, hs', hc, hvalid, hc', hinvalid,
    rejected_of_invalidated (fun _ _ => rfl) ⟨_, hs⟩ hs' hc hvalid hc' hinvalid⟩

end System

/-- A price that has been fetched is not fetched again. -/
theorem PricePhase.fetched_ne_fetching {env : Environment} {phase : PricePhase}
    {outcome : PriceOutcome} {request : PriceRequest} :
    phase.fetched env outcome ≠ some (fetching request) := by
  cases phase with
  | fetching request' => cases outcome <;> exact nofun
  | _ => exact nofun

namespace Bot

variable {api : DonutApiClient} {env : Environment} {s s' : Bot}

/-- A step of the bot is at most one step of its coordinator. -/
theorem step_coordinator {event : BotEvent} (h : s.step api env event = some s') :
    s'.coordinator = s.coordinator ∨
      ∃ label, s.coordinator.step api env label = some s'.coordinator := by
  cases event with
  | coordinator now event =>
    obtain ⟨coordinator, hstep, rfl⟩ := step_coordinator_event.mp h
    exact .inr ⟨_, hstep⟩
  | get discordUserId itemId priceType =>
    obtain rfl := Option.some.inj h
    exact .inl rfl
  | request now i =>
    obtain ⟨page, hpage⟩ := step_requestsPage (.inl rfl) h
    obtain ⟨c, args, coordinator, -, -, hstep, rfl⟩ := requestPage_eq_some.mp hpage
    exact .inr ⟨_, hstep⟩
  | nextPage now i =>
    obtain ⟨page, hpage⟩ := step_requestsPage (.inr rfl) h
    obtain ⟨c, args, coordinator, -, -, hstep, rfl⟩ := requestPage_eq_some.mp hpage
    exact .inr ⟨_, hstep⟩
  | fetched i outcome =>
    obtain ⟨c, fetch, call, phase, -, -, -, -, -, rfl⟩ := step_fetched.mp h
    exact .inl rfl

/-- A page is requested for a call, whose other fields stay. -/
private theorem prices_of_requestPage {now : ℚ} {i j : ℕ} {page : ℤ} {c : PriceCall}
    (h : s.requestPage api env now i page = some s') (hc : s'.prices[j]? = some c) :
    ∃ c', s.prices[j]? = some c' ∧ c'.phase = c.phase := by
  obtain ⟨c', args, coordinator, hc', -, -, rfl⟩ := requestPage_eq_some.mp h
  by_cases hij : i = j
  · subst hij
    rw [List.getElem?_set_self (List.getElem?_eq_some_iff.mp hc').1] at hc
    obtain rfl := Option.some.inj hc
    exact ⟨c', hc', rfl⟩
  · rw [List.getElem?_set_ne hij] at hc
    exact ⟨c, hc, rfl⟩

/-- A call of `PriceService.get` that waits for its price after a step has done so before, or has
just read the row of its user. -/
theorem step_fetching {event : BotEvent} (h : s.step api env event = some s') {i : ℕ}
    {c : PriceCall} (hc : s'.prices[i]? = some c) {request : PriceRequest}
    (hphase : c.phase = .fetching request) :
    (∃ c', s.prices[i]? = some c' ∧ c'.phase = .fetching request) ∨
      ∃ discordUserId itemId priceType,
        PriceService.get env s.store discordUserId itemId priceType = .ok request := by
  cases event with
  | coordinator now event =>
    obtain ⟨coordinator, hstep, rfl⟩ := step_coordinator_event.mp h
    exact .inl ⟨c, hc, hphase⟩
  | get discordUserId itemId priceType =>
    obtain rfl := Option.some.inj h
    rw [List.getElem?_append] at hc
    split at hc
    · exact .inl ⟨c, hc, hphase⟩
    · have hmem := List.mem_singleton.mp (List.mem_of_getElem? hc)
      subst hmem
      refine .inr ⟨discordUserId, itemId, priceType, ?_⟩
      cases hget : PriceService.get env s.store discordUserId itemId priceType with
      | ok request' =>
        simp only [hget, PricePhase.start] at hphase
        rw [PricePhase.fetching.inj hphase]
      | error error =>
        simp only [hget, PricePhase.start] at hphase
        cases hphase
  | request now j =>
    obtain ⟨page, hpage⟩ := step_requestsPage (.inl rfl) h
    obtain ⟨c', hc', hsame⟩ := prices_of_requestPage hpage hc
    exact .inl ⟨c', hc', hsame.trans hphase⟩
  | nextPage now j =>
    obtain ⟨page, hpage⟩ := step_requestsPage (.inr rfl) h
    obtain ⟨c', hc', hsame⟩ := prices_of_requestPage hpage hc
    exact .inl ⟨c', hc', hsame.trans hphase⟩
  | fetched j outcome =>
    obtain ⟨c', fetch, call, phase, hc', -, -, -, hfetched, rfl⟩ := step_fetched.mp h
    by_cases hij : j = i
    · subst hij
      rw [List.getElem?_set_self (List.getElem?_eq_some_iff.mp hc').1] at hc
      obtain rfl := Option.some.inj hc
      obtain rfl := hphase
      exact absurd hfetched PricePhase.fetched_ne_fetching
    · rw [List.getElem?_set_ne hij] at hc
      exact .inl ⟨c, hc, hphase⟩

/-- `PriceService.get` makes its request with the token of the row that it has read. -/
theorem get_charged {s : Store} (hs : ∀ discordUserId c, s.credentials discordUserId = some c →
    ∃ token, c.Holds env token) {discordUserId : ℤ} {itemId : String} {priceType : PriceType}
    {request : PriceRequest}
    (h : PriceService.get env s discordUserId itemId priceType = .ok request) :
    request.Charged env := by
  simp only [PriceService.get] at h
  split_ifs at h
  obtain ⟨user, huser, h⟩ := Except.bind_eq_ok.mp h
  split at h
  · cases h
  · next token htoken =>
    obtain rfl := Except.ok.inj h
    obtain ⟨token', hholds⟩ := hs discordUserId user.credentials
      (by rw [Store.credentials, (requireValidUser_eq_ok.mp huser).1, Option.map_some])
    obtain rfl := Option.some.inj (htoken.symm.trans hholds.decrypt)
    exact ⟨hholds.fingerprint, hholds.ne_empty⟩

/-- The coordinator is reachable, and the price calls make requests that are charged to the token
they carry. -/
structure HoldsTokens (api : DonutApiClient) (env : Environment) (s : Bot) : Prop where
  reachable : s.coordinator.Reachable api env
  prices : ∀ (i : ℕ) c request, s.prices[i]? = some c → c.phase = .fetching request →
    request.Charged env

private theorem HoldsTokens.step (hcipher : env.CipherInverts) (hs : s.HoldsTokens api env)
    {event : BotEvent} (h : s.step api env event = some s') : s'.HoldsTokens api env := by
  refine ⟨?_, fun i c request hc hphase => ?_⟩
  · rcases step_coordinator h with hsame | ⟨label, hstep⟩
    · exact hsame ▸ hs.reachable
    · obtain ⟨clock, hreachable⟩ := hs.reachable
      exact ⟨clock, hreachable.tail hstep⟩
  · rcases step_fetching h hc hphase with ⟨c', hc', hphase'⟩ | ⟨discordUserId, itemId, type, hget⟩
    · exact hs.prices i c' request hc' hphase'
    · exact get_charged (hs.reachable.parts.1.holds hcipher).stored hget

/-- Every request that waits for its price is charged to the token that it carries. -/
theorem charged_of_run (hcipher : env.CipherInverts) {clock : ℚ} {events : List BotEvent}
    (hrun : run (step api env) (initial env clock) events = some s) :
    (∀ (i : ℕ) task request, s.coordinator.system.tasks[i]? = some task →
      task.request env = some request → request.Charged env) ∧
    ∀ (i : ℕ) c request, s.prices[i]? = some c → c.phase = .fetching request →
      request.Charged env := by
  have hs := run_invariant (step api env) (I := HoldsTokens api env)
    (fun s event s' hs h => hs.step hcipher h) hrun
    ⟨⟨clock, .refl _⟩, fun i c request hc => by simp [initial] at hc⟩
  exact ⟨fun i task request htask hrequest =>
    hs.reachable.parts.1.charged hcipher htask hrequest, hs.prices⟩

/-- User 1 authenticates, adds a rule and asks for a price. -/
def checkedPrice : List BotEvent :=
  [.coordinator 0 (.system (.operation (.authenticate 1 "a" 0))),
    .coordinator 0 (.system (.startAdd .elytra)),
    .coordinator 0 (.system (.commit 0 { ruleKey := 1 })), .get 1 "minecraft:elytra" .total]

theorem charged_of_run_checkedPrice : ∃ s, run (step ⟨DonutApiClient.twoDigitHeaders, 2⟩ .plain)
    (initial .plain 0) checkedPrice = some s ∧
      (∀ (i : ℕ) task request, s.coordinator.system.tasks[i]? = some task →
        task.request .plain = some request → request.Charged .plain) ∧
      ∀ (i : ℕ) c request, s.prices[i]? = some c → c.phase = .fetching request →
        request.Charged .plain := by
  have hrun : (run (step ⟨DonutApiClient.twoDigitHeaders, 2⟩ .plain) (initial .plain 0)
      checkedPrice).isSome = true := by
    decide +kernel
  obtain ⟨s, hs⟩ := Option.isSome_iff_exists.mp hrun
  exact ⟨s, hs, charged_of_run (fun _ _ => rfl) hs⟩

end Bot

end DonutMonitor
