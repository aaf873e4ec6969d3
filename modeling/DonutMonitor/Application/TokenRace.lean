import DonutMonitor.Application.Polls

/-!
# A new token and a poll in flight

A poll that is answered 401 or 403 invalidates its user, whatever token is stored by then. When the
user has authenticated with a new token since the poll loaded its row, the rejection of the old
token invalidates the new one.

## Main definitions

* `System.KeepsToken` — the token that a user saved last stays valid until it is rejected itself.
* `System.InvalidatesLoaded` — a poll invalidates only a user who has not authenticated since the
  poll loaded its row.

## Main results

* `System.keepsToken_of_invalidatesLoaded` — along runs whose invalidations are of this kind, the
  last token of a user is kept.
* `System.not_keepsToken` — a late rejection of the token before invalidates the new one.
-/

namespace DonutMonitor

open Transition

/-- The event is the one of `save_valid_token`. -/
def UserEvent.savesToken : UserEvent → Bool
  | tokenSaved _ _ => true
  | loggedOut | invalidated _ => false

/-- The poll that is about to invalidate its user. -/
def Task.invalidates : Task → Option Poll
  | poll p .invalidating => some p
  | _ => none

namespace System

variable (env : Environment) (discordUserId : ℤ)

/-- From the commit that saved the last token of the user on, the status is `VALID` and no
invalidation has paused a rule, unless the token cannot be decrypted or a request made with it has
been rejected since. -/
def KeepsToken (s : System) : Prop :=
  ∀ pre c post encryptedToken fingerprint, s.database.history = pre ++ c :: post →
    c.userEvent discordUserId = some (.tokenSaved encryptedToken fingerprint) →
    (∀ d ∈ post, ∀ e, d.userEvent discordUserId = some e → ∃ time, e = .invalidated time) →
      env.decrypt encryptedToken = none ∨
      (∃ time token, .tokenRejected time token ∈ s.incidents ∧
        env.decrypt encryptedToken = some token ∧ pre.length < time) ∨
      (∃ credentials, s.database.store.credentials discordUserId = some credentials ∧
        credentials.tokenStatus = .valid) ∧ ∀ d ∈ post, d.userEvent discordUserId = none

/-- When a poll of the user is about to commit an invalidation, no token has been saved since the
poll loaded the user. -/
def InvalidatesLoaded (s : System) : Label → Prop
  | .commit i _ => ∀ p ∈ s.tasks[i]?.bind Task.invalidates, p.user.discordUserId = discordUserId →
      ∀ c ∈ s.database.history.drop p.loadedAt, (c.userEvent discordUserId).all (!·.savesToken)
  | .operation _ | .startAdd _ | .startPoll _ | .reject _ _ | .fetched _ _ | .sent _ _ => True

instance (s : System) : DecidablePred (InvalidatesLoaded discordUserId s)
  | .commit i _ => inferInstanceAs (Decidable (∀ p ∈ s.tasks[i]?.bind Task.invalidates, _ → _))
  | .operation _ | .startAdd _ | .startPoll _ | .reject _ _ | .fetched _ _ | .sent _ _ =>
    .isTrue trivial

end System

/-! ### The transactions that invalidate -/

section Invalidates

variable {env : Environment} {store : Store} {discordUserId : ℤ} {t : Transaction}
  {notifiedAt : Option ℚ}

theorem Operation.not_invalidated {operation : Operation} (h : operation.transaction env = .ok t) :
    t.userEvent store discordUserId ≠ some (.invalidated notifiedAt) := by
  cases operation with
  | authenticate userId rawToken nonce =>
    obtain ⟨encrypted, fingerprint, rfl⟩ := AuthService.authenticate_ok h
    rw [Transaction.userEvent]
    split_ifs <;> simp
  | logout userId =>
    obtain rfl := Except.ok.inj h
    rw [Transaction.userEvent]
    split_ifs <;> simp
  | _ =>
    obtain rfl := Except.ok.inj h
    intro hevent
    cases hevent

private theorem ProcessPhase.userEvent_pending {args : ProcessArgs} {input : CommitInput}
    {phase : ProcessPhase} (h : phase.pending args input = some t) :
    t.userEvent store discordUserId = none := by
  cases phase with
  | evaluating =>
    obtain ⟨call, -, rfl⟩ := Option.map_eq_some_iff.mp h
    rfl
  | delivering event rest => cases h
  | recording event outcome rest =>
    cases outcome <;> obtain rfl := Option.some.inj h <;> rfl

/-- What a task does to a user: a poll of this user invalidates it. -/
theorem Task.userEvent_of_pending {task : Task} {input : CommitInput} {event : UserEvent}
    (h : task.pending input = some t) (hevent : t.userEvent store discordUserId = some event) :
    ∃ p, task = .poll p .invalidating ∧ p.user.discordUserId = discordUserId ∧
      event = .invalidated (if PollPhase.shouldNotify p then some input.now else none) := by
  cases task with
  | add call phase =>
    cases phase with
    | creating draft =>
      obtain rfl := Option.some.inj h
      cases hevent
    | undoing created error =>
      obtain rfl := Option.some.inj h
      cases hevent
    | processing created snapshot phase =>
      rw [ProcessPhase.userEvent_pending h] at hevent
      cases hevent
    | _ => cases h
  | poll p phase =>
    cases phase with
    | processing token group snapshot rest phase =>
      rw [ProcessPhase.userEvent_pending h] at hevent
      cases hevent
    | markingSuccess =>
      obtain rfl := Option.some.inj h
      cases hevent
    | invalidating =>
      obtain rfl := Option.some.inj h
      by_cases hid : discordUserId = p.user.discordUserId ∧ discordUserId ∈ store.users.keys
      · rw [Transaction.userEvent, if_pos hid] at hevent
        exact ⟨p, rfl, hid.1.symm, (Option.some.inj hevent).symm⟩
      · rw [Transaction.userEvent, if_neg hid] at hevent
        cases hevent
    | recordingDmError message =>
      obtain rfl := Option.some.inj h
      cases hevent
    | _ => cases h

/-- The only operation that saves a token of a user is its `authenticate`. -/
theorem Operation.eq_authenticate {operation : Operation} (h : operation.transaction env = .ok t)
    {encryptedToken fingerprint : String}
    (hevent : t.userEvent store discordUserId = some (.tokenSaved encryptedToken fingerprint)) :
    ∃ rawToken nonce, operation = .authenticate discordUserId rawToken nonce := by
  cases operation with
  | authenticate userId rawToken nonce =>
    obtain ⟨encrypted, fingerprint, rfl⟩ := AuthService.authenticate_ok h
    rw [Transaction.userEvent] at hevent
    split_ifs at hevent with hid
    exact ⟨rawToken, nonce, hid ▸ rfl⟩
  | logout userId =>
    obtain rfl := Except.ok.inj h
    rw [Transaction.userEvent] at hevent
    split_ifs at hevent
    cases Option.some.inj hevent
  | _ =>
    obtain rfl := Except.ok.inj h
    cases hevent

end Invalidates

/-- A user that has saved a token, and whose credentials have not changed since. -/
theorem Database.Reachable.credentials_saved {env : Environment} {db : Database}
    (h : Reachable env db) {discordUserId : ℤ} {pre post : List Commit} {c : Commit}
    {encryptedToken fingerprint : String} (hsplit : db.history = pre ++ c :: post)
    (hsaved : c.userEvent discordUserId = some (.tokenSaved encryptedToken fingerprint))
    (hkept : ∀ d ∈ post, d.userEvent discordUserId = none) :
    db.store.credentials discordUserId = some ⟨encryptedToken, fingerprint, .valid, none⟩ := by
  have hcredentials := h.credentials_eq discordUserId
  have hnone : post.filterMap (·.userEvent discordUserId) = [] :=
    List.filterMap_eq_nil_iff.mpr hkept
  simp only [userEvents, hsplit, List.filterMap_append, List.filterMap_cons, hsaved, hnone]
    at hcredentials
  obtain ⟨credentials, -, hlast⟩ := (run_append _).mp hcredentials
  exact (UserLife.step_tokenSaved encryptedToken fingerprint).mp ((run_singleton _).mp hlast)

namespace System

variable {env : Environment} {discordUserId : ℤ} {s s' : System} {label : Label}

/-- A step that invalidates a user is one of a poll of this user. -/
private theorem step_invalidates (h : s.step env label = some s') :
    s'.database = s.database ∨ ∃ d, s'.database.history = s.database.history ++ [d] ∧
      ∀ notifiedAt, d.userEvent discordUserId = some (.invalidated notifiedAt) →
        ∃ i input p, label = .commit i input ∧ s.tasks[i]? = some (.poll p .invalidating) ∧
          p.user.discordUserId = discordUserId := by
  refine (step_database h).imp_right ?_
  rintro ⟨origin, t, answer, hcommit, hwho⟩
  refine ⟨_, (Database.commit_eq_ok.mp hcommit).2, fun notifiedAt hevent => ?_⟩
  rcases hwho with ⟨operation, rfl, ht⟩ | ⟨i, input, task, rfl, htask, hpending⟩
  · exact absurd hevent (Operation.not_invalidated ht)
  · obtain ⟨p, rfl, huser, -⟩ := Task.userEvent_of_pending hpending hevent
    exact ⟨i, input, p, rfl, htask, huser⟩

/-- A poll that invalidates a user whose last token was saved before the poll loaded the user: the
token is the one that the poll found rejected. -/
private theorem rejected_of_invalidating (h : Reachable env s) {i : ℕ} {p : Poll}
    (htask : s.tasks[i]? = some (.poll p .invalidating))
    (huser : p.user.discordUserId = discordUserId) {pre post : List Commit} {c : Commit}
    {encryptedToken fingerprint : String} (hsplit : s.database.history = pre ++ c :: post)
    (hsaved : c.userEvent discordUserId = some (.tokenSaved encryptedToken fingerprint))
    (hkept : ∀ d ∈ post, d.userEvent discordUserId = none)
    (hloaded : c ∉ s.database.history.drop p.loadedAt) :
    env.decrypt encryptedToken = none ∨ ∃ time token, .tokenRejected time token ∈ s.incidents ∧
      env.decrypt encryptedToken = some token ∧ pre.length < time := by
  have hsound := h.poll_sound htask
  obtain ⟨before, after, store, hhistory, hlength, hreachable, hrow, -⟩ := hsound.loaded
  -- the commit lies before the time at which the poll loaded the user
  obtain ⟨mid, rfl, hmid⟩ : ∃ mid, before = pre ++ c :: mid ∧ ∀ d ∈ mid, d ∈ post := by
    rw [hsplit] at hhistory
    rcases List.append_eq_append_iff.mp hhistory with ⟨mid, rfl, hmid⟩ | ⟨mid, rfl, hmid⟩
    · cases mid with
      | nil =>
        refine absurd ?_ hloaded
        rw [hsplit, ← hlength, List.append_nil, List.drop_left]
        exact List.mem_cons_self
      | cons d mid =>
        obtain ⟨rfl, rfl⟩ := List.cons.inj hmid
        exact ⟨mid, rfl, fun d hd => List.mem_append_left _ hd⟩
    · refine absurd ?_ hloaded
      rw [hsplit, List.append_assoc, ← hlength, List.drop_left]
      simp
  have hcredentials := hreachable.credentials_saved rfl hsaved fun d hd => hkept d (hmid d hd)
  rw [Store.credentials, ← huser, hrow, Option.map_some, Option.some.injEq] at hcredentials
  have htoken : p.user.encryptedDonutToken = encryptedToken :=
    congrArg Credentials.encryptedDonutToken hcredentials
  rcases hsound.invalidating rfl with hnone | ⟨time, token, hmem, hdecrypt, htime⟩
  · exact .inl (htoken ▸ hnone)
  · refine .inr ⟨time, token, hmem, htoken ▸ hdecrypt, ?_⟩
    rw [← hlength, List.length_append, List.length_cons] at htime
    omega

/-- Along a run in which every poll of the user that invalidates it does so before the user has
authenticated again, the last token of the user is kept. -/
theorem keepsToken_of_invalidatesLoaded {labels : List Label}
    (halong : Along (step env) (InvalidatesLoaded discordUserId) {} labels)
    (hrun : run (step env) {} labels = some s) : s.KeepsToken env discordUserId := by
  have hinv := run_invariant_along (step env) (I := fun s => Reachable env s ∧
    s.KeepsToken env discordUserId) ?_ halong hrun ?_
  · exact hinv.2
  · rintro s label s' ⟨hs, hkeeps⟩ hloaded hstep
    refine ⟨hs.tail hstep, fun pre c post encryptedToken fingerprint hsplit hsaved hlast => ?_⟩
    have hreached := Reachable.database (hs.tail hstep)
    have hgrow := step_incidents hstep
    have hquiet : (∀ d ∈ post, d.userEvent discordUserId = none) →
        (∃ credentials, s'.database.store.credentials discordUserId = some credentials ∧
          credentials.tokenStatus = .valid) ∧ ∀ d ∈ post, d.userEvent discordUserId = none :=
      fun hnone => ⟨⟨_, hreached.credentials_saved hsplit hsaved hnone, rfl⟩, hnone⟩
    rcases step_invalidates hstep with hsame | ⟨d, hhistory, hpolls⟩
    · rw [hsame] at hsplit
      exact (hkeeps pre c post encryptedToken fingerprint hsplit hsaved hlast).imp_right fun h =>
        h.imp (fun ⟨time, token, hmem, hrest⟩ => ⟨time, token, hgrow hmem, hrest⟩)
          fun h => hquiet h.2
    · rw [hhistory] at hsplit
      rcases List.eq_nil_or_concat post with rfl | ⟨post, last, rfl⟩
      · exact .inr (.inr (hquiet (by simp)))
      · rw [List.concat_eq_append, ← List.cons_append, ← List.append_assoc] at hsplit
        obtain ⟨hsplit', hd⟩ := List.append_inj' hsplit rfl
        obtain rfl := List.singleton_inj.mp hd
        have hlast' : ∀ d' ∈ post, ∀ e, d'.userEvent discordUserId = some e →
            ∃ time, e = .invalidated time := fun d' hd' => hlast d' (by simp [hd'])
        rcases hkeeps pre c post encryptedToken fingerprint hsplit' hsaved hlast' with
          hnone | ⟨time, token, hmem, hrest⟩ | ⟨-, hkept⟩
        · exact .inl hnone
        · exact .inr (.inl ⟨time, token, hgrow hmem, hrest⟩)
        · cases hevent : d.userEvent discordUserId with
          | none =>
            refine .inr (.inr (hquiet fun d' hd' => ?_))
            rw [List.concat_eq_append] at hd'
            rcases List.mem_append.mp hd' with hd' | hd'
            · exact hkept d' hd'
            · exact List.mem_singleton.mp hd' ▸ hevent
          | some e =>
            obtain ⟨notifiedAt, rfl⟩ := hlast d (by simp) e hevent
            obtain ⟨i, input, p, rfl, htask, huser⟩ := hpolls _ hevent
            have hpoll : p ∈ s.tasks[i]?.bind Task.invalidates := by rw [htask]; rfl
            have hbefore : c ∉ s.database.history.drop p.loadedAt := fun hmem => by
              simpa [hsaved, UserEvent.savesToken] using hloaded p hpoll huser c hmem
            rcases rejected_of_invalidating hs htask huser hsplit' hsaved hkept hbefore with
              hnone | ⟨time, token, hmem, hrest⟩
            · exact .inl hnone
            · exact .inr (.inl ⟨time, token, hgrow hmem, hrest⟩)
  · exact ⟨.refl _, fun pre c post encryptedToken fingerprint hnil => by simp at hnil⟩

/-- A token that a poll has loaded is rejected, and the poll invalidates the user. -/
def ownRejection : List Label :=
  [.operation (.authenticate 1 "token" 0), .startAdd .elytra, .commit 0 { ruleKey := 1 },
    .startPoll 1, .fetched 1 (.donutApiError (.authentication "rejected")), .commit 1 {}]

theorem keepsToken_ownRejection : ∃ s, run (step .plain) {} ownRejection = some s ∧
    (s.database.store.credentials 1).map (·.tokenStatus) = some .invalid ∧
    s.KeepsToken .plain 1 := by
  have hrun : (run (step .plain) {} ownRejection).map (fun s : System =>
      (s.database.store.credentials 1).map (·.tokenStatus)) = some (some .invalid) := by
    decide +kernel
  obtain ⟨s, hs, hstatus⟩ := Option.map_eq_some_iff.mp hrun
  exact ⟨s, hs, hstatus, keepsToken_of_invalidatesLoaded (by decide +kernel) hs⟩

/-- While a poll waits for the answer to a request, the user authenticates with a new token; then
the request is rejected. -/
def lateRejection : List Label :=
  [.operation (.authenticate 1 "old" 0), .startAdd .elytra, .commit 0 { ruleKey := 1 },
    .startPoll 1, .operation (.authenticate 1 "new" 1),
    .fetched 1 (.donutApiError (.authentication "rejected")), .commit 1 {}]

/-- The new token, with which no request has been made, is invalid. -/
theorem not_keepsToken : ∃ s, run (step .plain) {} lateRejection = some s ∧
    (s.database.store.credentials 1).map (fun c => (c.encryptedDonutToken, c.tokenStatus)) =
      some ("new", .invalid) ∧ ¬ s.KeepsToken .plain 1 := by
  have hrun : (run (step .plain) {} lateRejection).map (fun s : System => decide (
      (s.database.store.credentials 1).map (fun c => (c.encryptedDonutToken, c.tokenStatus)) =
        some ("new", .invalid) ∧ s.incidents = [.tokenRejected 3 "old"] ∧
      (s.database.history.map fun c => c.userEvent 1) = [some (.tokenSaved "old" "old"), none,
        some (.tokenSaved "new" "new"), some (.invalidated (some 0))])) = some true := by
    decide +kernel
  obtain ⟨s, hs, hfacts⟩ := Option.map_eq_some_iff.mp hrun
  obtain ⟨hcredentials, hincidents, hevents⟩ := of_decide_eq_true hfacts
  refine ⟨s, hs, hcredentials, fun hkeeps => ?_⟩
  obtain ⟨c₁, l₁, hhistory, -, h₁⟩ := List.map_eq_cons_iff.mp hevents
  obtain ⟨c₂, l₂, rfl, -, h₂⟩ := List.map_eq_cons_iff.mp h₁
  obtain ⟨c₃, l₃, rfl, hsaved, h₃⟩ := List.map_eq_cons_iff.mp h₂
  obtain ⟨c₄, l₄, rfl, hinvalidated, h₄⟩ := List.map_eq_cons_iff.mp h₃
  obtain rfl := List.map_eq_nil_iff.mp h₄
  have hnew : s.database.history = [c₁, c₂] ++ c₃ :: [c₄] := hhistory
  rcases hkeeps _ _ _ _ _ hnew hsaved (by simp [hinvalidated]) with
    hnone | ⟨time, token, hmem, htoken, -⟩ | ⟨-, hkept⟩
  · cases hnone
  · obtain rfl := Option.some.inj htoken
    rw [hincidents] at hmem
    simp at hmem
  · rw [hkept c₄ (by simp)] at hinvalidated
    cases hinvalidated

end System

end DonutMonitor
