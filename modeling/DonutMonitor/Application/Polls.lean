import DonutMonitor.Application.System

/-!
# Polls in flight

A poll works on the rows that it loaded when it started. It makes its requests with the token it
decrypted then, and keeps the ids of the rules of each group until it has processed the group. It
invalidates its user only after a request that was made with that token.

## Main definitions

* `Poll.LoadedFrom` — the rows of a poll were in the database when it started.
* `Poll.Rejected` — the token of a poll could not be decrypted, or was rejected since it started.
* `Poll.Sound` — what holds of a poll in each of its phases.

## Main results

* `System.Reachable.poll_sound` — every poll of a reachable system is sound.
-/

namespace DonutMonitor

open Transition

/-! ### The phases of a poll -/

namespace PollPhase

/-- The groups that a poll has not processed yet. -/
def groups : PollPhase → List PollGroup
  | fetching _ group rest _ | processing _ group _ rest .evaluating => group :: rest
  | processing _ _ _ rest _ => rest
  | _ => []

/-- The token with which a poll makes its requests. -/
def token : PollPhase → Option String
  | fetching token _ _ _ | processing token _ _ _ _ => some token
  | _ => none

/-- A later phase has no other groups and no other token, and does not invalidate. -/
structure Narrows (phase' phase : PollPhase) : Prop where
  groups : ∀ g ∈ phase'.groups, g ∈ phase.groups
  token : ∀ token ∈ phase'.token, token ∈ phase.token
  invalidating : phase' ≠ .invalidating

variable {env : Environment} {p : Poll} {phase phase' : PollPhase}

theorem narrows_next {token : String} {anySuccess : Bool} {rest : List PollGroup}
    (hgroups : ∀ g ∈ rest, g ∈ phase.groups) (htoken : token ∈ phase.token) :
    (next token anySuccess rest).Narrows phase := by
  cases rest with
  | nil => cases anySuccess <;> exact ⟨nofun, nofun, nofun⟩
  | cons group rest =>
    refine ⟨hgroups, fun t ht => ?_, nofun⟩
    obtain rfl := Option.some.inj ht
    exact htoken

theorem narrows_ofProcess {token : String} {group : PollGroup} {snapshot : PriceSnapshot}
    {rest : List PollGroup} {next : Option ProcessPhase} (hnext : next ≠ some .evaluating)
    (hgroups : ∀ g ∈ rest, g ∈ phase.groups) (htoken : token ∈ phase.token) :
    (ofProcess token group snapshot rest next).Narrows phase := by
  cases next with
  | none => exact narrows_next hgroups htoken
  | some next =>
    have hrest : (processing token group snapshot rest next).groups = rest := by
      cases next with
      | evaluating => exact absurd rfl hnext
      | delivering event rest => rfl
      | recording event outcome rest => rfl
    refine ⟨fun g hg => hgroups g (hrest ▸ hg), fun t ht => ?_, nofun⟩
    obtain rfl := Option.some.inj ht
    exact htoken

private theorem rest_subset {token : String} {group : PollGroup} {snapshot : PriceSnapshot}
    {rest : List PollGroup} {next : ProcessPhase} :
    ∀ g ∈ rest, g ∈ (processing token group snapshot rest next).groups := by
  intro g hg
  cases next with
  | evaluating => exact List.mem_cons_of_mem _ hg
  | delivering event rest => exact hg
  | recording event outcome rest => exact hg

theorem narrows_resume {answer : Answer} (h : phase.resume p answer = some phase') :
    phase'.Narrows phase := by
  cases phase with
  | processing token group snapshot rest phase =>
    obtain ⟨next, hnext, rfl⟩ := Option.map_eq_some_iff.mp h
    exact narrows_ofProcess
      (fun heq => phase.resume_ne_evaluating answer (heq ▸ hnext)) rest_subset rfl
  | markingSuccess =>
    cases answer <;> cases h
    exact ⟨nofun, nofun, nofun⟩
  | invalidating =>
    cases answer with
    | done =>
      obtain rfl := Option.some.inj h
      split_ifs <;> exact ⟨nofun, nofun, nofun⟩
    | _ => cases h
  | recordingDmError message =>
    cases answer <;> cases h
    exact ⟨nofun, nofun, nofun⟩
  | _ => cases h

theorem narrows_fail {error : ServiceError} (h : phase.fail error = some phase') :
    phase'.Narrows phase := by
  obtain rfl := fail_raises h
  exact ⟨nofun, nofun, nofun⟩

theorem narrows_sent {outcome : Except String ℤ} (h : phase.sent outcome = some phase') :
    phase'.Narrows phase := by
  cases phase with
  | processing token group snapshot rest phase =>
    obtain ⟨next, hnext, rfl⟩ := Option.map_eq_some_iff.mp h
    exact narrows_ofProcess
      (fun heq => phase.sent_ne_evaluating outcome (heq ▸ hnext)) rest_subset rfl
  | notifying =>
    cases outcome <;> cases h <;> exact ⟨nofun, nofun, nofun⟩
  | _ => cases h

/-- The answer to a request narrows the poll, or it is an authentication error. -/
theorem narrows_fetched {outcome : PriceOutcome} (h : phase.fetched env p outcome = some phase') :
    phase'.Narrows phase ∨ phase' = .invalidating ∧
      ∃ message, outcome = .donutApiError (.authentication message) := by
  cases phase with
  | fetching token group rest anySuccess =>
    have hrest : ∀ g ∈ rest, g ∈ (fetching token group rest anySuccess).groups :=
      fun g hg => List.mem_cons_of_mem _ hg
    cases outcome with
    | listing listing checkedAt pagesScanned =>
      obtain rfl := Option.some.inj h
      refine .inl ?_
      rw [ProcessPhase.start]
      split_ifs
      · exact narrows_next hrest rfl
      · exact ⟨fun g hg => hg, fun t ht => ht, nofun⟩
    | donutApiError error =>
      cases error with
      | authentication message => exact .inr ⟨(Option.some.inj h).symm, message, rfl⟩
      | _ =>
        obtain rfl := Option.some.inj h
        exact .inl (narrows_next hrest rfl)
    | exception name =>
      obtain rfl := Option.some.inj h
      exact .inl ⟨nofun, nofun, nofun⟩
  | _ => cases h

theorem token_of_request {request : PriceRequest}
    (h : (Task.poll p phase).request env = some request) : request.token ∈ phase.token := by
  cases phase with
  | fetching token group rest anySuccess =>
    obtain rfl := Option.some.inj h
    rfl
  | _ => cases h

end PollPhase

/-! ### Soundness -/

namespace Poll

variable (env : Environment) (p : Poll)

/-- The rows of the poll were in the database when it started. -/
def LoadedFrom (history : List Commit) : Prop :=
  ∃ pre post store, history = pre ++ post ∧ pre.length = p.loadedAt ∧
    Database.Reachable env ⟨store, pre⟩ ∧
    store.users.get? p.user.discordUserId = some p.user ∧
    ∀ r ∈ p.rules, store.watchRules.get? r.id = some r ∧
      r.discordUserId = p.user.discordUserId

/-- The token of the poll could not be decrypted, or a request made with it was rejected after the
poll had started. -/
def Rejected (incidents : List Incident) : Prop :=
  env.decrypt p.user.encryptedDonutToken = none ∨
    ∃ time token, .tokenRejected time token ∈ incidents ∧
      env.decrypt p.user.encryptedDonutToken = some token ∧ p.loadedAt ≤ time

/-- What holds of a poll in each of its phases. -/
structure Sound (s : System) (phase : PollPhase) : Prop where
  loaded : p.LoadedFrom env s.database.history
  groups : ∀ g ∈ phase.groups, ∀ r ∈ g.rules, r ∈ p.rules ∧ r.request = (g.itemId, g.priceType)
  token : ∀ token ∈ phase.token, env.decrypt p.user.encryptedDonutToken = some token
  invalidating : phase = .invalidating → p.Rejected env s.incidents

variable {env p} {s s' : System} {phase phase' : PollPhase}

theorem LoadedFrom.mono {history : List Commit} (h : p.LoadedFrom env history)
    (more : List Commit) : p.LoadedFrom env (history ++ more) := by
  obtain ⟨pre, post, store, rfl, hloaded⟩ := h
  exact ⟨pre, post ++ more, store, by simp, hloaded⟩

theorem LoadedFrom.loadedAt_le {history : List Commit} (h : p.LoadedFrom env history) :
    p.loadedAt ≤ history.length := by
  obtain ⟨pre, post, store, rfl, hlength, -⟩ := h
  simp [← hlength]

theorem Rejected.mono {incidents : List Incident} (h : p.Rejected env incidents)
    (more : List Incident) : p.Rejected env (incidents ++ more) :=
  h.imp_right fun ⟨time, token, hmem, hrest⟩ =>
    ⟨time, token, List.mem_append_left _ hmem, hrest⟩

/-- Soundness outlives more commits and incidents, in the same phase or a narrower one. -/
theorem Sound.mono (h : p.Sound env s phase) {commits : List Commit} {incidents : List Incident}
    (hhistory : s'.database.history = s.database.history ++ commits)
    (hincidents : s'.incidents = s.incidents ++ incidents)
    (hphase : phase' = phase ∨ phase'.Narrows phase) : p.Sound env s' phase' := by
  rcases hphase with rfl | hnarrows
  · exact ⟨hhistory ▸ h.loaded.mono commits, h.groups, h.token,
      fun hinvalidating => hincidents ▸ (h.invalidating hinvalidating).mono incidents⟩
  · exact ⟨hhistory ▸ h.loaded.mono commits, fun g hg => h.groups g (hnarrows.groups g hg),
      fun t ht => h.token t (hnarrows.token t ht),
      fun hinvalidating => absurd hinvalidating hnarrows.invalidating⟩

end Poll

theorem loadPoll_eq_some {db : Database} {discordUserId : ℤ} {p : Poll}
    (h : loadPoll db discordUserId = some p) :
    p.loadedAt = db.history.length ∧ p.user.discordUserId = discordUserId ∧
      db.store.users.get? discordUserId = some p.user ∧
      ∀ r ∈ p.rules, db.store.watchRules.get? r.id = some r ∧ r.discordUserId = discordUserId := by
  obtain ⟨⟨user, rules⟩, hfind, rfl⟩ := Option.map_eq_some_iff.mp h
  have huser : user.discordUserId = discordUserId := by simpa using List.find?_some hfind
  obtain ⟨hmem, -⟩ := List.mem_filter.mp (List.mem_of_find?_eq_some hfind)
  obtain ⟨user', huser', heq⟩ := List.mem_map.mp hmem
  obtain ⟨rfl, rfl⟩ := Prod.mk.inj heq
  refine ⟨rfl, huser, huser ▸ Table.mem_rows_iff.mp huser', fun r hr => ?_⟩
  obtain ⟨hr, howner⟩ := List.mem_filter.mp (List.mem_of_mem_filter hr)
  exact ⟨Table.mem_rows_iff.mp hr, (of_decide_eq_true howner).trans huser⟩

theorem loadPoll_of_mem {db : Database} {user : User} {rules : List WatchRule}
    (h : (user, rules) ∈ UserRepository.validUsersWithRules db.store) :
    loadPoll db user.discordUserId =
      some ⟨user, rules.filter (·.enabled), db.history.length⟩ := by
  cases hfind : (UserRepository.validUsersWithRules db.store).find?
    fun loaded => loaded.1.discordUserId = user.discordUserId with
  | none => simpa using List.find?_eq_none.mp hfind _ h
  | some loaded =>
    obtain ⟨user', rules'⟩ := loaded
    have hid : user'.discordUserId = user.discordUserId := by simpa using List.find?_some hfind
    obtain ⟨hmem, -, rfl, -⟩ := (UserRepository.mem_validUsersWithRules _).mp h
    obtain ⟨hmem', -, rfl, -⟩ :=
      (UserRepository.mem_validUsersWithRules _).mp (List.mem_of_find?_eq_some hfind)
    have hget := Table.mem_rows_iff.mp hmem'
    rw [hid, Table.mem_rows_iff.mp hmem] at hget
    obtain rfl := Option.some.inj hget
    rw [loadPoll, hfind]
    rfl

namespace System

variable {env : Environment} {s s' : System} {i : ℕ}

theorem Elsewhere.history (h : Elsewhere env s s' i) :
    ∃ more, s'.database.history = s.database.history ++ more := by
  rcases h.database with hsame | ⟨origin, t, answer, -, hcommit⟩
  · exact ⟨[], by rw [hsame, List.append_nil]⟩
  · exact ⟨_, (Database.commit_eq_ok.mp hcommit).2⟩

/-- A poll that starts is sound. -/
private theorem poll_sound_start (h : Reachable env s) {discordUserId : ℤ} {p : Poll}
    (hload : loadPoll s.database discordUserId = some p) : p.Sound env s (.start env p) := by
  obtain ⟨hloadedAt, hid, huser, hrules⟩ := loadPoll_eq_some hload
  have hloaded : p.LoadedFrom env s.database.history := by
    refine ⟨_, [], s.database.store, (List.append_nil _).symm, hloadedAt.symm, h.database, ?_⟩
    rw [hid]
    exact ⟨huser, hrules⟩
  rw [PollPhase.start]
  cases hdecrypt : env.decrypt p.user.encryptedDonutToken with
  | none => exact ⟨hloaded, nofun, nofun, fun _ => .inl hdecrypt⟩
  | some token =>
    cases hgroups : groupRules p.rules with
    | nil => exact ⟨hloaded, nofun, nofun, nofun⟩
    | cons group rest =>
      refine ⟨hloaded, fun g hg r hr => mem_groupRules (hgroups ▸ hg) hr, fun t ht => ?_, nofun⟩
      obtain rfl := Option.some.inj ht
      exact hdecrypt

/-- Every poll of a reachable system is sound. -/
theorem Reachable.poll_sound (h : Reachable env s) {p : Poll} {phase : PollPhase}
    (htask : s.tasks[i]? = some (Task.poll p phase)) : p.Sound env s phase := by
  have hinv := h.invariant (I := fun s => Reachable env s ∧ ∀ (i : ℕ) p phase,
    s.tasks[i]? = some (Task.poll p phase) → p.Sound env s phase) ?_ ?_
  · exact hinv.2 i p phase htask
  · rintro s label s' ⟨hs, hsound⟩ hstep
    refine ⟨hs.tail hstep, fun i p phase' htask' => ?_⟩
    rcases step_tasks hstep htask' with ⟨rfl, hdatabase, hincidents, hnew⟩ | ⟨hold, helse⟩ |
      ⟨task, htask, hmoves⟩
    · rcases hnew with ⟨call, hcall⟩ | ⟨discordUserId, poll, hload, hpoll⟩
      · cases hcall
      · obtain ⟨rfl, rfl⟩ := Task.poll.inj hpoll
        exact (poll_sound_start hs hload).mono (by rw [hdatabase, List.append_nil])
          (hincidents.trans (List.append_nil _).symm) (.inl rfl)
    · obtain ⟨commits, hhistory⟩ := helse.history
      obtain ⟨incidents, hincidents, -⟩ := helse.incidents
      exact (hsound i p phase' hold).mono hhistory hincidents (.inl rfl)
    · cases hmoves with
      | committed input t answer hpending hcommit hresume hincidents =>
        obtain ⟨phase, rfl, hphase⟩ := Task.resume_eq_poll.mp hresume
        exact (hsound i p phase htask).mono (Database.commit_eq_ok.mp hcommit).2
          (hincidents.trans (List.append_nil _).symm) (.inr (PollPhase.narrows_resume hphase))
      | raised error hfail hdatabase hincidents =>
        obtain ⟨phase, rfl, hphase⟩ := Task.fail_eq_poll.mp hfail
        exact (hsound i p phase htask).mono (by rw [hdatabase, List.append_nil]) hincidents
          (.inr (PollPhase.narrows_fail hphase))
      | fetched request outcome hrequest hfetched hdatabase hincidents =>
        obtain ⟨phase, rfl, hphase⟩ := Task.fetched_eq_poll.mp hfetched
        have hhistory : s'.database.history = s.database.history ++ [] := by
          rw [hdatabase, List.append_nil]
        rcases PollPhase.narrows_fetched hphase with hnarrows | ⟨rfl, message, rfl⟩
        · exact (hsound i p phase htask).mono hhistory hincidents (.inr hnarrows)
        · have hbefore := hsound i p phase htask
          refine ⟨hhistory ▸ hbefore.loaded.mono [], nofun, nofun, fun _ => .inr ?_⟩
          refine ⟨_, request.token, ?_, hbefore.token _ (PollPhase.token_of_request hrequest),
            hbefore.loaded.loadedAt_le⟩
          rw [hincidents]
          exact List.mem_append_right _ (List.mem_singleton_self _)
      | sent outcome hsent hdatabase hincidents =>
        obtain ⟨phase, rfl, hphase⟩ := Task.sent_eq_poll.mp hsent
        exact (hsound i p phase htask).mono (by rw [hdatabase, List.append_nil])
          (hincidents.trans (List.append_nil _).symm) (.inr (PollPhase.narrows_sent hphase))
  · exact ⟨.refl _, fun i p phase hnone => by simp at hnone⟩

end System

end DonutMonitor
