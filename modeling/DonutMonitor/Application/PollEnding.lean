import DonutMonitor.Application.Coordinator
import DonutMonitor.Infrastructure.EndlessBlock

/-!
# How a poll ends

A poll that is not over waits for a transaction, for a message or for a price. Each of these can
come to an end, whatever the other tasks do, with one exception: a poll that has still to acquire a
grant of the limiter waits for ever when its key is blocked until infinity.

## Main definitions

* `Coordinator.Advances`, `Coordinator.Spares` — the steps that move a task, and those that move no
  poll of a user.
* `Coordinator.WaitsForever` — the poll waits for a grant that it never gets.

## Main results

* `Coordinator.waitsForever_react` — a poll that waits for ever goes on waiting.
-/

namespace DonutMonitor

open Transition

/-- `get_price` returns and raises only when a call has ended. -/
theorem PriceOutcome.wakeAt_of_comesFrom {phase : CallPhase} {outcome : PriceOutcome}
    (h : outcome.comesFrom phase = true) : phase.wakeAt = none := by
  cases phase with
  | acquiring wakeAt => cases outcome <;> cases h
  | backingOff wakeAt => cases outcome <;> cases h
  | _ => rfl

theorem PriceOutcome.comesFrom_raised_api {error : DonutApiError} {outcome : PriceOutcome} :
    outcome.comesFrom (.raised (.api error)) = true ↔ outcome = .donutApiError error := by
  cases outcome <;> simp [comesFrom]

/-- An error of the API other than a rejected token defers the group. -/
theorem PollPhase.fetched_deferred {env : Environment} {p : Poll} {token : String}
    {group : PollGroup} {rest : List PollGroup} {anySuccess : Bool} {error : DonutApiError}
    (h : ∀ message, error ≠ .authentication message) :
    (fetching token group rest anySuccess).fetched env p (.donutApiError error) =
      some (next token anySuccess rest) := by
  cases error with
  | authentication message => exact absurd rfl (h message)
  | _ => rfl

namespace Coordinator

/-- The event moves the task, or the request whose answer the task waits for. -/
def Advances (s : Coordinator) (i : ℕ) : CoordinatorEvent → Prop
  | .system label => label.task = some i
  | .request j | .nextPage j | .fetched j _ => j = i
  | .client event => ∃ fetch, s.fetches i = some fetch ∧ event.call = some fetch.call
  | .runOnce | .pruned _ | .loaded | .raised | .returned => False

/-- The event advances no poll of the user. -/
def Spares (discordUserId : ℤ) (s : Coordinator) (label : ℚ × CoordinatorEvent) : Prop :=
  ∀ i p phase, s.system.tasks[i]? = some (Task.poll p phase) →
    p.user.discordUserId = discordUserId → ¬ s.Advances i label.2

variable (api : DonutApiClient)

/-- A request with the key that begins now never gets a grant. -/
def NeverGranted (s : Coordinator) (key : String) : Prop :=
  0 ≤ api.maxRetries ∧ s.client.BlockedForever key

/-- The poll waits for a grant that it never gets: for its next request, for the one at work, or
for the one of the next group, after an error that defers the group. -/
def WaitsForever (s : Coordinator) (i : ℕ) : Prop :=
  ∃ p token group rest anySuccess,
    s.system.tasks[i]? = some (Task.poll p (.fetching token group rest anySuccess)) ∧
      ((s.fetches i = none ∧ s.NeverGranted api p.user.tokenFingerprint) ∨
        ∃ fetch call, s.fetches i = some fetch ∧ s.client.calls[fetch.call]? = some call ∧
          (s.client.NeverEnds call ∨ s.NeverGranted api p.user.tokenFingerprint ∧ rest ≠ [] ∧
            ∃ error, call.phase = .raised (.api error) ∧
              ∀ message, error ≠ .authentication message))

variable {api} {env : Environment} {s s' : Coordinator} {i : ℕ}

/-- Whether a poll waits for ever depends on its task, its fetch and the API client. -/
private theorem WaitsForever.congr (h : s.WaitsForever api i)
    (htask : s'.system.tasks[i]? = s.system.tasks[i]?) (hfetch : s'.fetches i = s.fetches i)
    (hclient : s'.client = s.client) : s'.WaitsForever api i := by
  simp only [WaitsForever, NeverGranted, htask, hfetch, hclient]
  exact h

/-- The API client goes on. -/
private theorem WaitsForever.client (h : s.WaitsForever api i) {now : ℚ} {event : ClientEvent}
    (hclient : api.step s.client (now, event) = some s'.client)
    (htask : s'.system.tasks[i]? = s.system.tasks[i]?) (hfetch : s'.fetches i = s.fetches i) :
    s'.WaitsForever api i := by
  obtain ⟨p, token, group, rest, anySuccess, hpoll, hwaits⟩ := h
  refine ⟨p, token, group, rest, anySuccess, htask.trans hpoll, ?_⟩
  rcases hwaits with ⟨hnone, hretries, hblocked⟩ | ⟨fetch, call, hsome, hcall, hwaits⟩
  · exact .inl ⟨hfetch.trans hnone, hretries, api.blockedForever_step hblocked hclient⟩
  · rcases hwaits with hnever | ⟨⟨hretries, hblocked⟩, hrest, error, hphase, herror⟩
    · obtain ⟨call', hcall', -, hnever'⟩ := api.neverEnds_step hnever hclient hcall
      exact .inr ⟨fetch, call', hfetch.trans hsome, hcall', .inl hnever'⟩
    · obtain ⟨call', hcall', -, hsame⟩ := api.step_call hclient hcall
      refine .inr ⟨fetch, call', hfetch.trans hsome, hcall', .inr
        ⟨⟨hretries, api.blockedForever_step hblocked hclient⟩, hrest, error, ?_, herror⟩⟩
      rw [hsame fun hevent => ?_, hphase]
      rcases api.active_of_step hclient hevent hcall with hflight | ⟨wakeAt, hactive, -⟩
      · cases hphase.symm.trans hflight
      · rw [hphase] at hactive
        cases hactive

/-- A request for a page begins. -/
private theorem WaitsForever.requestPage (h : s.WaitsForever api i) {j : ℕ} {page : ℤ}
    (hstep : s.requestPage api env j page = some s')
    (hj : j = i → s.fetches i = none) : s'.WaitsForever api i := by
  obtain ⟨task, args, client, htask, hargs, hclient, rfl⟩ := requestPage_eq_some.mp hstep
  by_cases hji : j = i
  · subst hji
    obtain ⟨p, token, group, rest, anySuccess, hpoll, hwaits⟩ := h
    obtain rfl := Option.some.inj (htask.symm.trans hpoll)
    obtain ⟨request, hrequest, rfl⟩ := Option.map_eq_some_iff.mp hargs
    obtain rfl := Option.some.inj hrequest
    rcases hwaits with ⟨-, hretries, hblocked⟩ | ⟨fetch, call, hsome, -⟩
    · have hblocked' := api.blockedForever_step hblocked hclient
      have hcall := api.step_start_call hclient
      rw [api.start_of_nonneg hretries] at hcall
      exact ⟨p, token, group, rest, anySuccess, hpoll, .inr
        ⟨_, _, Function.update_self .., hcall, .inl ⟨_, rfl, .inr hblocked'⟩⟩⟩
    · cases (hj rfl).symm.trans hsome
  · exact h.client hclient rfl (Function.update_of_ne (Ne.symm hji) _ _)

/-- A poll that waits for ever goes on waiting. -/
theorem waitsForever_react (h : s.WaitsForever api i) {event : CoordinatorEvent}
    (hstep : s.react api env event = some s') : s'.WaitsForever api i := by
  obtain ⟨p, token, group, rest, anySuccess, hpoll, hwaits⟩ := id h
  have hlt := (List.getElem?_eq_some_iff.mp hpoll).1
  cases event with
  | runOnce =>
    obtain ⟨wakeAt, -, -, rfl⟩ := react_runOnce.mp hstep
    exact h.congr rfl rfl rfl
  | pruned utcNow =>
    obtain ⟨now, system, -, hsystem, rfl⟩ := react_pruned.mp hstep
    obtain ⟨t, answer, database, -, -, rfl⟩ := System.step_operation.mp hsystem
    exact h.congr rfl rfl rfl
  | loaded =>
    obtain ⟨now, -, rfl⟩ := react_loaded.mp hstep
    exact h.congr (List.getElem?_append_left hlt) rfl rfl
  | raised =>
    obtain ⟨-, rfl⟩ := react_raised.mp hstep
    exact h.congr rfl rfl rfl
  | returned =>
    obtain ⟨polls, -, -, rfl⟩ := react_returned.mp hstep
    exact h.congr rfl rfl rfl
  | system label =>
    obtain ⟨hlabel, system, hsystem, rfl⟩ := react_system.mp hstep
    exact h.congr ((react_task hstep hpoll fun _ => ⟨⟨_, rfl⟩, nofun⟩).trans hpoll.symm) rfl rfl
  | request j =>
    obtain ⟨hnone, hstep⟩ := react_request.mp hstep
    exact h.requestPage hstep fun hj => hj ▸ hnone
  | nextPage j =>
    obtain ⟨fetch, call, payload, hfetch, hcall, hreturned, -, hstep⟩ := react_nextPage.mp hstep
    refine h.requestPage hstep fun hj => ?_
    subst hj
    rcases hwaits with ⟨hnone, -⟩ | ⟨fetch', call', hfetch', hcall', hwaits⟩
    · exact hnone
    · obtain rfl := Option.some.inj (hfetch.symm.trans hfetch')
      obtain rfl := Option.some.inj (hcall.symm.trans hcall')
      rcases hwaits with ⟨wakeAt, hwakeAt, -⟩ | ⟨-, -, error, hphase, -⟩
      · rw [hreturned] at hwakeAt
        cases hwakeAt
      · cases hreturned.symm.trans hphase
  | fetched j outcome =>
    obtain ⟨fetch, call, system, hfetch, hcall, hcomes, hsystem, rfl⟩ := react_fetched.mp hstep
    obtain ⟨task, request, task', htask, hrequest, hfetched, rfl⟩ := System.step_fetched.mp hsystem
    by_cases hji : j = i
    · subst hji
      obtain rfl := Option.some.inj (htask.symm.trans hpoll)
      rcases hwaits with ⟨hnone, -⟩ | ⟨fetch', call', hfetch', hcall', hwaits⟩
      · cases hfetch.symm.trans hnone
      · obtain rfl := Option.some.inj (hfetch.symm.trans hfetch')
        obtain rfl := Option.some.inj (hcall.symm.trans hcall')
        rcases hwaits with ⟨wakeAt, hwakeAt, -⟩ | ⟨hblocked, hrest, error, hphase, herror⟩
        · cases (PriceOutcome.wakeAt_of_comesFrom hcomes).symm.trans hwakeAt
        · rw [hphase, PriceOutcome.comesFrom_raised_api] at hcomes
          rw [Task.fetched, hcomes, PollPhase.fetched_deferred herror] at hfetched
          obtain ⟨next, rest, rfl⟩ := List.exists_cons_of_ne_nil hrest
          obtain rfl := Option.some.inj hfetched
          exact ⟨p, token, next, rest, anySuccess, List.getElem?_set_self hlt,
            .inl ⟨Function.update_self .., hblocked⟩⟩
    · exact h.congr (List.getElem?_set_ne hji) (Function.update_of_ne (Ne.symm hji) _ _) rfl
  | client event =>
    obtain ⟨client, hclient, rfl⟩ := react_client.mp hstep
    exact h.client hclient rfl rfl

/-! ### Polls that can end -/

/-- Time has passed and tasks have moved, but the database, the schedule and the monitoring loop
have not. -/
structure Frame (s t : Coordinator) : Prop where
  clock : s.clock ≤ t.clock
  database : t.system.database = s.system.database
  nextPollAt : t.nextPollAt = s.nextPollAt
  cycle : t.cycle = s.cycle
  length : t.system.tasks.length = s.system.tasks.length

theorem Frame.refl (s : Coordinator) : Frame s s := ⟨le_rfl, rfl, rfl, rfl, rfl⟩

theorem Frame.trans {t u : Coordinator} (h : Frame s t) (h' : Frame t u) : Frame s u where
  clock := h.clock.trans h'.clock
  database := h'.database.trans h.database
  nextPollAt := h'.nextPollAt.trans h.nextPollAt
  cycle := h'.cycle.trans h.cycle
  length := h'.length.trans h.length

/-- Of the tasks only task `i` has moved; of their requests only its own, apart from requests that
have succeeded; and no key has become blocked for ever. -/
structure Keeps (i : ℕ) (s t : Coordinator) : Prop extends Frame s t where
  tasks : ∀ j, j ≠ i → t.system.tasks[j]? = s.system.tasks[j]?
  fetches : ∀ j, j ≠ i → t.fetches j = s.fetches j
  calls : ∀ j fetch, j ≠ i → s.fetches j = some fetch →
    t.client.calls[fetch.call]? = s.client.calls[fetch.call]? ∨
      ∃ call payload, t.client.calls[fetch.call]? = some call ∧ call.phase = .returned payload
  blocked : ∀ key, t.client.BlockedForever key → s.client.BlockedForever key

namespace Keeps

variable {t u : Coordinator}

theorem refl (i : ℕ) (s : Coordinator) : Keeps i s s :=
  ⟨.refl s, fun _ _ => rfl, fun _ _ => rfl, fun _ _ _ _ => .inl rfl, fun _ h => h⟩

theorem trans (h : Keeps i s t) (h' : Keeps i t u) : Keeps i s u where
  toFrame := h.toFrame.trans h'.toFrame
  tasks j hj := (h'.tasks j hj).trans (h.tasks j hj)
  fetches j hj := (h'.fetches j hj).trans (h.fetches j hj)
  calls j fetch hj hfetch := by
    rcases h'.calls j fetch hj ((h.fetches j hj).trans hfetch) with hsame | hreturned
    · rw [hsame]
      exact h.calls j fetch hj hfetch
    · exact .inr hreturned
  blocked key hkey := h.blocked key (h'.blocked key hkey)

/-- The other polls wait for ever only if they did before. -/
theorem waitsForever (h : Keeps i s t) {j : ℕ} (hj : j ≠ i) (hwaits : t.WaitsForever api j) :
    s.WaitsForever api j := by
  obtain ⟨p, token, group, rest, anySuccess, hpoll, hwaits⟩ := hwaits
  rw [h.tasks j hj] at hpoll
  refine ⟨p, token, group, rest, anySuccess, hpoll, ?_⟩
  rw [h.fetches j hj] at hwaits
  rcases hwaits with ⟨hnone, hretries, hblocked⟩ | ⟨fetch, call, hsome, hcall, hwaits⟩
  · exact .inl ⟨hnone, hretries, h.blocked _ hblocked⟩
  · refine .inr ⟨fetch, call, hsome, ?_, ?_⟩
    · rcases h.calls j fetch hj hsome with hsame | ⟨call', payload, hcall', hreturned⟩
      · rw [← hsame, hcall]
      · obtain rfl := Option.some.inj (hcall'.symm.trans hcall)
        rcases hwaits with ⟨wakeAt, hwakeAt, -⟩ | ⟨-, -, error, hphase, -⟩
        · rw [hreturned] at hwakeAt
          cases hwakeAt
        · cases hreturned.symm.trans hphase
    · rcases hwaits with ⟨wakeAt, hwakeAt, hend⟩ | ⟨⟨hretries, hblocked⟩, hrest⟩
      · exact .inl ⟨wakeAt, hwakeAt, hend.imp_right (h.blocked _)⟩
      · exact .inr ⟨⟨hretries, h.blocked _ hblocked⟩, hrest⟩

/-- Task `i` moves. -/
private theorem task (s : Coordinator) (task : Task) (incidents : List Incident)
    {fetches : ℕ → Option Fetch} (hfetches : ∀ j, j ≠ i → fetches j = s.fetches j) :
    Keeps i s { s with
      system := { s.system with tasks := s.system.tasks.set i task, incidents := incidents }
      fetches := fetches } :=
  ⟨⟨le_rfl, rfl, rfl, rfl, List.length_set⟩, fun _ hj => List.getElem?_set_ne (Ne.symm hj),
    hfetches, fun _ _ _ _ => .inl rfl, fun _ h => h⟩

/-- A call of the API client moves: the one that task `i` waits for, or one that succeeds. -/
private theorem client (hs : s.Coherent env) {now : ℚ} (hnow : s.clock ≤ now) {event : ClientEvent}
    {client : ClientState} (hstep : api.step s.client (now, event) = some client) {k : ℕ}
    (hevent : event.call = some k)
    (hk : (∃ fetch, s.fetches i = some fetch ∧ fetch.call = k) ∨
      ∃ call payload, client.calls[k]? = some call ∧ call.phase = .returned payload)
    (hblocked : ∀ key, client.BlockedForever key → s.client.BlockedForever key) :
    Keeps i s { s with clock := now, client := client } := by
  refine ⟨⟨hnow, rfl, rfl, rfl, rfl⟩, fun _ _ => rfl, fun _ _ => rfl,
    fun j fetch hj hfetch => ?_, hblocked⟩
  obtain ⟨-, -, call, -, -, hcall, -⟩ := hs.fetch j fetch hfetch
  obtain ⟨call', hcall', -, hsame⟩ := api.step_call hstep hcall
  by_cases hfetchk : fetch.call = k
  · rcases hk with ⟨fetch', hfetch', hk⟩ | hreturned
    · exact absurd (hs.distinct j i fetch fetch' hfetch hfetch' (hfetchk.trans hk.symm)) hj
    · exact .inr (hfetchk ▸ hreturned)
  · left
    rw [hcall, ← hsame fun h => hfetchk (Option.some.inj (h.symm.trans hevent))]
    exact hcall'

/-- Task `i` requests a page. -/
private theorem request (hs : s.Coherent env) {now : ℚ} {args : PageArgs} {client : ClientState}
    (hstep : api.step s.client (now, .start args) = some client) (fetch : Fetch) :
    Keeps i s { s with client := client, fetches := Function.update s.fetches i (some fetch) } := by
  have hlimiter : client.limiter = s.client.limiter := by
    obtain ⟨-, rfl⟩ := api.step_start.mp hstep
    rfl
  refine ⟨⟨le_rfl, rfl, rfl, rfl, rfl⟩, fun _ _ => rfl,
    fun j hj => Function.update_of_ne hj _ _, fun j fetch _ hfetch => ?_,
    fun key hkey => api.of_blockedForever_step hkey hstep ?_ nofun⟩
  · obtain ⟨-, -, call, -, -, hcall, -⟩ := hs.fetch j fetch hfetch
    obtain ⟨call', hcall', -, hsame⟩ := api.step_call hstep hcall
    exact .inl (by rw [hcall, ← hsame nofun]; exact hcall')
  · have hend := hkey.blockedUntil
    rwa [hlimiter] at hend

end Keeps

/-- Some steps that advance no poll of the user end poll `i`. -/
def Ends (api : DonutApiClient) (env : Environment) (discordUserId : ℤ) (i : ℕ)
    (s : Coordinator) : Prop :=
  ∃ t, Leads (step api env) (Spares discordUserId) s t ∧ Keeps i s t ∧ t.Coherent env ∧
    t.pollsAt i = false

/-- Poll `i` is in the phase, and the user has no poll at work. -/
structure At (env : Environment) (discordUserId : ℤ) (i : ℕ) (p : Poll) (phase : PollPhase)
    (s : Coordinator) : Prop where
  coherent : s.Coherent env
  poll : s.system.tasks[i]? = some (Task.poll p phase)
  user : p.user.discordUserId ≠ discordUserId
  idle : ∀ task ∈ s.system.tasks, task.pollsFor discordUserId = false

variable {discordUserId : ℤ} {p : Poll} {phase phase' : PollPhase} {t : Coordinator}

theorem Ends.of_step {now : ℚ} {event : CoordinatorEvent}
    (hstep : step api env s (now, event) = some t)
    (hspares : Spares discordUserId s (now, event)) (hkeeps : Keeps i s t)
    (h : t.Ends api env discordUserId i) : s.Ends api env discordUserId i := by
  obtain ⟨u, hleads, hkeeps', hend⟩ := h
  exact ⟨u, (Leads.single hspares hstep).trans hleads, hkeeps.trans hkeeps', hend⟩

namespace At

/-- The poll in its next phase. -/
private theorem next (h : s.At env discordUserId i p phase) (hkeeps : Keeps i s t)
    (ht : t.Coherent env) (hpoll : t.system.tasks[i]? = some (Task.poll p phase')) :
    t.At env discordUserId i p phase' := by
  refine ⟨ht, hpoll, h.user, fun task htask => ?_⟩
  obtain ⟨j, hj⟩ := List.mem_iff_getElem?.mp htask
  by_cases hji : j = i
  · subst hji
    obtain rfl := Option.some.inj (hpoll.symm.trans hj)
    simp [Task.pollsFor, h.user]
  · rw [hkeeps.tasks j hji] at hj
    exact h.idle task (List.mem_of_getElem? hj)

/-- A step that moves no other task advances no poll of the user. -/
private theorem spares_of_task (h : s.At env discordUserId i p phase) {now : ℚ}
    {event : CoordinatorEvent} (hevent : ∀ k, s.Advances k event → k = i) :
    Spares discordUserId s (now, event) := by
  rintro k p' phase' hk huser hadvances
  obtain rfl := hevent k hadvances
  obtain ⟨rfl, -⟩ := Task.poll.inj (Option.some.inj (h.poll.symm.trans hk))
  exact h.user huser

/-- A call of the API client is not one of the user's polls, which make no requests. -/
private theorem spares_client (h : s.At env discordUserId i p phase) {now : ℚ}
    {event : ClientEvent} : Spares discordUserId s (now, .client event) := by
  rintro k p' phase' hk huser ⟨fetch, hfetch, -⟩
  obtain ⟨task, request, call, htask, hrequest, -, -⟩ := h.coherent.fetch k fetch hfetch
  obtain rfl := Option.some.inj (htask.symm.trans hk)
  have hidle := h.idle _ (List.mem_of_getElem? hk)
  cases phase' with
  | fetching token group rest anySuccess => simp [Task.pollsFor, huser, PollPhase.ended] at hidle
  | _ => cases hrequest

theorem ends_of_ended (h : s.At env discordUserId i p phase) (hended : phase.ended = true) :
    s.Ends api env discordUserId i := by
  refine ⟨s, .refl s, .refl i s, h.coherent, ?_⟩
  rw [pollsAt, h.poll]
  simp [hended]

/-- The poll moves at a transaction or a message. -/
private theorem ends_of_label (h : s.At env discordUserId i p phase) (label : Label)
    (phase' : PollPhase) (hlabel : label.ofServices = true) (htask : label.task = some i)
    {incidents : List Incident} (hstep : s.system.step env label = some { s.system with
      tasks := s.system.tasks.set i (Task.poll p phase'), incidents := incidents })
    (hnext : ∀ t : Coordinator, t.At env discordUserId i p phase' →
      t.Ends api env discordUserId i) : s.Ends api env discordUserId i := by
  have hreact : react api env s (.system label) = some { s with
      system := { s.system with
        tasks := s.system.tasks.set i (Task.poll p phase'), incidents := incidents } } :=
    react_system.mpr ⟨hlabel, _, hstep, rfl⟩
  have hkeeps :=
    Keeps.task s (Task.poll p phase') incidents (i := i) fun j _ => Eq.refl (s.fetches j)
  refine Ends.of_step (step_eq_some.mpr ⟨le_rfl, hreact⟩) (h.spares_of_task fun k hk => ?_) hkeeps
    (hnext _ (h.next hkeeps (h.coherent.react hreact) ?_))
  · exact Option.some.inj (hk.symm.trans htask)
  · exact List.getElem?_set_self (List.getElem?_eq_some_iff.mp h.poll).1

/-- A poll that waits for a transaction ends when the database fails. -/
private theorem ends_of_fail (h : s.At env discordUserId i p phase)
    (hfail : phase.fail (.databaseError .operationalError) =
      some (.raised (.databaseError .operationalError))) : s.Ends api env discordUserId i := by
  refine h.ends_of_label (.reject i .operationalError) (.raised (.databaseError .operationalError))
    rfl rfl (System.step_reject.mpr ⟨_, _, h.poll, ?_, rfl⟩) fun t ht => ht.ends_of_ended rfl
  rw [Task.fail, hfail]
  rfl

/-- A poll that waits for no price can end. -/
theorem ends_of_request_eq_none (h : s.At env discordUserId i p phase)
    (hrequest : (Task.poll p phase).request env = none) : s.Ends api env discordUserId i := by
  cases phase with
  | fetching token group rest anySuccess => cases hrequest
  | processing token group snapshot rest phase =>
    cases phase with
    | evaluating => exact h.ends_of_fail rfl
    | delivering event more =>
      exact h.ends_of_label (.sent i (.error ""))
        (.processing token group snapshot rest (.recording event (.error "") more)) rfl rfl
        (System.step_sent.mpr ⟨_, _, h.poll, rfl, rfl⟩) fun t ht => ht.ends_of_fail rfl
    | recording event outcome more => exact h.ends_of_fail rfl
  | markingSuccess => exact h.ends_of_fail rfl
  | invalidating => exact h.ends_of_fail rfl
  | notifying =>
    exact h.ends_of_label (.sent i (.ok 0)) .returned rfl rfl
      (System.step_sent.mpr ⟨_, _, h.poll, rfl, rfl⟩) fun t ht => ht.ends_of_ended rfl
  | recordingDmError message => exact h.ends_of_fail rfl
  | returned => exact h.ends_of_ended rfl
  | raised error => exact h.ends_of_ended rfl

section Fetching

variable {token : String} {group : PollGroup} {rest : List PollGroup} {anySuccess : Bool}
  {fetch : Fetch} {call : PageCall}

/-- The price of the poll has come. -/
private theorem ends_of_fetched
    (h : s.At env discordUserId i p (.fetching token group rest anySuccess))
    (hfetch : s.fetches i = some fetch) (hcall : s.client.calls[fetch.call]? = some call)
    (outcome : PriceOutcome) (hcomes : outcome.comesFrom call.phase = true)
    (hphase : (PollPhase.fetching token group rest anySuccess).fetched env p outcome = some phase')
    (hnext : ∀ t : Coordinator, t.At env discordUserId i p phase' → t.fetches i = none →
      t.client = s.client → t.Ends api env discordUserId i) :
    s.Ends api env discordUserId i := by
  have htask : (Task.poll p (.fetching token group rest anySuccess)).fetched env outcome =
      some (Task.poll p phase') := by rw [Task.fetched, hphase]; rfl
  have hreact : react api env s (.fetched i outcome) = some _ := react_fetched.mpr
    ⟨fetch, call, _, hfetch, hcall, hcomes,
      System.step_fetched.mpr ⟨_, _, _, h.poll, rfl, htask, rfl⟩, rfl⟩
  have hkeeps (incidents : List Incident) := Keeps.task s (Task.poll p phase') incidents
    fun j (hj : j ≠ i) => Function.update_of_ne hj none s.fetches
  exact Ends.of_step (step_eq_some.mpr ⟨le_rfl, hreact⟩)
    (h.spares_of_task fun k hk => Eq.symm hk) (hkeeps _)
    (hnext _ (h.next (hkeeps _) (h.coherent.react hreact)
      (List.getElem?_set_self (List.getElem?_eq_some_iff.mp h.poll).1))
      (Function.update_self ..) rfl)

/-- A page that was answered can make `get_price` raise. -/
private theorem ends_of_returned
    (h : s.At env discordUserId i p (.fetching token group rest anySuccess))
    (hfetch : s.fetches i = some fetch) (hcall : s.client.calls[fetch.call]? = some call)
    {payload : List (String × Json)} (hphase : call.phase = .returned payload) :
    s.Ends api env discordUserId i :=
  h.ends_of_fetched hfetch hcall (.exception "") (by rw [hphase]; rfl) rfl
    fun t ht _ _ => ht.ends_of_ended rfl

/-- A call of the API client goes on, when the poll waits for it or it succeeds. -/
private theorem ends_of_client
    (h : s.At env discordUserId i p phase) {now : ℚ} (hnow : s.clock ≤ now) {event : ClientEvent}
    {client : ClientState} (hstep : api.step s.client (now, event) = some client) {k : ℕ}
    (hevent : event.call = some k)
    (hk : (∃ fetch, s.fetches i = some fetch ∧ fetch.call = k) ∨
      ∃ call payload, client.calls[k]? = some call ∧ call.phase = .returned payload)
    (hblocked : ∀ key, client.BlockedForever key → s.client.BlockedForever key)
    (hnext : ∀ t : Coordinator, t.At env discordUserId i p phase → t.fetches = s.fetches →
      t.client = client → t.Ends api env discordUserId i) :
    s.Ends api env discordUserId i := by
  have hreact : react api env { s with clock := now } (.client event) =
      some { s with clock := now, client := client } := react_client.mpr ⟨client, hstep, rfl⟩
  have hkeeps := Keeps.client h.coherent hnow hstep hevent hk hblocked
  exact Ends.of_step (step_eq_some.mpr ⟨hnow, hreact⟩) h.spares_client hkeeps
    (hnext _ (h.next hkeeps ((h.coherent.wait hnow).react hreact) h.poll) rfl rfl)

/-- A request that is in flight can succeed. -/
private theorem ends_of_inFlight
    (h : s.At env discordUserId i p (.fetching token group rest anySuccess))
    (hfetch : s.fetches i = some fetch) (hcall : s.client.calls[fetch.call]? = some call)
    (hphase : call.phase = .inFlight) : s.Ends api env discordUserId i := by
  obtain ⟨client, call', payload, hstep, hcall', -, hphase', -, hblocked⟩ :=
    api.exists_returned hcall hphase h.coherent.clock
  refine h.ends_of_client le_rfl hstep rfl (.inl ⟨fetch, hfetch, rfl⟩) hblocked
    fun t ht hfetches hclient => ?_
  rw [← hfetches] at hfetch
  rw [← hclient] at hcall'
  exact ht.ends_of_returned hfetch hcall' hphase'

/-- A call that sleeps before an acquisition gets its grant. -/
private theorem ends_of_acquiring
    (h : s.At env discordUserId i p (.fetching token group rest anySuccess))
    (hfetch : s.fetches i = some fetch) (hcall : s.client.calls[fetch.call]? = some call)
    {wakeAt : PyFloat} (hphase : call.phase = .acquiring wakeAt) (hwake : wakeAt ≠ .posInf)
    (hfree : (s.client.limiter.states call.args.tokenKey).blockedUntil ≠ .posInf) :
    s.Ends api env discordUserId i := by
  obtain ⟨u, hu⟩ := api.exists_inFlight hcall hphase hwake hfree
  obtain ⟨client, call', hstep, hcall', -, hphase', hblocked⟩ := hu (max u s.clock)
    (le_max_left _ _) (h.coherent.clock.trans (le_max_right _ _))
  refine h.ends_of_client (le_max_right u s.clock) hstep rfl (.inl ⟨fetch, hfetch, rfl⟩) hblocked
    fun t ht hfetches hclient => ?_
  rw [← hfetches] at hfetch
  rw [← hclient] at hcall'
  exact ht.ends_of_inFlight hfetch hcall' hphase'

/-- A call that sleeps before an acquisition ends, when a request of its key can lift the block. -/
private theorem ends_of_not_blockedForever
    (h : s.At env discordUserId i p (.fetching token group rest anySuccess))
    (hfetch : s.fetches i = some fetch) (hcall : s.client.calls[fetch.call]? = some call)
    {wakeAt : PyFloat} (hphase : call.phase = .acquiring wakeAt) (hwake : wakeAt ≠ .posInf)
    (hblocked : ¬ s.client.BlockedForever call.args.tokenKey) :
    s.Ends api env discordUserId i := by
  by_cases hfree : (s.client.limiter.states call.args.tokenKey).blockedUntil = .posInf
  · obtain ⟨k, other, hother, hkey, hflight⟩ : ∃ (k : ℕ) (other : PageCall),
        s.client.calls[k]? = some other ∧ other.args.tokenKey = call.args.tokenKey ∧
          other.phase = .inFlight := by
      by_contra hnone
      refine hblocked ⟨hfree, fun k other hother hkey => ?_⟩
      cases hflight : other.phase with
      | inFlight => exact absurd ⟨k, other, hother, hkey, hflight⟩ hnone
      | _ => rfl
    obtain ⟨client, other', payload, hstep, hother', -, hreturned, hlifted, hmore⟩ :=
      api.exists_returned hother hflight h.coherent.clock
    refine h.ends_of_client le_rfl hstep rfl (.inr ⟨other', payload, hother', hreturned⟩) hmore
      fun t ht hfetches hclient => ?_
    obtain ⟨call', hcall', -, hsame⟩ := api.step_call hstep hcall
    have hne : k ≠ fetch.call := by
      rintro rfl
      obtain rfl := Option.some.inj (hother.symm.trans hcall)
      cases hphase.symm.trans hflight
    obtain rfl := hsame fun hk => hne (Option.some.inj hk)
    rw [← hfetches] at hfetch
    rw [← hclient] at hcall' hlifted
    exact ht.ends_of_acquiring hfetch hcall' hphase hwake (by rw [← hkey, hlifted]; exact nofun)
  · exact h.ends_of_acquiring hfetch hcall hphase hwake hfree

/-- A call that sleeps ends, unless it never does. -/
private theorem ends_of_not_neverEnds
    (h : s.At env discordUserId i p (.fetching token group rest anySuccess))
    (hfetch : s.fetches i = some fetch) (hcall : s.client.calls[fetch.call]? = some call)
    {wakeAt : PyFloat} (hphase : call.phase.wakeAt = some wakeAt)
    (hnever : ¬ s.client.NeverEnds call) : s.Ends api env discordUserId i := by
  obtain ⟨hwake, hblocked⟩ := not_or.mp fun hend => hnever ⟨wakeAt, hphase, hend⟩
  cases hcase : call.phase with
  | acquiring wakeAt' =>
    obtain rfl : wakeAt' = wakeAt := by rw [hcase] at hphase; exact Option.some.inj hphase
    exact h.ends_of_not_blockedForever hfetch hcall hcase hwake hblocked
  | backingOff wakeAt' =>
    obtain rfl : wakeAt' = wakeAt := by rw [hcase] at hphase; exact Option.some.inj hphase
    obtain ⟨u, hu⟩ := api.exists_acquiring hcall hcase hwake
    obtain ⟨client, call', hstep, hcall', hargs, hphase', -, hmore⟩ := hu (max u s.clock)
      (le_max_left _ _) (h.coherent.clock.trans (le_max_right _ _))
    refine h.ends_of_client (le_max_right u s.clock) hstep rfl (.inl ⟨fetch, hfetch, rfl⟩) hmore
      fun t ht hfetches hclient => ?_
    rw [← hfetches] at hfetch
    rw [← hclient] at hcall' hmore
    exact ht.ends_of_not_blockedForever hfetch hcall' hphase' hwake
      fun hend => hblocked (hargs ▸ hmore _ hend)
  | _ => rw [hcase] at hphase; cases hphase

/-- After an error that defers its group a poll can end, if the next request can get its grant or
there is none. -/
private theorem ends_of_deferred {error : DonutApiError}
    (h : s.At env discordUserId i p (.fetching token group rest anySuccess))
    (hfetch : s.fetches i = some fetch) (hcall : s.client.calls[fetch.call]? = some call)
    (hphase : call.phase = .raised (.api error))
    (herror : ∀ message, error ≠ .authentication message)
    (hnext : ∀ (t : Coordinator) next more, rest = next :: more →
      t.At env discordUserId i p (.fetching token next more anySuccess) → t.fetches i = none →
        t.client = s.client → t.Ends api env discordUserId i) :
    s.Ends api env discordUserId i := by
  refine h.ends_of_fetched hfetch hcall (.donutApiError error)
    (by rw [hphase, PriceOutcome.comesFrom_raised_api]) (PollPhase.fetched_deferred herror)
    fun t ht hnone hclient => ?_
  cases rest with
  | nil =>
    refine ht.ends_of_request_eq_none ?_
    cases anySuccess <;> rfl
  | cons next more => exact hnext t next more rfl ht hnone hclient

/-- A poll makes its next request. -/
private theorem ends_of_request
    (h : s.At env discordUserId i p (.fetching token group rest anySuccess))
    (hfetch : s.fetches i = none)
    (hnext : ∀ (t : Coordinator) fetch args,
      t.At env discordUserId i p (.fetching token group rest anySuccess) →
        t.fetches i = some fetch → t.client.calls[fetch.call]? = some (api.start s.clock args) →
          args.tokenKey = p.user.tokenFingerprint →
            (∀ key, t.client.BlockedForever key → s.client.BlockedForever key) →
              t.Ends api env discordUserId i) : s.Ends api env discordUserId i := by
  let args : PageArgs :=
    { token := token
      tokenKey := p.user.tokenFingerprint
      page := 1
      search := normalizeItemId env.lower group.itemId
      interactive := false }
  have hstep : api.step s.client (s.clock, .start args) = some _ :=
    api.step_start.mpr ⟨h.coherent.clock, rfl⟩
  have hreact : react api env s (.request i) = some _ := react_request.mpr
    ⟨hfetch, requestPage_eq_some.mpr ⟨_, args, _, h.poll, rfl, hstep, rfl⟩⟩
  have hkeeps := Keeps.request (i := i) h.coherent hstep ⟨1, s.client.calls.length⟩
  exact Ends.of_step (step_eq_some.mpr ⟨le_rfl, hreact⟩)
    (h.spares_of_task fun k hk => Eq.symm hk) hkeeps
    (hnext _ _ args (h.next hkeeps (h.coherent.react hreact) h.poll) (Function.update_self ..)
      (api.step_start_call hstep) rfl hkeeps.blocked)

/-- A poll that has not made its next request can end, if the request can get its grant. -/
private theorem ends_of_fetches_eq_none
    (h : s.At env discordUserId i p (.fetching token group rest anySuccess))
    (hfetch : s.fetches i = none) (hgranted : ¬ s.NeverGranted api p.user.tokenFingerprint) :
    s.Ends api env discordUserId i := by
  rcases le_or_gt 0 api.maxRetries with hretries | hretries
  · refine h.ends_of_request hfetch fun t fetch args ht hfetch hcall hkey hmore => ?_
    rw [api.start_of_nonneg hretries] at hcall
    refine ht.ends_of_not_blockedForever hfetch hcall rfl nofun fun hend => ?_
    exact hgranted ⟨hretries, hmore _ (hkey ▸ hend)⟩
  · -- a client that makes no attempt defers one group after the other
    induction rest generalizing s group with
    | nil =>
      refine h.ends_of_request hfetch fun t fetch args ht hfetch hcall _ _ => ?_
      rw [api.start_of_neg hretries] at hcall
      exact ht.ends_of_deferred hfetch hcall rfl nofun fun u next more hnil => by cases hnil
    | cons next rest ih =>
      refine h.ends_of_request hfetch fun t fetch args ht hfetch hcall _ _ => ?_
      rw [api.start_of_neg hretries] at hcall
      refine ht.ends_of_deferred hfetch hcall rfl nofun fun u next' more hrest hu hnone _ => ?_
      obtain ⟨rfl, rfl⟩ := List.cons.inj hrest
      exact ih hu hnone fun hnever => absurd hnever.1 (not_le.mpr hretries)

end Fetching

/-- A poll that does not wait for ever can end, without a step of the user's polls. -/
theorem ends (h : s.At env discordUserId i p phase) (hwaits : ¬ s.WaitsForever api i) :
    s.Ends api env discordUserId i := by
  cases phase with
  | fetching token group rest anySuccess =>
    cases hfetch : s.fetches i with
    | none =>
      refine h.ends_of_fetches_eq_none hfetch fun hnever => hwaits ?_
      exact ⟨p, token, group, rest, anySuccess, h.poll, .inl ⟨hfetch, hnever⟩⟩
    | some fetch =>
      obtain ⟨task, request, call, htask, hrequest, hcall, hkey⟩ := h.coherent.fetch i fetch hfetch
      have hends : ¬ (s.client.NeverEnds call ∨ _) := fun hwait => hwaits
        ⟨p, token, group, rest, anySuccess, h.poll, .inr ⟨fetch, call, hfetch, hcall, hwait⟩⟩
      obtain ⟨hnever, hdeferred⟩ := not_or.mp hends
      cases hphase : call.phase with
      | acquiring wakeAt => exact h.ends_of_not_neverEnds hfetch hcall (by rw [hphase]; rfl) hnever
      | backingOff wakeAt => exact h.ends_of_not_neverEnds hfetch hcall (by rw [hphase]; rfl) hnever
      | inFlight => exact h.ends_of_inFlight hfetch hcall hphase
      | returned payload => exact h.ends_of_returned hfetch hcall hphase
      | raised failure =>
        cases failure with
        | api error =>
          by_cases herror : ∀ message, error ≠ .authentication message
          · refine h.ends_of_deferred hfetch hcall hphase herror
              fun t next more hrest ht hnone hclient => ht.ends_of_fetches_eq_none hnone ?_
            rintro ⟨hretries, hblocked⟩
            exact hdeferred ⟨⟨hretries, hclient ▸ hblocked⟩, by simp [hrest], error, hphase, herror⟩
          · obtain ⟨message, hmessage⟩ := not_forall.mp herror
            obtain rfl := not_not.mp hmessage
            exact h.ends_of_fetched hfetch hcall _
              (by rw [hphase, PriceOutcome.comesFrom_raised_api]) rfl
              fun t ht _ _ => ht.ends_of_request_eq_none rfl
        | transport error =>
          exact h.ends_of_fetched hfetch hcall (.exception error.name)
            (by rw [hphase]; simp [PriceOutcome.comesFrom]) rfl
            fun t ht _ _ => ht.ends_of_ended rfl
        | overflowError =>
          exact h.ends_of_fetched hfetch hcall (.exception "OverflowError")
            (by rw [hphase]; simp [PriceOutcome.comesFrom]) rfl
            fun t ht _ _ => ht.ends_of_ended rfl
  | _ => exact h.ends_of_request_eq_none rfl

end At

end Coordinator

end DonutMonitor
