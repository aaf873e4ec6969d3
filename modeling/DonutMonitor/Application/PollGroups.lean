import DonutMonitor.Application.RuleIdentity
import DonutMonitor.Foundations.FirstMatch
import DonutMonitor.Foundations.Grouping

/-!
# One poll and its groups

A poll groups the enabled rules of its user by item and price type, and takes the groups one after
the other: it requests the price of a group and hands the group over to `RuleProcessor.process`
when it gets one.  An authentication error ends the loop, and another `DonutApiError` ends the turn
of its group only.

What a poll does is recorded while it runs, the calls of `process` with the arguments of the phase
that commits their transaction.  The answers to its requests are a function of the item and the
price type; `process` returns normally.

## Main definitions

* `PollAction`, `PollRun`, `PollRun.step` — a poll in progress, with what it has done so far.
* `PollRun.asked` — the groups whose price is requested.
* `PollRun.TakesEachOnce` — what holds of the actions of a poll that is over.

## Main results

* `isGrouping_groupRules` — the groups of a poll are those of its rules by request.
* `PollRun.actions_eq` — the actions of a poll that is over.
* `PollRun.takesEachOnce` — it takes each rule once, and a failed request concerns its group only.
-/

namespace DonutMonitor

open Transition Grouping

/-! ### Groups -/

private theorem map_addToGroups (groups : List PollGroup) (rule : WatchRule) :
    (addToGroups groups rule).map (fun g => (g.request, g.rules)) =
      addTo WatchRule.request (groups.map fun g => (g.request, g.rules)) rule := by
  have hany : (groups.any fun g => (g.itemId, g.priceType) = rule.request) =
      (groups.map fun g => (g.request, g.rules)).any fun g => g.1 = rule.request := by
    rw [List.any_map]
    rfl
  rw [addToGroups, addTo, ← hany]
  split_ifs with h
  · rw [List.map_map, List.map_map]
    refine List.map_congr_left fun g _ => ?_
    simp only [Function.comp_apply, PollGroup.request]
    split_ifs <;> rfl
  · rw [List.map_append, List.map_singleton]
    rfl

/-- The groups of a poll are those of its rules by request. -/
theorem isGrouping_groupRules (rules : List WatchRule) :
    IsGrouping WatchRule.request rules
      ((groupRules rules).map fun g => (g.request, g.rules)) := by
  have hfold : ∀ groups : List PollGroup,
      (rules.foldl addToGroups groups).map (fun g => (g.request, g.rules)) =
        rules.foldl (addTo WatchRule.request) (groups.map fun g => (g.request, g.rules)) := by
    induction rules with
    | nil => exact fun _ => rfl
    | cons rule rules ih =>
      intro groups
      rw [List.foldl_cons, ih, map_addToGroups, List.foldl_cons]
  rw [groupRules, hfold]
  exact isGrouping_foldl rules

theorem groupRules_nodup (rules : List WatchRule) :
    ((groupRules rules).map PollGroup.request).Nodup := by
  simpa [List.map_map, Function.comp_def] using (isGrouping_groupRules rules).nodup

theorem mem_map_request_groupRules {rules : List WatchRule} {pair : String × PriceType} :
    pair ∈ (groupRules rules).map PollGroup.request ↔ ∃ r ∈ rules, r.request = pair := by
  simpa [List.map_map, Function.comp_def] using (isGrouping_groupRules rules).mem_iff pair

/-- A group holds the rules with its request. -/
theorem rules_of_mem_groupRules {rules : List WatchRule} {g : PollGroup}
    (hg : g ∈ groupRules rules) : g.rules = rules.filter fun r => r.request = g.request :=
  (isGrouping_groupRules rules).members (g.request, g.rules) (List.mem_map_of_mem hg)

theorem rules_ne_nil {rules : List WatchRule} {g : PollGroup} (hg : g ∈ groupRules rules) :
    g.rules ≠ [] := by
  obtain ⟨r, hr, hrequest⟩ := mem_map_request_groupRules.mp (List.mem_map_of_mem hg)
  rw [rules_of_mem_groupRules hg]
  exact List.ne_nil_of_mem (List.mem_filter.mpr ⟨hr, decide_eq_true hrequest⟩)

/-- Some of the groups hold the rules with their requests. -/
theorem flatMap_rules_perm {rules : List WatchRule} {gs : List PollGroup}
    (hgs : gs.Sublist (groupRules rules)) :
    (gs.flatMap PollGroup.rules).Perm
      (rules.filter fun r => r.request ∈ gs.map PollGroup.request) := by
  have h := (isGrouping_groupRules rules).flatMap_perm (hgs.map fun g => (g.request, g.rules))
  simpa [List.flatMap_map, List.map_map, Function.comp_def] using h

/-! ### A poll in progress -/

/-- What a poll does. -/
inductive PollAction where
  /-- It calls `get_price`. -/
  | requested (pair : String × PriceType)
  /-- It calls `RuleProcessor.process` for the group of an item and a price type. -/
  | handed (pair : String × PriceType) (args : ProcessArgs)

/-- What goes on in a poll. -/
inductive PollEvent where
  /-- `get_price` returns or raises. -/
  | fetched
  /-- The pending transaction commits. -/
  | committed (answer : Answer)
  /-- The sender returns or raises. -/
  | sent (outcome : Except String ℤ)
  /-- A transaction after the loop raises. -/
  | raised (error : ServiceError)

/-- A poll in progress, with what it has done. -/
structure PollRun where
  phase : PollPhase
  actions : List PollAction

namespace PollPhase

/-- The poll has left its loop. -/
def leftLoop : PollPhase → Bool
  | fetching _ _ _ _ | processing _ _ _ _ _ => false
  | _ => true

/-- The request with which a phase begins. -/
def requested : PollPhase → List PollAction
  | fetching _ group _ _ => [.requested group.request]
  | _ => []

/-- The call of `process` with which a phase begins. -/
def handed (poll : Poll) : PollPhase → List PollAction
  | processing _ group snapshot _ .evaluating =>
    [.handed group.request (processArgs poll group snapshot)]
  | _ => []

end PollPhase

/-- The request was answered 401 or 403. -/
def PriceOutcome.isAuthentication : PriceOutcome → Bool
  | donutApiError (.authentication _) => true
  | _ => false

/-- The snapshot that `get_price` returns for a request with the outcome. -/
def PriceOutcome.snapshot? (env : Environment) (pair : String × PriceType) :
    PriceOutcome → Option PriceSnapshot
  | listing selected checkedAt pagesScanned =>
    some (.ofListing env.decimal (normalizeItemId env.lower pair.1) pair.2 selected checkedAt
      pagesScanned)
  | _ => none

namespace PollPhase

variable {poll : Poll} {phase phase' : PollPhase}

theorem requested_of_leftLoop (h : phase.leftLoop = true) : phase.requested = [] := by
  cases phase with
  | fetching token group rest anySuccess => cases h
  | _ => rfl

/-- A poll that has left its loop does not come back to it. -/
theorem leftLoop_resume {answer : Answer} (h : phase.leftLoop = true)
    (hresume : phase.resume poll answer = some phase') : phase'.leftLoop = true := by
  cases phase with
  | fetching token group rest anySuccess => cases h
  | processing token group snapshot rest process => cases h
  | invalidating =>
    cases answer with
    | done =>
      obtain rfl := Option.some.inj hresume
      split_ifs <;> rfl
    | _ => cases hresume
  | markingSuccess =>
    cases answer <;> cases hresume
    rfl
  | recordingDmError message =>
    cases answer <;> cases hresume
    rfl
  | _ => cases hresume

theorem leftLoop_sent {outcome : Except String ℤ} (h : phase.leftLoop = true)
    (hsent : phase.sent outcome = some phase') : phase'.leftLoop = true := by
  cases phase with
  | fetching token group rest anySuccess => cases h
  | processing token group snapshot rest process => cases h
  | notifying => cases outcome <;> cases hsent <;> rfl
  | _ => cases hsent

end PollPhase

namespace PollRun

variable (env : Environment) (poll : Poll) (outcomes : String × PriceType → PriceOutcome)

/-- A poll that starts. -/
def start : PollRun := ⟨.start env poll, (PollPhase.start env poll).requested⟩

/-- One step of a poll. -/
def step (s : PollRun) : PollEvent → Option PollRun
  | .fetched =>
    match s.phase with
    | .fetching token group rest anySuccess =>
      (PollPhase.fetched env poll (outcomes group.request)
        (.fetching token group rest anySuccess)).map fun phase =>
          ⟨phase, s.actions ++ phase.handed poll ++ phase.requested⟩
    | _ => none
  | .committed answer =>
    (s.phase.resume poll answer).map fun phase => ⟨phase, s.actions ++ phase.requested⟩
  | .sent outcome => (s.phase.sent outcome).map fun phase => ⟨phase, s.actions⟩
  | .raised error =>
    if s.phase.leftLoop then (s.phase.fail error).map fun phase => ⟨phase, s.actions⟩ else none

/-! ### The actions of a whole poll -/

/-- What a poll does in the turn of a group. -/
def turn (group : PollGroup) : List PollAction :=
  .requested group.request :: (((outcomes group.request).snapshot? env group.request).map
    fun snapshot => .handed group.request (PollPhase.processArgs poll group snapshot)).toList

/-- The groups up to the first whose request is answered with an authentication error. -/
def asked (groups : List PollGroup) : List PollGroup :=
  FirstMatch.upTo (fun g => (outcomes g.request).isAuthentication) groups

/-- How far a poll has come. -/
def Progress (groups : List PollGroup) (s : PollRun) : Prop :=
  ∃ done, (∀ g ∈ done, (outcomes g.request).isAuthentication = false) ∧
    match s.phase with
    | .fetching _ group rest _ => groups = done ++ group :: rest ∧
        s.actions = done.flatMap (turn env poll outcomes) ++ [.requested group.request]
    | .processing _ _ _ rest _ =>
      groups = done ++ rest ∧ s.actions = done.flatMap (turn env poll outcomes)
    | _ => s.actions = (asked outcomes groups).flatMap (turn env poll outcomes)

variable {env poll outcomes} {groups done rest : List PollGroup} {group : PollGroup}

theorem asked_append (hdone : ∀ g ∈ done, (outcomes g.request).isAuthentication = false)
    (rest : List PollGroup) : asked outcomes (done ++ rest) = done ++ asked outcomes rest :=
  FirstMatch.upTo_append hdone rest

/-- A group with rules is processed. -/
private theorem start_processArgs (hrules : group.rules ≠ []) (snapshot : PriceSnapshot) :
    ProcessPhase.start (PollPhase.processArgs poll group snapshot) = some .evaluating :=
  if_neg (by simpa [PollPhase.processArgs] using hrules)

/-- The progress of a poll that goes on to the groups that are left. -/
private theorem progress_next {token : String} {anySuccess : Bool}
    (hdone : ∀ g ∈ done, (outcomes g.request).isAuthentication = false)
    (hgroups : groups = done ++ rest) :
    Progress env poll outcomes groups ⟨PollPhase.next token anySuccess rest,
      done.flatMap (turn env poll outcomes) ++
        (PollPhase.next token anySuccess rest).requested⟩ := by
  cases rest with
  | nil =>
    have hasked : asked outcomes groups = done := by
      rw [hgroups, asked_append hdone]
      simp [asked]
    cases anySuccess <;>
      exact ⟨done, hdone, by simp [PollPhase.next, PollPhase.requested, hasked]⟩
  | cons group rest => exact ⟨done, hdone, hgroups, rfl⟩

private theorem handed_next {token : String} {anySuccess : Bool} :
    (PollPhase.next token anySuccess rest).handed poll = [] := by
  cases rest with
  | nil => cases anySuccess <;> rfl
  | cons group rest => rfl

/-- The progress of a poll that processes the snapshot of a group, and after that. -/
private theorem progress_ofProcess {token : String} {snapshot : PriceSnapshot}
    (next : Option ProcessPhase)
    (hdone : ∀ g ∈ done, (outcomes g.request).isAuthentication = false)
    (hgroups : groups = done ++ rest) :
    Progress env poll outcomes groups ⟨PollPhase.ofProcess token group snapshot rest next,
      done.flatMap (turn env poll outcomes) ++
        (PollPhase.ofProcess token group snapshot rest next).requested⟩ := by
  cases next with
  | none => exact progress_next hdone hgroups
  | some phase => exact ⟨done, hdone, hgroups, List.append_nil _⟩

/-- An answer to a request advances the poll. -/
private theorem progress_fetched {token : String} {anySuccess : Bool} {actions : List PollAction}
    {s' : PollRun} (hexpected : ∀ pair name, outcomes pair ≠ .exception name)
    (hrules : ∀ g ∈ groups, g.rules ≠ [])
    (h : Progress env poll outcomes groups ⟨.fetching token group rest anySuccess, actions⟩)
    (hstep : step env poll outcomes ⟨.fetching token group rest anySuccess, actions⟩ .fetched =
      some s') : Progress env poll outcomes groups s' := by
  obtain ⟨done, hdone, hgroups, hactions⟩ := h
  simp only at hgroups hactions
  obtain ⟨phase, hphase, rfl⟩ := Option.map_eq_some_iff.mp hstep
  have hnext : (outcomes group.request).isAuthentication = false →
      ∀ g ∈ done ++ [group], (outcomes g.request).isAuthentication = false := by
    intro hgroup g hg
    rcases List.mem_append.mp hg with hg | hg
    · exact hdone g hg
    · exact List.mem_singleton.mp hg ▸ hgroup
  have hsplit : groups = done ++ [group] ++ rest := by rw [hgroups, List.append_assoc]; rfl
  have hturn : actions ++ (((outcomes group.request).snapshot? env group.request).map
      fun snapshot => .handed group.request (PollPhase.processArgs poll group snapshot)).toList =
        (done ++ [group]).flatMap (turn env poll outcomes) := by
    simp [hactions, turn]
  cases houtcome : outcomes group.request with
  | listing listing checkedAt pagesScanned =>
    rw [houtcome] at hphase hnext hturn
    obtain rfl := Option.some.inj hphase
    rw [start_processArgs (hrules group (by simp [hgroups]))]
    exact ⟨_, hnext rfl, hsplit, (List.append_nil _).trans hturn⟩
  | donutApiError error =>
    rw [houtcome] at hphase hnext hturn
    replace hturn : actions = _ := (List.append_nil _).symm.trans hturn
    cases error with
    | authentication message =>
      obtain rfl := Option.some.inj hphase
      have hasked : asked outcomes groups = done ++ [group] := by
        rw [hgroups, asked_append hdone, asked, FirstMatch.upTo_cons, houtcome]
        rfl
      refine ⟨done, hdone, ?_⟩
      simp [PollPhase.handed, PollPhase.requested, hasked, hturn]
    | _ =>
      obtain rfl := Option.some.inj hphase
      rw [handed_next, List.append_nil, hturn]
      exact progress_next (hnext rfl) hsplit
  | exception name => exact absurd houtcome (hexpected _ _)

private theorem progress_iff_of_leftLoop {phase : PollPhase} {actions : List PollAction}
    (h : phase.leftLoop = true) :
    Progress env poll outcomes groups ⟨phase, actions⟩ ↔
      actions = (asked outcomes groups).flatMap (turn env poll outcomes) := by
  cases phase with
  | fetching token group rest anySuccess => cases h
  | processing token group snapshot rest process => cases h
  | _ => exact ⟨fun ⟨_, _, hactions⟩ => hactions, fun hactions => ⟨[], by simp, hactions⟩⟩

/-- Every step advances the poll. -/
theorem Progress.step {s s' : PollRun} {event : PollEvent}
    (hexpected : ∀ pair name, outcomes pair ≠ .exception name)
    (hrules : ∀ g ∈ groups, g.rules ≠ []) (h : Progress env poll outcomes groups s)
    (hstep : PollRun.step env poll outcomes s event = some s') :
    Progress env poll outcomes groups s' := by
  obtain ⟨phase, actions⟩ := s
  cases event with
  | fetched =>
    cases phase with
    | fetching token group rest anySuccess => exact progress_fetched hexpected hrules h hstep
    | _ => cases hstep
  | committed answer =>
    obtain ⟨phase', hphase, rfl⟩ := Option.map_eq_some_iff.mp hstep
    by_cases hleft : phase.leftLoop = true
    · have hleft' := PollPhase.leftLoop_resume hleft hphase
      rw [PollPhase.requested_of_leftLoop hleft', List.append_nil]
      exact (progress_iff_of_leftLoop hleft').mpr ((progress_iff_of_leftLoop hleft).mp h)
    · cases phase with
      | processing token group snapshot rest process =>
        obtain ⟨done, hdone, hgroups, hactions⟩ := h
        obtain ⟨next, -, rfl⟩ := Option.map_eq_some_iff.mp hphase
        simp only at hactions
        rw [hactions]
        exact progress_ofProcess next hdone hgroups
      | fetching token group rest anySuccess => cases hphase
      | _ => exact absurd rfl hleft
  | sent outcome =>
    obtain ⟨phase', hphase, rfl⟩ := Option.map_eq_some_iff.mp hstep
    by_cases hleft : phase.leftLoop = true
    · exact (progress_iff_of_leftLoop (PollPhase.leftLoop_sent hleft hphase)).mpr
        ((progress_iff_of_leftLoop hleft).mp h)
    · cases phase with
      | processing token group snapshot rest process =>
        obtain ⟨next, -, rfl⟩ := Option.map_eq_some_iff.mp hphase
        exact h
      | fetching token group rest anySuccess => cases hphase
      | _ => exact absurd rfl hleft
  | raised error =>
    rw [PollRun.step] at hstep
    split_ifs at hstep with hleft
    obtain ⟨phase', hphase, rfl⟩ := Option.map_eq_some_iff.mp hstep
    obtain rfl := PollPhase.fail_raises hphase
    exact (progress_iff_of_leftLoop rfl).mpr ((progress_iff_of_leftLoop hleft).mp h)

/-- A poll whose token decrypts begins with its first group. -/
theorem progress_start {token : String}
    (htoken : env.decrypt poll.user.encryptedDonutToken = some token) :
    Progress env poll outcomes (groupRules poll.rules) (start env poll) := by
  have hphase : PollPhase.start env poll = .next token false (groupRules poll.rules) := by
    rw [PollPhase.start, htoken]
  rw [start, hphase]
  exact progress_next (List.forall_mem_nil _) rfl

/-- What a poll that has left its loop has done. -/
theorem actions_eq {token : String} {events : List PollEvent} {s : PollRun}
    (htoken : env.decrypt poll.user.encryptedDonutToken = some token)
    (hexpected : ∀ pair name, outcomes pair ≠ .exception name)
    (hrun : run (PollRun.step env poll outcomes) (start env poll) events = some s)
    (hleft : s.phase.leftLoop = true) :
    s.actions = (asked outcomes (groupRules poll.rules)).flatMap (turn env poll outcomes) :=
  (progress_iff_of_leftLoop hleft).mp
    (run_invariant _ (fun _ _ _ h hstep => h.step hexpected (fun _ => rules_ne_nil) hstep) hrun
      (progress_start htoken))

/-! ### Requests and handovers -/

/-- The item and the price type of a request. -/
def pair? : PollAction → Option (String × PriceType)
  | .requested pair => some pair
  | .handed _ _ => none

/-- The group that is handed over, by its item and price type, and the arguments of `process`. -/
def handover? : PollAction → Option ((String × PriceType) × ProcessArgs)
  | .requested _ => none
  | .handed pair args => some (pair, args)

/-- What a poll has requested. -/
def requests (s : PollRun) : List (String × PriceType) := s.actions.filterMap pair?

/-- What a poll has handed over. -/
def handovers (s : PollRun) : List ((String × PriceType) × ProcessArgs) :=
  s.actions.filterMap handover?

/-- The rules that `process` is called with, each with the snapshot that comes with it. -/
def handedRules (s : PollRun) : List (ℕ × PriceSnapshot) :=
  s.handovers.flatMap fun h => h.2.ruleIds.map fun id => (id, h.2.snapshot)

/-- A poll of the rules of a user that is over has taken each enabled rule once. -/
structure TakesEachOnce (env : Environment) (outcomes : String × PriceType → PriceOutcome)
    (user : User) (rules : List WatchRule) (s : PollRun) : Prop where
  /-- No item and price type is requested twice. -/
  nodup : s.requests.Nodup
  /-- Without an authentication error, those of the enabled rules are requested. -/
  complete : (∀ pair ∈ s.requests, (outcomes pair).isAuthentication = false) →
    ∀ pair, pair ∈ s.requests ↔ ∃ r ∈ rules, r.enabled = true ∧ r.request = pair
  /-- The enabled rules for whose request `get_price` has returned are handed over, once each, with
  the snapshot of their own request. -/
  once : s.handedRules.Perm ((rules.filter fun r =>
    r.enabled && decide (r.request ∈ s.requests)).filterMap fun r =>
      ((outcomes r.request).snapshot? env r.request).map fun snapshot => (r.id, snapshot))
  /-- The arguments of a call are the user, the snapshot of the group and no initial rule. -/
  own : ∀ h ∈ s.handovers, h.2.discordUserId = user.discordUserId ∧
    (outcomes h.1).snapshot? env h.1 = some h.2.snapshot ∧ h.2.notifyInitialRuleId = none
  /-- Nothing is requested or handed over after an authentication error. -/
  ends : ∀ before pair after, s.actions = before ++ .requested pair :: after →
    (outcomes pair).isAuthentication = true → after = []

private theorem requests_turns (gs : List PollGroup) :
    (gs.flatMap (turn env poll outcomes)).filterMap pair? = gs.map PollGroup.request := by
  induction gs with
  | nil => rfl
  | cons g gs ih =>
    rw [List.flatMap_cons, List.filterMap_append, ih, turn]
    cases (outcomes g.request).snapshot? env g.request <;> rfl

private theorem handovers_turns (gs : List PollGroup) :
    (gs.flatMap (turn env poll outcomes)).filterMap handover? = gs.filterMap fun g =>
      ((outcomes g.request).snapshot? env g.request).map fun snapshot =>
        (g.request, PollPhase.processArgs poll g snapshot) := by
  induction gs with
  | nil => rfl
  | cons g gs ih =>
    rw [List.flatMap_cons, List.filterMap_append, ih, turn, List.filterMap_cons]
    cases h : (outcomes g.request).snapshot? env g.request <;> simp [handover?, h]

/-- The rules of the groups that are handed over. -/
private theorem handedRules_turns {gs : List PollGroup}
    (hgs : ∀ g ∈ gs, ∀ r ∈ g.rules, r.request = g.request) :
    ((gs.filterMap fun g => ((outcomes g.request).snapshot? env g.request).map fun snapshot =>
      (g.request, PollPhase.processArgs poll g snapshot)).flatMap fun h =>
        h.2.ruleIds.map fun id => (id, h.2.snapshot)) =
      (gs.flatMap PollGroup.rules).filterMap fun r =>
        ((outcomes r.request).snapshot? env r.request).map fun snapshot => (r.id, snapshot) := by
  induction gs with
  | nil => rfl
  | cons g gs ih =>
    obtain ⟨hg, hgs⟩ := List.forall_mem_cons.mp hgs
    have hrules : (g.rules.filterMap fun r => ((outcomes r.request).snapshot? env r.request).map
        fun snapshot => (r.id, snapshot)) = g.rules.filterMap fun r =>
          ((outcomes g.request).snapshot? env g.request).map fun snapshot => (r.id, snapshot) :=
      List.filterMap_congr fun r hr => by rw [hg r hr]
    rw [List.flatMap_cons, List.filterMap_append, hrules, ← ih hgs, List.filterMap_cons]
    cases h : (outcomes g.request).snapshot? env g.request <;>
      simp [PollPhase.processArgs, Function.comp_def]

private theorem snapshot?_of_isAuthentication {pair : String × PriceType}
    (h : (outcomes pair).isAuthentication = true) : (outcomes pair).snapshot? env pair = none := by
  cases houtcome : outcomes pair with
  | listing selected checkedAt pagesScanned =>
    rw [houtcome] at h
    cases h
  | _ => rfl

/-- The turns of the groups that are asked end with the first authentication error. -/
private theorem turns_end {before after : List PollAction} {pair : String × PriceType}
    (h : (asked outcomes groups).flatMap (turn env poll outcomes) =
      before ++ .requested pair :: after) (hpair : (outcomes pair).isAuthentication = true) :
    after = [] := by
  rcases List.eq_nil_or_concat (asked outcomes groups) with hnil | ⟨init, last, hlast⟩
  · rw [hnil] at h
    simp at h
  · rw [List.concat_eq_append] at hlast
    have hinit : .requested pair ∉ init.flatMap (turn env poll outcomes) := by
      intro hmem
      obtain ⟨g, hg, hturn⟩ := List.mem_flatMap.mp hmem
      have hrequest : pair = g.request := by simpa [turn] using hturn
      have hdropLast : g ∈ (asked outcomes groups).dropLast := by
        rwa [hlast, List.dropLast_concat]
      rw [hrequest, FirstMatch.upTo_dropLast hdropLast] at hpair
      cases hpair
    have hend : ∀ {rest : List PollAction},
        turn env poll outcomes last = .requested pair :: rest → rest = [] := fun hturn => by
      obtain ⟨hrequest, rfl⟩ := List.cons.inj hturn
      rw [← PollAction.requested.inj hrequest] at hpair
      rw [snapshot?_of_isAuthentication hpair]
      rfl
    rw [hlast, List.flatMap_append, List.flatMap_singleton] at h
    rcases List.append_eq_append_iff.mp h with ⟨mid, -, hturn⟩ | ⟨mid, hmid, hturn⟩
    · cases mid with
      | nil => exact hend hturn
      | cons action mid =>
        have hmem : PollAction.requested pair ∈
            (((outcomes last.request).snapshot? env last.request).map fun snapshot =>
              PollAction.handed last.request
                (PollPhase.processArgs poll last snapshot)).toList := by
          rw [(List.cons.inj hturn).2]
          simp
        simp at hmem
    · cases mid with
      | nil => exact hend hturn.symm
      | cons action mid =>
        rw [← (List.cons.inj hturn).1] at hmid
        exact absurd (by rw [hmid]; simp) hinit

/-- The outcome of a request plays no part in what is handed over for the others. -/
private theorem handovers_filter {outcomes' : String × PriceType → PriceOutcome}
    {pair : String × PriceType} (hsame : ∀ p, p ≠ pair → outcomes' p = outcomes p)
    (gs : List PollGroup) :
    ((gs.filterMap fun g => ((outcomes' g.request).snapshot? env g.request).map fun snapshot =>
        (g.request, PollPhase.processArgs poll g snapshot)).filter fun h => h.1 ≠ pair) =
      (gs.filterMap fun g => ((outcomes g.request).snapshot? env g.request).map fun snapshot =>
        (g.request, PollPhase.processArgs poll g snapshot)).filter fun h => h.1 ≠ pair := by
  induction gs with
  | nil => rfl
  | cons g gs ih =>
    rw [List.filterMap_cons, List.filterMap_cons]
    by_cases hpair : g.request = pair
    · cases (outcomes' g.request).snapshot? env g.request <;>
        cases (outcomes g.request).snapshot? env g.request <;> simpa [hpair] using ih
    · rw [hsame g.request hpair]
      cases (outcomes g.request).snapshot? env g.request <;> simpa [hpair] using ih

section Over

variable {user : User} {rules : List WatchRule} {loadedAt : ℕ} {events : List PollEvent}
  {s : PollRun}

/-- What the actions of a poll that is over say about its requests and handovers. -/
private theorem takesEachOnce_of_actions
    (hactions : s.actions =
      (asked outcomes (groupRules (rules.filter (·.enabled)))).flatMap
        (turn env ⟨user, rules.filter (·.enabled), loadedAt⟩ outcomes)) :
    s.TakesEachOnce env outcomes user rules := by
  have hbegin : asked outcomes (groupRules (rules.filter (·.enabled))) <+:
      groupRules (rules.filter (·.enabled)) := FirstMatch.upTo_isPrefix _ _
  have hrequests := congrArg (List.filterMap pair?) hactions
  have hhandovers := congrArg (List.filterMap handover?) hactions
  rw [requests_turns] at hrequests
  rw [handovers_turns] at hhandovers
  change s.requests = _ at hrequests
  change s.handovers = _ at hhandovers
  refine ⟨?_, fun hnone pair => ?_, ?_, fun h hh => ?_, fun before pair after hsplit => ?_⟩
  · rw [hrequests]
    exact (groupRules_nodup _).sublist (hbegin.sublist.map _)
  · have hall : asked outcomes (groupRules (rules.filter (·.enabled))) =
        groupRules (rules.filter (·.enabled)) := by
      refine FirstMatch.upTo_eq_self fun g hg => hnone g.request ?_
      rw [hrequests]
      exact List.mem_map_of_mem hg
    rw [hrequests, hall, mem_map_request_groupRules]
    simp only [List.mem_filter, and_assoc]
  · have hshared : ∀ g ∈ asked outcomes (groupRules (rules.filter (·.enabled))),
        ∀ r ∈ g.rules, r.request = g.request :=
      fun g hg r hr => (mem_groupRules (hbegin.subset hg) hr).2
    rw [handedRules, hhandovers, handedRules_turns hshared, hrequests]
    refine ((flatMap_rules_perm hbegin.sublist).filterMap _).trans (.of_eq ?_)
    rw [List.filter_filter]
    refine congrArg _ (List.filter_congr fun r _ => Bool.and_comm _ _)
  · rw [hhandovers] at hh
    obtain ⟨g, hg, hmap⟩ := List.mem_filterMap.mp hh
    obtain ⟨snapshot, hsnapshot, rfl⟩ := Option.map_eq_some_iff.mp hmap
    exact ⟨rfl, hsnapshot, rfl⟩
  · exact turns_end (hactions.symm.trans hsplit)

/-- A poll whose token decrypts, and whose requests end with a snapshot or a `DonutApiError`, takes
each enabled rule of its user once; and the outcome of a request, unless it is an authentication
error, plays no part in what is handed over for the others. -/
theorem takesEachOnce {token : String}
    (htoken : env.decrypt user.encryptedDonutToken = some token)
    (hexpected : ∀ pair name, outcomes pair ≠ .exception name)
    (hrun : run (step env ⟨user, rules.filter (·.enabled), loadedAt⟩ outcomes)
      (start env ⟨user, rules.filter (·.enabled), loadedAt⟩) events = some s)
    (hleft : s.phase.leftLoop = true) :
    s.TakesEachOnce env outcomes user rules ∧
      ∀ pair outcomes' events' s', (∀ p, p ≠ pair → outcomes' p = outcomes p) →
        (outcomes pair).isAuthentication = false → (outcomes' pair).isAuthentication = false →
        (∀ name, outcomes' pair ≠ .exception name) →
        run (step env ⟨user, rules.filter (·.enabled), loadedAt⟩ outcomes')
          (start env ⟨user, rules.filter (·.enabled), loadedAt⟩) events' = some s' →
        s'.phase.leftLoop = true →
          s'.requests = s.requests ∧
            (s'.handovers.filter fun h => h.1 ≠ pair) =
              s.handovers.filter fun h => h.1 ≠ pair := by
  have hactions := actions_eq htoken hexpected hrun hleft
  refine ⟨takesEachOnce_of_actions hactions, ?_⟩
  intro pair outcomes' events' s' hsame hpair hpair' hexpected' hrun' hleft'
  have hall : ∀ p name, outcomes' p ≠ .exception name := fun p name => by
    by_cases hp : p = pair
    · exact hp ▸ hexpected' name
    · rw [hsame p hp]
      exact hexpected p name
  have hactions' := actions_eq htoken hall hrun' hleft'
  have hasked : asked outcomes' (groupRules (rules.filter (·.enabled))) =
      asked outcomes (groupRules (rules.filter (·.enabled))) := by
    refine FirstMatch.upTo_congr fun g _ => ?_
    by_cases hg : g.request = pair
    · rw [hg, hpair, hpair']
    · rw [hsame _ hg]
  refine ⟨?_, ?_⟩
  · rw [requests, requests, hactions, hactions', requests_turns, requests_turns, hasked]
  · rw [handovers, handovers, hactions, hactions', handovers_turns, handovers_turns, hasked]
    exact handovers_filter hsame _

end Over

/-- Rules of user 1 for elytras: two for the total price, one per item, and one that is paused. -/
def elytraRules : List WatchRule :=
  [RuleDraft.elytra.row 1, { RuleDraft.elytra with priceType := .perItem }.row 2,
    RuleDraft.elytra.row 3, (RuleDraft.elytra.row 4).withEnabled false]

/-- Only the request for the total price returns. -/
def totalOnly (pair : String × PriceType) : PriceOutcome :=
  if pair.2 = .total then .listing (some (.elytra 90)) 0 1
  else .donutApiError (.response "Unexpected HTTP status 404")

/-- A poll of the four rules. -/
theorem takesEachOnce_elytra :
    let poll : Poll := ⟨{ discordUserId := 1, encryptedDonutToken := "token", tokenFingerprint :=
      "alice" }, elytraRules.filter (·.enabled), 0⟩
    ∃ s, run (step .plain poll totalOnly) (start .plain poll)
        [.fetched, .committed (.alerts []), .fetched] = some s ∧
      s.handedRules.map (fun h => (h.1, h.2.selectedPrice)) = [(1, some 90), (3, some 90)] ∧
      s.TakesEachOnce .plain totalOnly poll.user elytraRules := by
  intro poll
  have hover : (run (step .plain poll totalOnly) (start .plain poll)
      [.fetched, .committed (.alerts []), .fetched]).map (fun s =>
        (s.phase.leftLoop, s.handedRules.map fun h => (h.1, h.2.selectedPrice))) =
          some (true, [(1, some 90), (3, some 90)]) := by
    decide +kernel
  obtain ⟨s, hrun, hover⟩ := Option.map_eq_some_iff.mp hover
  obtain ⟨hleft, hhanded⟩ := Prod.mk.inj hover
  have hexpected : ∀ pair name, totalOnly pair ≠ .exception name := fun pair name => by
    rw [totalOnly]
    split_ifs <;> exact nofun
  exact ⟨s, hrun, hhanded, (takesEachOnce rfl hexpected hrun hleft).1⟩

end PollRun

end DonutMonitor
