import DonutMonitor.Application.PollGroups
import DonutMonitor.Infrastructure.GetPrice

/-!
# The item ids of stored rules

`WatchService.add` normalises the item string once and stores the result. The lookup that accepts
it, `get_price` and the lookup of the display name normalise the result again. Where the second
normalisation changes something, as for `minecraft:minecraft:elytra`, the stored id is neither a key
of the index nor the id of the snapshots that are fetched for the rule.

## Main definitions

* `WatchRule.AddedBy` — a stored rule comes from a call of `add`.
* `WatchRule.Canonical` — the item id of a rule is a key of the index and that of its snapshots.
* `WatchRule.SharesGroup` — two rules are polled together.
* `AddCall.IsTidy` — the second normalisation changes nothing.

## Main results

* `System.Reachable.addedBy` — every stored rule comes from a call of `add`.
* `System.Reachable.canonical_iff` — the item ids of two rules are canonical, and the rules are
  polled together if they are for one item and price type, if and only if both calls are tidy.
-/

namespace DonutMonitor

open Transition

namespace AddCall

variable (env : Environment) (call : AddCall)

/-- The key under which `contains` looks up the item of a call. -/
def manifestItem : String :=
  normalizeItemId env.lower (normalizeItemId env.lower call.itemId)

/-- The second normalisation of the item string changes nothing. -/
def IsTidy : Prop := call.manifestItem env = normalizeItemId env.lower call.itemId

end AddCall

namespace WatchRule

variable (env : Environment) (rule rule' : WatchRule)

/-- The rule has the owner, the item and the price type of a call that was accepted. -/
def AddedBy (call : AddCall) : Prop :=
  ∃ draft, WatchService.draft env call = .ok draft ∧ rule.discordUserId = draft.discordUserId ∧
    rule.request = (draft.itemId, draft.priceType)

/-- The item id is a key of the index, and that of every snapshot fetched for the rule. -/
def Canonical : Prop :=
  rule.itemId ∈ env.icons.keys ∧
    ∀ (search : PriceSearch) requestPage checkedAt snapshot, search.lower = env.lower →
      (search.getPrice requestPage rule.itemId rule.priceType checkedAt).2 = .ok snapshot →
        snapshot.itemId = rule.itemId

/-- A poll that has both rules puts them into one group. -/
def SharesGroup : Prop :=
  ∀ rules, rule ∈ rules → rule' ∈ rules →
    ∃ group ∈ groupRules rules, rule ∈ group.rules ∧ rule' ∈ group.rules

variable {env rule rule'} {call call' : AddCall}

/-- Two rules are polled together if and only if their requests are the same. -/
theorem sharesGroup_iff : rule.SharesGroup rule' ↔ rule.request = rule'.request := by
  constructor
  · intro h
    obtain ⟨group, hgroup, hrule, hrule'⟩ := h [rule, rule'] (by simp) (by simp)
    exact (mem_groupRules hgroup hrule).2.trans (mem_groupRules hgroup hrule').2.symm
  · intro heq rules hrule hrule'
    obtain ⟨group, hgroup, hrequest⟩ :=
      List.mem_map.mp (mem_map_request_groupRules.mpr ⟨rule, hrule, rfl⟩)
    have hmem : ∀ r ∈ rules, r.request = rule.request → r ∈ group.rules := fun r hr hsame => by
      rw [rules_of_mem_groupRules hgroup, List.mem_filter, hrequest]
      exact ⟨hr, decide_eq_true hsame⟩
    exact ⟨group, hgroup, hmem rule hrule rfl, hmem rule' hrule' heq.symm⟩

/-- A rule with the values of an accepted draft. -/
private theorem addedBy_of_draft
    (h : (WatchService.draft env call).toOption.map (fun draft =>
      (draft.discordUserId, draft.itemId, draft.priceType)) =
        some (rule.discordUserId, rule.request)) : rule.AddedBy env call := by
  obtain ⟨draft, hdraft, hvalues⟩ := Option.map_eq_some_iff.mp h
  obtain ⟨huser, hrequest⟩ := Prod.mk.inj hvalues
  exact ⟨draft, Except.toOption_eq_some.mp hdraft, huser.symm, hrequest.symm⟩

/-- The request of a rule is that of the call that added it. -/
theorem AddedBy.request_eq (h : rule.AddedBy env call) :
    rule.request = (normalizeItemId env.lower call.itemId, call.priceType) := by
  obtain ⟨draft, hdraft, -, hrequest⟩ := h
  exact hrequest.trans (WatchService.draft_ok hdraft).2

/-- The item of a call that was accepted is in the index. -/
theorem AddedBy.manifestItem_mem (h : rule.AddedBy env call) :
    call.manifestItem env ∈ env.icons.keys := by
  obtain ⟨draft, hdraft, -⟩ := h
  rw [WatchService.draft] at hdraft
  split at hdraft
  · cases hdraft
  · rename_i hcontains
    simpa [IconService.contains, AddCall.manifestItem] using hcontains

/-- Rules of tidy calls are canonical. -/
theorem AddedBy.canonical (h : rule.AddedBy env call) (htidy : call.IsTidy env) :
    rule.Canonical env := by
  have hitem : rule.itemId = normalizeItemId env.lower call.itemId := (Prod.mk.inj h.request_eq).1
  refine ⟨hitem.trans htidy.symm ▸ h.manifestItem_mem,
    fun search requestPage checkedAt snapshot hlower hprice => ?_⟩
  rw [PriceSearch.itemId_of_getPrice hprice, hlower, hitem]
  exact htidy

/-- Only rules of tidy calls have a key of the index. -/
theorem AddedBy.isTidy (hkeys : ∀ key ∈ env.icons.keys, normalizeItemId env.lower key = key)
    (h : rule.AddedBy env call) (hcanonical : rule.Canonical env) : call.IsTidy env := by
  have hfixed := hkeys _ hcanonical.1
  rwa [(Prod.mk.inj h.request_eq).1] at hfixed

/-- The item ids of two rules are canonical, and the rules are polled together if they are for one
item of the index and one price type, if and only if both calls are tidy. -/
theorem AddedBy.canonical_and_sharesGroup_iff
    (hkeys : ∀ key ∈ env.icons.keys, normalizeItemId env.lower key = key)
    (h : rule.AddedBy env call) (h' : rule'.AddedBy env call') :
    rule.Canonical env ∧ rule'.Canonical env ∧
        (call.manifestItem env = call'.manifestItem env → call.priceType = call'.priceType →
          rule.SharesGroup rule') ↔
      call.IsTidy env ∧ call'.IsTidy env := by
  constructor
  · exact fun ⟨hcanonical, hcanonical', _⟩ =>
      ⟨h.isTidy hkeys hcanonical, h'.isTidy hkeys hcanonical'⟩
  · rintro ⟨htidy, htidy'⟩
    refine ⟨h.canonical htidy, h'.canonical htidy', fun hitem hpriceType => ?_⟩
    rw [sharesGroup_iff, h.request_eq, h'.request_eq, ← htidy, ← htidy', hitem, hpriceType]

end WatchRule

/-! ### Along a run -/

namespace System

variable {env : Environment} {s : System}

/-- Every stored rule comes from a call of `add`. -/
theorem Reachable.addedBy (h : Reachable env s) {rule : WatchRule}
    (hrule : rule ∈ s.database.store.watchRules.rows) : ∃ call, rule.AddedBy env call := by
  have hinv := h.invariant (I := fun s => Reachable env s ∧ ∀ id v,
    s.database.store.view id = some v → ∃ call, v.rule.AddedBy env call) ?_ ?_
  · exact hinv.2 rule.id ⟨rule, _⟩ (Store.view_eq_some.mpr ⟨Table.mem_rows_iff.mp hrule, rfl⟩)
  · rintro s label s' ⟨hs, hold⟩ hstep
    refine ⟨hs.tail hstep, fun id v hv => ?_⟩
    rcases step_database hstep with hsame | ⟨origin, t, answer, hcommit, hwho⟩
    · exact hold id v (hsame ▸ hv)
    · rcases Transaction.exec_rule (Database.commit_eq_ok.mp hcommit).1 hv with
        ⟨w, hw, huser, hrequest⟩ | ⟨draft, rfl, hrow⟩
      · obtain ⟨call, draft, hdraft, huser', hrequest'⟩ := hold id w hw
        exact ⟨call, draft, hdraft, huser.trans huser', hrequest.trans hrequest'⟩
      · rcases hwho with ⟨operation, -, ht⟩ | ⟨i, input, creator, -, hcreator, hpending⟩
        · exact absurd ht Operation.not_create
        · obtain ⟨hcreates, -⟩ := Task.creates_of_pending hpending
          obtain ⟨call, rfl⟩ : ∃ call, creator = .add call (.creating draft) := by
            cases creator with
            | add call phase =>
              cases phase with
              | creating draft' => exact ⟨call, by rw [Option.some.inj hcreates]⟩
              | _ => cases hcreates
            | poll p phase => cases hcreates
          obtain ⟨-, -, hdraft⟩ := hs.add_commits hcreator
          exact ⟨call, draft, hdraft, by rw [hrow]; rfl, by rw [hrow]; rfl⟩
  · exact ⟨.refl _, fun id v hv => by simp at hv⟩

/-- In every reachable system the rules come from calls of `add`; and two of them have canonical
item ids, and are polled together if they are for one item of the index and one price type, if and
only if the item strings of both calls are tidy. -/
theorem Reachable.canonical_iff
    (hkeys : ∀ key ∈ env.icons.keys, normalizeItemId env.lower key = key)
    (h : Reachable env s) {rule rule' : WatchRule}
    (hrule : rule ∈ s.database.store.watchRules.rows)
    (hrule' : rule' ∈ s.database.store.watchRules.rows) :
    (∃ call, rule.AddedBy env call) ∧ (∃ call', rule'.AddedBy env call') ∧
      ∀ call call', rule.AddedBy env call → rule'.AddedBy env call' →
        (rule.Canonical env ∧ rule'.Canonical env ∧
            (call.manifestItem env = call'.manifestItem env → call.priceType = call'.priceType →
              rule.SharesGroup rule') ↔
          call.IsTidy env ∧ call'.IsTidy env) :=
  ⟨h.addedBy hrule, h.addedBy hrule', fun _ _ hadded hadded' =>
    hadded.canonical_and_sharesGroup_iff hkeys hadded'⟩

private theorem plain_keys : ∀ key ∈ Environment.plain.icons.keys,
    normalizeItemId Environment.plain.lower key = key := by
  decide +kernel

/-- A run whose two rules have the owners, items and price types that two calls ask for. -/
private theorem exists_rules (call call' : AddCall) {labels : List Label}
    {request request' : String × PriceType}
    (hrun : (run (step .plain) {} labels).map (fun s : System =>
      s.database.store.watchRules.rows.map fun rule => (rule.discordUserId, rule.request)) =
        some [(1, request), (1, request')])
    (hcall : (WatchService.draft .plain call).toOption.map (fun draft =>
      (draft.discordUserId, draft.itemId, draft.priceType)) = some (1, request))
    (hcall' : (WatchService.draft .plain call').toOption.map (fun draft =>
      (draft.discordUserId, draft.itemId, draft.priceType)) = some (1, request')) :
    ∃ s rule rule', run (step .plain) {} labels = some s ∧
      s.database.store.watchRules.rows = [rule, rule'] ∧
      rule.AddedBy .plain call ∧ rule'.AddedBy .plain call' ∧
      rule.request = request ∧ rule'.request = request' := by
  obtain ⟨s, hs, hrows⟩ := Option.map_eq_some_iff.mp hrun
  obtain ⟨rule, rest, hrest, hrule, hmap⟩ := List.map_eq_cons_iff.mp hrows
  obtain ⟨rule', rest', rfl, hrule', hmap'⟩ := List.map_eq_cons_iff.mp hmap
  obtain rfl := List.map_eq_nil_iff.mp hmap'
  exact ⟨s, rule, rule', hs, hrest, WatchRule.addedBy_of_draft (hcall.trans (by rw [hrule])),
    WatchRule.addedBy_of_draft (hcall'.trans (by rw [hrule'])), (Prod.mk.inj hrule).2,
    (Prod.mk.inj hrule').2⟩

/-- User 1 asks to watch for elytras once more, without the namespace. -/
def plainCall : AddCall := { AddCall.elytra with itemId := "elytra" }

/-- Both watches are added. -/
def tidySpellings : List Label :=
  [.operation (.authenticate 1 "token" 0), .startAdd .elytra, .commit 0 { ruleKey := 1 },
    .startAdd plainCall, .commit 1 { ruleKey := 2 }]

/-- Both calls are tidy, so that the two rules are polled together. -/
theorem Reachable.canonical_iff_tidySpellings : ∃ s rule rule',
    run (step .plain) {} tidySpellings = some s ∧
      s.database.store.watchRules.rows = [rule, rule'] ∧
      rule.Canonical .plain ∧ rule'.Canonical .plain ∧ rule.SharesGroup rule' := by
  have hrun : (run (step .plain) {} tidySpellings).map (fun s : System =>
      s.database.store.watchRules.rows.map fun rule => (rule.discordUserId, rule.request)) =
        some [(1, "elytra", .total), (1, "elytra", .total)] := by
    decide +kernel
  obtain ⟨s, rule, rule', hs, hrows, hadded, hadded', -⟩ :=
    exists_rules .elytra plainCall hrun (by decide +kernel) (by decide +kernel)
  have hreachable : Reachable .plain s := ⟨tidySpellings, hs⟩
  obtain ⟨hcanonical, hcanonical', hshares⟩ :=
    ((hreachable.canonical_iff plain_keys (by simp [hrows]) (by simp [hrows])).2.2 _ _ hadded
      hadded').mpr ⟨by rw [AddCall.IsTidy]; decide +kernel, by rw [AddCall.IsTidy]; decide +kernel⟩
  exact ⟨s, rule, rule', hs, hrows, hcanonical, hcanonical', hshares (by decide +kernel) rfl⟩

/-- User 1 asks to watch for elytras once more, with the namespace written twice. -/
def secondCall : AddCall := { AddCall.elytra with itemId := "minecraft:minecraft:elytra" }

/-- Both watches are added. -/
def twoSpellings : List Label :=
  [.operation (.authenticate 1 "token" 0), .startAdd .elytra, .commit 0 { ruleKey := 1 },
    .startAdd secondCall, .commit 1 { ruleKey := 2 }]

/-- The second rule is for the same item and price type as the first, but its item id is not a key
of the index, and the two rules are not polled together. -/
theorem not_canonical : ∃ s rule rule', run (step .plain) {} twoSpellings = some s ∧
    s.database.store.watchRules.rows = [rule, rule'] ∧
    rule.AddedBy .plain .elytra ∧ rule'.AddedBy .plain secondCall ∧
    AddCall.elytra.manifestItem .plain = secondCall.manifestItem .plain ∧
    AddCall.elytra.priceType = secondCall.priceType ∧
    ¬ rule'.Canonical .plain ∧ ¬ rule.SharesGroup rule' := by
  have hrun : (run (step .plain) {} twoSpellings).map (fun s : System =>
      s.database.store.watchRules.rows.map fun rule => (rule.discordUserId, rule.request)) =
        some [(1, "elytra", .total), (1, "minecraft:elytra", .total)] := by
    decide +kernel
  obtain ⟨s, rule, rule', hs, hrows, hadded, hadded', hrequest, hrequest'⟩ :=
    exists_rules .elytra secondCall hrun (by decide +kernel) (by decide +kernel)
  refine ⟨s, rule, rule', hs, hrows, hadded, hadded', by decide +kernel, rfl, fun h => ?_, ?_⟩
  · have hkey := h.1
    rw [(Prod.mk.inj hrequest').1] at hkey
    revert hkey
    decide +kernel
  · rw [WatchRule.sharesGroup_iff, hrequest, hrequest']
    decide

end System

end DonutMonitor
