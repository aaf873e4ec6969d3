import DonutMonitor.Application.CanonicalItems
import DonutMonitor.Foundations.Best
import DonutMonitor.Presentation.RuleCommands
import Mathlib.Data.Char
import Mathlib.Data.List.Lex
import Mathlib.Data.Prod.Lex

/-!
# The choices for an item

`IconService.autocomplete` offers the entries whose id or name contains the typed text, at most 25
of them, those first that start with it. The value of a choice is the key of its entry, which
`/watch add` and `/price` normalise like any other text.

## Main definitions

* `IconService.autocomplete` — the entries that are offered.
* `itemChoices` — the choices for an item.
* `IconEntry.IsTidy` — the key of an entry is normalised.

## Main results

* `IconService.offers` — which entries are offered, and in which order.
* `itemChoices_picked` — what a choice leads to.
-/

namespace DonutMonitor

open Best

namespace IconEntry

variable (casefold : String → String) (needle : String) (entry : IconEntry)

/-- `entry.item_id.casefold().startswith(needle)`. -/
def idStarts : Bool := needle.toList.isPrefixOf (casefold entry.itemId).toList

/-- `entry.display_name.casefold().startswith(needle)`. -/
def nameStarts : Bool := needle.toList.isPrefixOf (casefold entry.displayName).toList

/-- The entry is one of the `matches`. -/
def isMatch : Bool :=
  needle = "" ∨ needle.toList <:+: (casefold entry.itemId).toList ∨
    needle.toList <:+: (casefold entry.displayName).toList

/-- The id of the entry starts with the text, or its name is the text. -/
def isNamed : Bool := entry.idStarts casefold needle || casefold entry.displayName = needle

/-- The key by which the `matches` are sorted. -/
def sortKey : Bool ×ₗ (Bool ×ₗ List Char) :=
  toLex (!entry.idStarts casefold needle,
    toLex (!entry.nameStarts casefold needle, (casefold entry.displayName).toList))

end IconEntry

namespace IconService

/-- The text that is searched for; the first argument is `str.casefold`. -/
def needle (casefold : String → String) (query : String) : String := strip (casefold query)

/-- `IconService.autocomplete`. -/
def autocomplete (casefold : String → String) (icons : IconService) (query : String)
    (limit : ℕ) : List IconEntry :=
  best (IconEntry.sortKey casefold (needle casefold query)) limit
    (icons.rows.filter (·.isMatch casefold (needle casefold query)))

end IconService

/-- `_item_choices`. -/
def itemChoices (casefold : String → String) (icons : IconService) (current : String) :
    List (Choice String) :=
  (icons.autocomplete casefold current 25).map fun entry =>
    ⟨Choice.cut s!"{entry.displayName} — {entry.itemId}", entry.itemId⟩

example : (itemChoices id (Table.empty.insert ⟨"elytra", "Elytra", ""⟩ (by decide)) "ely").map
    (fun c => (c.name, c.value)) = [("Elytra — elytra", "elytra")] := by decide +kernel

/-! ### The entries that are offered -/

namespace IconEntry

variable {casefold : String → String} {needle : String} {entry entry' : IconEntry}

theorem isMatch_of_idStarts (h : entry.idStarts casefold needle = true) :
    entry.isMatch casefold needle = true :=
  decide_eq_true (.inr (.inl (List.isPrefixOf_iff_prefix.mp h).isInfix))

theorem nameStarts_of_eq (h : casefold entry.displayName = needle) :
    entry.nameStarts casefold needle = true :=
  List.isPrefixOf_iff_prefix.mpr (h ▸ List.prefix_rfl)

theorem isNamed_iff : entry.isNamed casefold needle = true ↔
    entry.idStarts casefold needle = true ∨ casefold entry.displayName = needle := by
  simp [isNamed]

theorem isMatch_of_isNamed (h : entry.isNamed casefold needle = true) :
    entry.isMatch casefold needle = true := by
  rcases isNamed_iff.mp h with hid | hname
  · exact isMatch_of_idStarts hid
  · exact decide_eq_true
      (.inr (.inr (List.isPrefixOf_iff_prefix.mp (nameStarts_of_eq hname)).isInfix))

/-- The entries whose id starts with the text come before all others. -/
theorem lt_of_idStarts (h : entry.idStarts casefold needle = true)
    (h' : entry'.idStarts casefold needle = false) :
    entry.sortKey casefold needle < entry'.sortKey casefold needle := by
  rw [sortKey, sortKey, Prod.Lex.toLex_lt_toLex, h, h']
  exact .inl (Bool.lt_iff.mpr ⟨rfl, rfl⟩)

/-- Before an entry whose name is the text only entries come whose id starts with it or that have
the same name. -/
theorem isNamed_of_le (hle : entry'.sortKey casefold needle ≤ entry.sortKey casefold needle)
    (h : entry.isNamed casefold needle = true) : entry'.isNamed casefold needle = true := by
  rw [isNamed_iff] at h ⊢
  cases hid' : entry'.idStarts casefold needle with
  | true => exact .inl rfl
  | false =>
    have hid : entry.idStarts casefold needle = false :=
      Bool.eq_false_iff.mpr fun hid => (lt_of_idStarts hid hid').not_ge hle
    obtain hname := h.resolve_left (by simp [hid])
    rw [sortKey, sortKey, Prod.Lex.toLex_le_toLex, hid, hid', nameStarts_of_eq hname] at hle
    obtain ⟨-, hle⟩ := hle.resolve_left (lt_irrefl _)
    rw [Prod.Lex.toLex_le_toLex] at hle
    cases hname' : entry'.nameStarts casefold needle with
    | true =>
      obtain ⟨-, hle⟩ := hle.resolve_left (by simp [hname'])
      have hprefix := not_lt.mp (List.isPrefixOf_iff_prefix.mp hname').le
      exact .inr (String.toList_inj.mp (le_antisymm (hname ▸ hle) hprefix))
    | false => simp [hname', Bool.lt_iff] at hle

end IconEntry

namespace IconService

variable (casefold : String → String) (icons : IconService) (query : String) (limit : ℕ)

theorem nodup_rows : icons.rows.Nodup := .of_map _ icons.nodup

/-- The first entry comes before the second when both match the query. -/
abbrev Before (entry entry' : IconEntry) : Prop :=
  Precedes (IconEntry.sortKey casefold (needle casefold query)) icons.rows entry entry'

/-- The number of the entries that match the query and come before an entry. -/
def rank (entry : IconEntry) : ℕ :=
  icons.rows.countP fun entry' => entry'.isMatch casefold (needle casefold query) ∧
    icons.Before casefold query entry' entry

theorem mem_autocomplete_iff {entry : IconEntry} :
    entry ∈ icons.autocomplete casefold query limit ↔
      (entry ∈ icons.rows ∧ entry.isMatch casefold (needle casefold query) = true) ∧
        icons.rank casefold query entry < limit := by
  rw [autocomplete, mem_best_iff (icons.nodup_rows.filter _), List.mem_filter]
  refine and_congr_right fun ⟨hmem, hmatch⟩ => ?_
  rw [List.countP_filter]
  refine iff_of_eq (congrArg (· < limit) (List.countP_congr fun e he => ?_))
  rw [Bool.and_comm, Bool.and_eq_true, decide_eq_true_eq, decide_eq_true_eq]
  exact and_congr_right fun h => precedes_filter h hmatch

theorem pairwise_autocomplete :
    (icons.autocomplete casefold query limit).Pairwise (icons.Before casefold query) := by
  refine (pairwise_best (icons.nodup_rows.filter _) limit).imp_of_mem fun {a b} ha hb h => ?_
  have hmatch {entry : IconEntry} (h : entry ∈ icons.autocomplete casefold query limit) :=
    ((icons.mem_autocomplete_iff casefold query limit).mp h).1.2
  exact (precedes_filter (hmatch ha) (hmatch hb)).mp h

/-- The keys of the entries that are offered are different. -/
theorem nodup_map_autocomplete :
    ((icons.autocomplete casefold query limit).map IconEntry.itemId).Nodup := by
  refine List.Nodup.sublist ((List.take_sublist _ _).map _) ?_
  refine ((List.perm_insertionSort _ _).map _).nodup_iff.mpr ?_
  exact icons.nodup.sublist (List.filter_sublist.map _)

/-- The entries that are offered are the first ones of the matches. Those whose id starts with the
text, and those whose name it is, are offered when there are at most `limit` of them, and when
there are more of the former, then only such are offered. -/
theorem offers :
    (icons.autocomplete casefold query limit).Pairwise (icons.Before casefold query) ∧
      (∀ entry, entry ∈ icons.autocomplete casefold query limit ↔
        (entry ∈ icons.rows ∧ entry.isMatch casefold (needle casefold query) = true) ∧
          icons.rank casefold query entry < limit) ∧
      (icons.rows.countP (·.isNamed casefold (needle casefold query)) ≤ limit →
        ∀ entry ∈ icons.rows, entry.isNamed casefold (needle casefold query) = true →
          entry ∈ icons.autocomplete casefold query limit) ∧
      (limit ≤ icons.rows.countP (·.idStarts casefold (needle casefold query)) →
        ∀ entry ∈ icons.autocomplete casefold query limit,
          entry.idStarts casefold (needle casefold query) = true) := by
  have hl := icons.nodup_rows.filter (·.isMatch casefold (needle casefold query))
  refine ⟨icons.pairwise_autocomplete casefold query limit,
    fun entry => icons.mem_autocomplete_iff casefold query limit, ?_, ?_⟩
  · intro hcount entry hentry hnamed
    refine mem_best_of_countP_le hl (fun entry' hentry' hle => IconEntry.isNamed_of_le hle hnamed)
      (List.filter_sublist.countP_le.trans hcount) (List.mem_filter.mpr ⟨hentry, ?_⟩)
    exact IconEntry.isMatch_of_isNamed hnamed
  · intro hcount entry hentry
    refine of_mem_best hl (p := (·.idStarts casefold (needle casefold query))) ?_ ?_ hentry
    · exact fun entry' hentry' hstarts hnot => IconEntry.lt_of_idStarts hstarts hnot
    · rw [List.countP_filter]
      refine hcount.trans (List.countP_mono_left fun entry' hentry' hstarts => ?_)
      rw [hstarts, IconEntry.isMatch_of_idStarts hstarts]
      rfl

end IconService

/-! ### What a choice leads to -/

/-- The key of the entry is normalised. -/
def IconEntry.IsTidy (lower : String → String) (entry : IconEntry) : Prop :=
  normalizeItemId lower entry.itemId = entry.itemId

namespace IconEntry.IsTidy

variable {env : Environment} {entry : IconEntry}

theorem contains (htidy : entry.IsTidy env.lower) (hentry : entry ∈ env.icons.rows) :
    env.icons.contains env.lower entry.itemId = true := by
  rw [IconService.contains, htidy]
  exact decide_eq_true (Table.mem_keys_of_mem hentry)

theorem displayName (htidy : entry.IsTidy env.lower) (hentry : entry ∈ env.icons.rows) :
    env.icons.displayName env.lower entry.itemId = entry.displayName := by
  rw [IconService.displayName, htidy, Table.mem_rows_iff.mp hentry]

/-- A call for a tidy entry is accepted when its threshold is. -/
theorem draft (htidy : entry.IsTidy env.lower) (hentry : entry ∈ env.icons.rows) {call : AddCall}
    (hcall : call.itemId = entry.itemId) {threshold : {q : ℚ // 0 < q}}
    (hthreshold : positiveDecimal env.parseDecimal call.threshold = .ok threshold) :
    ∃ draft, WatchService.draft env call = .ok draft ∧ draft.itemId = entry.itemId ∧
      draft.displayName = entry.displayName ∧ draft.threshold = threshold := by
  have hnormalized : normalizeItemId env.lower call.itemId = entry.itemId :=
    (congrArg _ hcall).trans htidy
  simp only [WatchService.draft, hnormalized, htidy.contains hentry, hthreshold]
  exact ⟨_, rfl, rfl, htidy.displayName hentry, rfl⟩

end IconEntry.IsTidy

/-- Different choices have different values. The value of a choice is the key of an entry. When this
key is normalised, `/watch add` accepts the choice with every positive threshold, under the name of
the entry, and the rule has its key, which is that of its snapshots; otherwise no rule that the
choice leads to has this key. -/
theorem itemChoices_picked (casefold : String → String) (env : Environment) (current : String) :
    ((itemChoices casefold env.icons current).map (·.value)).Nodup ∧
      (itemChoices casefold env.icons current).length ≤ 25 ∧
      ∀ choice ∈ itemChoices casefold env.icons current, choice.name.length ≤ 100 ∧
        ∃ entry ∈ env.icons.rows, choice.value = entry.itemId ∧
          ∀ call : AddCall, call.itemId = choice.value →
            (entry.IsTidy env.lower →
              (∀ threshold, positiveDecimal env.parseDecimal call.threshold = .ok threshold →
                ∃ draft, WatchService.draft env call = .ok draft ∧ draft.itemId = entry.itemId ∧
                  draft.displayName = entry.displayName ∧ draft.threshold = threshold) ∧
              ∀ rule : WatchRule, rule.AddedBy env call →
                rule.itemId = entry.itemId ∧ rule.Canonical env) ∧
            (¬entry.IsTidy env.lower →
              ∀ rule : WatchRule, rule.AddedBy env call → rule.itemId ≠ entry.itemId) := by
  refine ⟨?_, ?_, fun choice hchoice => ?_⟩
  · rw [itemChoices, List.map_map]
    exact env.icons.nodup_map_autocomplete casefold current 25
  · rw [itemChoices, List.length_map]
    exact List.length_take_le _ _
  · obtain ⟨entry, hoffered, rfl⟩ := List.mem_map.mp hchoice
    have hentry := ((env.icons.mem_autocomplete_iff casefold current 25).mp hoffered).1.1
    refine ⟨?_, entry, hentry, rfl, fun call hcall => ?_⟩
    · rw [Choice.cut, String.length_ofList]
      exact List.length_take_le _ _
    · have hkey (rule : WatchRule) (hrule : rule.AddedBy env call) :
          rule.itemId = normalizeItemId env.lower entry.itemId :=
        (Prod.mk.inj hrule.request_eq).1.trans (congrArg _ hcall)
      constructor
      · refine fun htidy => ⟨fun threshold => htidy.draft hentry hcall, fun rule hrule => ?_⟩
        have hitem : normalizeItemId env.lower call.itemId = entry.itemId :=
          (congrArg _ hcall).trans htidy
        refine ⟨(hkey rule hrule).trans htidy, hrule.canonical ?_⟩
        rw [AddCall.IsTidy, AddCall.manifestItem, hitem]
        exact htidy
      · exact fun huntidy rule hrule hitem => huntidy ((hkey rule hrule).symm.trans hitem)

end DonutMonitor
