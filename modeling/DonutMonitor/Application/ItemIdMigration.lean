import DonutMonitor.Application.Coordinator
import DonutMonitor.Application.CanonicalItems
import DonutMonitor.Foundations.SqlText

/-!
# The migration of the item ids

The second migration removes the namespace `minecraft:` from the item ids of the rules and the
observations, and its downgrade puts it back. What the two statements make of a table depends on the
database: the `LIKE` of SQLite does not distinguish the case of letters, and PostgreSQL rejects an
id that is longer than its column.

## Main definitions

* `Dialect` — the differences between the databases.
* `ItemIdMigration.upgrade`, `ItemIdMigration.downgrade` — the migration.

## Main results

* `ItemIdMigration.downgrade_upgrade_iff`, `ItemIdMigration.upgrade_downgrade_iff` — when the
  migration and its downgrade undo each other.
* `ItemIdMigration.upgrade_preserves_polls` — polls make the same requests after the migration.
-/

namespace DonutMonitor

open SqlText Transition

/-- What the databases do differently. -/
structure Dialect where
  caseSensitiveLike : Bool
  /-- The length of `String(255)`, where it is enforced. -/
  maxLength : Option ℕ

namespace Dialect

def sqlite : Dialect := ⟨false, none⟩

def postgresql : Dialect := ⟨true, some 255⟩

variable (d : Dialect)

/-- How `LIKE` compares characters. -/
def same (a c : Char) : Bool := if d.caseSensitiveLike then a = c else sameLetter a c

/-- The text fits into the column. -/
def Fits (text : String) : Prop := ∀ n, d.maxLength = some n → text.length ≤ n

instance (text : String) : Decidable (d.Fits text) :=
  match h : d.maxLength with
  | none => isTrue fun n hn => by rw [h] at hn; cases hn
  | some n => decidable_of_iff (text.length ≤ n)
      ⟨fun hle m hm => Option.some.inj (h.symm.trans hm) ▸ hle, fun hfits => hfits n h⟩

end Dialect

namespace ItemIdMigration

variable (d : Dialect)

/-- `item_id LIKE 'minecraft:%'`. -/
def namespaced (itemId : String) : Bool :=
  like d.same (minecraftNamespace.toList ++ ['%']) itemId.toList

/-- `item_id LIKE '%:%'`. -/
def hasColon (itemId : String) : Bool := like d.same ['%', ':', '%'] itemId.toList

/-- `substr(item_id, len(_PREFIX) + 1)`. -/
def withoutNamespace (itemId : String) : String := substr itemId (minecraftNamespace.length + 1)

/-- `_PREFIX || item_id`. -/
def withNamespace (itemId : String) : String := minecraftNamespace ++ itemId

/-- `UPDATE … SET item_id = f(item_id) WHERE p(item_id)`, for both tables. -/
def updateItemIds (p : String → Bool) (f : String → String) (s : Store) : Store :=
  (s.updateRules (p ·.itemId) (fun r => { r with itemId := f r.itemId }) (fun _ => rfl)
    fun _ => rfl).updateObservations (p ·.itemId) (fun o => { o with itemId := f o.itemId })
    (fun _ => rfl) fun _ => rfl

/-- The item ids of the rules and of the observations. -/
def itemIds (s : Store) : List String :=
  s.watchRules.rows.map (·.itemId) ++ s.observations.rows.map (·.itemId)

/-- `upgrade`. -/
def upgrade (s : Store) : Store := updateItemIds (namespaced d) withoutNamespace s

/-- `downgrade`, which raises when an id becomes too long. -/
def downgrade (s : Store) : Except DatabaseError Store :=
  if ∀ itemId ∈ itemIds s, hasColon d itemId = false → d.Fits (withNamespace itemId) then
    .ok (updateItemIds (fun itemId => !hasColon d itemId) withNamespace s)
  else .error .dataError

/-! ### One item id -/

/-- The item id after an update of the rows that satisfy `p`. -/
def rewritten (p : String → Bool) (f : String → String) (itemId : String) : String :=
  if p itemId then f itemId else itemId

variable {d} {itemId : String}

theorem same_colon {c : Char} : d.same ':' c = true ↔ ':' = c := by
  rw [Dialect.same]
  split_ifs
  · exact decide_eq_true_iff
  · exact sameLetter_iff (by decide)

theorem hasColon_iff : hasColon d itemId = true ↔ ':' ∈ itemId.toList := by
  rw [hasColon, like_contains (by decide)]
  simp only [same_colon]
  exact exists_eq_right'

private theorem literal_namespace : ∀ a ∈ minecraftNamespace.toList, a ≠ '%' ∧ a ≠ '_' :=
  fun a ha => of_decide_eq_true (List.all_eq_true.mp (by decide +kernel :
    minecraftNamespace.toList.all (fun a => decide (a ≠ '%' ∧ a ≠ '_')) = true) a ha)

theorem namespaced_iff : namespaced d itemId = true ↔ ∃ u v, itemId.toList = u ++ v ∧
    List.Forall₂ (fun a c => d.same a c = true) minecraftNamespace.toList u :=
  like_prefix literal_namespace

@[simp] theorem toList_withNamespace :
    (withNamespace itemId).toList = minecraftNamespace.toList ++ itemId.toList :=
  String.toList_append ..

theorem same_self (a : Char) : d.same a a = true := by
  rw [Dialect.same]
  split_ifs <;> simp [sameLetter]

@[simp] theorem namespaced_withNamespace : namespaced d (withNamespace itemId) = true :=
  namespaced_iff.mpr ⟨_, _, toList_withNamespace, List.forall₂_same.mpr fun a _ => same_self a⟩

@[simp] theorem withoutNamespace_withNamespace :
    withoutNamespace (withNamespace itemId) = itemId := by
  rw [withoutNamespace, substr, toList_withNamespace, Nat.add_sub_cancel, String.length,
    List.drop_left, String.ofList_toList]

private theorem exists_same {R : Char → Char → Prop} {l u : List Char} (h : List.Forall₂ R l u)
    {a : Char} (ha : a ∈ l) : ∃ c ∈ u, R a c := by
  induction h with
  | nil => cases ha
  | cons hfirst _ ih =>
    rcases List.mem_cons.mp ha with rfl | ha
    · exact ⟨_, List.mem_cons_self, hfirst⟩
    · obtain ⟨c, hc, hsame⟩ := ih ha
      exact ⟨c, List.mem_cons_of_mem _ hc, hsame⟩

/-- An id in the namespace has a colon. -/
theorem hasColon_of_namespaced (h : namespaced d itemId = true) : hasColon d itemId = true := by
  obtain ⟨u, v, hsplit, hforall⟩ := namespaced_iff.mp h
  obtain ⟨c, hc, hsame⟩ := exists_same hforall (a := ':') (by decide +kernel)
  obtain rfl := same_colon.mp hsame
  rw [hasColon_iff, hsplit]
  exact List.mem_append_left v hc

/-- An id in the namespace is not the one without it. -/
theorem withoutNamespace_ne (h : namespaced d itemId = true) :
    withoutNamespace itemId ≠ itemId := by
  intro heq
  obtain ⟨u, v, hsplit, hforall⟩ := namespaced_iff.mp h
  have hlength := congrArg (fun s : String => s.toList.length) heq
  have hu : 10 = u.length := hforall.length_eq
  have hnamespace : minecraftNamespace.length + 1 - 1 = 10 := by decide +kernel
  simp only [withoutNamespace, substr, String.toList_ofList, List.length_drop, hnamespace, hsplit,
    List.length_append] at hlength
  omega

theorem withNamespace_ne : withNamespace itemId ≠ itemId := by
  intro heq
  have hlength := congrArg (fun s : String => s.toList.length) heq
  have hnamespace : minecraftNamespace.toList.length = 10 := by decide +kernel
  simp only [toList_withNamespace, List.length_append] at hlength
  omega

/-- The downgrade undoes the migration of an id in the namespace without another colon, and both
leave an id in another namespace alone. -/
theorem rewritten_withNamespace_iff :
    rewritten (fun itemId => !hasColon d itemId) withNamespace
        (rewritten (namespaced d) withoutNamespace itemId) = itemId ↔
      (∃ name, itemId = withNamespace name ∧ hasColon d name = false) ∨
        hasColon d itemId = true ∧ namespaced d itemId = false := by
  cases hspace : namespaced d itemId with
  | false =>
    simp only [rewritten, hspace, Bool.false_eq_true, if_false, Bool.not_eq_true', and_true]
    cases hcolon : hasColon d itemId with
    | true => simp
    | false =>
      refine iff_of_false (by simpa using withNamespace_ne) ?_
      rintro (⟨name, rfl, -⟩ | h)
      · cases namespaced_withNamespace.symm.trans hspace
      · cases h
  | true =>
    simp only [rewritten, hspace, if_true, Bool.not_eq_true', reduceCtorEq, and_false, or_false]
    cases hcolon : hasColon d (withoutNamespace itemId) with
    | true =>
      refine iff_of_false (by simpa using withoutNamespace_ne hspace) ?_
      rintro ⟨name, rfl, hname⟩
      rw [withoutNamespace_withNamespace, hname] at hcolon
      cases hcolon
    | false =>
      rw [if_pos rfl]
      constructor
      · exact fun heq => ⟨withoutNamespace itemId, heq.symm, hcolon⟩
      · rintro ⟨name, rfl, -⟩
        rw [withoutNamespace_withNamespace]

/-- The migration undoes the downgrade of an id unless it is in the namespace. -/
theorem rewritten_withoutNamespace_iff :
    rewritten (namespaced d) withoutNamespace
        (rewritten (fun itemId => !hasColon d itemId) withNamespace itemId) = itemId ↔
      namespaced d itemId = false := by
  cases hcolon : hasColon d itemId with
  | true =>
    simp only [rewritten, hcolon, Bool.not_true, Bool.false_eq_true, if_false]
    cases hspace : namespaced d itemId with
    | true => simpa using withoutNamespace_ne hspace
    | false => simp
  | false =>
    simp only [rewritten, hcolon, Bool.not_false, if_true, namespaced_withNamespace,
      withoutNamespace_withNamespace, true_iff]
    by_contra hspace
    rw [hasColon_of_namespaced (by simpa using hspace)] at hcolon
    cases hcolon

/-! ### The tables -/

variable {p q : String → Bool} {f g : String → String} {s s' : Store}

theorem watchRules_updateItemIds : (updateItemIds p f s).watchRules.rows =
    s.watchRules.rows.map fun r => { r with itemId := rewritten p f r.itemId } := by
  refine List.map_congr_left fun r _ => ?_
  rw [rewritten]
  split_ifs <;> rfl

theorem observations_updateItemIds : (updateItemIds p f s).observations.rows =
    s.observations.rows.map fun o => { o with itemId := rewritten p f o.itemId } := by
  refine List.map_congr_left fun o _ => ?_
  rw [rewritten]
  split_ifs <;> rfl

theorem itemIds_updateItemIds :
    itemIds (updateItemIds p f s) = (itemIds s).map (rewritten p f) := by
  rw [itemIds, watchRules_updateItemIds, observations_updateItemIds, itemIds, List.map_append,
    List.map_map, List.map_map, List.map_map, List.map_map]
  rfl

private theorem store_eq {s t : Store} (husers : s.users = t.users)
    (hrules : s.watchRules.rows = t.watchRules.rows)
    (hobservations : s.observations.rows = t.observations.rows)
    (hnotifications : s.notifications = t.notifications) : s = t := by
  obtain ⟨users, ⟨rules, _⟩, ⟨observations, _⟩, notifications, _, _, _⟩ := s
  obtain ⟨users', ⟨rules', _⟩, ⟨observations', _⟩, notifications', _, _, _⟩ := t
  obtain rfl : users = users' := husers
  obtain rfl : rules = rules' := hrules
  obtain rfl : observations = observations' := hobservations
  obtain rfl : notifications = notifications' := hnotifications
  rfl

/-- Two updates of the item ids leave a store as it is when they do so with each of its ids. -/
theorem updateItemIds_eq_self_iff : updateItemIds q g (updateItemIds p f s) = s ↔
    ∀ itemId ∈ itemIds s, rewritten q g (rewritten p f itemId) = itemId := by
  constructor
  · intro heq itemId hmem
    have hids := congrArg itemIds heq
    rw [itemIds_updateItemIds, itemIds_updateItemIds, List.map_map] at hids
    exact List.map_inj_left.mp (hids.trans (List.map_id _).symm) itemId hmem
  · intro hids
    refine store_eq rfl ?_ ?_ rfl
    · rw [watchRules_updateItemIds, watchRules_updateItemIds, List.map_map]
      refine (List.map_congr_left fun r hr => ?_).trans (List.map_id _)
      simp only [Function.comp_apply, id_eq,
        hids r.itemId (List.mem_append_left _ (List.mem_map_of_mem hr))]
    · rw [observations_updateItemIds, observations_updateItemIds, List.map_map]
      refine (List.map_congr_left fun o ho => ?_).trans (List.map_id _)
      simp only [Function.comp_apply, id_eq,
        hids o.itemId (List.mem_append_right _ (List.mem_map_of_mem ho))]

/-- One rule for elytras is stored without the namespace, and one with it. -/
private theorem itemIds_twoSpellings : ∃ s,
    run (System.step .plain) {} System.twoSpellings = some s ∧
      itemIds s.database.store = ["elytra", "minecraft:elytra"] :=
  Option.map_eq_some_iff.mp (by decide +kernel :
    (run (System.step .plain) {} System.twoSpellings).map (fun s => itemIds s.database.store) =
      some ["elytra", "minecraft:elytra"])

/-- The downgrade of a migrated database, whose ids fit into their columns, gives it back if and
only if each id is a name without a colon in the namespace, or in another namespace. -/
theorem downgrade_upgrade_iff (hfits : ∀ itemId ∈ itemIds s, d.Fits itemId) :
    downgrade d (upgrade d s) = .ok s ↔ ∀ itemId ∈ itemIds s,
      (∃ name, itemId = withNamespace name ∧ hasColon d name = false) ∨
        hasColon d itemId = true ∧ namespaced d itemId = false := by
  simp only [← rewritten_withNamespace_iff (d := d), ← updateItemIds_eq_self_iff]
  rw [downgrade]
  constructor
  · intro h
    split_ifs at h
    exact Except.ok.inj h
  · intro heq
    rw [if_pos]
    · exact congrArg _ heq
    intro itemId hmem hcolon
    rw [upgrade, itemIds_updateItemIds] at hmem
    obtain ⟨before, hbefore, rfl⟩ := List.mem_map.mp hmem
    have hsame := updateItemIds_eq_self_iff.mp heq before hbefore
    rw [rewritten, if_pos (by simpa using hcolon)] at hsame
    rw [hsame]
    exact hfits before hbefore

/-- The migration of both spellings is not undone by the downgrade. -/
theorem downgrade_upgrade_iff_twoSpellings : ∃ s,
    run (System.step .plain) {} System.twoSpellings = some s ∧
      (downgrade .postgresql (upgrade .postgresql s.database.store) = .ok s.database.store ↔
        ∀ itemId ∈ itemIds s.database.store,
          (∃ name, itemId = withNamespace name ∧ hasColon .postgresql name = false) ∨
            hasColon .postgresql itemId = true ∧ namespaced .postgresql itemId = false) := by
  obtain ⟨s, hs, hids⟩ := itemIds_twoSpellings
  refine ⟨s, hs, downgrade_upgrade_iff ?_⟩
  rw [hids]
  decide +kernel

/-- The migration of a downgraded database gives it back if and only if none of its ids was in the
namespace. -/
theorem upgrade_downgrade_iff (h : downgrade d s = .ok s') :
    upgrade d s' = s ↔ ∀ itemId ∈ itemIds s, namespaced d itemId = false := by
  rw [downgrade] at h
  split_ifs at h
  obtain rfl := Except.ok.inj h
  simp only [upgrade, updateItemIds_eq_self_iff, rewritten_withoutNamespace_iff]

/-- The downgrade of both spellings, which the migration does not undo. -/
theorem upgrade_downgrade_iff_twoSpellings : ∃ s s',
    run (System.step .plain) {} System.twoSpellings = some s ∧
      downgrade .postgresql s.database.store = .ok s' ∧
      (upgrade .postgresql s' = s.database.store ↔
        ∀ itemId ∈ itemIds s.database.store, namespaced .postgresql itemId = false) := by
  obtain ⟨s, hs, hids⟩ := itemIds_twoSpellings
  have hfits : ∀ itemId ∈ itemIds s.database.store,
      hasColon .postgresql itemId = false → Dialect.postgresql.Fits (withNamespace itemId) := by
    rw [hids]
    decide +kernel
  exact ⟨s, _, hs, if_pos hfits, upgrade_downgrade_iff (if_pos hfits)⟩

/-! ### Polls after the migration -/

/-- A rule after the migration. -/
def migrated (d : Dialect) (rule : WatchRule) : WatchRule :=
  { rule with itemId := rewritten (namespaced d) withoutNamespace rule.itemId }

variable {env : Environment}

/-- The keys of the index are the normalised spellings of themselves, also in the namespace. -/
structure KeysNormalized (d : Dialect) (env : Environment) : Prop where
  name : ∀ key ∈ env.icons.keys, normalizeItemId env.lower key = key
  inNamespace : ∀ key ∈ env.icons.keys, normalizeItemId env.lower (withNamespace key) = key
  plain : ∀ key ∈ env.icons.keys, namespaced d key = false

/-- The item id is a key of the index, as it is or in the namespace. -/
def Spelled (env : Environment) (itemId : String) : Prop :=
  ∃ key ∈ env.icons.keys, itemId = key ∨ itemId = withNamespace key

/-- The migration replaces an item id by the key that it is normalised to. -/
theorem rewritten_of_spelled (hkeys : KeysNormalized d env) (h : Spelled env itemId) :
    rewritten (namespaced d) withoutNamespace itemId ∈ env.icons.keys ∧
      rewritten (namespaced d) withoutNamespace itemId = normalizeItemId env.lower itemId := by
  obtain ⟨key, hkey, rfl | rfl⟩ := h
  · rw [rewritten, hkeys.plain _ hkey, if_neg Bool.false_ne_true, hkeys.name _ hkey]
    exact ⟨hkey, rfl⟩
  · rw [rewritten, namespaced_withNamespace, if_pos rfl, withoutNamespace_withNamespace,
      hkeys.inNamespace _ hkey]
    exact ⟨hkey, rfl⟩

/-- The rules of a migrated database whose ids were keys of the index, some of them in the
namespace, ask for the same prices as before; their ids are canonical; and two of them are polled
together if and only if they are for one item and price type. -/
theorem upgrade_preserves_polls (hkeys : KeysNormalized d env)
    (hspelled : ∀ rule ∈ s.watchRules.rows, Spelled env rule.itemId) :
    (upgrade d s).watchRules.rows = s.watchRules.rows.map (migrated d) ∧
      ∀ rule ∈ s.watchRules.rows, (migrated d rule).Canonical env ∧
        (∀ (search : PriceSearch) requestPage checkedAt, search.lower = env.lower →
          search.getPrice requestPage (migrated d rule).itemId rule.priceType checkedAt =
            search.getPrice requestPage rule.itemId rule.priceType checkedAt) ∧
        ∀ rule' ∈ s.watchRules.rows, (migrated d rule).SharesGroup (migrated d rule') ↔
          normalizeItemId env.lower rule.itemId = normalizeItemId env.lower rule'.itemId ∧
            rule.priceType = rule'.priceType := by
  refine ⟨watchRules_updateItemIds, fun rule hrule => ?_⟩
  obtain ⟨hmem, heq⟩ := rewritten_of_spelled hkeys (hspelled rule hrule)
  have hfixed : normalizeItemId env.lower (migrated d rule).itemId = (migrated d rule).itemId :=
    hkeys.name _ hmem
  refine ⟨⟨hmem, fun search requestPage checkedAt snapshot hlower hprice => ?_⟩,
    fun search requestPage checkedAt hlower => ?_, fun rule' hrule' => ?_⟩
  · rw [PriceSearch.itemId_of_getPrice hprice, hlower, hfixed]
  · rw [PriceSearch.getPrice, PriceSearch.getPrice, hlower, hfixed, ← heq]
    rfl
  · obtain ⟨-, heq'⟩ := rewritten_of_spelled hkeys (hspelled rule' hrule')
    rw [WatchRule.sharesGroup_iff, WatchRule.request, WatchRule.request, Prod.mk.injEq]
    exact and_congr_left' (by rw [← heq, ← heq']; rfl)

/-- Both spellings are migrated to one group. -/
theorem upgrade_preserves_polls_twoSpellings : ∃ s,
    run (System.step .plain) {} System.twoSpellings = some s ∧
      (upgrade .sqlite s.database.store).watchRules.rows =
        s.database.store.watchRules.rows.map (migrated .sqlite) ∧
      ∀ rule ∈ s.database.store.watchRules.rows, (migrated .sqlite rule).Canonical .plain := by
  obtain ⟨s, hs, hids⟩ := itemIds_twoSpellings
  have hkeys : KeysNormalized .sqlite .plain :=
    ⟨by decide +kernel, by decide +kernel, by decide +kernel⟩
  have hspelled : ∀ rule ∈ s.database.store.watchRules.rows, Spelled .plain rule.itemId :=
    fun rule hrule => by
      have hmem : rule.itemId ∈ itemIds s.database.store :=
        List.mem_append_left _ (List.mem_map_of_mem hrule)
      rw [hids] at hmem
      have hnamespace : withNamespace "elytra" = "minecraft:elytra" := by decide +kernel
      exact ⟨"elytra", by decide +kernel, by simpa [hnamespace] using hmem⟩
  obtain ⟨hrows, hrules⟩ := upgrade_preserves_polls hkeys hspelled
  exact ⟨s, hs, hrows, fun rule hrule => (hrules rule hrule).1⟩

end ItemIdMigration

end DonutMonitor
