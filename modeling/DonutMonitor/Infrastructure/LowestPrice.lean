import DonutMonitor.Infrastructure.PriceScan

/-!
# The lowest price of the scan window

The scan window of an item are the pages up to the first empty one.  The search ends with the first
page of it that holds a listing, since the server sorts the listings by their total price.  This
order says nothing about the price for one item: a stack on a later page can be cheaper.

## Main definitions

* `PriceSearch.windowListings` — the listings of the scan window.
* `PriceSearch.FindsLowest` — the search has found the lowest price of the window.
* `PriceSearch.LowestFirst` — the first page with a listing holds the lowest price.

## Main results

* `PriceSearch.findsLowest_iff` — the search finds the lowest price if and only if no validation on
  the pages it requests raises and the first page with a listing holds that price.
-/

open LeastByKey

namespace DonutMonitor

namespace PriceSearch

variable (search : PriceSearch)

/-- The listings of the scan window. -/
def windowListings (itemId : String) (results : ℤ → List Json) : List AuctionListing :=
  (search.pages.takeWhile fun page => !(results page).isEmpty).flatMap fun page =>
    search.wellFormed itemId (results page)

/-- The listings of the first page of the scan window that holds one. -/
def firstListings (itemId : String) (results : ℤ → List Json) : List AuctionListing :=
  ((search.pages.takeWhile fun page => !(results page).isEmpty).find? fun page =>
    !(search.wellFormed itemId (results page)).isEmpty).elim [] fun page =>
      search.wellFormed itemId (results page)

/-- The snapshot holds the lowest price of the scan window, or no price if there is no listing. -/
def FindsLowest (itemId : String) (priceType : PriceType) (results : ℤ → List Json)
    (outcome : Except PriceFailure PriceSnapshot) : Prop :=
  ∃ snapshot, outcome = .ok snapshot ∧
    (snapshot.selectedPrice = none ↔ search.windowListings itemId results = []) ∧
    ∀ price, snapshot.selectedPrice = some price →
      IsLeast {q | ∃ listing ∈ search.windowListings itemId results,
        listing.selectedPrice? search.decimal priceType = some q} price

/-- The prices of the first page with a listing can all be computed, and no listing of the scan
window has a lower price than all of them. -/
def LowestFirst (itemId : String) (priceType : PriceType) (results : ℤ → List Json) : Prop :=
  (∀ listing ∈ search.firstListings itemId results,
    (listing.selectedPrice? search.decimal priceType).isSome = true) ∧
  ∀ listing ∈ search.windowListings itemId results, ∀ q,
    listing.selectedPrice? search.decimal priceType = some q →
      ∃ first ∈ search.firstListings itemId results, ∃ r,
        first.selectedPrice? search.decimal priceType = some r ∧ r ≤ q

/-- The validation of a matching entry raises, on one of the pages up to the first that is empty or
holds a listing. -/
def RaisesOverflow (itemId : String) (results : ℤ → List Json) : Prop :=
  ∃ page ∈ search.requestedPages itemId results search.pages, ∃ raw ∈ results page,
    search.raisesOverflow itemId raw = true

variable {search} {itemId : String} {results : ℤ → List Json}

/-! ### The window and its first listings -/

/-- The listings of the last page requested. -/
private theorem wellFormed_last (pages : List ℤ) :
    (search.requestedPages itemId results pages).getLast?.elim []
        (fun page => search.wellFormed itemId (results page)) =
      ((pages.takeWhile fun page => !(results page).isEmpty).find? fun page =>
        !(search.wellFormed itemId (results page)).isEmpty).elim []
          (fun page => search.wellFormed itemId (results page)) := by
  induction pages with
  | nil => rfl
  | cons page pages ih =>
    rw [requestedPages_cons, List.takeWhile_cons, stops]
    cases hentries : results page with
    | nil => simp [hentries, wellFormed]
    | cons raw entries =>
      cases hfound : search.wellFormed itemId (raw :: entries) with
      | nil =>
        simp only [List.isEmpty_cons, List.isEmpty_nil, Bool.not_true, Bool.or_self,
          Bool.false_eq_true, if_false, Bool.not_false, if_true, List.find?_cons, hentries, hfound,
          List.getLast?_cons, ← ih]
        cases (search.requestedPages itemId results pages).getLast? with
        | none => simp [hentries, hfound]
        | some last => rfl
      | cons listing listings => simp [hentries, hfound]

private theorem wellFormed_getLast? :
    (search.requestedPages itemId results search.pages).getLast?.elim []
        (fun page => search.wellFormed itemId (results page)) =
      search.firstListings itemId results :=
  wellFormed_last search.pages

/-- The first list that is not empty begins the concatenation. -/
private theorem find_isPrefix_flatMap {α β : Type*} (f : α → List β) (xs : List α) :
    (xs.find? fun x => !(f x).isEmpty).elim [] f <+: xs.flatMap f ∧
      ((xs.find? fun x => !(f x).isEmpty).elim [] f = [] → xs.flatMap f = []) := by
  induction xs with
  | nil => exact ⟨List.prefix_rfl, fun _ => rfl⟩
  | cons x xs ih =>
    rw [List.find?_cons, List.flatMap_cons]
    cases hx : f x with
    | nil => simpa using ih
    | cons y ys => simp [hx]

/-- The listings of the first page begin those of the window. -/
theorem firstListings_subset {listing : AuctionListing}
    (h : listing ∈ search.firstListings itemId results) :
    listing ∈ search.windowListings itemId results :=
  (find_isPrefix_flatMap _ _).1.subset h

theorem firstListings_eq_nil_iff :
    search.firstListings itemId results = [] ↔ search.windowListings itemId results = [] := by
  obtain ⟨hbegin, hnil⟩ := find_isPrefix_flatMap
    (fun page => search.wellFormed itemId (results page))
    (search.pages.takeWhile fun page => !(results page).isEmpty)
  exact ⟨hnil, fun h => List.prefix_nil.mp (h ▸ hbegin)⟩

/-- On a window in ascending order of the total price the first page holds the lowest one. -/
theorem lowestFirst_total
    (hsorted : (search.windowListings itemId results).Pairwise fun l l' => l.price ≤ l'.price) :
    search.LowestFirst itemId .total results := by
  refine ⟨fun listing _ => rfl, fun listing hmem q hq => ?_⟩
  obtain rfl := Option.some.inj hq
  cases hfirst : search.firstListings itemId results with
  | nil =>
    rw [firstListings_eq_nil_iff.mp hfirst] at hmem
    cases hmem
  | cons first rest =>
    obtain ⟨later, hwindow⟩ := (find_isPrefix_flatMap
      (fun page => search.wellFormed itemId (results page))
      (search.pages.takeWhile fun page => !(results page).isEmpty)).1
    change search.firstListings itemId results ++ later = search.windowListings itemId results
      at hwindow
    rw [hfirst, List.cons_append] at hwindow
    rw [← hwindow] at hmem hsorted
    refine ⟨first, List.mem_cons_self, first.price, rfl, ?_⟩
    rcases List.mem_cons.mp hmem with rfl | hlater
    · exact le_rfl
    · exact List.rel_of_pairwise_cons hsorted hlater

/-! ### The search -/

theorem not_findsLowest_error {priceType : PriceType} {failure : PriceFailure} :
    ¬ search.FindsLowest itemId priceType results (.error failure) := by
  rintro ⟨snapshot, hok, -⟩
  cases hok

/-- The minimum of the first listings is the lowest price of the window if and only if no later
listing is cheaper. -/
theorem Selects.findsLowest_iff_lowestFirst {priceType : PriceType} {checkedAt : ℚ}
    {pagesScanned : ℤ} {outcome : Except PriceFailure PriceSnapshot}
    (h : search.Selects itemId priceType checkedAt pagesScanned
      (search.firstListings itemId results) outcome) :
    search.FindsLowest itemId priceType results outcome ↔
      search.LowestFirst itemId priceType results := by
  cases h with
  | nothing hnil =>
    have hwindow := firstListings_eq_nil_iff.mp hnil
    refine iff_of_true ⟨_, rfl, iff_of_true rfl hwindow, fun price hsome => ?_⟩ ⟨?_, ?_⟩
    · exact absurd hsome (Option.some_ne_none price).symm
    · simp [hnil]
    · simp [hwindow]
  | @least listing hleast =>
    obtain ⟨hdefined, k, hk, hmin⟩ := hleast.isLeast
    have hprice : (PriceSnapshot.ofListing search.decimal itemId priceType (some listing)
        checkedAt pagesScanned).selectedPrice = some k := by
      rw [PriceSnapshot.ofListing, Option.map_some, selectedPrice_of_selectedPrice? hk]
    have hmem := firstListings_subset hleast.mem
    constructor
    · rintro ⟨snapshot, hsnapshot, -, hlowest⟩
      obtain rfl := Except.ok.inj hsnapshot
      refine ⟨hdefined, fun l hl q hq => ⟨listing, hleast.mem, k, hk, ?_⟩⟩
      exact (hlowest k hprice).2 ⟨l, hl, hq⟩
    · rintro ⟨-, hlater⟩
      refine ⟨_, rfl, ?_, fun price hsome => ?_⟩
      · rw [hprice]
        exact iff_of_false (Option.some_ne_none k) (List.ne_nil_of_mem hmem)
      · obtain rfl := Option.some.inj (hprice.symm.trans hsome)
        refine ⟨⟨listing, hmem, hk⟩, ?_⟩
        rintro q ⟨l, hl, hq⟩
        obtain ⟨first, hfirst, r, hr, hle⟩ := hlater l hl q hq
        exact (hmin.2 ⟨first, hfirst, hr⟩).trans hle
  | raises hmem hprice =>
    refine iff_of_false not_findsLowest_error ?_
    rintro ⟨hdefined, -⟩
    have hsome := hdefined _ hmem
    rw [hprice] at hsome
    cases hsome

/-- On successful pages the search finds the lowest price if and only if no validation raises and
the first listings hold that price. -/
theorem findsLowest_getPrice {requestPage : ℤ → Except RequestFailure (List (String × Json))}
    (hpages : Returns requestPage results search.pages) (priceType : PriceType) (checkedAt : ℚ) :
    let normalized := normalizeItemId search.lower itemId
    search.FindsLowest normalized priceType results
        (search.getPrice requestPage itemId priceType checkedAt).2 ↔
      ¬ search.RaisesOverflow normalized results ∧
        search.LowestFirst normalized priceType results := by
  intro normalized
  by_cases hraises : search.RaisesOverflow normalized results
  · obtain ⟨page, hpage, raw, hraw, h⟩ := hraises
    rw [getPrice_of_raises hpages hpage hraw h]
    exact iff_of_false not_findsLowest_error fun hnot => hnot.1 ⟨page, hpage, raw, hraw, h⟩
  · have hvalid : ∀ page ∈ search.requestedPages normalized results search.pages,
        ∀ raw ∈ results page, search.raisesOverflow normalized raw = false :=
      fun page hpage raw hraw => by
        rw [Bool.eq_false_iff]
        exact fun h => hraises ⟨page, hpage, raw, hraw, h⟩
    rw [getPrice_eq hpages hvalid]
    dsimp only
    rw [wellFormed_getLast?, (snapshot_selects _ _ _ _ _).findsLowest_iff_lowestFirst]
    exact (and_iff_right hraises).symm

/-- On successful pages in ascending order of the total price the search finds the lowest price of
the scan window if and only if no validation on the pages that it requests raises and, for the
price of one item, the first page with a listing holds that price. -/
theorem findsLowest_iff {requestPage : ℤ → Except RequestFailure (List (String × Json))}
    (hpages : Returns requestPage results search.pages)
    (hsorted : (search.windowListings (normalizeItemId search.lower itemId) results).Pairwise
      fun l l' => l.price ≤ l'.price) (priceType : PriceType) (checkedAt : ℚ) :
    let normalized := normalizeItemId search.lower itemId
    search.FindsLowest normalized priceType results
        (search.getPrice requestPage itemId priceType checkedAt).2 ↔
      ¬ search.RaisesOverflow normalized results ∧
        (priceType = .perItem → search.LowestFirst normalized .perItem results) := by
  intro normalized
  refine (findsLowest_getPrice hpages priceType checkedAt).trans (and_congr_right fun _ => ?_)
  cases priceType with
  | total => exact iff_of_true (lowestFirst_total hsorted) nofun
  | perItem => exact ⟨fun h _ => h, fun h => h rfl⟩

/-- A single elytra for 100, and on the next page a stack of 64 for 128. -/
def stackOnNextPage : ℤ → List Json
  | 1 => [rawElytra (.int 1) (.int 100)]
  | 2 => [rawElytra (.int 64) (.int 128)]
  | _ => []

private theorem stackOnNextPage_sorted :
    (elytraSearch.windowListings (normalizeItemId elytraSearch.lower "elytra")
      stackOnNextPage).Pairwise fun l l' => l.price ≤ l'.price := by
  decide +kernel

/-- The total price 100 is the lowest one. -/
theorem findsLowest_total :
    elytraSearch.FindsLowest (normalizeItemId elytraSearch.lower "elytra") .total stackOnNextPage
      (elytraSearch.getPrice (pageOf stackOnNextPage) "elytra" .total 0).2 := by
  refine (findsLowest_iff (returns_pageOf stackOnNextPage _) stackOnNextPage_sorted .total 0).mpr
    ⟨?_, nofun⟩
  unfold RaisesOverflow
  decide +kernel

private theorem two_lt_overflowThreshold : 2 < overflowThreshold := by
  have hten : (10 : ℚ) ≤ overflowThreshold := by
    unfold overflowThreshold
    exact le_self_pow₀ (by norm_num) (Nat.succ_ne_zero _)
  exact lt_of_lt_of_le (by norm_num) hten

/-- The lowest price for one elytra is 2, in the stack on the second page, which is not found. -/
theorem not_findsLowest_perItem :
    ¬ elytraSearch.FindsLowest (normalizeItemId elytraSearch.lower "elytra") .perItem
      stackOnNextPage (elytraSearch.getPrice (pageOf stackOnNextPage) "elytra" .perItem 0).2 := by
  intro h
  obtain ⟨-, -, hlater⟩ := (findsLowest_getPrice (returns_pageOf _ _) .perItem 0).mp h
  have hfirst : (elytraSearch.firstListings (normalizeItemId elytraSearch.lower "elytra")
      stackOnNextPage).map (fun l => l.selectedPrice .exact .perItem) = [100] := by
    decide +kernel
  have hwindow : (elytraSearch.windowListings (normalizeItemId elytraSearch.lower "elytra")
      stackOnNextPage).map (fun l => l.selectedPrice .exact .perItem) = [100, 2] := by
    decide +kernel
  have hmem : 2 ∈ (elytraSearch.windowListings (normalizeItemId elytraSearch.lower "elytra")
      stackOnNextPage).map fun l => l.selectedPrice .exact .perItem := by simp [hwindow]
  obtain ⟨stack, hstack, hprice⟩ := List.mem_map.mp hmem
  have hsome : stack.selectedPrice? elytraSearch.decimal .perItem = some 2 := by
    rw [← hprice]
    exact if_pos (hprice ▸ two_lt_overflowThreshold)
  obtain ⟨first, hmem, r, hr, hle⟩ := hlater stack hstack 2 hsome
  have hfirst := hfirst ▸ List.mem_map_of_mem hmem
  rw [List.mem_singleton] at hfirst
  have hsame := (selectedPrice_of_selectedPrice? hr).symm.trans hfirst
  rw [hsame] at hle
  norm_num at hle

end PriceSearch

end DonutMonitor
