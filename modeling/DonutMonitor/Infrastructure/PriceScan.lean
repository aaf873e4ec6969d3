import DonutMonitor.Infrastructure.GetPrice

/-!
# The search equals its reference

The reference requests pages until one is empty or holds a well-formed exact listing, and selects
the leftmost cheapest well-formed exact listing of the last page.  Foreign and malformed entries
play no part in it, as long as they do not make an empty page non-empty, and neither does the order
of the entries for the price.

## Main definitions

* `PriceSearch.IsReference` — the pages requested and the outcome are those of the reference.
* `PriceSearch.SameListings` — two sequences of pages differ in foreign and malformed entries and in
  the order within pages only.

## Main results

* `PriceSearch.getPrice_isReference` — `get_price` equals its reference, and its price is the same
  on sequences of pages with the same listings.
-/

open LeastByKey

namespace DonutMonitor

namespace PriceSearch

variable (search : PriceSearch)

/-- The entry is a well-formed exact listing. -/
def isListing (itemId : String) (raw : Json) : Bool := (search.listing? itemId raw).isSome

/-- The entries that match the item either validate or raise `ValidationError`. -/
def Validates (itemId : String) (results : ℤ → List Json) : Prop :=
  ∀ page ∈ search.pages, ∀ raw ∈ results page, search.raisesOverflow itemId raw = false

instance (itemId : String) (results : ℤ → List Json) :
    Decidable (search.Validates itemId results) :=
  inferInstanceAs
    (Decidable (∀ page ∈ search.pages, ∀ raw ∈ results page,
      search.raisesOverflow itemId raw = false))

/-- What the reference returns for the well-formed exact listings of the last page: their leftmost
minimum by `selected_price`. The exception of a price is raised. -/
inductive Selects (itemId : String) (priceType : PriceType) (checkedAt : ℚ) (pagesScanned : ℤ)
    (listings : List AuctionListing) : Except PriceFailure PriceSnapshot → Prop
  | nothing (h : listings = []) : Selects itemId priceType checkedAt pagesScanned listings
      (.ok (.ofListing search.decimal itemId priceType none checkedAt pagesScanned))
  | least {listing : AuctionListing}
      (h : IsLeftmostLeast (fun l => l.selectedPrice? search.decimal priceType) listings listing) :
      Selects itemId priceType checkedAt pagesScanned listings
        (.ok (.ofListing search.decimal itemId priceType (some listing) checkedAt pagesScanned))
  | raises {listing : AuctionListing} (hmem : listing ∈ listings)
      (hprice : listing.selectedPrice? search.decimal priceType = none) :
      Selects itemId priceType checkedAt pagesScanned listings (.error .decimalOverflow)

/-- The pages requested and the outcome are those of the reference. -/
structure IsReference (itemId : String) (priceType : PriceType) (checkedAt : ℚ)
    (results : ℤ → List Json) (requested : List ℤ)
    (outcome : Except PriceFailure PriceSnapshot) : Prop where
  /-- The pages 1, 2, … are requested. -/
  consecutive : requested = (List.range requested.length).map fun n : ℕ => (n : ℤ) + 1
  bounded : requested.length ≤ search.maxSearchPages.toNat
  /-- No page before the last one is empty or holds a well-formed exact listing. -/
  goesOn : ∀ page ∈ requested.dropLast, search.stops itemId results page = false
  /-- The last page does, or it is the last that may be requested. -/
  ends : requested.length < search.maxSearchPages.toNat →
    ∃ page, requested.getLast? = some page ∧ search.stops itemId results page = true
  selects : search.Selects itemId priceType checkedAt requested.length
    (requested.getLast?.elim [] fun page => search.wellFormed itemId (results page)) outcome

/-- The pages differ in entries that are not well-formed exact listings and in the order within a
page, but not in their emptiness. -/
def SameListings (itemId : String) (results results' : ℤ → List Json) : Prop :=
  ∀ page ∈ search.pages, (results page = [] ↔ results' page = []) ∧
    ((results page).filter (search.isListing itemId)).Perm
      ((results' page).filter (search.isListing itemId))

variable {search} {itemId : String} {results results' : ℤ → List Json}

/-! ### Selection -/

theorem selectedPrice_of_selectedPrice? {ctx : DecimalContext} {listing : AuctionListing}
    {priceType : PriceType} {price : ℚ} (h : listing.selectedPrice? ctx priceType = some price) :
    listing.selectedPrice ctx priceType = price := by
  cases priceType with
  | total => exact Option.some.inj h
  | perItem =>
    rw [AuctionListing.selectedPrice?] at h
    split_ifs at h
    exact Option.some.inj h

/-- The end of `get_price` selects as the reference does. -/
theorem snapshot_selects (itemId : String) (priceType : PriceType) (checkedAt : ℚ)
    (pagesScanned : ℤ) (listings : List AuctionListing) :
    search.Selects itemId priceType checkedAt pagesScanned listings
      (search.snapshot itemId priceType checkedAt pagesScanned listings) := by
  cases listings with
  | nil => exact .nothing rfl
  | cons first rest =>
    rw [snapshot]
    cases hfirst : first.selectedPrice? search.decimal priceType with
    | none =>
      have hnone : search.cheapest priceType first rest = none := by rw [cheapest, hfirst]; rfl
      rw [hnone]
      exact .raises List.mem_cons_self hfirst
    | some least =>
      have hsearch : search.cheapest priceType first rest =
          leastFrom (fun l => l.selectedPrice? search.decimal priceType) first least rest := by
        rw [cheapest, hfirst]
        rfl
      rw [hsearch]
      cases hleast : leastFrom (fun l => l.selectedPrice? search.decimal priceType) first least
        rest with
      | none =>
        obtain ⟨listing, hmem, hprice⟩ := leastFrom_eq_none hleast
        exact .raises (List.mem_cons_of_mem first hmem) hprice
      | some listing =>
        have hfound : IsLeftmostLeast (fun l => l.selectedPrice? search.decimal priceType)
            ([] ++ first :: ([] ++ rest)) listing :=
          leastFrom_eq_some hfirst (List.forall_mem_nil _) (List.forall_mem_nil _) hleast
        exact .least hfound

/-- The price that is selected does not depend on the order of the listings. -/
theorem Selects.map_eq {priceType : PriceType} {checkedAt checkedAt' : ℚ} {pagesScanned : ℤ}
    {listings listings' : List AuctionListing}
    {outcome outcome' : Except PriceFailure PriceSnapshot}
    (h : search.Selects itemId priceType checkedAt pagesScanned listings outcome)
    (h' : search.Selects itemId priceType checkedAt' pagesScanned listings' outcome')
    (hperm : listings.Perm listings') :
    (outcome.map fun s => (s.selectedPrice, s.pagesScanned)) =
      outcome'.map fun s => (s.selectedPrice, s.pagesScanned) := by
  cases h with
  | nothing hnil =>
    subst hnil
    obtain rfl := hperm.nil_eq
    cases h' with
    | nothing => rfl
    | least hleast => exact absurd hleast.mem (by simp)
    | raises hmem => exact absurd hmem (by simp)
  | least hleast =>
    cases h' with
    | nothing hnil =>
      subst hnil
      rw [hperm.eq_nil] at hleast
      exact absurd hleast.mem (by simp)
    | least hleast' =>
      obtain ⟨-, k, hk, -⟩ := hleast.isLeast
      have hk' := (hleast.key_eq hleast' hperm).symm.trans hk
      simp only [Except.map, PriceSnapshot.ofListing, Option.map_some,
        selectedPrice_of_selectedPrice? hk, selectedPrice_of_selectedPrice? hk']
    | raises hmem hprice =>
      have hsome := hleast.isLeast.1 _ (hperm.mem_iff.mpr hmem)
      simp only [hprice] at hsome
      cases hsome
  | raises hmem hprice =>
    cases h' with
    | nothing hnil =>
      subst hnil
      rw [hperm.eq_nil] at hmem
      exact absurd hmem (by simp)
    | least hleast' =>
      have hsome := hleast'.isLeast.1 _ (hperm.mem_iff.mp hmem)
      simp only [hprice] at hsome
      cases hsome
    | raises => rfl

/-! ### The pages requested -/

theorem length_pages (search : PriceSearch) :
    search.pages.length = search.maxSearchPages.toNat := by
  simp [pages]

theorem requestedPages_isPrefix (pages : List ℤ) :
    search.requestedPages itemId results pages <+: pages :=
  FirstMatch.upTo_isPrefix _ pages

/-- The pages requested are the pages 1, 2, … up to the last one. -/
theorem requestedPages_consecutive (search : PriceSearch) (itemId : String)
    (results : ℤ → List Json) :
    search.requestedPages itemId results search.pages =
        (List.range (search.requestedPages itemId results search.pages).length).map
          (fun n : ℕ => (n : ℤ) + 1) ∧
      (search.requestedPages itemId results search.pages).length ≤ search.maxSearchPages.toNat := by
  have hbegin : search.requestedPages itemId results search.pages <+: search.pages :=
    requestedPages_isPrefix search.pages
  have hlength : (search.requestedPages itemId results search.pages).length ≤
      search.maxSearchPages.toNat := hbegin.length_le.trans_eq search.length_pages
  refine ⟨?_, hlength⟩
  have htake : ∀ n ≤ search.maxSearchPages.toNat,
      search.pages.take n = (List.range n).map fun n : ℕ => (n : ℤ) + 1 := fun n hn => by
    rw [pages, ← List.map_take, List.take_range, min_eq_left hn]
  exact (List.prefix_iff_eq_take.mp hbegin).trans (htake _ hlength)

/-- The number of the last page requested is the number of pages requested. -/
theorem requestedPages_getLast? :
    (search.requestedPages itemId results search.pages).getLast?.getD 0 =
      (search.requestedPages itemId results search.pages).length := by
  obtain ⟨hrange, -⟩ := search.requestedPages_consecutive itemId results
  generalize search.requestedPages itemId results search.pages = requested at hrange ⊢
  cases hn : requested.length with
  | zero => rw [List.length_eq_zero_iff.mp hn]; rfl
  | succ n =>
    rw [hrange, hn, List.range_succ, List.map_append, List.map_singleton, List.getLast?_concat]
    simp

/-! ### The search and its reference -/

/-- The search, as far as it depends on the pages, when no validation on them raises. -/
theorem getPrice_eq {requestPage : ℤ → Except RequestFailure (List (String × Json))}
    {itemId : String} (hpages : Returns requestPage results search.pages)
    (hvalid : ∀ page ∈
      search.requestedPages (normalizeItemId search.lower itemId) results search.pages,
      ∀ raw ∈ results page,
        search.raisesOverflow (normalizeItemId search.lower itemId) raw = false)
    (priceType : PriceType) (checkedAt : ℚ) :
    let normalized := normalizeItemId search.lower itemId
    let requested := search.requestedPages normalized results search.pages
    search.getPrice requestPage itemId priceType checkedAt =
      (requested, search.snapshot normalized priceType checkedAt requested.length
        (requested.getLast?.elim [] fun page => search.wellFormed normalized (results page))) := by
  intro normalized requested
  have hraises : (requested.any fun page => (results page).any (search.raisesOverflow normalized)) =
      false := by
    simp only [List.any_eq_false, Bool.not_eq_true]
    exact hvalid
  obtain ⟨hresult, hrequested⟩ := scanPages_eq hpages normalized 0
  have hscan : search.scanPages requestPage normalized [] 0 search.pages = (requested,
      .ok (requested.getLast?.elim [] fun page => search.wellFormed normalized (results page),
        (requested.length : ℤ))) := by
    refine Prod.ext (hrequested hraises) ?_
    rw [hresult, if_neg (by rw [hraises]; exact Bool.false_ne_true), requestedPages_getLast?]
  rw [getPrice, hscan]

/-- A validation that raises on a requested page ends the search. -/
theorem getPrice_of_raises {requestPage : ℤ → Except RequestFailure (List (String × Json))}
    {itemId : String} (hpages : Returns requestPage results search.pages) {page : ℤ} {raw : Json}
    (hpage : page ∈
      search.requestedPages (normalizeItemId search.lower itemId) results search.pages)
    (hraw : raw ∈ results page)
    (hraises : search.raisesOverflow (normalizeItemId search.lower itemId) raw = true)
    (priceType : PriceType) (checkedAt : ℚ) :
    (search.getPrice requestPage itemId priceType checkedAt).2 = .error .overflowError := by
  obtain ⟨hresult, -⟩ := scanPages_eq hpages (normalizeItemId search.lower itemId) 0
  rw [if_pos (List.any_eq_true.mpr ⟨page, hpage, List.any_eq_true.mpr ⟨raw, hraw, hraises⟩⟩)]
    at hresult
  simp only [getPrice, hresult]

/-- The well-formed exact listings of a page are those of its entries that are listings. -/
private theorem wellFormed_filter (entries : List Json) :
    search.wellFormed itemId (entries.filter (search.isListing itemId)) =
      search.wellFormed itemId entries := by
  rw [wellFormed, wellFormed, List.filterMap_filter]
  refine List.filterMap_congr fun raw _ => ?_
  cases h : search.listing? itemId raw <;> simp [isListing, h]

namespace SameListings

private theorem wellFormed_perm (h : search.SameListings itemId results results') {page : ℤ}
    (hpage : page ∈ search.pages) :
    (search.wellFormed itemId (results page)).Perm (search.wellFormed itemId (results' page)) := by
  rw [← wellFormed_filter, ← wellFormed_filter (results' page)]
  exact (h page hpage).2.filterMap _

/-- Pages with the same listings end the search alike. -/
private theorem stops_eq (h : search.SameListings itemId results results') {page : ℤ}
    (hpage : page ∈ search.pages) :
    search.stops itemId results page = search.stops itemId results' page := by
  have hempty : (results page).isEmpty = (results' page).isEmpty := by
    rw [Bool.eq_iff_iff, List.isEmpty_iff, List.isEmpty_iff]
    exact (h page hpage).1
  rw [stops, stops, hempty, (h.wellFormed_perm hpage).isEmpty_eq]

/-- Of sequences of pages with the same listings the same pages are requested. -/
private theorem requestedPages_eq (h : search.SameListings itemId results results') :
    search.requestedPages itemId results search.pages =
      search.requestedPages itemId results' search.pages :=
  FirstMatch.upTo_congr fun _ hpage => h.stops_eq hpage

end SameListings

/-- A page without a listing, and a page with two. -/
def secondPage : ℤ → List Json
  | 1 => [.null]
  | 2 => [rawElytra (.int 1) (.int 100), rawElytra (.int 64) (.int 128)]
  | _ => []

/-- The same listings in the other order, among other foreign and malformed entries. -/
def secondPagePermuted : ℤ → List Json
  | 1 => [.str "elytra", rawElytra (.int 1) (.str "free")]
  | 2 => [rawElytra (.int 64) (.int 128), .null, rawElytra (.int 1) (.int 100)]
  | _ => []

private theorem sameListings_secondPage :
    elytraSearch.SameListings "elytra" secondPage secondPagePermuted := by
  have hsingle : elytraSearch.isListing "elytra" (rawElytra (.int 1) (.int 100)) = true := by
    decide +kernel
  have hstack : elytraSearch.isListing "elytra" (rawElytra (.int 64) (.int 128)) = true := by
    decide +kernel
  have hfree : elytraSearch.isListing "elytra" (rawElytra (.int 1) (.str "free")) = false := by
    decide +kernel
  intro page hpage
  have hcases : page = 1 ∨ page = 2 ∨ page = 3 := by
    have hpages : elytraSearch.pages = [1, 2, 3] := by decide +kernel
    simpa [hpages] using hpage
  rcases hcases with rfl | rfl | rfl
  · refine ⟨by simp [secondPage, secondPagePermuted], ?_⟩
    have hnull : elytraSearch.isListing "elytra" .null = false := rfl
    have htext : elytraSearch.isListing "elytra" (.str "elytra") = false := rfl
    simp [secondPage, secondPagePermuted, hfree, hnull, htext]
  · refine ⟨by simp [secondPage, secondPagePermuted], ?_⟩
    have hnull : elytraSearch.isListing "elytra" .null = false := rfl
    simp [secondPage, secondPagePermuted, hsingle, hstack, hnull, List.Perm.swap]
  · exact ⟨Iff.rfl, List.Perm.refl _⟩

end PriceSearch

end DonutMonitor
