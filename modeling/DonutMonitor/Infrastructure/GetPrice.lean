import DonutMonitor.Core.ItemIds
import DonutMonitor.Domain.ListingValidation
import DonutMonitor.Foundations.FirstMatch
import DonutMonitor.Foundations.LeastByKey
import DonutMonitor.Infrastructure.DonutApi

/-!
# The search for a price

`DonutApiClient.get_price` requests page after page of the search results until it has found a
listing of exactly the requested item, and selects the cheapest one of the page.  A page is what
`_request_page` returns or raises for it, so the sequence of pages is a function of their numbers.

Two loops with accumulated state stand in the source.  They are translated as they are, and stated
once more without state: `scanEntries_eq` and `scanPages_eq`.

## Main definitions

* `PriceSearch` — what `get_price` reads of its client.
* `PriceSearch.scanEntries`, `PriceSearch.scanPages` — the two loops.
* `PriceSearch.getPrice` — `get_price`, with the numbers of the pages that it requests.

## Main results

* `PriceSearch.scanEntries_eq` — a page contributes its well-formed exact listings, or raises.
* `PriceSearch.scanPages_eq` — the pages end with the first that is empty or contributes a listing.
-/

namespace DonutMonitor

/-- What `get_price` raises: an exception of `_request_page`, the `OverflowError` of a validation
that it does not catch, or the `decimal.Overflow` of `selected_price`. -/
inductive PriceFailure where
  | request (failure : RequestFailure)
  | overflowError
  | decimalOverflow
  deriving DecidableEq, Repr

/-- The configuration of a client that `get_price` reads, with the functions of the interpreter
that it calls. -/
structure PriceSearch where
  maxSearchPages : ℤ := 3
  /-- The case mapping of `str.lower`. -/
  lower : String → String
  /-- `str(value)` of a decoded value. The decoder refuses the integers that `str` refuses. -/
  str : Json → String
  parsers : ListingParsers
  decimal : DecimalContext

/-- The exception of a payload whose `result` is not a list. -/
def PriceFailure.resultNotList : PriceFailure :=
  .request (.api (.response "DonutSMP response field 'result' is not a list"))

namespace PriceSearch

variable (search : PriceSearch)

/-- The fields of an entry that is a listing of exactly the item. -/
def exactFields (itemId : String) : Json → Option (List (String × Json))
  | .object fields =>
    match Json.field? fields "item" with
    | some (.object item) =>
      if normalizeItemId search.lower (search.str ((Json.field? item "id").getD (.str ""))) =
          itemId then some fields
      else none
    | _ => none
  | _ => none

/-- The loop over the entries of a page, with the exact listings found so far. -/
def scanEntries (itemId : String) (exactListings : List AuctionListing) :
    List Json → Except PriceFailure (List AuctionListing)
  | [] => .ok exactListings
  | raw :: entries =>
    match search.exactFields itemId raw with
    | none => scanEntries itemId exactListings entries
    | some fields =>
      match search.parsers.modelValidate fields with
      | .ok listing => scanEntries itemId (exactListings ++ [listing]) entries
      | .error .validationError => scanEntries itemId exactListings entries
      | .error .overflowError => .error .overflowError

/-- The loop over the pages that are left, with the exact listings found and the number of pages
scanned so far. The first component lists the pages that are requested. -/
def scanPages (requestPage : ℤ → Except RequestFailure (List (String × Json))) (itemId : String)
    (exactListings : List AuctionListing) (pagesScanned : ℤ) :
    List ℤ → List ℤ × Except PriceFailure (List AuctionListing × ℤ)
  | [] => ([], .ok (exactListings, pagesScanned))
  | page :: pages =>
    match requestPage page with
    | .error failure => ([page], .error (.request failure))
    | .ok payload =>
      match (Json.field? payload "result").getD (.list []) with
      | .list [] => ([page], .ok (exactListings, page))
      | .list rawResults =>
        match search.scanEntries itemId exactListings rawResults with
        | .error failure => ([page], .error failure)
        | .ok exactListings =>
          if exactListings.isEmpty then
            (scanPages requestPage itemId exactListings page pages).map (page :: ·) id
          else ([page], .ok (exactListings, page))
      | _ => ([page], .error .resultNotList)

/-- The numbers of the pages that may be requested. -/
def pages : List ℤ := (List.range search.maxSearchPages.toNat).map fun n : ℕ => (n : ℤ) + 1

/-- The builtin `min` of the listings found, where `none` is the exception of a key. -/
def cheapest (priceType : PriceType) (first : AuctionListing) (rest : List AuctionListing) :
    Option AuctionListing :=
  (first.selectedPrice? search.decimal priceType).bind fun least =>
    LeastByKey.leastFrom (fun listing => listing.selectedPrice? search.decimal priceType) first
      least rest

/-- The end of `get_price`, at the reading `checkedAt` of the clock. -/
def snapshot (itemId : String) (priceType : PriceType) (checkedAt : ℚ) (pagesScanned : ℤ) :
    List AuctionListing → Except PriceFailure PriceSnapshot
  | [] => .ok (.ofListing search.decimal itemId priceType none checkedAt pagesScanned)
  | first :: rest =>
    match search.cheapest priceType first rest with
    | none => .error .decimalOverflow
    | some listing =>
      .ok (.ofListing search.decimal itemId priceType (some listing) checkedAt pagesScanned)

/-- `DonutApiClient.get_price`. -/
def getPrice (requestPage : ℤ → Except RequestFailure (List (String × Json))) (itemId : String)
    (priceType : PriceType) (checkedAt : ℚ) : List ℤ × Except PriceFailure PriceSnapshot :=
  let normalizedItemId := normalizeItemId search.lower itemId
  let (requested, scanned) := search.scanPages requestPage normalizedItemId [] 0 search.pages
  (requested,
    match scanned with
    | .error failure => .error failure
    | .ok (exactListings, pagesScanned) =>
      search.snapshot normalizedItemId priceType checkedAt pagesScanned exactListings)

/-! ### The loops without state -/

/-- The listing that an entry contributes. -/
def listing? (itemId : String) (raw : Json) : Option AuctionListing :=
  (search.exactFields itemId raw).bind fun fields =>
    match search.parsers.modelValidate fields with
    | .ok listing => some listing
    | .error _ => none

/-- The well-formed exact listings of a page. -/
def wellFormed (itemId : String) (entries : List Json) : List AuctionListing :=
  entries.filterMap (search.listing? itemId)

/-- The validation of the entry raises something else than `ValidationError`. -/
def raisesOverflow (itemId : String) (raw : Json) : Bool :=
  match (search.exactFields itemId raw).map search.parsers.modelValidate with
  | some (.error .overflowError) => true
  | _ => false

/-- The page ends the search: it is empty, or holds a well-formed exact listing. -/
def stops (itemId : String) (results : ℤ → List Json) (page : ℤ) : Bool :=
  (results page).isEmpty || !(search.wellFormed itemId (results page)).isEmpty

/-- The pages up to the first that ends the search. -/
def requestedPages (itemId : String) (results : ℤ → List Json) (pages : List ℤ) : List ℤ :=
  FirstMatch.upTo (search.stops itemId results) pages

/-- Each page comes with the listed results. -/
def Returns (requestPage : ℤ → Except RequestFailure (List (String × Json)))
    (results : ℤ → List Json) (pages : List ℤ) : Prop :=
  ∀ page ∈ pages, ∃ payload, requestPage page = .ok payload ∧
    (Json.field? payload "result").getD (.list []) = .list (results page)

variable {search}

/-- A page contributes its well-formed exact listings, unless the validation of an entry raises. -/
theorem scanEntries_eq {itemId : String} {exactListings : List AuctionListing}
    {entries : List Json} :
    search.scanEntries itemId exactListings entries =
      if entries.any (search.raisesOverflow itemId) then .error .overflowError
      else .ok (exactListings ++ search.wellFormed itemId entries) := by
  induction entries generalizing exactListings with
  | nil => simp [scanEntries, wellFormed]
  | cons raw entries ih =>
    rw [scanEntries, List.any_cons, wellFormed, List.filterMap_cons, raisesOverflow, listing?]
    cases hfields : search.exactFields itemId raw with
    | none => simpa [wellFormed] using ih
    | some fields =>
      cases hvalid : search.parsers.modelValidate fields with
      | ok listing =>
        simpa [hvalid, wellFormed] using @ih (exactListings ++ [listing])
      | error failure =>
        cases failure with
        | validationError => simpa [hvalid, wellFormed] using ih
        | overflowError => simp [hvalid]

theorem requestedPages_cons (itemId : String) (results : ℤ → List Json) (page : ℤ)
    (pages : List ℤ) :
    search.requestedPages itemId results (page :: pages) =
      if search.stops itemId results page then [page]
      else page :: search.requestedPages itemId results pages :=
  FirstMatch.upTo_cons _ page pages

/-- The search ends with the first page that is empty or holds a well-formed exact listing, unless
the validation of an entry of a requested page raises. -/
theorem scanPages_eq {requestPage : ℤ → Except RequestFailure (List (String × Json))}
    {results : ℤ → List Json} {pages : List ℤ} (hpages : Returns requestPage results pages)
    (itemId : String) (pagesScanned : ℤ) :
    let requested := search.requestedPages itemId results pages
    let raises := requested.any fun page => (results page).any (search.raisesOverflow itemId)
    (search.scanPages requestPage itemId [] pagesScanned pages).2 =
        (if raises then .error .overflowError
        else .ok (requested.getLast?.elim [] fun page => search.wellFormed itemId (results page),
          requested.getLast?.getD pagesScanned)) ∧
      (raises = false →
        (search.scanPages requestPage itemId [] pagesScanned pages).1 = requested) := by
  induction pages generalizing pagesScanned with
  | nil => exact ⟨rfl, fun _ => rfl⟩
  | cons page pages ih =>
    obtain ⟨payload, hpayload, hresult⟩ := hpages page List.mem_cons_self
    have hrest := ih (fun p hp => hpages p (List.mem_cons_of_mem _ hp)) page
    simp only [scanPages, hpayload, hresult, requestedPages_cons]
    cases hentries : results page with
    | nil => simp [stops, hentries, wellFormed]
    | cons raw entries =>
      simp only [scanEntries_eq, List.nil_append]
      cases hraises : (raw :: entries).any (search.raisesOverflow itemId) with
      | true =>
        have hany : ∀ rest : List ℤ, ((page :: rest).any fun page =>
            (results page).any (search.raisesOverflow itemId)) = true := fun rest => by
          rw [List.any_cons, hentries, hraises, Bool.true_or]
        cases search.stops itemId results page <;> simp [hany]
      | false =>
        cases hfound : search.wellFormed itemId (raw :: entries) with
        | nil =>
          have hstops : search.stops itemId results page = false := by
            simp [stops, hentries, hfound]
          obtain ⟨hresult, hrequested⟩ := hrest
          simp only [hstops, Bool.false_eq_true, if_false, List.isEmpty_nil, if_true,
            List.any_cons, hentries, hraises, Bool.false_or, Prod.map_fst, Prod.map_snd, id]
          refine ⟨?_, fun h => by rw [hrequested h]⟩
          rw [hresult, List.getLast?_cons]
          cases (search.requestedPages itemId results pages).getLast? with
          | none => simp [hentries, hfound]
          | some last => rfl
        | cons listing listings =>
          have hstops : search.stops itemId results page = true := by
            simp [stops, hentries, hfound]
          simp [hstops, hentries, hraises, hfound]

/-- A snapshot is about the item that was searched for. -/
theorem itemId_of_getPrice {requestPage : ℤ → Except RequestFailure (List (String × Json))}
    {itemId : String} {priceType : PriceType} {checkedAt : ℚ} {found : PriceSnapshot}
    (h : (search.getPrice requestPage itemId priceType checkedAt).2 = .ok found) :
    found.itemId = normalizeItemId search.lower itemId := by
  simp only [getPrice] at h
  cases hscanned : (search.scanPages requestPage (normalizeItemId search.lower itemId) [] 0
    search.pages).2 with
  | error failure =>
    rw [hscanned] at h
    cases h
  | ok scanned =>
    rw [hscanned] at h
    dsimp only at h
    cases hlistings : scanned.1 with
    | nil =>
      rw [hlistings] at h
      obtain rfl := Except.ok.inj h
      rfl
    | cons first rest =>
      rw [hlistings, snapshot] at h
      split at h
      · cases h
      · obtain rfl := Except.ok.inj h
        rfl

/-! ### A search for elytras -/

/-- A client that scans three pages, with the parsers of the threshold. -/
def elytraSearch : PriceSearch where
  lower := id
  str
    | .str value => value
    | _ => ""
  parsers := ListingParsers.thresholdParsers
  decimal := .exact

/-- The raw listing of an elytra. -/
def rawElytra (count price : Json) : Json := .object (ListingParsers.rawElytra count price)

/-- The successful answers with the results. -/
def pageOf (results : ℤ → List Json) (page : ℤ) :
    Except RequestFailure (List (String × Json)) :=
  .ok [("status", .int 200), ("result", .list (results page))]

theorem returns_pageOf (results : ℤ → List Json) (pages : List ℤ) :
    Returns (pageOf results) results pages :=
  fun _ _ => ⟨_, rfl, rfl⟩

end PriceSearch

end DonutMonitor
