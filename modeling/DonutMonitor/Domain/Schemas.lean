import DonutMonitor.Core.Enums
import DonutMonitor.Foundations.DecimalContext
import DonutMonitor.Foundations.Json
import Mathlib.Data.Nat.Cast.Order.Basic
import Mathlib.Algebra.Order.Ring.Rat

/-!
# Auction listings and price snapshots

Validated API data. A `Decimal` that passed validation is finite and is modelled by its exact
value; what the validators guarantee is a field of the structure.
-/

namespace DonutMonitor

/-- A `Decimal`. -/
inductive PyDecimal where
  | finite (value : ℚ)
  | infinite
  | nan
  deriving DecidableEq, Repr

/-- `AuctionItem`. -/
structure AuctionItem where
  id : String
  count : ℤ := 1
  displayName : Option String := none
  lore : List Json := []
  enchants : Json := .object []
  trim : Option Json := none
  /-- `normalize_count`. -/
  one_le_count : 1 ≤ count := by decide

/-- `AuctionSeller`. -/
structure AuctionSeller where
  name : String := "Unknown"
  uuid : Option String := none
  deriving DecidableEq, Repr

/-- `AuctionListing`. -/
structure AuctionListing where
  item : AuctionItem
  price : ℚ
  seller : AuctionSeller := {}
  timeLeft : Option ℤ := none
  /-- `validate_price`. -/
  price_nonneg : 0 ≤ price := by decide

/-- `AuctionListing.selected_price`. -/
def AuctionListing.selectedPrice (ctx : DecimalContext) (listing : AuctionListing) :
    PriceType → ℚ
  | .perItem => ctx.round (listing.price / max listing.item.count 1)
  | .total => listing.price

/-- A listing of a single elytra. -/
def AuctionListing.elytra (price : ℕ) : AuctionListing where
  item := { id := "elytra" }
  price := price
  price_nonneg := Nat.cast_nonneg price

/-- A listing of 64 elytras. -/
def AuctionListing.elytraStack (price : ℕ) : AuctionListing where
  item := { id := "elytra", count := 64 }
  price := price
  price_nonneg := Nat.cast_nonneg price

/-- `PriceSnapshot`. The time is in seconds since the epoch. -/
structure PriceSnapshot where
  itemId : String
  priceType : PriceType
  selectedPrice : Option ℚ
  listing : Option AuctionListing
  checkedAt : ℚ
  pagesScanned : ℤ

/-- What `get_price` returns for the listing it selected. -/
def PriceSnapshot.ofListing (ctx : DecimalContext) (itemId : String) (priceType : PriceType)
    (listing : Option AuctionListing) (checkedAt : ℚ) (pagesScanned : ℤ) : PriceSnapshot where
  itemId := itemId
  priceType := priceType
  selectedPrice := listing.map fun l => l.selectedPrice ctx priceType
  listing := listing
  checkedAt := checkedAt
  pagesScanned := pagesScanned

/-- The snapshot of a single elytra, or of none. -/
def PriceSnapshot.elytra (price : Option {q : ℚ // 0 ≤ q}) (checkedAt : ℚ) : PriceSnapshot :=
  .ofListing .exact "elytra" .total
    (price.map fun q => { item := { id := "elytra" }, price := q.1, price_nonneg := q.2 })
    checkedAt 1

end DonutMonitor
