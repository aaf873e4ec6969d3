import DonutMonitor.Application.RuleProcessor
import DonutMonitor.Domain.DeadBand
import DonutMonitor.Domain.ListingValidation
import DonutMonitor.Foundations.JsonText
import DonutMonitor.Infrastructure.PriceText

/-!
# The embeds of alerts and prices

`_alert_embed` and `_price_embed`. Building an embed raises `ValueError` for an integer of too many
digits, and `decimal.Overflow` for a price for an item that the context cannot hold.

## Main definitions

* `Embed` — an embed, with the values of its fields as they are sent.
* `listingFields` — the fields that `_add_listing_fields` adds.
* `alertEmbed`, `priceEmbed` — the two embeds.
-/

namespace DonutMonitor

/-- A field of an embed. -/
structure EmbedField where
  name : List Char
  value : List Char
  inline : Bool := true

/-- `discord.Embed`. The timestamp is in seconds since the epoch. -/
structure Embed where
  title : List Char
  description : List Char
  color : ℕ
  timestamp : ℚ
  fields : List EmbedField
  footer : Option (List Char) := none

/-! ### Texts -/

/-- `str` of an `int`, where `none` is `ValueError`. -/
def intText (value : ℤ) : Option (List Char) :=
  let digits := Nat.toDigits 10 value.natAbs
  if digits.length ≤ intMaxStrDigits then some (signText value ++ digits) else none

/-- `_format_duration`. -/
def formatDuration : Option ℤ → Option (List Char)
  | none => some "unknown".toList
  | some seconds =>
    if seconds < 60 then do
      return (← intText seconds) ++ " sec".toList
    else if seconds < 3600 then do
      return (← intText (seconds / 60)) ++ " min".toList
    else do
      return (← intText (seconds / 3600)) ++ " hr ".toList ++
        (← intText (seconds % 3600 / 60)) ++ " min".toList

/-- The quotient of two `Decimal`s, where `none` is `decimal.Overflow`. -/
def quotient (dividend divisor : ℚ) : Option ℚ :=
  let result := defaultContext.round (dividend / divisor)
  if |result| < overflowThreshold then some result else none

section Values

variable (tables : ReprTables) (escapeMarkdown : List Char → List Char)

/-- The text of a value, before `_safe_value` cuts and escapes it. -/
def plainText : Json → List Char
  | .object fields =>
    ", ".toList.intercalate (fields.map fun (key, item) =>
      key.toList ++ ": ".toList ++ item.text tables)
  | .list values => "\n".toList.intercalate (values.map fun item => item.text tables)
  | value => value.text tables

/-- `_safe_value`. -/
def safeValue (value : Json) : List Char :=
  let text := escapeMarkdown ((plainText tables value).take 1024)
  if text = [] then "—".toList else text

/-- A field for a value that is not shown where it is false. -/
def safeField (name : String) (value : Json) : List EmbedField :=
  if truthy value then
    [{ name := name.toList, value := safeValue tables escapeMarkdown value, inline := false }]
  else []

/-- The fields that `_add_listing_fields` adds. -/
def listingFields : Option AuctionListing → Option (List EmbedField)
  | none =>
    some [{ name := "Listings".toList, value := "No matching active listings.".toList }]
  | some listing => do
    let quantity ← intText listing.item.count
    let total ← formatDecimalPrice (some listing.price)
    let perItem ← formatDecimalPrice (some (← quotient listing.price listing.item.count))
    let remaining ← formatDuration listing.timeLeft
    return [
        { name := "Quantity".toList, value := quantity },
        { name := "Total price".toList, value := total },
        { name := "Price per item".toList, value := perItem },
        { name := "Seller".toList, value := listing.seller.name.toList },
        { name := "Time remaining".toList, value := remaining }] ++
      safeField tables escapeMarkdown "Enchantments" listing.item.enchants ++
      safeField tables escapeMarkdown "Trim" (listing.item.trim.getD .null) ++
      safeField tables escapeMarkdown "Lore" (.list listing.item.lore)

/-- `_alert_embed`. -/
def alertEmbed (event : AlertEvent) : Option Embed := do
  let direction := if event.condition = .priceDown then "dropped" else "increased"
  let emoji := if event.condition = .priceDown then "💰" else "📈"
  let current ← formatDecimalPrice (some event.currentPrice)
  let threshold ← formatDecimalPrice (some event.threshold)
  let previous ← formatDecimalPrice event.previousPrice
  let fields ← listingFields tables escapeMarkdown event.snapshot.listing
  let rule ← intText event.displayRuleId
  return {
    title := (emoji ++ " " ++ event.displayName ++ " price " ++ direction).toList
    description := "**Current price:** ".toList ++ current ++
      "\n**Configured threshold:** ".toList ++ threshold ++
      "\n**Previous price:** ".toList ++ previous
    color := if event.condition = .priceDown then 0x2ECC71 else 0x3498DB
    timestamp := event.snapshot.checkedAt
    fields := fields ++ [
      { name := "Item".toList, value := event.itemId.toList, inline := false },
      { name := "Rule".toList, value := '#' :: rule }] }

/-- `_price_embed`. -/
def priceEmbed (snapshot : PriceSnapshot) (displayName : String) : Option Embed := do
  let selected ← formatDecimalPrice snapshot.selectedPrice
  let fields ← listingFields tables escapeMarkdown snapshot.listing
  let pages ← intText snapshot.pagesScanned
  return {
    title := (displayName ++ " Price").toList
    description := "**".toList ++ selected ++ "**".toList
    color := 0xF1C40F
    timestamp := snapshot.checkedAt
    fields := fields
    footer := some (snapshot.itemId.toList ++ " • pages checked: ".toList ++ pages) }

end Values

end DonutMonitor
