import DonutMonitor.Domain.Schemas

/-!
# The validation of auction listings

`AuctionListing.model_validate` on a decoded JSON object.  The two converters of the models catch a
chosen set of exceptions, and what they do not catch leaves the validation: `int` of an infinite
float raises `OverflowError`.  `Decimal` accepts numbers that the division of `selected_price` does
not: a quotient of `10 ** 1000000` or more raises `decimal.Overflow` in the default context.

The parsers of numbers are parameters, as is pydantic's own conversion to `int`.

## Main definitions

* `ListingParsers.normalizeCount`, `ListingParsers.validatePrice` — the two converters.
* `ListingParsers.modelValidate` — the validation of a listing.
* `AuctionListing.selectedPrice?` — `selected_price` in a context that traps `Overflow`.
* `ListingParsers.Harmless` — what is expected of a raw listing.

## Main results

* `ListingParsers.harmless_iff` — a raw listing is harmless if and only if its count is not infinite
  and its price for an item is not too large.
-/

namespace DonutMonitor

/-! ### Conversions -/

/-- The exceptions of `int`. -/
inductive ConversionError where
  | typeError
  | valueError
  | overflowError
  deriving DecidableEq, Repr

/-- The conversions that the validators call. -/
structure ListingParsers where
  /-- `int(text)`, where `none` is `ValueError`. -/
  int : String → Option ℤ
  /-- `Decimal(str(value))`, where `none` is one of the exceptions that `validate_price` catches. -/
  decimal : Json → Option PyDecimal
  /-- The conversion of a field declared `int`, where `none` is a validation error. -/
  laxInt : Json → Option ℤ

/-- `bool(value)`. -/
def truthy : Json → Bool
  | .null => false
  | .bool value => value
  | .int value => value ≠ 0
  | .float (.fin value) => value ≠ 0
  | .float _ => true
  | .str value => value ≠ ""
  | .list values => !values.isEmpty
  | .object fields => !fields.isEmpty

namespace ListingParsers

variable (parsers : ListingParsers)

/-- `int(value)`. -/
def intOf : Json → Except ConversionError ℤ
  | .null | .list _ | .object _ => .error .typeError
  | .bool value => .ok (if value then 1 else 0)
  | .int value => .ok value
  | .float (.fin value) => .ok (value.num.tdiv value.den)
  | .float .nan => .error .valueError
  | .float .posInf | .float .negInf => .error .overflowError
  | .str text =>
    match parsers.int text with
    | some value => .ok value
    | none => .error .valueError

/-- `AuctionItem.normalize_count`. An exception that it does not catch is `none`. -/
def normalizeCount (value : Json) : Option {n : ℤ // 1 ≤ n} :=
  match parsers.intOf (if truthy value then value else .int 1) with
  | .ok count => some ⟨max count 1, le_max_right count 1⟩
  | .error .typeError | .error .valueError => some ⟨1, le_rfl⟩
  | .error .overflowError => none

/-- `AuctionListing.validate_price`, where `none` is `ValueError`. -/
def validatePrice (value : Json) : Option {q : ℚ // 0 ≤ q} :=
  match parsers.decimal value with
  | some (.finite price) => if h : 0 ≤ price then some ⟨price, h⟩ else none
  | some .infinite | some .nan | none => none

end ListingParsers

/-! ### Fields -/

/-- A field declared `str`. -/
def strField : Json → Option String
  | .str value => some value
  | _ => none

/-- A field declared `str | None`, with the default `None`. -/
def optionalStrField : Option Json → Option (Option String)
  | none | some .null => some none
  | some (.str value) => some (some value)
  | some _ => none

/-- The field `lore`, with `normalize_nullable_lore`. -/
def loreField : Option Json → Option (List Json)
  | none | some .null => some []
  | some (.list values) => some values
  | some _ => none

/-- The field `enchants`. -/
def enchantsField : Option Json → Option Json
  | none => some (.object [])
  | some (.list values) => some (.list values)
  | some (.object fields) => some (.object fields)
  | some _ => none

/-- The field `trim`, of any type. -/
def trimField : Option Json → Option Json
  | some .null => none
  | value => value

/-- The field `seller`. -/
def sellerField : Option Json → Option AuctionSeller
  | none => some {}
  | some (.object fields) => do
    let name ← (Json.field? fields "name").elim (some "Unknown") strField
    let uuid ← optionalStrField (Json.field? fields "uuid")
    return { name, uuid }
  | some _ => none

namespace ListingParsers

variable (parsers : ListingParsers)

/-- The field `time_left`. -/
def timeLeftField : Option Json → Option (Option ℤ)
  | none | some .null => some none
  | some value => (parsers.laxInt value).map some

/-- The fields of an item beside its count, where `none` is a validation error. -/
def itemOf (count : {n : ℤ // 1 ≤ n}) (fields : List (String × Json)) : Option AuctionItem := do
  let id ← (Json.field? fields "id").bind strField
  let displayName ← optionalStrField (Json.field? fields "display_name")
  let lore ← loreField (Json.field? fields "lore")
  let enchants ← enchantsField (Json.field? fields "enchants")
  return {
    id, displayName, lore, enchants, trim := trimField (Json.field? fields "trim")
    count := count.1, one_le_count := count.2 }

/-- The count of an item, with its default. -/
def countOf (fields : List (String × Json)) : Option {n : ℤ // 1 ≤ n} :=
  (Json.field? fields "count").elim (some ⟨1, le_rfl⟩) parsers.normalizeCount

end ListingParsers

/-- What `model_validate` raises. -/
inductive ValidationFailure where
  | validationError
  | overflowError
  deriving DecidableEq, Repr

namespace ListingParsers

variable (parsers : ListingParsers)

/-- The field `item`. The validation goes on after an invalid field, so the count is converted
whatever the other fields hold. -/
def itemField : Option Json → Except ValidationFailure AuctionItem
  | some (.object fields) =>
    match parsers.countOf fields with
    | none => .error .overflowError
    | some count =>
      match itemOf count fields with
      | some item => .ok item
      | none => .error .validationError
  | _ => .error .validationError

/-- The fields of a listing beside its item, where `none` is a validation error. -/
def listingOf (item : AuctionItem) (fields : List (String × Json)) : Option AuctionListing := do
  let ⟨price, price_nonneg⟩ ← (Json.field? fields "price").bind parsers.validatePrice
  let seller ← sellerField (Json.field? fields "seller")
  let timeLeft ← parsers.timeLeftField (Json.field? fields "time_left")
  return { item, price, seller, timeLeft, price_nonneg }

/-- `AuctionListing.model_validate`. -/
def modelValidate (fields : List (String × Json)) : Except ValidationFailure AuctionListing :=
  match parsers.itemField (Json.field? fields "item") with
  | .error failure => .error failure
  | .ok item =>
    match parsers.listingOf item fields with
    | some listing => .ok listing
    | none => .error .validationError

end ListingParsers

/-! ### Prices -/

/-- A result of this size or more has an exponent above the largest one of the default context. -/
@[irreducible] def overflowThreshold : ℚ := 10 ^ (999999 + 1)

/-- `AuctionListing.selected_price`, where `none` is `decimal.Overflow`. -/
def AuctionListing.selectedPrice? (ctx : DecimalContext) (listing : AuctionListing)
    (priceType : PriceType) : Option ℚ :=
  match priceType with
  | .perItem =>
    if listing.selectedPrice ctx .perItem < overflowThreshold then
      some (listing.selectedPrice ctx .perItem)
    else none
  | .total => some listing.price

namespace ListingParsers

variable (parsers : ListingParsers) (ctx : DecimalContext)

/-- The validation of a raw listing raises `ValidationError`, or it yields a listing whose selected
price can be computed. -/
def Harmless (fields : List (String × Json)) : Prop :=
  match parsers.modelValidate fields with
  | .error failure => failure = .validationError
  | .ok listing => 1 ≤ listing.item.count ∧ 0 ≤ listing.price ∧
    ∀ priceType, (listing.selectedPrice? ctx priceType).isSome = true

/-! ### The raw listing -/

/-- The fields of the raw item. -/
def rawItem (fields : List (String × Json)) : Option (List (String × Json)) :=
  match Json.field? fields "item" with
  | some (.object item) => some item
  | _ => none

/-- The raw item has an infinite float as its count. -/
def CountIsInfinite (fields : List (String × Json)) : Prop :=
  ∃ item, rawItem fields = some item ∧
    (Json.field? item "count" = some (.float .posInf) ∨
      Json.field? item "count" = some (.float .negInf))

/-- All fields but the count and the price are valid. -/
def othersValid (fields : List (String × Json)) : Bool :=
  ((rawItem fields).bind (itemOf ⟨1, le_rfl⟩)).isSome &&
    (sellerField (Json.field? fields "seller")).isSome &&
    (parsers.timeLeftField (Json.field? fields "time_left")).isSome

/-- The price and the count of a raw listing make a quotient that the context cannot hold. -/
def PriceOverflows (fields : List (String × Json)) : Prop :=
  ∃ item raw price count, rawItem fields = some item ∧ parsers.countOf item = some count ∧
    Json.field? fields "price" = some raw ∧ parsers.validatePrice raw = some price ∧
    overflowThreshold ≤ ctx.round (price.1 / count.1)

variable {parsers ctx}

private theorem intOf_eq_overflowError_iff {value : Json} :
    parsers.intOf value = .error .overflowError ↔
      value = .float .posInf ∨ value = .float .negInf := by
  cases value with
  | float value => cases value <;> simp [intOf]
  | str text => cases h : parsers.int text <;> simp [intOf, h]
  | _ => simp [intOf]

/-- Only an infinite float is a count whose conversion is not caught. -/
theorem normalizeCount_eq_none_iff {value : Json} :
    parsers.normalizeCount value = none ↔ value = .float .posInf ∨ value = .float .negInf := by
  have hnone : parsers.normalizeCount value = none ↔
      parsers.intOf (if truthy value then value else .int 1) = .error .overflowError := by
    rw [normalizeCount]
    split <;> simp_all
  rw [hnone, intOf_eq_overflowError_iff]
  cases htruthy : truthy value with
  | true => simp
  | false =>
    refine iff_of_false (by simp) ?_
    rintro (rfl | rfl) <;> cases htruthy

theorem countOf_eq_none_iff {fields : List (String × Json)} :
    parsers.countOf fields = none ↔
      Json.field? fields "count" = some (.float .posInf) ∨
        Json.field? fields "count" = some (.float .negInf) := by
  cases h : Json.field? fields "count" with
  | none => simp [countOf, h]
  | some value => simp [countOf, h, normalizeCount_eq_none_iff]

/-- Whether the other fields of an item are valid does not depend on its count. -/
private theorem itemOf_isSome (count count' : {n : ℤ // 1 ≤ n}) (fields : List (String × Json)) :
    (itemOf count fields).isSome = (itemOf count' fields).isSome := by
  simp only [itemOf]
  cases (Json.field? fields "id").bind strField <;> [rfl; skip]
  cases optionalStrField (Json.field? fields "display_name") <;> [rfl; skip]
  cases loreField (Json.field? fields "lore") <;> [rfl; skip]
  cases enchantsField (Json.field? fields "enchants") <;> rfl

private theorem itemOf_count {count : {n : ℤ // 1 ≤ n}} {fields : List (String × Json)}
    {item : AuctionItem} (h : itemOf count fields = some item) : item.count = count.1 := by
  simp only [itemOf, Option.bind_eq_bind, Option.bind_eq_some_iff, Option.pure_def,
    Option.some.injEq] at h
  obtain ⟨id, -, displayName, -, lore, -, enchants, -, rfl⟩ := h
  rfl

/-- The listings that an item and valid other fields make. -/
private theorem listingOf_eq_some_iff {item : AuctionItem} {fields : List (String × Json)}
    {listing : AuctionListing} :
    parsers.listingOf item fields = some listing ↔
      ∃ raw price seller timeLeft, Json.field? fields "price" = some raw ∧
        parsers.validatePrice raw = some price ∧
        sellerField (Json.field? fields "seller") = some seller ∧
        parsers.timeLeftField (Json.field? fields "time_left") = some timeLeft ∧
        listing = { item, price := price.1, seller, timeLeft, price_nonneg := price.2 } := by
  simp only [listingOf, Option.bind_eq_bind, Option.bind_eq_some_iff, Option.pure_def,
    Option.some.injEq, eq_comm (b := listing)]
  constructor
  · rintro ⟨price, ⟨raw, hraw, hprice⟩, seller, hseller, timeLeft, htime, rfl⟩
    exact ⟨raw, price, seller, timeLeft, hraw, hprice, hseller, htime, rfl⟩
  · rintro ⟨raw, price, seller, timeLeft, hraw, hprice, hseller, htime, rfl⟩
    exact ⟨price, ⟨raw, hraw, hprice⟩, seller, hseller, timeLeft, htime, rfl⟩

private theorem modelValidate_of_rawItem {fields : List (String × Json)}
    (hitem : rawItem fields = none) :
    parsers.modelValidate fields = .error .validationError := by
  have hfield : ∀ item, Json.field? fields "item" ≠ some (.object item) := fun item hfield => by
    rw [rawItem, hfield] at hitem
    cases hitem
  rw [modelValidate, itemField]
  exact hfield

/-- The validation as far as it depends on the raw item and its count. -/
private theorem modelValidate_eq {fields item : List (String × Json)}
    (hitem : rawItem fields = some item) :
    parsers.modelValidate fields =
      match parsers.countOf item with
      | none => .error .overflowError
      | some count =>
        match (itemOf count item).bind fun item => parsers.listingOf item fields with
        | some listing => .ok listing
        | none => .error .validationError := by
  have hfield : Json.field? fields "item" = some (.object item) := by
    unfold rawItem at hitem
    split at hitem
    · rename_i h
      rw [h, Option.some.inj hitem]
    · cases hitem
  rw [modelValidate, hfield, itemField]
  cases parsers.countOf item with
  | none => rfl
  | some count => cases h : itemOf count item <;> simp [h]

/-- The listings that validation yields, by their raw fields. -/
theorem modelValidate_eq_ok {fields : List (String × Json)} {listing : AuctionListing}
    (h : parsers.modelValidate fields = .ok listing) :
    parsers.othersValid fields = true ∧ ∃ item raw price count, rawItem fields = some item ∧
      parsers.countOf item = some count ∧ Json.field? fields "price" = some raw ∧
      parsers.validatePrice raw = some price ∧ listing.price = price.1 ∧
      listing.item.count = count.1 := by
  cases hitem : rawItem fields with
  | none =>
    rw [modelValidate_of_rawItem hitem] at h
    cases h
  | some item =>
    rw [modelValidate_eq hitem] at h
    cases hcount : parsers.countOf item with
    | none =>
      rw [hcount] at h
      cases h
    | some count =>
      rw [hcount] at h
      dsimp only at h
      cases hlisting : (itemOf count item).bind fun item => parsers.listingOf item fields with
      | none =>
        rw [hlisting] at h
        cases h
      | some listing' =>
        rw [hlisting] at h
        obtain rfl : listing' = listing := Except.ok.inj h
        obtain ⟨it, hit, hlisting⟩ := Option.bind_eq_some_iff.mp hlisting
        obtain ⟨raw, price, seller, timeLeft, hraw, hprice, hseller, htime, rfl⟩ :=
          listingOf_eq_some_iff.mp hlisting
        have hvalid : (itemOf ⟨1, le_rfl⟩ item).isSome = true := by
          rw [itemOf_isSome _ count, hit]
          rfl
        exact ⟨by simp [othersValid, hitem, hvalid, hseller, htime], item, raw, price, count, rfl,
          hcount, hraw, hprice, rfl, itemOf_count hit⟩

/-- Validation raises nothing but `ValidationError`, unless the count is infinite. -/
theorem modelValidate_eq_error {fields : List (String × Json)} {failure : ValidationFailure}
    (hfinite : ¬ CountIsInfinite fields) (h : parsers.modelValidate fields = .error failure) :
    failure = .validationError := by
  cases hitem : rawItem fields with
  | none =>
    rw [modelValidate_of_rawItem hitem] at h
    exact (Except.error.inj h).symm
  | some item =>
    rw [modelValidate_eq hitem] at h
    cases hcount : parsers.countOf item with
    | none => exact absurd ⟨item, hitem, countOf_eq_none_iff.mp hcount⟩ hfinite
    | some count =>
      rw [hcount] at h
      dsimp only at h
      split at h
      · cases h
      · exact (Except.error.inj h).symm

/-- A raw listing whose fields are all valid is validated. -/
theorem modelValidate_of_valid {fields item : List (String × Json)} {raw : Json}
    {price : {q : ℚ // 0 ≤ q}} {count : {n : ℤ // 1 ≤ n}}
    (hothers : parsers.othersValid fields = true) (hitem : rawItem fields = some item)
    (hcount : parsers.countOf item = some count) (hraw : Json.field? fields "price" = some raw)
    (hprice : parsers.validatePrice raw = some price) :
    ∃ listing, parsers.modelValidate fields = .ok listing ∧ listing.price = price.1 ∧
      listing.item.count = count.1 := by
  simp only [othersValid, hitem, Option.bind_some, Bool.and_eq_true,
    itemOf_isSome ⟨1, le_rfl⟩ count, Option.isSome_iff_exists] at hothers
  obtain ⟨⟨⟨it, hit⟩, seller, hseller⟩, timeLeft, htime⟩ := hothers
  let listing : AuctionListing :=
    { item := it, price := price.1, seller, timeLeft, price_nonneg := price.2 }
  have hlisting : parsers.listingOf it fields = some listing :=
    listingOf_eq_some_iff.mpr ⟨raw, price, seller, timeLeft, hraw, hprice, hseller, htime, rfl⟩
  refine ⟨listing, ?_, rfl, itemOf_count hit⟩
  rw [modelValidate_eq hitem, hcount]
  dsimp only
  rw [hit, Option.bind_some, hlisting]

/-- The price for an item of a listing overflows from the threshold on. -/
theorem selectedPrice?_perItem_isSome_iff {listing : AuctionListing} :
    (listing.selectedPrice? ctx .perItem).isSome = true ↔
      ctx.round (listing.price / listing.item.count) < overflowThreshold := by
  rw [AuctionListing.selectedPrice?, AuctionListing.selectedPrice,
    max_eq_left listing.item.one_le_count]
  split_ifs with h <;> simp [h]

theorem not_harmless_of_countIsInfinite {fields : List (String × Json)}
    (hinfinite : CountIsInfinite fields) : ¬ parsers.Harmless ctx fields := by
  obtain ⟨item, hitem, hcount⟩ := hinfinite
  intro h
  rw [Harmless, modelValidate_eq hitem, countOf_eq_none_iff.mpr hcount] at h
  cases h

theorem not_harmless_of_priceOverflows {fields : List (String × Json)}
    (hothers : parsers.othersValid fields = true)
    (hoverflow : parsers.PriceOverflows ctx fields) : ¬ parsers.Harmless ctx fields := by
  obtain ⟨item, raw, price, count, hitem, hcount, hraw, hprice, hlarge⟩ := hoverflow
  obtain ⟨listing, hlisting, hlp, hlc⟩ := modelValidate_of_valid hothers hitem hcount hraw hprice
  intro h
  rw [Harmless, hlisting] at h
  have hsmall := selectedPrice?_perItem_isSome_iff.mp (h.2.2 .perItem)
  rw [hlp, hlc] at hsmall
  exact absurd hsmall (not_lt.mpr hlarge)

/-- A raw listing is harmless if and only if its count is not an infinite float and, where all of
its other fields are valid, the quotient of its price and its count does not overflow. -/
theorem harmless_iff (parsers : ListingParsers) (ctx : DecimalContext)
    (fields : List (String × Json)) :
    parsers.Harmless ctx fields ↔ ¬ CountIsInfinite fields ∧
      (parsers.othersValid fields = true → ¬ parsers.PriceOverflows ctx fields) := by
  constructor
  · exact fun h => ⟨fun hinfinite => not_harmless_of_countIsInfinite hinfinite h,
      fun hothers hoverflow => not_harmless_of_priceOverflows hothers hoverflow h⟩
  · rintro ⟨hfinite, hprice⟩
    rw [Harmless]
    cases h : parsers.modelValidate fields with
    | error failure => exact modelValidate_eq_error hfinite h
    | ok listing =>
      refine ⟨listing.item.one_le_count, listing.price_nonneg, fun priceType => ?_⟩
      obtain ⟨hothers, item, raw, price, count, hitem, hcount, hraw, hvalid, hlp, hlc⟩ :=
        modelValidate_eq_ok h
      cases priceType with
      | total => rfl
      | perItem =>
        rw [selectedPrice?_perItem_isSome_iff, hlp, hlc]
        exact not_le.mp fun hlarge =>
          hprice hothers ⟨item, raw, price, count, hitem, hcount, hraw, hvalid, hlarge⟩

/-- The raw listing of an elytra. -/
def rawElytra (count price : Json) : List (String × Json) :=
  [("item", .object [("id", .str "elytra"), ("count", count)]), ("price", price)]

/-- Parsers of integers and of the threshold. -/
def thresholdParsers : ListingParsers where
  int _ := none
  decimal
    | .int value => some (.finite value)
    | .str value => if value = "1E+1000000" then some (.finite overflowThreshold) else none
    | _ => none
  laxInt _ := none

private theorem overflowThreshold_nonneg : 0 ≤ overflowThreshold := by
  unfold overflowThreshold
  exact pow_nonneg (by norm_num) _

/-- An infinite count raises `OverflowError`, and the price `1E+1000000` is valid but too large to
be divided. -/
theorem not_harmless :
    ¬ thresholdParsers.Harmless .exact (rawElytra (.float .posInf) (.int 100)) ∧
      ¬ thresholdParsers.Harmless .exact (rawElytra (.int 1) (.str "1E+1000000")) := by
  refine ⟨not_harmless_of_countIsInfinite ⟨_, rfl, .inl rfl⟩,
    not_harmless_of_priceOverflows rfl ⟨_, _, ⟨overflowThreshold, overflowThreshold_nonneg⟩,
      ⟨1, le_rfl⟩, rfl, rfl, rfl, ?_, ?_⟩⟩
  · exact dif_pos overflowThreshold_nonneg
  · simp [DecimalContext.exact]

end ListingParsers

end DonutMonitor
