import DonutMonitor.Presentation.Embeds
import DonutMonitor.Foundations.Escaping

/-!
# The limits of the fields of an embed

A field whose value is empty or has more than 1024 characters makes the server reject the message.
The values of an item are cut to 1024 characters before they are escaped, and each backslash comes
on top of these. Numbers and the name of the seller are not cut at all: the name can be empty or too
long, and a number is too long from some power of ten on, which depends on what else its field
holds.

## Main definitions

* `Rendered` — an embed is built, and the values of its fields are valid.
* `PriceFits`, `DurationFits`, `ValueFits` — the prices, remaining times and values of an item whose
  texts are valid.
* `ListingFits`, `AlertFits`, `SnapshotFits` — the listings, alerts and prices that can be shown.

## Main results

* `rendered_iff` — what is rendered are the alerts and prices that can be shown.
* `not_rendered` — a line of lore of 513 underscores.
-/

namespace DonutMonitor

open DecimalText

/-! ### Valid fields -/

/-- A text is a valid value of a field: it is not empty and has at most 1024 characters. -/
def ValidValue (text : List Char) : Prop := text ≠ [] ∧ text.length ≤ 1024

/-- The embed is built, and the values of its fields are valid. -/
def Rendered (embed? : Option Embed) : Prop :=
  ∃ embed, embed? = some embed ∧ ∀ field ∈ embed.fields, ValidValue field.value

/-- A text is made, and it is a valid value. -/
private def Fits (text? : Option (List Char)) : Prop := ∃ text, text? = some text ∧ ValidValue text

/-! ### Integers -/

private theorem natCast_lt_pow_iff {n limit : ℕ} : (n : ℤ) < 10 ^ limit ↔ n < 10 ^ limit := by
  exact_mod_cast Iff.rfl

private theorem small_lt_pow {n limit : ℕ} (hn : n < 1000) (hlimit : 3 ≤ limit) : n < 10 ^ limit :=
  hn.trans_le ((by norm_num : 1000 ≤ 10 ^ 3).trans (Nat.pow_le_pow_right (by norm_num) hlimit))

private theorem lt_maxDigits_of_lt {n limit : ℕ} (h : n < 10 ^ limit) (hlimit : limit ≤ 1024) :
    n < 10 ^ intMaxStrDigits := by
  refine h.trans_le (Nat.pow_le_pow_right (by norm_num) (hlimit.trans ?_))
  unfold intMaxStrDigits
  norm_num

theorem intText_natCast (n : ℕ) :
    intText n = if n < 10 ^ intMaxStrDigits then some (Nat.toDigits 10 n) else none := by
  have hsign : signText ((n : ℤ) : ℚ) = [] := if_neg (by simp)
  rw [intText, Int.natAbs_natCast, hsign]
  simp only [Nat.length_toDigits_le_iff (b := 10) (by norm_num) intMaxStrDigits_pos,
    List.nil_append]

theorem intText_neg_natCast {n : ℕ} (h : 0 < n) : intText (-n) = (intText n).map ('-' :: ·) := by
  have hsign : signText ((-n : ℤ) : ℚ) = ['-'] := if_pos (by simpa using h)
  have hsign' : signText ((n : ℤ) : ℚ) = [] := if_neg (by simp)
  rw [intText, intText, Int.natAbs_neg, Int.natAbs_natCast, hsign, hsign']
  split_ifs <;> rfl

/-- A number has a text if and only if it has few enough digits. -/
private theorem exists_intText_iff (value : ℤ) :
    (∃ text, intText value = some text) ↔ value.natAbs < 10 ^ intMaxStrDigits := by
  rw [intText, ← Nat.length_toDigits_le_iff (b := 10) (by norm_num) intMaxStrDigits_pos]
  split_ifs with h <;> simp [h]

/-- The texts around a number leave `limit` characters of the value for its digits. -/
private theorem fits_intText_iff (n limit : ℕ) {before after : List Char} (hpos : 0 < limit)
    (hlimit : before.length + limit + after.length = 1024) :
    Fits ((intText n).map fun text => before ++ text ++ after) ↔ n < 10 ^ limit := by
  have hdigits := Nat.length_toDigits_le_iff (b := 10) (n := n) (by norm_num) hpos
  rw [intText_natCast, ← hdigits]
  constructor
  · rintro ⟨text, htext, -, hlength⟩
    split_ifs at htext
    · obtain rfl := Option.some.inj htext
      simp only [List.length_append] at hlength
      omega
    · cases htext
  · intro hle
    rw [if_pos (lt_maxDigits_of_lt (hdigits.mp hle) (by omega))]
    refine ⟨_, rfl, by simp, ?_⟩
    simp only [List.length_append]
    omega

/-! ### The remaining time -/

/-- A number of seconds whose text is not too long: the hours have at most 1014 digits, or 1015
beside a single digit of minutes. -/
def DurationFits (seconds : ℤ) : Prop :=
  -10 ^ 1019 < seconds ∧
    (seconds < 3600 * 10 ^ 1014 ∨ seconds % 3600 < 600 ∧ seconds < 3600 * 10 ^ 1015)

private theorem formatDuration_neg {n : ℕ} (h : 0 < n) :
    Fits (formatDuration (some (-n))) ↔ n < 10 ^ 1019 := by
  have htext : formatDuration (some (-n)) =
      (intText n).map fun text => ['-'] ++ text ++ " sec".toList := by
    rw [formatDuration, if_pos (by omega), intText_neg_natCast h]
    cases intText n <;> rfl
  rw [htext]
  exact fits_intText_iff n 1019 (by norm_num) rfl

private theorem formatDuration_seconds {n : ℕ} (h : n < 60) : Fits (formatDuration (some n)) := by
  have htext : formatDuration (some n) =
      (intText n).map fun text => [] ++ text ++ " sec".toList := by
    rw [formatDuration, if_pos (by omega)]
    cases intText n <;> rfl
  rw [htext, fits_intText_iff n 1020 (by norm_num) rfl]
  exact small_lt_pow (by omega) (by norm_num)

private theorem formatDuration_minutes {n : ℕ} (hlow : 60 ≤ n) (hhigh : n < 3600) :
    Fits (formatDuration (some n)) := by
  have htext : formatDuration (some n) =
      (intText ((n / 60 : ℕ) : ℤ)).map fun text => [] ++ text ++ " min".toList := by
    rw [formatDuration, if_neg (by omega), if_pos (by omega)]
    push_cast
    cases intText ((n : ℤ) / 60) <;> rfl
  rw [htext, fits_intText_iff _ 1020 (by norm_num) rfl]
  exact small_lt_pow (by omega) (by norm_num)

private theorem formatDuration_hours {n : ℕ} (hlow : 3600 ≤ n) :
    Fits (formatDuration (some n)) ↔
      n / 3600 < 10 ^ (if n % 3600 < 600 then 1015 else 1014) := by
  have hminutes : intText ((n % 3600 / 60 : ℕ) : ℤ) =
      some (Nat.toDigits 10 (n % 3600 / 60)) := by
    rw [intText_natCast, if_pos (lt_maxDigits_of_lt
      (small_lt_pow (by omega) le_rfl) (by norm_num))]
  have htext : formatDuration (some n) = (intText ((n / 3600 : ℕ) : ℤ)).map fun text =>
      [] ++ text ++ (" hr ".toList ++ Nat.toDigits 10 (n % 3600 / 60) ++ " min".toList) := by
    have hminutes' : intText ((n : ℤ) % 3600 / 60) = some (Nat.toDigits 10 (n % 3600 / 60)) := by
      exact_mod_cast hminutes
    rw [formatDuration, if_neg (by omega), if_neg (by omega), hminutes']
    push_cast
    cases intText ((n : ℤ) / 3600) <;> simp
  rw [htext, fits_intText_iff]
  · split_ifs <;> norm_num
  · have hdigits (limit : ℕ) (hpos : 0 < limit) :=
      Nat.length_toDigits_le_iff (b := 10) (n := n % 3600 / 60) (by norm_num) hpos
    have hone := hdigits 1 (by norm_num)
    have htwo := hdigits 2 (by norm_num)
    have hpos : 0 < (Nat.toDigits 10 (n % 3600 / 60)).length :=
      List.length_pos_iff.mpr Nat.toDigits_ne_nil
    have hhr : " hr ".toList.length = 4 := rfl
    have hmin : " min".toList.length = 4 := rfl
    simp only [List.length_append, List.length_nil, hhr, hmin]
    split_ifs <;> omega

/-- The text of the remaining time is a valid value. -/
theorem fits_formatDuration_iff (seconds : ℤ) :
    Fits (formatDuration (some seconds)) ↔ DurationFits seconds := by
  rcases lt_or_ge seconds 0 with hneg | hnonneg
  · obtain ⟨n, hn⟩ : ∃ n : ℕ, seconds = -n := ⟨seconds.natAbs, by omega⟩
    subst hn
    have hpos : (0 : ℤ) < 3600 * 10 ^ 1014 := by positivity
    rw [formatDuration_neg (by omega), DurationFits, ← natCast_lt_pow_iff]
    constructor
    · intro h
      exact ⟨neg_lt_neg_iff.mpr h, .inl (hneg.trans hpos)⟩
    · rintro ⟨h, -⟩
      exact neg_lt_neg_iff.mp h
  · obtain ⟨n, rfl⟩ := Int.eq_ofNat_of_zero_le hnonneg
    have hlow : (-10 ^ 1019 : ℤ) < n := (neg_neg_of_pos (by positivity)).trans_le hnonneg
    have hone : (1 : ℤ) ≤ 10 ^ 1014 := one_le_pow₀ (by norm_num)
    rcases lt_or_ge n 60 with h60 | h60
    · exact iff_of_true (formatDuration_seconds h60) ⟨hlow, .inl (by omega)⟩
    · rcases lt_or_ge n 3600 with h3600 | h3600
      · exact iff_of_true (formatDuration_minutes h60 h3600) ⟨hlow, .inl (by omega)⟩
      · rw [formatDuration_hours h3600, DurationFits, ← natCast_lt_pow_iff]
        rw [Int.natCast_ediv, Nat.cast_ofNat, Int.ediv_lt_iff_lt_mul (by norm_num)]
        have hpow : (10 : ℤ) ^ 1015 = 10 ^ 1014 * 10 := pow_succ _ _
        split_ifs with hminutes <;> omega

/-! ### Prices -/

/-- The value is not an integer of too many digits. -/
def Convertible (value : ℚ) : Prop := value.den = 1 → |value| < 10 ^ intMaxStrDigits

/-- The price, rounded to cents, has few enough digits: 768 digits and their separators are 1023
characters, and a fraction takes two or three more. -/
def PriceFits (price : ℚ) : Prop :=
  let cents := roundHalfEven (price * 100)
  if cents % 100 = 0 then cents < 10 ^ 770
  else if cents % 10 = 0 then cents < 10 ^ 769
  else cents < 10 ^ 768

private theorem eq_roundHalfEven_iff (q : ℚ) : q = roundHalfEven q ↔ q.den = 1 := by
  constructor
  · intro h
    rw [h]
    exact Rat.den_intCast _
  · intro h
    rw [← Rat.coe_int_num_of_den_eq_one h, roundHalfEven_intCast]

/-- A price has a text if and only if it is convertible. -/
theorem exists_formatDecimalPrice_iff (price : ℚ) :
    (∃ text, formatDecimalPrice (some price) = some text) ↔ Convertible price := by
  by_cases hint : price.den = 1
  · obtain ⟨k, rfl⟩ : ∃ k : ℤ, price = k := ⟨price.num, (Rat.coe_int_num_of_den_eq_one hint).symm⟩
    have habs : |(k : ℚ)| < 10 ^ intMaxStrDigits ↔ k.natAbs < 10 ^ intMaxStrDigits := by
      rw [← Int.cast_abs, Int.abs_eq_natAbs]
      exact_mod_cast Iff.rfl
    rw [formatDecimalPrice, if_pos ((eq_roundHalfEven_iff _).mpr hint), Rat.num_intCast,
      Rat.den_intCast, Nat.cast_one, Int.tdiv_one, groupedInt,
      Convertible, habs, ← Nat.length_toDigits_le_iff (b := 10) (by norm_num) intMaxStrDigits_pos]
    split_ifs with h <;> simp [h]
  · rw [formatDecimalPrice, if_neg fun h => hint ((eq_roundHalfEven_iff _).mp h)]
    exact iff_of_true ⟨_, rfl⟩ fun h => absurd h hint

private theorem exists_formatDecimalPrice_option_iff (price? : Option ℚ) :
    (∃ text, formatDecimalPrice price? = some text) ↔ ∀ price ∈ price?, Convertible price := by
  cases price? with
  | none => exact iff_of_true ⟨_, rfl⟩ fun price h => by cases h
  | some price =>
    rw [exists_formatDecimalPrice_iff]
    simp

/-- A number of `digits` digits has a separator before every third digit from the right. -/
private theorem length_group_le_iff (n digits : ℕ) {limit : ℕ} (hpos : 0 < digits)
    (hle : digits + (digits - 1) / 3 ≤ limit) (hlt : limit < digits + 1 + digits / 3) :
    (group ' ' (Nat.toDigits 10 n)).length ≤ limit ↔ n < 10 ^ digits := by
  rw [length_group ' ' Nat.toDigits_ne_nil,
    ← Nat.length_toDigits_le_iff (b := 10) (by norm_num) hpos]
  omega

private theorem digitChar_eq_zero_iff {d : ℕ} (h : d < 10) : Nat.digitChar d = '0' ↔ d = 0 := by
  interval_cases d <;> decide

/-- The length of the fraction of an amount of cents. -/
private theorem length_fractionText (cents : ℕ) :
    (fractionText (rstrip '0'
        [Nat.digitChar (cents / 10 % 10), Nat.digitChar (cents % 10)])).length =
      if cents % 100 = 0 then 0 else if cents % 10 = 0 then 2 else 3 := by
  have hten := digitChar_eq_zero_iff (d := cents / 10 % 10) (by omega)
  have hone := digitChar_eq_zero_iff (d := cents % 10) (by omega)
  by_cases h10 : cents % 10 = 0
  · by_cases h100 : cents / 10 % 10 = 0
    · rw [if_pos (by omega), hone.mpr h10, hten.mpr h100]
      rfl
    · rw [if_neg (by omega), if_pos h10, hone.mpr h10]
      have hne : Nat.digitChar (cents / 10 % 10) ≠ '0' := fun h => h100 (hten.mp h)
      simp [rstrip, List.rdropWhile, hne, fractionText]
  · have hne : Nat.digitChar (cents % 10) ≠ '0' := fun h => h10 (hone.mp h)
    rw [if_neg (by omega), if_neg h10]
    simp [rstrip, List.rdropWhile, hne, fractionText]

private theorem fits_of_text {price : ℚ} {text : List Char}
    (h : formatDecimalPrice (some price) = some text) :
    Fits (formatDecimalPrice (some price)) ↔ ValidValue text := by
  rw [Fits, h]
  exact ⟨fun ⟨_, htext, hvalid⟩ => Option.some.inj htext ▸ hvalid,
    fun hvalid => ⟨text, rfl, hvalid⟩⟩

private theorem group_ne_nil (n : ℕ) : group ' ' (Nat.toDigits 10 n) ≠ [] := by
  have hpos : 0 < (Nat.toDigits 10 n).length := List.length_pos_iff.mpr Nat.toDigits_ne_nil
  rw [← List.length_pos_iff, length_group ' ' Nat.toDigits_ne_nil]
  omega

private theorem validValue_group_iff (n : ℕ) :
    ValidValue (group ' ' (Nat.toDigits 10 n)) ↔ n < 10 ^ 768 := by
  rw [ValidValue, length_group_le_iff n 768 (by norm_num) (by norm_num) (by norm_num)]
  exact and_iff_right (group_ne_nil n)

private theorem fits_natCast_iff (n : ℕ) :
    Fits (formatDecimalPrice (some n)) ↔ n < 10 ^ 768 := by
  by_cases h : n < 10 ^ intMaxStrDigits
  · rw [fits_of_text (formatDecimalPrice_natCast h), validValue_group_iff]
  · refine iff_of_false ?_ fun hlt => h (lt_maxDigits_of_lt hlt (by norm_num))
    rintro ⟨text, htext, -⟩
    have hsome := (exists_formatDecimalPrice_iff n).mp ⟨text, htext⟩ (Rat.den_natCast n)
    rw [Nat.abs_cast] at hsome
    exact h (by exact_mod_cast hsome)

private theorem div_lt_pow_iff {cents digits : ℕ} :
    cents / 100 < 10 ^ digits ↔ (cents : ℤ) < 10 ^ (digits + 2) := by
  rw [natCast_lt_pow_iff, Nat.div_lt_iff_lt_mul (by norm_num), pow_add, show 10 ^ 2 = 100 from rfl]

private theorem priceFits_iff {price : ℚ} {cents : ℕ} (h : roundHalfEven (price * 100) = cents) :
    PriceFits price ↔ cents / 100 <
      10 ^ (if cents % 100 = 0 then 768 else if cents % 10 = 0 then 767 else 766) := by
  have h100 : (cents : ℤ) % 100 = 0 ↔ cents % 100 = 0 := by omega
  have h10 : (cents : ℤ) % 10 = 0 ↔ cents % 10 = 0 := by omega
  rw [PriceFits, h]
  simp only [h100, h10]
  split_ifs <;> exact div_lt_pow_iff.symm

/-- The text of a price is a valid value. -/
theorem fits_formatDecimalPrice_iff {price : ℚ} (h0 : 0 ≤ price) :
    Fits (formatDecimalPrice (some price)) ↔ PriceFits price := by
  have hnonneg : 0 ≤ roundHalfEven (price * 100) := roundHalfEven_nonneg (by positivity)
  obtain ⟨cents, hcents⟩ := Int.eq_ofNat_of_zero_le hnonneg
  rw [priceFits_iff hcents]
  by_cases hint : price = roundHalfEven price
  · obtain ⟨n, rfl⟩ := exists_eq_natCast_of_eq_roundHalfEven h0 hint
    have hn : cents = n * 100 := by
      rw [← Nat.cast_ofNat, ← Nat.cast_mul, roundHalfEven_natCast] at hcents
      exact_mod_cast hcents.symm
    rw [fits_natCast_iff, hn, if_pos (Nat.mul_mod_left n 100), Nat.mul_div_cancel n (by norm_num)]
  · rw [fits_of_text (formatDecimalPrice_fraction h0 hint hcents), ValidValue, List.length_append,
      length_fractionText]
    have hne := List.append_ne_nil_of_left_ne_nil (group_ne_nil (cents / 100))
      (fractionText (rstrip '0' [Nat.digitChar (cents / 10 % 10), Nat.digitChar (cents % 10)]))
    rw [and_iff_right hne]
    -- The fraction leaves 1024, 1022 or 1021 characters for the whole part.
    split_ifs
    · exact length_group_le_iff _ _ (by norm_num) (by norm_num) (by norm_num)
    · rw [← Nat.le_sub_iff_add_le (by norm_num)]
      exact length_group_le_iff _ _ (by norm_num) (by norm_num) (by norm_num)
    · rw [← Nat.le_sub_iff_add_le (by norm_num)]
      exact length_group_le_iff _ _ (by norm_num) (by norm_num) (by norm_num)

/-! ### The price for an item -/

private theorem priceFits_of_le {price : ℚ} (h : price ≤ 10 ^ 28) : PriceFits price := by
  have hcents : roundHalfEven (price * 100) ≤ 10 ^ 30 := by
    have hmono := roundHalfEven_mono (show price * 100 ≤ ((10 ^ 30 : ℤ) : ℚ) by
      push_cast
      linarith)
    rwa [roundHalfEven_intCast] at hmono
  have hlt {limit : ℕ} (hlimit : 30 < limit) : roundHalfEven (price * 100) < 10 ^ limit :=
    hcents.trans_lt (pow_lt_pow_right₀ (by norm_num) hlimit)
  rw [PriceFits]
  split_ifs
  · exact hlt (by norm_num)
  · exact hlt (by norm_num)
  · exact hlt (by norm_num)

/-- A price that is rounded to 28 digits has at most 28 digits, or no fraction. -/
private theorem fits_round_iff {price : ℚ} (h0 : 0 ≤ price) :
    Fits (formatDecimalPrice (some (defaultContext.round price))) ↔
      defaultContext.round price < 10 ^ 768 := by
  have hround0 : 0 ≤ defaultContext.round price := defaultContext.round_nonneg h0
  rcases le_or_gt (10 ^ 28) price with hlarge | hsmall
  · obtain ⟨k, hk⟩ := DecimalContext.exists_significant_eq_intCast hlarge
    have hk' : defaultContext.round price = k := hk
    rw [hk'] at hround0 ⊢
    obtain ⟨n, rfl⟩ := Int.eq_ofNat_of_zero_le (by exact_mod_cast hround0 : 0 ≤ k)
    rw [Int.cast_natCast, fits_natCast_iff]
    exact_mod_cast Iff.rfl
  · have hround : defaultContext.round price ≤ 10 ^ 28 := by
      have hmono := defaultContext.round_mono hsmall.le
      have hkept : defaultContext.round (((1 : ℤ) : ℚ) * 10 ^ (28 : ℤ)) =
          ((1 : ℤ) : ℚ) * 10 ^ (28 : ℤ) :=
        DecimalContext.significant_mul_zpow (by norm_num) (by norm_num)
      rw [Int.cast_one, one_mul] at hkept
      exact hmono.trans_eq hkept
    rw [fits_formatDecimalPrice_iff hround0]
    exact iff_of_true (priceFits_of_le hround)
      (hround.trans_lt (pow_lt_pow_right₀ (by norm_num) (by norm_num)))

private theorem pow_le_overflowThreshold : (10 : ℚ) ^ 768 ≤ overflowThreshold := by
  unfold overflowThreshold
  exact pow_le_pow_right₀ (by norm_num) (by norm_num)

/-- The text of the price for an item is a valid value unless the price for an item rounds to
`10 ** 768` or more. -/
theorem fits_perItem_iff {price : ℚ} (h0 : 0 ≤ price) {count : ℤ} (hcount : 1 ≤ count) :
    Fits ((quotient price count).bind fun q => formatDecimalPrice (some q)) ↔
      price < count * (10 ^ 768 - 5 * 10 ^ 739) := by
  have hcount' : (0 : ℚ) < count := by exact_mod_cast hcount
  have hq : 0 ≤ price / count := div_nonneg h0 hcount'.le
  have hround0 : 0 ≤ defaultContext.round (price / count) := defaultContext.round_nonneg hq
  have hfits : Fits ((quotient price count).bind fun q => formatDecimalPrice (some q)) ↔
      defaultContext.round (price / count) < 10 ^ 768 := by
    rw [quotient, abs_of_nonneg hround0]
    by_cases hoverflow : defaultContext.round (price / count) < overflowThreshold
    · simp only [hoverflow, if_true]
      exact fits_round_iff hq
    · simp only [hoverflow, if_false]
      refine iff_of_false ?_ fun hlt => hoverflow (hlt.trans_le pow_le_overflowThreshold)
      rintro ⟨text, htext, -⟩
      cases htext
  have hlimit : DecimalContext.significant 28 (price / count) < 10 ^ ((768 : ℕ) : ℤ) ↔ _ :=
    DecimalContext.significant_lt_zpow_iff (by norm_num) _
  have hunit : (10 : ℚ) ^ (((768 : ℕ) : ℤ) - (28 : ℕ)) / 2 = 5 * 10 ^ 739 := by
    have hhalf (unit : ℚ) : unit * 10 / 2 = 5 * unit := by ring
    rw [show ((768 : ℕ) : ℤ) - (28 : ℕ) = (739 + 1 : ℕ) by norm_num, zpow_natCast, pow_succ, hhalf]
  rw [hunit, zpow_natCast, div_lt_iff₀' hcount'] at hlimit
  exact hfits.trans hlimit

/-! ### Escaped values -/

/-- The characters before which `escape_markdown` puts a backslash. -/
def isMarkdown (c : Char) : Bool := "_\\~|*`".toList.contains c

/-- `discord.utils.escape_markdown`, for plain text. -/
def EscapesMarkdown (escapeMarkdown : List Char → List Char) : Prop :=
  ∀ text, escapeMarkdown text = escape '\\' isMarkdown text

section Values

variable (tables : ReprTables) {escapeMarkdown : List Char → List Char}

/-- What is left of the value after the cut has room for the backslashes. -/
def ValueFits (value : Json) : Prop :=
  let text := (plainText tables value).take 1024
  text.length + text.countP isMarkdown ≤ 1024

instance (value : Json) : Decidable (ValueFits tables value) :=
  inferInstanceAs (Decidable (_ ≤ _))

/-- The values of an item that are shown. -/
def AuctionItem.shownValues (item : AuctionItem) : List Json :=
  [item.enchants, item.trim.getD .null, .list item.lore].filter truthy

/-- The listing can be shown: its numbers have few enough digits, the name of the seller is a valid
value, and the values of the item can be escaped. -/
structure ListingFits (listing : AuctionListing) : Prop where
  count : listing.item.count < 10 ^ 1024
  price : PriceFits listing.price
  /-- Rounded to 28 digits, the price for an item is below `10 ** 768`. -/
  perItem : listing.price < listing.item.count * (10 ^ 768 - 5 * 10 ^ 739)
  seller : listing.seller.name ≠ "" ∧ listing.seller.name.length ≤ 1024
  timeLeft : ∀ seconds ∈ listing.timeLeft, DurationFits seconds
  values : ∀ value ∈ listing.item.shownValues, ValueFits tables value

/-- The event can be shown. -/
structure AlertFits (event : AlertEvent) : Prop where
  current : Convertible event.currentPrice
  threshold : Convertible event.threshold
  previous : ∀ price ∈ event.previousPrice, Convertible price
  listing : ∀ listing ∈ event.snapshot.listing, ListingFits tables listing
  itemId : event.itemId ≠ "" ∧ event.itemId.length ≤ 1024
  rule : event.displayRuleId < 10 ^ 1023

/-- The snapshot can be shown. -/
structure SnapshotFits (snapshot : PriceSnapshot) : Prop where
  selected : ∀ price ∈ snapshot.selectedPrice, Convertible price
  listing : ∀ listing ∈ snapshot.listing, ListingFits tables listing
  pages : snapshot.pagesScanned.natAbs < 10 ^ intMaxStrDigits

variable {tables}

/-- A value is cut before it is escaped, so that the backslashes come on top of the cut text. -/
theorem validValue_safeValue_iff (hescape : EscapesMarkdown escapeMarkdown) {value : Json} :
    ValidValue (safeValue tables escapeMarkdown value) ↔ ValueFits tables value := by
  rw [safeValue, ValueFits, hescape]
  by_cases hempty : (plainText tables value).take 1024 = []
  · rw [hempty, escape_nil, if_pos rfl]
    exact iff_of_true ⟨by decide, by decide⟩ (by decide)
  · have hne : escape '\\' isMarkdown ((plainText tables value).take 1024) ≠ [] :=
      fun h => hempty (escape_eq_nil_iff.mp h)
    rw [if_neg hne, ValidValue, length_escape]
    exact and_iff_right hne

private theorem validValue_toList_iff {text : String} :
    ValidValue text.toList ↔ text ≠ "" ∧ text.length ≤ 1024 := by
  rw [ValidValue, String.length_toList, Ne, String.toList_eq_nil_iff]

/-- A field of a value that is shown. -/
private theorem valid_safeField_iff {name : String} {value : Json} :
    (∀ field ∈ safeField tables escapeMarkdown name value, ValidValue field.value) ↔
      (truthy value = true → ValidValue (safeValue tables escapeMarkdown value)) := by
  rw [safeField]
  split_ifs with h <;> simp [h]

private theorem forall_shownValues_iff {item : AuctionItem} {p : Json → Prop} :
    (∀ value ∈ item.shownValues, p value) ↔
      (truthy item.enchants = true → p item.enchants) ∧
      (truthy (item.trim.getD .null) = true → p (item.trim.getD .null)) ∧
      (truthy (.list item.lore) = true → p (.list item.lore)) := by
  simp [AuctionItem.shownValues, List.mem_filter]

/-! ### Embeds -/

/-- The fields of a listing are added, and their values are valid. -/
private def FieldsFit (fields? : Option (List EmbedField)) : Prop :=
  ∃ fields, fields? = some fields ∧ ∀ field ∈ fields, ValidValue field.value

private theorem fieldsFit_none : FieldsFit (listingFields tables escapeMarkdown none) :=
  ⟨_, rfl, by
    intro field hfield
    rw [List.mem_singleton.mp hfield]
    exact ⟨by decide, by decide⟩⟩

private theorem fieldsFit_some {listing : AuctionListing} :
    FieldsFit (listingFields tables escapeMarkdown (some listing)) ↔
      Fits (intText listing.item.count) ∧ Fits (formatDecimalPrice (some listing.price)) ∧
      Fits ((quotient listing.price listing.item.count).bind fun q =>
        formatDecimalPrice (some q)) ∧
      ValidValue listing.seller.name.toList ∧ Fits (formatDuration listing.timeLeft) ∧
      ∀ value ∈ listing.item.shownValues, ValidValue (safeValue tables escapeMarkdown value) := by
  rw [forall_shownValues_iff]
  constructor
  · rintro ⟨fields, hfields, hvalid⟩
    simp only [listingFields, Option.bind_eq_bind, Option.bind_eq_some_iff, Option.pure_def,
      Option.some.injEq] at hfields
    obtain ⟨quantity, hquantity, total, htotal, q, hq, perItem, hperItem, remaining, hremaining,
      rfl⟩ := hfields
    simp only [List.forall_mem_append, List.forall_mem_cons, valid_safeField_iff] at hvalid
    obtain ⟨⟨⟨⟨vquantity, vtotal, vperItem, vseller, vremaining, -⟩, venchants⟩, vtrim⟩, vlore⟩ :=
      hvalid
    exact ⟨⟨quantity, hquantity, vquantity⟩, ⟨total, htotal, vtotal⟩,
      ⟨perItem, Option.bind_eq_some_iff.mpr ⟨q, hq, hperItem⟩, vperItem⟩, vseller,
      ⟨remaining, hremaining, vremaining⟩, venchants, vtrim, vlore⟩
  · rintro ⟨⟨quantity, hquantity, vquantity⟩, ⟨total, htotal, vtotal⟩,
      ⟨perItem, hperItem, vperItem⟩, vseller, ⟨remaining, hremaining, vremaining⟩, venchants, vtrim,
      vlore⟩
    obtain ⟨q, hq, hperItem⟩ := Option.bind_eq_some_iff.mp hperItem
    refine ⟨_, by
      simp only [listingFields, hquantity, htotal, hq, hremaining, Option.bind_eq_bind,
        Option.bind_some, hperItem]
      rfl, ?_⟩
    simp only [List.forall_mem_append, List.forall_mem_cons, valid_safeField_iff]
    exact ⟨⟨⟨⟨vquantity, vtotal, vperItem, vseller, vremaining, by simp⟩, venchants⟩, vtrim⟩, vlore⟩

/-- The fields of a listing have valid values if and only if the listing can be shown. -/
private theorem fieldsFit_iff (hescape : EscapesMarkdown escapeMarkdown)
    (listing? : Option AuctionListing) :
    FieldsFit (listingFields tables escapeMarkdown listing?) ↔
      ∀ listing ∈ listing?, ListingFits tables listing := by
  cases listing? with
  | none => exact iff_of_true fieldsFit_none fun listing hlisting => by cases hlisting
  | some listing =>
    obtain ⟨n, hn⟩ := Int.eq_ofNat_of_zero_le (Int.le_of_lt listing.item.one_le_count)
    have hcount : Fits (intText listing.item.count) ↔ listing.item.count < 10 ^ 1024 := by
      rw [hn, natCast_lt_pow_iff]
      have : Fits ((intText n).map fun text => [] ++ text ++ []) ↔ n < 10 ^ 1024 :=
        fits_intText_iff n 1024 (by norm_num) rfl
      simpa only [List.nil_append, List.append_nil, Option.map_id'] using this
    have hduration : Fits (formatDuration listing.timeLeft) ↔
        ∀ seconds ∈ listing.timeLeft, DurationFits seconds := by
      cases htime : listing.timeLeft with
      | none => exact iff_of_true ⟨_, rfl, by decide, by decide⟩ fun seconds h => by cases h
      | some seconds =>
        rw [fits_formatDuration_iff]
        simp
    rw [fieldsFit_some, hcount, fits_formatDecimalPrice_iff listing.price_nonneg,
      fits_perItem_iff listing.price_nonneg listing.item.one_le_count, validValue_toList_iff,
      hduration]
    simp only [validValue_safeValue_iff hescape, Option.mem_some_iff, forall_eq']
    constructor
    · rintro ⟨count, price, perItem, seller, timeLeft, values⟩
      exact { count, price, perItem, seller, timeLeft, values }
    · rintro ⟨count, price, perItem, seller, timeLeft, values⟩
      exact ⟨count, price, perItem, seller, timeLeft, values⟩

/-- An alert is rendered if and only if its event can be shown. -/
theorem rendered_alertEmbed_iff (hescape : EscapesMarkdown escapeMarkdown) (event : AlertEvent) :
    Rendered (alertEmbed tables escapeMarkdown event) ↔ AlertFits tables event := by
  have hfields : FieldsFit (listingFields tables escapeMarkdown event.snapshot.listing) ↔ _ :=
    fieldsFit_iff hescape _
  have hrule : Fits ((intText event.displayRuleId).map fun text => ['#'] ++ text ++ []) ↔
      event.displayRuleId < 10 ^ 1023 := fits_intText_iff _ 1023 (by norm_num) rfl
  constructor
  · rintro ⟨embed, hembed, hvalid⟩
    simp only [alertEmbed, Option.bind_eq_bind, Option.bind_eq_some_iff, Option.pure_def,
      Option.some.injEq] at hembed
    obtain ⟨current, hcurrent, threshold, hthreshold, previous, hprevious, fields, hlisting, rule,
      hid, rfl⟩ := hembed
    simp only [List.forall_mem_append, List.forall_mem_cons] at hvalid
    obtain ⟨vfields, vitem, vrule, -⟩ := hvalid
    exact {
      current := (exists_formatDecimalPrice_iff _).mp ⟨current, hcurrent⟩
      threshold := (exists_formatDecimalPrice_iff _).mp ⟨threshold, hthreshold⟩
      previous := (exists_formatDecimalPrice_option_iff _).mp ⟨previous, hprevious⟩
      listing := hfields.mp ⟨fields, hlisting, vfields⟩
      itemId := validValue_toList_iff.mp vitem
      rule := hrule.mp ⟨'#' :: rule, by rw [hid]; simp, vrule⟩ }
  · intro h
    obtain ⟨current, hcurrent⟩ := (exists_formatDecimalPrice_iff _).mpr h.current
    obtain ⟨threshold, hthreshold⟩ := (exists_formatDecimalPrice_iff _).mpr h.threshold
    obtain ⟨previous, hprevious⟩ := (exists_formatDecimalPrice_option_iff _).mpr h.previous
    obtain ⟨fields, hlisting, vfields⟩ := hfields.mpr h.listing
    obtain ⟨text, htext, vrule⟩ := hrule.mpr h.rule
    obtain ⟨rule, hid, rfl⟩ := Option.map_eq_some_iff.mp htext
    refine ⟨_, by
      simp only [alertEmbed, hcurrent, hthreshold, hprevious, hlisting, hid, Option.bind_eq_bind,
        Option.bind_some]
      rfl, ?_⟩
    simp only [List.forall_mem_append, List.forall_mem_cons]
    exact ⟨vfields, validValue_toList_iff.mpr h.itemId, by simpa using vrule, by simp⟩

/-- A price is rendered if and only if its snapshot can be shown. -/
theorem rendered_priceEmbed_iff (hescape : EscapesMarkdown escapeMarkdown)
    (snapshot : PriceSnapshot) (displayName : String) :
    Rendered (priceEmbed tables escapeMarkdown snapshot displayName) ↔
      SnapshotFits tables snapshot := by
  have hfields : FieldsFit (listingFields tables escapeMarkdown snapshot.listing) ↔ _ :=
    fieldsFit_iff hescape _
  constructor
  · rintro ⟨embed, hembed, hvalid⟩
    simp only [priceEmbed, Option.bind_eq_bind, Option.bind_eq_some_iff, Option.pure_def,
      Option.some.injEq] at hembed
    obtain ⟨selected, hselected, fields, hlisting, pages, hpages, rfl⟩ := hembed
    exact {
      selected := (exists_formatDecimalPrice_option_iff _).mp ⟨selected, hselected⟩
      listing := hfields.mp ⟨fields, hlisting, hvalid⟩
      pages := (exists_intText_iff _).mp ⟨pages, hpages⟩ }
  · intro h
    obtain ⟨selected, hselected⟩ := (exists_formatDecimalPrice_option_iff _).mpr h.selected
    obtain ⟨fields, hlisting, vfields⟩ := hfields.mpr h.listing
    obtain ⟨pages, hpages⟩ := (exists_intText_iff _).mpr h.pages
    refine ⟨_, by
      simp only [priceEmbed, hselected, hlisting, hpages, Option.bind_eq_bind, Option.bind_some]
      rfl, vfields⟩

end Values

/-- Alerts and prices are rendered if and only if their numbers have few enough digits, the name of
the seller and the item are neither empty nor too long, and the values of the item leave room for
the backslashes when they are cut. -/
theorem rendered_iff (tables : ReprTables) {escapeMarkdown : List Char → List Char}
    (hescape : EscapesMarkdown escapeMarkdown) :
    (∀ event : AlertEvent,
      Rendered (alertEmbed tables escapeMarkdown event) ↔ AlertFits tables event) ∧
    ∀ (snapshot : PriceSnapshot) (displayName : String),
      Rendered (priceEmbed tables escapeMarkdown snapshot displayName) ↔
        SnapshotFits tables snapshot :=
  ⟨rendered_alertEmbed_iff hescape, rendered_priceEmbed_iff hescape⟩

/-! ### Examples -/

/-- Tables in which every character is printable, for values without floats. -/
def printableTables : ReprTables where
  isPrintable _ := true
  float _ := []

/-- The price of a listing of an elytra. -/
def PriceSnapshot.ofElytra (listing : AuctionListing) : PriceSnapshot where
  itemId := "elytra"
  priceType := .total
  selectedPrice := some listing.price
  listing := some listing
  checkedAt := 0
  pagesScanned := 1

/-- The alert of a listing of an elytra. -/
def AlertEvent.ofElytra (listing : AuctionListing) : AlertEvent where
  discordUserId := 1
  databaseRuleId := 1
  displayRuleId := 1
  itemId := "elytra"
  displayName := "Elytra"
  condition := .priceDown
  threshold := 200
  previousPrice := none
  currentPrice := listing.price
  snapshot := .ofElytra listing

/-- A listing of an elytra with a line of lore. -/
def AuctionListing.withLore (line : String) : AuctionListing :=
  let listing := AuctionListing.elytra 100
  { listing with item := { listing.item with lore := [.str line] } }

/-- 513 underscores. -/
def underscores : String := String.ofList (List.replicate 513 '_')

section WithLore

variable (line : String)

private theorem shownValues_withLore :
    (AuctionListing.withLore line).item.shownValues = [.list [.str line]] := rfl

private theorem perItem_withLore : (AuctionListing.withLore line).price <
    (AuctionListing.withLore line).item.count * (10 ^ 768 - 5 * 10 ^ 739) := by
  have hlt (unit : ℚ) (hunit : 1 ≤ unit) : 100 < unit * 10 ^ 29 - 5 * unit := by linarith
  have hpow : (10 : ℚ) ^ 768 = 10 ^ 739 * 10 ^ 29 := pow_add 10 739 29
  have hone : ((1 : ℤ) : ℚ) * (10 ^ 768 - 5 * 10 ^ 739) = 10 ^ 739 * 10 ^ 29 - 5 * 10 ^ 739 := by
    rw [Int.cast_one, one_mul, hpow]
  exact (hlt _ (one_le_pow₀ (by norm_num))).trans_eq hone.symm

private theorem convertible_natCast {n : ℕ} (h : n < 1000) : Convertible n := by
  intro _
  have hlt := lt_maxDigits_of_lt (small_lt_pow h le_rfl) (by norm_num)
  rw [Nat.abs_cast]
  exact_mod_cast hlt

/-- The fields of the listing are added, whatever its lore is. -/
private theorem exists_listingFields (tables : ReprTables)
    (escapeMarkdown : List Char → List Char) :
    ∃ fields, listingFields tables escapeMarkdown (some (.withLore line)) = some fields ∧
      ∃ field ∈ fields, field.value = safeValue tables escapeMarkdown (.list [.str line]) := by
  obtain ⟨total, htotal⟩ := (exists_formatDecimalPrice_iff (AuctionListing.withLore line).price).mpr
    (convertible_natCast (n := 100) (by norm_num))
  obtain ⟨perItem, hperItem, -⟩ := (fits_perItem_iff (AuctionListing.withLore line).price_nonneg
    (AuctionListing.withLore line).item.one_le_count).mpr (perItem_withLore line)
  obtain ⟨q, hq, hperItem⟩ := Option.bind_eq_some_iff.mp hperItem
  obtain ⟨quantity, hquantity⟩ := (exists_intText_iff (AuctionListing.withLore line).item.count).mpr
    (one_lt_pow₀ (by norm_num) intMaxStrDigits_pos.ne')
  have hremaining : formatDuration (AuctionListing.withLore line).timeLeft =
      some "unknown".toList := rfl
  refine ⟨_, by
    simp only [listingFields, hquantity, htotal, hq, hremaining, Option.bind_eq_bind,
      Option.bind_some, hperItem]
    rfl, ?_⟩
  exact ⟨_, List.mem_append_right _ (List.mem_singleton_self _), rfl⟩

end WithLore

/-- The 513 underscores pass the cut, and the backslashes double them. -/
private theorem length_safeValue_underscores :
    (safeValue printableTables (escape '\\' isMarkdown) (.list [.str underscores])).length =
      1026 := by
  have htext (line : String) : plainText printableTables (.list [.str line]) = line.toList := by
    simp [plainText, Json.text, List.intercalate]
  have hcut {n : ℕ} (hn : n ≤ 1024) :
      (List.replicate n '_').take 1024 = List.replicate n '_' := by
    rw [List.take_replicate, Nat.min_eq_right hn]
  have hline : underscores.toList = List.replicate 513 '_' := String.toList_ofList
  have hlength : (escape '\\' isMarkdown (List.replicate 513 '_')).length = 1026 := by
    rw [length_escape, List.length_replicate, List.countP_replicate]
    decide
  have hne : escape '\\' isMarkdown (List.replicate 513 '_') ≠ [] :=
    List.ne_nil_of_length_pos (hlength ▸ by norm_num)
  rw [safeValue, htext, hline, hcut (by norm_num), if_neg hne, hlength]

/-- Both embeds of a listing whose lore is 513 underscores have a field of 1026 characters. -/
theorem not_rendered :
    (∃ embed, alertEmbed printableTables (escape '\\' isMarkdown)
        (.ofElytra (.withLore underscores)) = some embed ∧
      ∃ field ∈ embed.fields, field.value.length = 1026) ∧
    ∃ embed, priceEmbed printableTables (escape '\\' isMarkdown)
        (.ofElytra (.withLore underscores)) "Elytra" = some embed ∧
      ∃ field ∈ embed.fields, field.value.length = 1026 := by
  obtain ⟨fields, hfields, field, hfield, hvalue⟩ :=
    exists_listingFields underscores printableTables (escape '\\' isMarkdown)
  have hlength : field.value.length = 1026 := hvalue ▸ length_safeValue_underscores
  obtain ⟨current, hcurrent⟩ := (exists_formatDecimalPrice_iff
    (AuctionListing.withLore underscores).price).mpr (convertible_natCast (n := 100) (by norm_num))
  obtain ⟨threshold, hthreshold⟩ := (exists_formatDecimalPrice_iff 200).mpr
    (convertible_natCast (n := 200) (by norm_num))
  have hprevious : formatDecimalPrice none = some "no listings".toList := rfl
  obtain ⟨one, hone⟩ := (exists_intText_iff 1).mpr
    (one_lt_pow₀ (by norm_num) intMaxStrDigits_pos.ne')
  constructor
  · refine ⟨_, by
      simp only [alertEmbed, AlertEvent.ofElytra, PriceSnapshot.ofElytra, hcurrent, hthreshold,
        hprevious, hfields, Nat.cast_one, hone, Option.bind_eq_bind, Option.bind_some]
      rfl, field, List.mem_append_left _ hfield, hlength⟩
  · refine ⟨_, by
      simp only [priceEmbed, PriceSnapshot.ofElytra, hcurrent, hfields, hone, Option.bind_eq_bind,
        Option.bind_some]
      rfl, field, hfield, hlength⟩

private theorem listingFits_line : ListingFits printableTables (.withLore "Best *deal*") where
  count := one_lt_pow₀ (by norm_num) (by norm_num)
  price := priceFits_of_le (show (100 : ℚ) ≤ 10 ^ 28 by norm_num)
  perItem := perItem_withLore _
  seller := by decide
  timeLeft seconds h := by cases h
  values value h := by
    rw [shownValues_withLore, List.mem_singleton] at h
    rw [h]
    decide

/-- A lore with room for its backslashes. -/
theorem rendered_line :
    Rendered (alertEmbed printableTables (escape '\\' isMarkdown)
        (.ofElytra (.withLore "Best *deal*"))) ∧
      Rendered (priceEmbed printableTables (escape '\\' isMarkdown)
        (.ofElytra (.withLore "Best *deal*")) "Elytra") := by
  obtain ⟨halert, hprice⟩ := rendered_iff printableTables (fun _ => rfl : EscapesMarkdown _)
  constructor
  · exact (halert _).mpr {
      current := convertible_natCast (n := 100) (by norm_num)
      threshold := convertible_natCast (n := 200) (by norm_num)
      previous := fun price h => by cases h
      listing := fun listing h => Option.some.inj h ▸ listingFits_line
      itemId := by decide
      rule := one_lt_pow₀ (by norm_num) (by norm_num) }
  · exact (hprice _ _).mpr {
      selected := fun price h => Option.some.inj h ▸ convertible_natCast (n := 100) (by norm_num)
      listing := fun listing h => Option.some.inj h ▸ listingFits_line
      pages := one_lt_pow₀ (by norm_num) intMaxStrDigits_pos.ne' }

end DonutMonitor
