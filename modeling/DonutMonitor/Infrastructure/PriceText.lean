import DonutMonitor.Foundations.DecimalText
import DonutMonitor.Foundations.HalfEven
import Mathlib.Tactic.IntervalCases

/-!
# The text of a price

`format_decimal_price` writes integral values and values with a fraction by different conversions.
The conversion of a fraction rounds to two places, and then trailing zeros are stripped off the
text, and a trailing point: a value that rounds to an integer is written as that integer.

## Main definitions

* `formatDecimalPrice` — the text, or `ValueError` for an integer of too many digits.
* `Shows` — a text shows a value: a numeral with its thousands apart, without trailing zeros.

## Main results

* `formatDecimalPrice_shows` — the text of a price shows the price rounded to two places, and the
  values shown are in the order of the prices.
-/

namespace DonutMonitor

open DecimalText

/-- The largest number of digits for which an `int` is converted to a text. -/
@[irreducible] def intMaxStrDigits : ℕ := 4300

theorem intMaxStrDigits_pos : 0 < intMaxStrDigits := by
  unfold intMaxStrDigits
  norm_num

/-- The sign of a number in a text. -/
def signText (q : ℚ) : List Char := if q < 0 then ['-'] else []

/-- `f"{value:,}"` of an `int`, where `none` is `ValueError`. -/
def groupedInt (value : ℤ) : Option (List Char) :=
  let digits := Nat.toDigits 10 value.natAbs
  if digits.length ≤ intMaxStrDigits then some (signText value ++ group ',' digits) else none

/-- `f"{value:,.2f}"` of a `Decimal`. -/
def groupedFixed (value : ℚ) : List Char :=
  let cents := (roundHalfEven (|value| * 100)).natAbs
  signText value ++ group ',' (Nat.toDigits 10 (cents / 100)) ++
    ['.', Nat.digitChar (cents / 10 % 10), Nat.digitChar (cents % 10)]

/-- `text.replace(",", " ")`. -/
def spaced (text : List Char) : List Char := text.map fun c => if c = ',' then ' ' else c

/-- `text.rstrip(c)`. -/
def rstrip (c : Char) (text : List Char) : List Char := text.rdropWhile (· == c)

/-- `format_decimal_price`, where `none` is `ValueError`. -/
def formatDecimalPrice : Option ℚ → Option (List Char)
  | none => some "no listings".toList
  | some value =>
    if value = roundHalfEven value then (groupedInt (value.num.tdiv value.den)).map spaced
    else some (rstrip '.' (rstrip '0' (spaced (groupedFixed value))))

example : formatDecimalPrice (some (2469 / 2)) = some "1 234.5".toList := by decide +kernel

/-- A value rounded to two places. -/
def toCents (value : ℚ) : ℚ := roundHalfEven (value * 100) / 100

theorem toCents_mono : Monotone toCents := by
  intro v w hvw
  have hround := roundHalfEven_mono (mul_le_mul_of_nonneg_right hvw (by norm_num : (0 : ℚ) ≤ 100))
  exact div_le_div_of_nonneg_right (by exact_mod_cast hround) (by norm_num)

/-- A text shows a value: one to three digits, further groups of three digits behind spaces, and a
fraction that does not end in a zero. Without the spaces it is a numeral of the value. -/
def Shows (text : List Char) (value : ℚ) : Prop :=
  ∃ (first : List Char) (groups : List (List Char)) (fraction : List Char),
    text = first ++ groups.flatMap (fun g => ' ' :: g) ++ fractionText fraction ∧
      first ≠ [] ∧ first.length ≤ 3 ∧ (∀ g ∈ groups, g.length = 3) ∧
      (first.head? = some '0' → first ++ groups.flatten = ['0']) ∧
      fraction.length ≤ 2 ∧ fraction.getLast? ≠ some '0' ∧
      text.filter (· ≠ ' ') = first ++ groups.flatten ++ fractionText fraction ∧
      value? (text.filter (· ≠ ' ')) = some value

/-! ### Numerals -/

private theorem isDigit_of_mem {n : ℕ} {c : Char} (h : c ∈ Nat.toDigits 10 n) : c.isDigit = true :=
  Nat.isDigit_of_mem_toDigits (by norm_num) (by norm_num) h

private theorem ne_of_isDigit {c d : Char} (hc : c.isDigit = true) (hd : d.isDigit = false) :
    c ≠ d := by
  rintro rfl
  cases hc.symm.trans hd

private theorem isDigit_digitChar {n : ℕ} (h : n < 10) : (Nat.digitChar n).isDigit = true :=
  isDigit_of_mem (n := n) (by rw [Nat.toDigits_of_lt_base h]; exact List.mem_singleton_self _)

private theorem head_toDigits {n : ℕ} (h : 0 < n) : (Nat.toDigits 10 n).head? ≠ some '0' := by
  induction n using Nat.strong_induction_on with
  | _ n ih =>
    rw [Nat.toDigits_eq_if (by norm_num)]
    split_ifs with hlt
    · interval_cases n <;> decide
    · rw [List.head?_append_of_ne_nil _ Nat.toDigits_ne_nil]
      exact ih (n / 10) (by omega) (by omega)

/-- Numerals of numbers have no leading zeros. -/
theorem toDigits_eq_zero {n : ℕ} (h : (Nat.toDigits 10 n).head? = some '0') :
    Nat.toDigits 10 n = ['0'] := by
  rcases Nat.eq_zero_or_pos n with rfl | hpos
  · rfl
  · exact absurd h (head_toDigits hpos)

private theorem filter_ne_space {text : List Char} (h : ∀ c ∈ text, c.isDigit = true ∨ c = '.') :
    text.filter (· ≠ ' ') = text := by
  rw [List.filter_eq_self]
  intro c hc
  rcases h c hc with hdigit | rfl
  · exact decide_eq_true (ne_of_isDigit hdigit (by decide))
  · decide

/-- The text of a numeral with its thousands apart, followed by a fraction. -/
theorem shows_group (n : ℕ) {fraction : List Char} (hfraction : ∀ c ∈ fraction, c.isDigit = true)
    (hlength : fraction.length ≤ 2) (hlast : fraction.getLast? ≠ some '0') :
    Shows (group ' ' (Nat.toDigits 10 n) ++ fractionText fraction)
      (n + fractionValue fraction) := by
  obtain ⟨first, groups, hgroup, hdigits, hfirst, hshort, hgroups⟩ :=
    group_eq ' ' (Nat.toDigits_ne_nil (n := n) (b := 10))
  have hdigit : ∀ c ∈ first ++ groups.flatten, c.isDigit = true := fun c hc =>
    isDigit_of_mem (hdigits ▸ hc)
  have hfilter : (group ' ' (Nat.toDigits 10 n) ++ fractionText fraction).filter (· ≠ ' ') =
      first ++ groups.flatten ++ fractionText fraction := by
    have hspaces (g : List Char) (hg : g ∈ groups) : (' ' :: g).filter (· ≠ ' ') = g := by
      rw [List.filter_cons_of_neg (by decide)]
      exact filter_ne_space fun c hc =>
        .inl (hdigit c (List.mem_append_right _ (List.mem_flatten_of_mem hg hc)))
    rw [hgroup, List.filter_append, List.filter_append, List.filter_flatMap,
      filter_ne_space fun c hc => .inl (hdigit c (List.mem_append_left _ hc)),
      List.flatMap_congr hspaces, List.flatMap_id', filter_ne_space]
    intro c hc
    rw [fractionText] at hc
    split_ifs at hc with hempty
    · cases hc
    · rcases List.mem_cons.mp hc with rfl | hc
      · exact .inr rfl
      · exact .inl (hfraction c hc)
  refine ⟨first, groups, fraction, by rw [hgroup], hfirst, hshort, hgroups, ?_, hlength, hlast,
    hfilter, ?_⟩
  · intro hzero
    rw [hdigits]
    refine toDigits_eq_zero ?_
    rw [← hdigits, List.head?_append_of_ne_nil _ hfirst, hzero]
  · have hvalue := value?_append hdigit (by simp [hfirst]) hfraction
    rwa [← hfilter, hdigits, Nat.ofDigitChars_ten_toDigits] at hvalue

/-! ### The two conversions -/

private theorem spaced_eq {text : List Char} (h : ',' ∉ text) : spaced text = text := by
  conv_rhs => rw [← List.map_id text]
  refine List.map_congr_left fun c hc => if_neg ?_
  rintro rfl
  exact h hc

private theorem spaced_group (n : ℕ) :
    spaced (group ',' (Nat.toDigits 10 n)) = group ' ' (Nat.toDigits 10 n) := by
  have hkept : (Nat.toDigits 10 n).map (fun c => if c = ',' then ' ' else c) =
      Nat.toDigits 10 n := spaced_eq fun h => absurd (isDigit_of_mem h) (by decide)
  rw [spaced, map_group, hkept]
  rfl

private theorem signText_eq_nil {q : ℚ} (h : 0 ≤ q) : signText q = [] :=
  if_neg (not_lt.mpr h)

/-- An integral value is written as it is. -/
theorem formatDecimalPrice_natCast {n : ℕ} (h : n < 10 ^ intMaxStrDigits) :
    formatDecimalPrice (some n) = some (group ' ' (Nat.toDigits 10 n)) := by
  have hint : ((n : ℚ).num.tdiv (n : ℚ).den) = n := by simp
  have hsign : signText ((n : ℤ) : ℚ) = [] := signText_eq_nil (by positivity)
  have hdigits : (Nat.toDigits 10 n).length ≤ intMaxStrDigits :=
    (Nat.length_toDigits_le_iff (by norm_num) intMaxStrDigits_pos).mpr h
  rw [formatDecimalPrice, if_pos (by simp), hint, groupedInt, Int.natAbs_natCast, if_pos hdigits,
    hsign, List.nil_append, Option.map_some, spaced_group]

/-- Stripping zeros and then a point off a numeral strips the trailing zeros of its fraction. -/
private theorem rstrip_fraction {whole fraction : List Char}
    (hwhole : ∀ h : whole ≠ [], whole.getLast h ≠ '.')
    (hfraction : ∀ c ∈ fraction, c.isDigit = true) :
    rstrip '.' (rstrip '0' (whole ++ '.' :: fraction)) =
      whole ++ fractionText (rstrip '0' fraction) := by
  induction fraction using List.reverseRecOn with
  | nil =>
    have hkept : rstrip '.' whole = whole :=
      List.rdropWhile_eq_self_iff.mpr fun h => by simpa using hwhole h
    rw [rstrip, rstrip, List.rdropWhile_concat_neg _ _ _ (by decide),
      List.rdropWhile_concat_pos _ _ _ (by decide)]
    simpa [fractionText, rstrip] using hkept
  | append_singleton fraction c ih =>
    have happend : whole ++ '.' :: (fraction ++ [c]) = (whole ++ '.' :: fraction) ++ [c] := by simp
    have hc : c.isDigit = true := hfraction c (by simp)
    by_cases hzero : c = '0'
    · have hstrip (text : List Char) : rstrip '0' (text ++ [c]) = rstrip '0' text :=
        List.rdropWhile_concat_pos _ _ _ (by simp [hzero])
      rw [happend, hstrip, hstrip, ih fun d hd => hfraction d (List.mem_append_left _ hd)]
    · have hstrip (text : List Char) : rstrip '0' (text ++ [c]) = text ++ [c] :=
        List.rdropWhile_concat_neg _ _ _ (by simpa using hzero)
      have hpoint : c ≠ '.' := ne_of_isDigit hc (by decide)
      rw [happend, hstrip, hstrip, rstrip, List.rdropWhile_concat_neg _ _ _ (by simpa using hpoint)]
      simp [fractionText]

private theorem getLast_group {n : ℕ} (h : group ' ' (Nat.toDigits 10 n) ≠ []) :
    (group ' ' (Nat.toDigits 10 n)).getLast h ≠ '.' := by
  rcases mem_group (List.getLast_mem h) with hspace | hdigit
  · rw [hspace]
    decide
  · exact ne_of_isDigit (isDigit_of_mem hdigit) (by decide)

/-- A value with a fraction is written as its cents, without trailing zeros. -/
theorem formatDecimalPrice_fraction {v : ℚ} (h0 : 0 ≤ v) (hv : v ≠ roundHalfEven v) {cents : ℕ}
    (hcents : roundHalfEven (v * 100) = cents) :
    formatDecimalPrice (some v) = some (group ' ' (Nat.toDigits 10 (cents / 100)) ++
      fractionText (rstrip '0' [Nat.digitChar (cents / 10 % 10), Nat.digitChar (cents % 10)])) := by
  have hdigits : ∀ c ∈ [Nat.digitChar (cents / 10 % 10), Nat.digitChar (cents % 10)],
      c.isDigit = true := by
    intro c hc
    simp only [List.mem_cons, List.not_mem_nil, or_false] at hc
    rcases hc with rfl | rfl
    · exact isDigit_digitChar (Nat.mod_lt _ (by norm_num))
    · exact isDigit_digitChar (Nat.mod_lt _ (by norm_num))
  have hfraction : ∀ c ∈ '.' :: [Nat.digitChar (cents / 10 % 10), Nat.digitChar (cents % 10)],
      c ≠ ',' := by
    intro c hc
    rcases List.mem_cons.mp hc with rfl | hc
    · decide
    · exact ne_of_isDigit (hdigits c hc) (by decide)
  have hspaced : spaced (groupedFixed v) = group ' ' (Nat.toDigits 10 (cents / 100)) ++
      '.' :: [Nat.digitChar (cents / 10 % 10), Nat.digitChar (cents % 10)] := by
    rw [groupedFixed, abs_of_nonneg h0, hcents, Int.natAbs_natCast, signText_eq_nil h0,
      List.nil_append, ← spaced_group]
    conv_rhs => rw [← spaced_eq fun h => hfraction ',' h rfl]
    exact List.map_append
  rw [formatDecimalPrice, if_neg hv, hspaced, rstrip_fraction getLast_group hdigits]

/-! ### The value shown -/

private theorem fractionValue_digits (cents : ℕ) :
    ((cents / 100 : ℕ) : ℚ) +
        fractionValue (rstrip '0' [Nat.digitChar (cents / 10 % 10), Nat.digitChar (cents % 10)]) =
      cents / 100 := by
  have hvalue : Nat.ofDigitChars 10
      [Nat.digitChar (cents / 10 % 10), Nat.digitChar (cents % 10)] 0 = cents % 100 := by
    rw [Nat.ofDigitChars_cons_digitChar_of_lt_ten (Nat.mod_lt _ (by norm_num)),
      Nat.ofDigitChars_cons_digitChar_of_lt_ten (Nat.mod_lt _ (by norm_num)), Nat.ofDigitChars_nil]
    omega
  have hcents : ((100 * (cents / 100) + cents % 100 : ℕ) : ℚ) = cents := by rw [Nat.div_add_mod]
  rw [rstrip, fractionValue_rdropWhile, fractionValue, hvalue]
  push_cast at hcents
  simp only [List.length_cons, List.length_nil]
  linarith

/-- The text of a price shows the price rounded to two places. -/
theorem exists_shows {v : ℚ} (h0 : 0 ≤ v) (h : v < 10 ^ intMaxStrDigits) :
    ∃ text, formatDecimalPrice (some v) = some text ∧ Shows text (toCents v) := by
  by_cases hv : v = roundHalfEven v
  · obtain ⟨n, rfl⟩ := exists_eq_natCast_of_eq_roundHalfEven h0 hv
    have hcents : toCents (n : ℚ) = n + fractionValue [] := by
      have hround : roundHalfEven ((n : ℚ) * 100) = ((n * 100 : ℕ) : ℤ) := by
        rw [← roundHalfEven_natCast]
        push_cast
        rfl
      rw [toCents, hround, fractionValue, Nat.ofDigitChars_nil]
      push_cast
      ring
    refine ⟨_, formatDecimalPrice_natCast (by exact_mod_cast h), ?_⟩
    have hshows : Shows (group ' ' (Nat.toDigits 10 n) ++ fractionText []) _ :=
      shows_group n (by simp) (by simp) (by simp)
    rwa [fractionText, if_pos rfl, List.append_nil, ← hcents] at hshows
  · have hnonneg : 0 ≤ roundHalfEven (v * 100) := roundHalfEven_nonneg (by positivity)
    obtain ⟨cents, hcents⟩ := Int.eq_ofNat_of_zero_le hnonneg
    refine ⟨_, formatDecimalPrice_fraction h0 hv hcents, ?_⟩
    have hvalue : toCents v = ((cents / 100 : ℕ) : ℚ) + fractionValue
        (rstrip '0' [Nat.digitChar (cents / 10 % 10), Nat.digitChar (cents % 10)]) := by
      rw [fractionValue_digits, toCents, hcents]
      rfl
    rw [hvalue]
    refine shows_group _ ?_ ?_ ?_
    · intro c hc
      have hmem := (List.rdropWhile_prefix _ _).subset hc
      simp only [List.mem_cons, List.not_mem_nil, or_false] at hmem
      rcases hmem with rfl | rfl
      · exact isDigit_digitChar (Nat.mod_lt _ (by norm_num))
      · exact isDigit_digitChar (Nat.mod_lt _ (by norm_num))
    · exact (List.rdropWhile_prefix _ _).length_le
    · intro hlast
      have hne := List.ne_nil_of_mem (List.mem_of_getLast? hlast)
      rw [List.getLast?_eq_some_getLast hne, Option.some.injEq] at hlast
      exact List.rdropWhile_last_not _ _ hne (beq_iff_eq.mpr hlast)

theorem Shows.value? {text : List Char} {q : ℚ} (h : Shows text q) :
    DecimalText.value? (text.filter (· ≠ ' ')) = some q := by
  obtain ⟨-, -, -, -, -, -, -, -, -, -, -, hvalue⟩ := h
  exact hvalue

private theorem lt_pow_intMaxStrDigits {v : ℚ} (h : v < 10 ^ 30) : v < 10 ^ intMaxStrDigits := by
  refine h.trans_le (pow_le_pow_right₀ (by norm_num) ?_)
  unfold intMaxStrDigits
  norm_num

/-- The text of a price below `10 ** 30` shows the price rounded to two places, and a price that is
not smaller shows a value that is not smaller. -/
theorem formatDecimalPrice_shows (v : ℚ) (h0 : 0 ≤ v) (h30 : v < 10 ^ 30) :
    ∃ text, formatDecimalPrice (some v) = some text ∧ Shows text (toCents v) ∧
      ∀ w, v ≤ w → w < 10 ^ 30 → ∃ text' shown shown', formatDecimalPrice (some w) = some text' ∧
        value? (text.filter (· ≠ ' ')) = some shown ∧
        value? (text'.filter (· ≠ ' ')) = some shown' ∧ shown ≤ shown' := by
  obtain ⟨text, htext, hshows⟩ := exists_shows h0 (lt_pow_intMaxStrDigits h30)
  refine ⟨text, htext, hshows, fun w hvw hw => ?_⟩
  obtain ⟨text', htext', hshows'⟩ := exists_shows (h0.trans hvw) (lt_pow_intMaxStrDigits hw)
  exact ⟨text', toCents v, toCents w, htext', hshows.value?, hshows'.value?, toCents_mono hvw⟩

/-- A price that is rounded up to a new group of digits. -/
theorem formatDecimalPrice_shows_carry :
    ∃ text, formatDecimalPrice (some (999999 / 1000)) = some text ∧
      Shows text (toCents (999999 / 1000)) ∧
      ∀ w, 999999 / 1000 ≤ w → w < 10 ^ 30 → ∃ text' shown shown',
        formatDecimalPrice (some w) = some text' ∧
        value? (text.filter (· ≠ ' ')) = some shown ∧
        value? (text'.filter (· ≠ ' ')) = some shown' ∧ shown ≤ shown' :=
  formatDecimalPrice_shows (999999 / 1000) (by norm_num) (by norm_num)

end DonutMonitor
