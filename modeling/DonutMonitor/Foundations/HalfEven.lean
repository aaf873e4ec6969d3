import DonutMonitor.Foundations.DecimalContext
import Mathlib.Algebra.Order.Archimedean.Basic
import Mathlib.Algebra.Order.Round
import Mathlib.Data.Int.ConditionallyCompleteOrder
import Mathlib.Data.Int.Log
import Mathlib.Data.Rat.Floor
import Mathlib.Tactic.Linarith
import Mathlib.Tactic.NormNum

/-!
# Rounding half to even

The rounding mode of decimal arithmetic: to the nearest multiple of a unit, and in the middle
between two multiples to the even one. A decimal context of some precision rounds to the unit that
leaves the value this many digits; formatting with a fixed number of places rounds to the unit of
the last place.

## Main definitions

* `roundHalfEven` — the rounding to an integer.
* `DecimalContext.halfEven` — the rounding to a number of significant digits.

## Main results

* `roundHalfEven_mono`, `roundHalfEven_neg` — rounding is monotone and symmetric.
* `roundHalfEven_div` — the rounding of a quotient of integers, by its remainder.
* `DecimalContext.significant_mul_zpow` — a value with few enough digits is kept.
* `DecimalContext.significant_lt_zpow_iff` — the values that are rounded to less than a power of
  ten.
-/

/-- The rounding of a rational number to the nearest integer, half to even. -/
def roundHalfEven (q : ℚ) : ℤ :=
  if q - ⌊q⌋ < 1 / 2 then ⌊q⌋
  else if 1 / 2 < q - ⌊q⌋ then ⌊q⌋ + 1
  else ⌊q⌋ + ⌊q⌋ % 2

section RoundHalfEven

variable {q : ℚ}

@[simp] theorem roundHalfEven_intCast (k : ℤ) : roundHalfEven k = k := by
  simp [roundHalfEven]

@[simp] theorem roundHalfEven_natCast (k : ℕ) : roundHalfEven k = k :=
  roundHalfEven_intCast k

theorem floor_le_roundHalfEven (q : ℚ) : ⌊q⌋ ≤ roundHalfEven q := by
  unfold roundHalfEven
  split_ifs <;> omega

theorem roundHalfEven_le_floor_add_one (q : ℚ) : roundHalfEven q ≤ ⌊q⌋ + 1 := by
  unfold roundHalfEven
  split_ifs <;> omega

/-- Below the middle of two integers the lower one is taken, and in the middle if it is even. -/
theorem roundHalfEven_eq_floor (h : q - ⌊q⌋ < 1 / 2 ∨ q - ⌊q⌋ = 1 / 2 ∧ ⌊q⌋ % 2 = 0) :
    roundHalfEven q = ⌊q⌋ := by
  unfold roundHalfEven
  rcases h with hlow | ⟨hmiddle, heven⟩
  · rw [if_pos hlow]
  · rw [if_neg hmiddle.not_lt, if_neg hmiddle.not_gt, heven, add_zero]

/-- Above the middle of two integers the upper one is taken, and in the middle if the lower one is
odd. -/
theorem roundHalfEven_eq_floor_add_one
    (h : ¬ (q - ⌊q⌋ < 1 / 2 ∨ q - ⌊q⌋ = 1 / 2 ∧ ⌊q⌋ % 2 = 0)) :
    roundHalfEven q = ⌊q⌋ + 1 := by
  obtain ⟨hlow, hmiddle⟩ := not_or.mp h
  unfold roundHalfEven
  rw [if_neg hlow]
  split_ifs with hhigh
  · rfl
  · have hodd : ¬ ⌊q⌋ % 2 = 0 := fun heven =>
      hmiddle ⟨le_antisymm (not_lt.mp hhigh) (not_lt.mp hlow), heven⟩
    omega

theorem roundHalfEven_mono : Monotone roundHalfEven := by
  intro p q hpq
  rcases (Int.floor_mono hpq).lt_or_eq with hfloor | hfloor
  · have hp := roundHalfEven_le_floor_add_one p
    have hq := floor_le_roundHalfEven q
    omega
  · have hdiff : p - ⌊p⌋ ≤ q - ⌊q⌋ := by rw [hfloor]; linarith
    unfold roundHalfEven
    rw [← hfloor] at hdiff ⊢
    split_ifs <;> first | omega | linarith

theorem roundHalfEven_nonneg (h : 0 ≤ q) : 0 ≤ roundHalfEven q := by
  have hmono := roundHalfEven_mono h
  rwa [← Int.cast_zero, roundHalfEven_intCast] at hmono

/-- A value of at least zero that is its own rounding is a natural number. -/
theorem exists_eq_natCast_of_eq_roundHalfEven (h0 : 0 ≤ q) (h : q = roundHalfEven q) :
    ∃ n : ℕ, q = n := by
  obtain ⟨n, hn⟩ := Int.eq_ofNat_of_zero_le (roundHalfEven_nonneg h0)
  refine ⟨n, ?_⟩
  rw [h, hn]
  rfl

/-- The distance to the rounded value. -/
theorem abs_roundHalfEven_sub_le (q : ℚ) : |(roundHalfEven q : ℚ) - q| ≤ 1 / 2 := by
  have hlow := Int.floor_le q
  have hmod : (0 : ℚ) ≤ (⌊q⌋ % 2 : ℤ) := by exact_mod_cast Int.emod_nonneg ⌊q⌋ two_ne_zero
  have hmod' : ((⌊q⌋ % 2 : ℤ) : ℚ) ≤ 1 := by exact_mod_cast (show ⌊q⌋ % 2 ≤ 1 by omega)
  unfold roundHalfEven
  split_ifs <;> push_cast <;> rw [abs_le] <;> constructor <;> linarith [Int.lt_floor_add_one q]

theorem roundHalfEven_neg (q : ℚ) : roundHalfEven (-q) = -roundHalfEven q := by
  by_cases hint : (⌊q⌋ : ℚ) = q
  · rw [← hint, ← Int.cast_neg, roundHalfEven_intCast, roundHalfEven_intCast]
  · have hlow : (⌊q⌋ : ℚ) < q := lt_of_le_of_ne (Int.floor_le q) hint
    have hfloor : ⌊-q⌋ = -⌊q⌋ - 1 := by
      rw [Int.floor_eq_iff]
      push_cast
      exact ⟨by linarith [Int.lt_floor_add_one q], by linarith⟩
    unfold roundHalfEven
    rw [hfloor]
    push_cast
    split_ifs <;> first | omega | linarith

/-- Rounding a quotient of integers half to even. -/
theorem roundHalfEven_div (units : ℤ) {unit : ℕ} (hunit : 0 < unit) :
    roundHalfEven (units / unit) =
      if 2 * (units % unit) < unit ∨ 2 * (units % unit) = unit ∧ units / unit % 2 = 0 then
        units / unit
      else units / unit + 1 := by
  have hunit' : (0 : ℚ) < unit := by exact_mod_cast hunit
  have hfloor : ⌊(units / unit : ℚ)⌋ = units / unit := Rat.floor_intCast_div_natCast units unit
  have hrest : (units / unit : ℚ) - ((units / unit : ℤ) : ℚ) = (units % unit : ℤ) / unit := by
    have hdivmod : ((units : ℤ) : ℚ) = ((units / unit * unit + units % unit : ℤ) : ℚ) := by
      rw [Int.ediv_mul_add_emod]
    nth_rewrite 1 [hdivmod]
    push_cast
    rw [add_div, mul_div_cancel_right₀ _ hunit'.ne', add_sub_cancel_left]
  have hlow : (units / unit : ℚ) - (⌊(units / unit : ℚ)⌋ : ℤ) < 1 / 2 ↔
      2 * (units % unit) < unit := by
    rw [hfloor, hrest, div_lt_div_iff₀ hunit' two_pos]
    norm_cast
    omega
  have hmiddle : (units / unit : ℚ) - (⌊(units / unit : ℚ)⌋ : ℤ) = 1 / 2 ↔
      2 * (units % unit) = unit := by
    rw [hfloor, hrest, div_eq_div_iff hunit'.ne' two_ne_zero]
    norm_cast
    omega
  split_ifs with h
  · rw [roundHalfEven_eq_floor (by rwa [hlow, hmiddle, hfloor]), hfloor]
  · rw [roundHalfEven_eq_floor_add_one (by rwa [hlow, hmiddle, hfloor]), hfloor]

end RoundHalfEven

namespace DecimalContext

/-- The unit of the last digit, when a value is written with a number of significant digits. -/
def lastUnit (precision : ℕ) (q : ℚ) : ℚ := 10 ^ (Int.log 10 |q| + 1 - precision)

/-- The rounding to a number of significant digits. -/
def significant (precision : ℕ) (q : ℚ) : ℚ :=
  roundHalfEven (q / lastUnit precision q) * lastUnit precision q

section Significant

variable {precision : ℕ} {q : ℚ}

theorem lastUnit_pos (precision : ℕ) (q : ℚ) : 0 < lastUnit precision q :=
  zpow_pos (by norm_num) _

theorem lastUnit_eq {exponent : ℤ} (hlow : 10 ^ exponent ≤ q) (hhigh : q < 10 ^ (exponent + 1)) :
    lastUnit precision q = 10 ^ (exponent + 1 - precision) := by
  have hq : 0 < q := (zpow_pos (by norm_num) _).trans_le hlow
  have hlog : Int.log 10 |q| = exponent := by
    rw [abs_of_pos hq]
    refine le_antisymm (Int.lt_add_one_iff.mp ?_) ?_
    · rw [← Int.lt_zpow_iff_log_lt (by norm_num) hq]
      exact_mod_cast hhigh
    · rw [← Int.zpow_le_iff_le_log (by norm_num) hq]
      exact_mod_cast hlow
  rw [lastUnit, hlog]

@[simp] theorem lastUnit_neg (precision : ℕ) (q : ℚ) :
    lastUnit precision (-q) = lastUnit precision q := by
  rw [lastUnit, abs_neg, lastUnit]

theorem significant_neg (precision : ℕ) (q : ℚ) :
    significant precision (-q) = -significant precision q := by
  simp [significant, neg_div, roundHalfEven_neg]

@[simp] theorem significant_zero (precision : ℕ) : significant precision 0 = 0 := by
  have : roundHalfEven 0 = 0 := by exact_mod_cast roundHalfEven_intCast 0
  simp [significant, this]

private theorem pow_mul_lastUnit (precision : ℕ) (q : ℚ) :
    (10 : ℚ) ^ precision * lastUnit precision q = 10 ^ (Int.log 10 |q| + 1) := by
  rw [lastUnit, ← zpow_natCast, ← zpow_add₀ (by norm_num)]
  congr 1
  ring

private theorem pow_pred_mul_lastUnit (hprecision : 0 < precision) (q : ℚ) :
    (10 : ℚ) ^ (precision - 1) * lastUnit precision q = 10 ^ Int.log 10 |q| := by
  rw [lastUnit, ← zpow_natCast, ← zpow_add₀ (by norm_num), Nat.cast_pred hprecision]
  congr 1
  ring

private theorem significant_le (hq : 0 < q) :
    significant precision q ≤ 10 ^ (Int.log 10 |q| + 1) := by
  have hlt : q < 10 ^ precision * lastUnit precision q := by
    rw [pow_mul_lastUnit, abs_of_pos hq]
    exact Int.lt_zpow_succ_log_self (by norm_num) q
  have hround : roundHalfEven (q / lastUnit precision q) ≤ 10 ^ precision := by
    have := roundHalfEven_mono ((div_le_iff₀ (lastUnit_pos precision q)).mpr hlt.le)
    have hpow : ((10 : ℚ) ^ precision) = ((10 ^ precision : ℤ) : ℚ) := by push_cast; rfl
    rwa [hpow, roundHalfEven_intCast] at this
  rw [← pow_mul_lastUnit precision q]
  exact mul_le_mul_of_nonneg_right (by exact_mod_cast hround) (lastUnit_pos precision q).le

private theorem le_significant (hprecision : 0 < precision) (hq : 0 < q) :
    10 ^ Int.log 10 |q| ≤ significant precision q := by
  have hle : 10 ^ (precision - 1) * lastUnit precision q ≤ q := by
    rw [pow_pred_mul_lastUnit hprecision]
    nth_rewrite 2 [← abs_of_pos hq]
    exact Int.zpow_log_le_self (by norm_num) (abs_pos.mpr hq.ne')
  have hround : 10 ^ (precision - 1) ≤ roundHalfEven (q / lastUnit precision q) := by
    have := roundHalfEven_mono ((le_div_iff₀ (lastUnit_pos precision q)).mpr hle)
    have hpow : ((10 : ℚ) ^ (precision - 1)) = ((10 ^ (precision - 1) : ℤ) : ℚ) := by
      push_cast; rfl
    rwa [hpow, roundHalfEven_intCast] at this
  rw [← pow_pred_mul_lastUnit hprecision q]
  exact mul_le_mul_of_nonneg_right (by exact_mod_cast hround) (lastUnit_pos precision q).le

private theorem significant_le_of_le (hprecision : 0 < precision) {p : ℚ} (hp : 0 < p)
    (hpq : p ≤ q) : significant precision p ≤ significant precision q := by
  have hq : 0 < q := hp.trans_le hpq
  have hlog : Int.log 10 |p| ≤ Int.log 10 |q| := by
    rw [abs_of_pos hp, abs_of_pos hq]
    exact Int.log_mono_right hp hpq
  rcases hlog.lt_or_eq with hlt | heq
  · calc significant precision p ≤ 10 ^ (Int.log 10 |p| + 1) := significant_le hp
      _ ≤ 10 ^ Int.log 10 |q| := zpow_le_zpow_right₀ (by norm_num) (by omega)
      _ ≤ significant precision q := le_significant hprecision hq
  · have hunit : lastUnit precision p = lastUnit precision q := by rw [lastUnit, heq, lastUnit]
    have hround := roundHalfEven_mono
      (div_le_div_of_nonneg_right hpq (lastUnit_pos precision q).le)
    rw [significant, significant, hunit]
    exact mul_le_mul_of_nonneg_right (by exact_mod_cast hround) (lastUnit_pos precision q).le

private theorem significant_nonneg (hprecision : 0 < precision) (hq : 0 ≤ q) :
    0 ≤ significant precision q := by
  rcases hq.eq_or_lt with rfl | hq
  · rw [significant_zero]
  · exact (zpow_nonneg (by norm_num) _).trans (le_significant hprecision hq)

/-- A positive value is not rounded to zero. -/
theorem significant_pos (hprecision : 0 < precision) (hq : 0 < q) : 0 < significant precision q :=
  (zpow_pos (by norm_num) _).trans_le (le_significant hprecision hq)

theorem significant_mono (hprecision : 0 < precision) : Monotone (significant precision) := by
  intro p q hpq
  rcases lt_or_ge 0 p with hp | hp
  · exact significant_le_of_le hprecision hp hpq
  · have hp' : significant precision p ≤ 0 := by
      have := significant_nonneg hprecision (neg_nonneg.mpr hp)
      rwa [significant_neg, neg_nonneg] at this
    rcases lt_or_ge q 0 with hq | hq
    · have := significant_le_of_le hprecision (neg_pos.mpr hq) (neg_le_neg hpq)
      rwa [significant_neg, significant_neg, neg_le_neg_iff] at this
    · exact hp'.trans (significant_nonneg hprecision hq)

private theorem significant_mul_zpow_of_lt {m s : ℤ} (hm : |m| < 10 ^ precision) :
    significant precision (m * 10 ^ s) = m * 10 ^ s := by
  rcases eq_or_ne m 0 with rfl | hne
  · simp
  · set q : ℚ := m * 10 ^ s with hq
    have hscale : (0 : ℚ) < 10 ^ s := zpow_pos (by norm_num) s
    have hqpos : 0 < |q| := abs_pos.mpr (mul_ne_zero (by exact_mod_cast hne) hscale.ne')
    have hlog : Int.log 10 |q| < precision + s := by
      rw [← Int.lt_zpow_iff_log_lt (by norm_num) hqpos, hq, abs_mul,
        abs_of_pos hscale, Nat.cast_ofNat, zpow_add₀ (by norm_num)]
      exact mul_lt_mul_of_pos_right (by exact_mod_cast hm) hscale
    obtain ⟨n, hn⟩ : ∃ n : ℕ, s = n + (Int.log 10 |q| + 1 - precision) :=
      ⟨(s - (Int.log 10 |q| + 1 - precision)).toNat, by omega⟩
    have hquotient : q / lastUnit precision q = ((m * 10 ^ n : ℤ) : ℚ) := by
      rw [div_eq_iff (lastUnit_pos precision q).ne', lastUnit]
      nth_rewrite 1 [hq, hn]
      rw [zpow_add₀ (by norm_num), zpow_natCast]
      push_cast
      ring
    rw [significant, hquotient, roundHalfEven_intCast, ← hquotient,
      div_mul_cancel₀ _ (lastUnit_pos precision q).ne']

/-- A value that can be written with the number of significant digits is kept. -/
theorem significant_mul_zpow (hprecision : 0 < precision) {m s : ℤ} (hm : |m| ≤ 10 ^ precision) :
    significant precision (m * 10 ^ s) = m * 10 ^ s := by
  rcases hm.lt_or_eq with hlt | heq
  · exact significant_mul_zpow_of_lt hlt
  · obtain ⟨sign, hsign, rfl⟩ : ∃ sign : ℤ, |sign| = 1 ∧ m = sign * 10 ^ precision := by
      rcases abs_choice m with h | h
      · exact ⟨1, rfl, by rw [one_mul, ← heq, h]⟩
      · exact ⟨-1, rfl, by rw [neg_one_mul, ← heq, h, neg_neg]⟩
    have hshift : (((sign * 10 ^ precision : ℤ) : ℚ)) * 10 ^ s = sign * 10 ^ (precision + s) := by
      rw [zpow_add₀ (by norm_num), zpow_natCast]
      push_cast
      ring
    rw [hshift]
    exact significant_mul_zpow_of_lt (hsign ▸ one_lt_pow₀ (by norm_num) hprecision.ne')

/-- A value of at least the precision's digits before the point is rounded to an integer. -/
theorem exists_significant_eq_intCast (h : 10 ^ precision ≤ q) :
    ∃ n : ℤ, significant precision q = n := by
  have hq : 0 < q := (pow_pos (by norm_num) precision).trans_le h
  have hlog : (precision : ℤ) ≤ Int.log 10 |q| := by
    rw [abs_of_pos hq, ← Int.zpow_le_iff_le_log (by norm_num) hq]
    exact_mod_cast h
  obtain ⟨n, hn⟩ : ∃ n : ℕ, Int.log 10 |q| + 1 - precision = n :=
    ⟨(Int.log 10 |q| + 1 - precision).toNat, by omega⟩
  refine ⟨roundHalfEven (q / lastUnit precision q) * 10 ^ n, ?_⟩
  rw [significant, lastUnit, hn, zpow_natCast]
  push_cast
  rfl

private theorem roundHalfEven_pow_sub_half (hprecision : 0 < precision) :
    roundHalfEven (10 ^ precision - 1 / 2) = 10 ^ precision := by
  have hfloor : ⌊(10 ^ precision - 1 / 2 : ℚ)⌋ = 10 ^ precision - 1 := by
    rw [Int.floor_eq_iff]
    push_cast
    constructor <;> linarith
  have heven : (10 : ℤ) ^ precision % 2 = 0 :=
    Int.emod_eq_zero_of_dvd (dvd_pow (by norm_num) hprecision.ne')
  rw [roundHalfEven_eq_floor_add_one, hfloor]
  · ring
  · rw [hfloor]
    push_cast
    rintro (hlow | ⟨-, hodd⟩)
    · linarith
    · omega

/-- A value is rounded to less than a power of ten if and only if it is below the power by more
than half of a unit in the last place. -/
theorem significant_lt_zpow_iff (hprecision : 0 < precision) (exponent : ℤ) :
    significant precision q < 10 ^ exponent ↔
      q < 10 ^ exponent - 10 ^ (exponent - precision) / 2 := by
  have hunit : (0 : ℚ) < 10 ^ (exponent - precision) := zpow_pos (by norm_num) _
  have hpow : (10 : ℚ) ^ precision * 10 ^ (exponent - precision) = 10 ^ exponent := by
    rw [← zpow_natCast, ← zpow_add₀ (by norm_num)]
    congr 1
    ring
  have hten : (10 : ℚ) ^ exponent = 10 * 10 ^ (exponent - 1) := by
    rw [← zpow_one_add₀ (by norm_num)]
    congr 1
    ring
  have hle : (10 : ℚ) ^ (exponent - precision) ≤ 10 ^ (exponent - 1) :=
    zpow_le_zpow_right₀ (by norm_num) (by omega)
  have hlastUnit {p : ℚ} (hlow : 10 ^ (exponent - 1) ≤ p) (hhigh : p < 10 ^ exponent) :
      lastUnit precision p = 10 ^ (exponent - precision) := by
    rw [lastUnit_eq hlow (by rwa [sub_add_cancel]), sub_add_cancel]
  constructor
  · intro hlt
    by_contra hge
    have hmono := significant_mono hprecision (not_lt.mp hge)
    rw [significant, hlastUnit (by linarith) (by linarith), ← hpow, sub_div,
      mul_div_cancel_right₀ _ hunit.ne', div_right_comm, div_self hunit.ne',
      roundHalfEven_pow_sub_half hprecision] at hmono
    push_cast at hmono
    rw [hpow] at hmono
    exact absurd hlt (not_lt.mpr hmono)
  · intro hlt
    rcases lt_or_ge q (10 ^ (exponent - 1)) with hlow | hlow
    · have hmono := significant_mono hprecision hlow.le
      have hkept : significant precision (10 ^ (exponent - 1)) = 10 ^ (exponent - 1) := by
        have := significant_mul_zpow hprecision (m := 1) (s := exponent - 1) (by
          rw [abs_one]
          exact one_le_pow₀ (by norm_num))
        simpa using this
      rw [hkept] at hmono
      linarith
    · have hquotient : q / 10 ^ (exponent - precision) < 10 ^ precision - 1 / 2 := by
        rw [div_lt_iff₀ hunit, sub_mul, hpow]
        linarith
      have hround : (roundHalfEven (q / 10 ^ (exponent - precision)) : ℚ) < 10 ^ precision := by
        have := (abs_le.mp (abs_roundHalfEven_sub_le (q / 10 ^ (exponent - precision)))).2
        linarith
      rw [significant, hlastUnit hlow (by linarith), ← hpow]
      exact mul_lt_mul_of_pos_right hround hunit

end Significant

/-- The context that rounds half to even to a number of significant digits. -/
def halfEven (precision : ℕ) (hprecision : 0 < precision) : DecimalContext where
  round := significant precision
  round_mono := significant_mono hprecision
  round_zero := significant_zero precision
  round_one := by
    have := significant_mul_zpow hprecision (m := 1) (s := 0) (by
      rw [abs_one]
      exact one_le_pow₀ (by norm_num))
    simpa using this

end DecimalContext
