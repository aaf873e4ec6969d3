import Mathlib.Data.Rat.Defs
import Mathlib.Algebra.Order.Ring.Unbundled.Rat
import Mathlib.Tactic.Linarith

/-!
# Python floats with exact finite values

`PyFloat` has the three special values of a Python `float` beside the finite ones. Finite values
are exact rationals: rounding to 53 bits is not modelled, overflow of a conversion from `int` is.
Comparison, `max` and `min` follow Python: a comparison with `nan` is false, and `max(a, b)` and
`min(a, b)` keep `a` unless the comparison with `b` says otherwise, so that the position of a
`nan` matters.

## Main results

* `PyFloat.lt_of_lt_of_lt` — the comparison is transitive.
* `PyFloat.fin_lt_max_left`, `PyFloat.fin_lt_max_right` — `max` is above both arguments, unless
  they are `nan`.
-/

/-- A Python `float`, with exact finite values. -/
inductive PyFloat where
  | fin (value : ℚ)
  | posInf
  | negInf
  | nan
  deriving DecidableEq, Repr

namespace PyFloat

/-- The comparison `a < b`. -/
def lt : PyFloat → PyFloat → Bool
  | fin a, fin b => a < b
  | fin _, posInf => true
  | negInf, fin _ => true
  | negInf, posInf => true
  | _, _ => false

/-- The sum `a + b`. -/
def add : PyFloat → PyFloat → PyFloat
  | fin a, fin b => fin (a + b)
  | nan, _ => nan
  | _, nan => nan
  | posInf, negInf => nan
  | negInf, posInf => nan
  | posInf, _ => posInf
  | _, posInf => posInf
  | negInf, _ => negInf
  | _, negInf => negInf

/-- The negation `-a`. -/
def neg : PyFloat → PyFloat
  | fin a => fin (-a)
  | posInf => negInf
  | negInf => posInf
  | nan => nan

/-- The difference `a - b`. -/
def sub (a b : PyFloat) : PyFloat := a.add b.neg

/-- The builtin `max(a, b)`. -/
def max (a b : PyFloat) : PyFloat := if a.lt b then b else a

/-- The builtin `min(a, b)`. -/
def min (a b : PyFloat) : PyFloat := if b.lt a then b else a

/-- The conversion `float(n)`, which raises `OverflowError` on an integer that rounds to `2 ** 1024`
or more. -/
def ofNat? (n : ℕ) : Option PyFloat :=
  if n < 2 ^ 1024 - 2 ^ 970 then some (fin n) else none

@[simp] theorem fin_lt_fin {a b : ℚ} : (fin a).lt (fin b) = true ↔ a < b := by simp [lt]

theorem fin_lt_fin_eq_false {a b : ℚ} : (fin a).lt (fin b) = false ↔ b ≤ a := by simp [lt]

@[simp] theorem fin_lt_posInf (a : ℚ) : (fin a).lt posInf = true := rfl

@[simp] theorem lt_nan (a : PyFloat) : a.lt nan = false := by cases a <;> rfl

@[simp] theorem lt_negInf (a : PyFloat) : a.lt negInf = false := by cases a <;> rfl

@[simp] theorem nan_lt (a : PyFloat) : nan.lt a = false := by cases a <;> rfl

@[simp] theorem add_fin_fin (a b : ℚ) : (fin a).add (fin b) = fin (a + b) := rfl

@[simp] theorem fin_sub_fin (a b : ℚ) : (fin a).sub (fin b) = fin (a - b) := by
  rw [sub, neg, add_fin_fin, sub_eq_add_neg]

@[simp] theorem fin_max_fin (a b : ℚ) : (fin a).max (fin b) = fin (Max.max a b) := by
  rcases lt_or_ge a b with h | h
  · simp [max, h, max_eq_right h.le]
  · simp [max, not_lt.mpr h, max_eq_left h]

@[simp] theorem fin_min_fin (a b : ℚ) : (fin a).min (fin b) = fin (Min.min a b) := by
  rcases lt_or_ge b a with h | h
  · simp [min, h, min_eq_right h.le]
  · simp [min, not_lt.mpr h, min_eq_left h]

@[simp] theorem posInf_max (a : PyFloat) : posInf.max a = posInf := by cases a <;> rfl

theorem lt_of_lt_of_lt {a b c : PyFloat} (hab : a.lt b = true) (hbc : b.lt c = true) :
    a.lt c = true := by
  cases a <;> cases b <;> cases c <;> simp_all [lt]
  exact lt_trans hab hbc

/-- A float other than the positive infinity is over at some time. -/
theorem exists_lt_eq_false {a : PyFloat} (ha : a ≠ posInf) :
    ∃ t, ∀ now, t ≤ now → (fin now).lt a = false := by
  cases a with
  | fin a => exact ⟨a, fun now h => by simpa [lt] using h⟩
  | posInf => exact absurd rfl ha
  | negInf => exact ⟨0, fun now _ => rfl⟩
  | nan => exact ⟨0, fun now _ => rfl⟩

/-- `max` keeps what is below its first argument below it. -/
theorem fin_lt_max_left {t : ℚ} {a b : PyFloat} (h : (fin t).lt a = true) :
    (fin t).lt (a.max b) = true := by
  unfold max
  split_ifs with hab
  · exact lt_of_lt_of_lt h hab
  · exact h

/-- `max` keeps what is below a finite second argument below it, if its first argument is a
number. -/
theorem fin_lt_max_right {t b : ℚ} {a : PyFloat} (ha : a ≠ nan) (h : t < b) :
    (fin t).lt (a.max (fin b)) = true := by
  unfold max
  cases a with
  | fin a =>
    split_ifs with hab
    · simpa using h
    · have : b ≤ a := not_lt.mp fun hlt => hab (by simpa using hlt)
      simpa using lt_of_lt_of_le h this
  | posInf => rfl
  | negInf => simpa [lt] using h
  | nan => exact absurd rfl ha

/-- `max` is not below what its second argument is not below, if its first argument is a
number. -/
theorem max_fin_not_lt {a : PyFloat} {t b : ℚ} (ha : a ≠ nan) (h : t ≤ b) :
    (a.max (fin b)).lt (fin t) = false := by
  cases a with
  | fin a =>
    rw [fin_max_fin, fin_lt_fin_eq_false]
    exact le_max_of_le_right h
  | posInf => rfl
  | negInf => exact fin_lt_fin_eq_false.mpr h
  | nan => exact absurd rfl ha

theorem max_ne_nan {a b : PyFloat} (ha : a ≠ nan) : a.max b ≠ nan := by
  unfold max
  split_ifs with hab
  · rintro rfl
    simp at hab
  · exact ha

end PyFloat
