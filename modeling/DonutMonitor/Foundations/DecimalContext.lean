import Mathlib.Order.Monotone.Defs
import Mathlib.Algebra.Order.Ring.Unbundled.Rat

/-!
# Rounding of decimal arithmetic

Decimal arithmetic computes each operation exactly and then rounds the result to the precision of
the current context.
-/

/-- The rounding that the decimal context applies to the result of an operation. It is monotone
and keeps zero and one, as rounding to any number of significant digits does. -/
structure DecimalContext where
  round : ℚ → ℚ
  round_mono : Monotone round
  round_zero : round 0 = 0
  round_one : round 1 = 1

namespace DecimalContext

/-- Exact arithmetic. -/
def exact : DecimalContext := ⟨id, monotone_id, rfl, rfl⟩

variable (ctx : DecimalContext) {q : ℚ}

theorem round_nonneg (h : 0 ≤ q) : 0 ≤ ctx.round q :=
  ctx.round_zero ▸ ctx.round_mono h

theorem one_le_round (h : 1 ≤ q) : 1 ≤ ctx.round q :=
  ctx.round_one ▸ ctx.round_mono h

theorem round_le_one (h : q ≤ 1) : ctx.round q ≤ 1 :=
  ctx.round_one ▸ ctx.round_mono h

end DecimalContext
