import Mathlib.Data.Rat.Defs

/-!
# Shared enumerations

The enumerations of the core package, and the two sides of a threshold that a condition tells
apart: a rule alerts when the price moves from the armed side to the matched side.
-/

namespace DonutMonitor

/-- `Condition`. -/
inductive Condition where
  | priceDown
  | priceUp
  deriving DecidableEq, Repr

/-- `PriceType`. -/
inductive PriceType where
  | total
  | perItem
  deriving DecidableEq, Repr

/-- `RuleState`. -/
inductive RuleState where
  | unknown
  | aboveThreshold
  | belowThreshold
  | noListings
  deriving DecidableEq, Repr

/-- `TokenStatus`. -/
inductive TokenStatus where
  | valid
  | invalid
  deriving DecidableEq, Repr

/-- `DeliveryStatus`. -/
inductive DeliveryStatus where
  | pending
  | sent
  | failed
  deriving DecidableEq, Repr

/-- The state of a rule whose last price satisfied the condition. -/
def Condition.matchedState : Condition → RuleState
  | priceDown => .belowThreshold
  | priceUp => .aboveThreshold

/-- The state of a rule that a matching price would trigger. -/
def Condition.armedState : Condition → RuleState
  | priceDown => .aboveThreshold
  | priceUp => .belowThreshold

namespace Condition

@[simp] theorem matchedState_ne_unknown (c : Condition) : c.matchedState ≠ .unknown := by
  cases c <;> decide

@[simp] theorem matchedState_ne_noListings (c : Condition) : c.matchedState ≠ .noListings := by
  cases c <;> decide

@[simp] theorem armedState_ne_unknown (c : Condition) : c.armedState ≠ .unknown := by
  cases c <;> decide

@[simp] theorem armedState_ne_noListings (c : Condition) : c.armedState ≠ .noListings := by
  cases c <;> decide

@[simp] theorem matchedState_ne_armedState (c : Condition) : c.matchedState ≠ c.armedState := by
  cases c <;> decide

theorem eq_matchedState_or_armedState (c : Condition) {state : RuleState}
    (hunknown : state ≠ .unknown) (hlisted : state ≠ .noListings) :
    state = c.matchedState ∨ state = c.armedState := by
  cases c <;> cases state <;> simp_all [matchedState, armedState]

end Condition

end DonutMonitor
