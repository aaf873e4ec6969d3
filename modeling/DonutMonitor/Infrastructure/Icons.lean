import DonutMonitor.Core.ItemIds
import DonutMonitor.Foundations.Table

/-!
# The icon index

The lookups of `IconService` in its loaded entries.
-/

namespace DonutMonitor

/-- `IconEntry`. -/
structure IconEntry where
  itemId : String
  displayName : String
  path : String
  deriving DecidableEq, Repr

/-- The entries of a loaded `IconService`. -/
abbrev IconService := Table IconEntry.itemId

namespace IconService

variable (lower : String → String) (icons : IconService) (itemId : String)

/-- `IconService.display_name`. -/
def displayName : String :=
  let normalized := normalizeItemId lower itemId
  match icons.get? normalized with
  | some entry => entry.displayName
  | none => normalized

/-- `IconService.contains`. -/
def contains : Bool := normalizeItemId lower itemId ∈ icons.keys

end IconService

end DonutMonitor
