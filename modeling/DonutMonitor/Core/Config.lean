import Mathlib.Data.Rat.Defs
import Mathlib.Algebra.Order.Ring.Unbundled.Rat

/-!
# Runtime settings

`Settings` holds the configuration values that the services and the monitoring coordinator read.
The checks that pydantic makes when a `Settings` object is built are fields of the structure, so
that a value which does not validate cannot be formed.
-/

namespace DonutMonitor

/-- `Settings`, with the validation of its numeric fields and of the request budget. -/
structure Settings where
  safeRequestsPerMinute : ℤ := 220
  reservedRequestsPerMinute : ℤ := 30
  defaultPollIntervalSeconds : ℚ := 3
  maxSearchPages : ℤ := 3
  defaultHysteresisPercent : ℚ := 2
  defaultNotificationCooldownSeconds : ℤ := 60
  observationRetentionDays : ℤ := 7
  safe_pos : 0 < safeRequestsPerMinute := by decide
  reserved_pos : 0 < reservedRequestsPerMinute := by decide
  interval_pos : 0 < defaultPollIntervalSeconds := by decide
  pages_pos : 0 < maxSearchPages := by decide
  hysteresis_nonneg : 0 ≤ defaultHysteresisPercent := by decide
  hysteresis_le : defaultHysteresisPercent ≤ 100 := by decide
  cooldown_pos : 0 < defaultNotificationCooldownSeconds := by decide
  retention_pos : 0 < observationRetentionDays := by decide
  /-- `validate_api_budget`. -/
  apiBudget : safeRequestsPerMinute + reservedRequestsPerMinute ≤ 250 := by decide

/-- The settings without any environment variable set. -/
def Settings.unset : Settings := {}

/-- The settings with `DEFAULT_HYSTERESIS_PERCENT=0`. -/
def Settings.withoutHysteresis : Settings := { defaultHysteresisPercent := 0 }

end DonutMonitor
