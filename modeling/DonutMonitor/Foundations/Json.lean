import DonutMonitor.Foundations.PyFloat

/-!
# Decoded JSON values

`Json` is what Python's `json` module decodes a document to: integers of any size, floats with
their special values, and objects as association lists with one entry for each key.
-/

/-- A decoded JSON value. -/
inductive Json where
  | null
  | bool (value : Bool)
  | int (value : ℤ)
  | float (value : PyFloat)
  | str (value : String)
  | list (values : List Json)
  | object (fields : List (String × Json))

namespace Json

/-- The value of a key of an object, as `dict.get` finds it. -/
def field? (fields : List (String × Json)) (key : String) : Option Json :=
  (fields.find? fun entry => entry.1 = key).map Prod.snd

end Json
