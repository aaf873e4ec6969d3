import DonutMonitor.Foundations.Json
import DonutMonitor.Foundations.PercentFormat

/-!
# The text of decoded JSON values

What `str` and `repr` make of a decoded JSON value. The characters that `repr` does not escape and
the shortest digits of a float are parameters. Integers have no more digits than the decoder
accepts, so that their conversion does not fail.

## Main definitions

* `Json.repr`, `Json.text` — `repr` and `str`.
-/

/-- The tables of the interpreter that `repr` depends on. -/
structure ReprTables where
  /-- `str.isprintable`, for a single character. -/
  isPrintable : Char → Bool
  /-- `repr` of a finite float. -/
  float : ℚ → List Char

namespace Json

variable (tables : ReprTables)

mutual

/-- `repr`. -/
def repr : Json → List Char
  | .null => "None".toList
  | .bool true => "True".toList
  | .bool false => "False".toList
  | .int value => (toString value).toList
  | .float (.fin value) => tables.float value
  | .float .posInf => "inf".toList
  | .float .negInf => "-inf".toList
  | .float .nan => "nan".toList
  | .str value => PercentFormat.repr tables.isPrintable value.toList
  | .list values => '[' :: (", ".toList.intercalate (reprAll values) ++ [']'])
  | .object fields => '\x7b' :: (", ".toList.intercalate (reprFields fields) ++ ['\x7d'])

/-- `repr` of the values of a list. -/
def reprAll : List Json → List (List Char)
  | [] => []
  | value :: values => repr value :: reprAll values

/-- The entries of a dictionary, as its `repr` shows them. -/
def reprFields : List (String × Json) → List (List Char)
  | [] => []
  | (key, value) :: fields =>
    (PercentFormat.repr tables.isPrintable key.toList ++ ": ".toList ++ repr value) ::
      reprFields fields

end

/-- `str`. -/
def text : Json → List Char
  | .str value => value.toList
  | value => repr tables value

example : text ⟨fun _ => true, fun _ => []⟩ (.list [.null, .str "a", .object [("b", .int 1)]]) =
    "[None, 'a', \x7b'b': 1\x7d]".toList := by decide +kernel

end Json
