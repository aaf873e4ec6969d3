import Mathlib.Data.List.Basic

/-!
# Item ids

`normalize_item_id` and the string methods it calls. The case mapping of `str.lower` follows the
Unicode tables of the interpreter and is a parameter.
-/

namespace DonutMonitor

/-- The characters that `str.strip` removes: those for which `str.isspace` holds. -/
def isSpace (c : Char) : Bool :=
  let n := c.toNat
  (9 ≤ n && n ≤ 13) || (28 ≤ n && n ≤ 32) || n == 0x85 || n == 0xA0 || n == 0x1680 ||
    (0x2000 ≤ n && n ≤ 0x200A) || n == 0x2028 || n == 0x2029 || n == 0x202F || n == 0x205F ||
    n == 0x3000

/-- `str.strip`. -/
def strip (s : String) : String :=
  .ofList (((s.toList.dropWhile isSpace).reverse.dropWhile isSpace).reverse)

/-- `str.removeprefix`. -/
def removeprefix (s pre : String) : String :=
  if s.toList.take pre.length = pre.toList then .ofList (s.toList.drop pre.length) else s

/-- `MINECRAFT_NAMESPACE`. -/
def minecraftNamespace : String := "minecraft:"

/-- `normalize_item_id`, over the case mapping of `str.lower`. -/
def normalizeItemId (lower : String → String) (value : String) : String :=
  removeprefix (lower (strip value)) minecraftNamespace

example : normalizeItemId id " minecraft:elytra\n" = "elytra" := by decide +kernel

end DonutMonitor
