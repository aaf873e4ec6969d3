import Mathlib.Data.List.Basic

/-!
# Pure paths

The paths of `pathlib` on a POSIX system: a root and the parts between the slashes, without the
empty ones and those that stand for the same directory.
-/

/-- A `PurePosixPath`. -/
structure PosixPath where
  root : List Char
  parts : List (List Char)
  deriving DecidableEq, Repr

namespace PosixPath

/-- `Path(text)`. A text that begins with exactly two slashes keeps both. -/
def parse (text : List Char) : PosixPath where
  root :=
    match text with
    | '/' :: '/' :: '/' :: _ => ['/']
    | '/' :: '/' :: _ => ['/', '/']
    | '/' :: _ => ['/']
    | _ => []
  parts := (text.splitOn '/').filter fun part => part ≠ [] ∧ part ≠ ['.']

/-- `path / other`. A path with a root replaces the one before it. -/
def join (path other : PosixPath) : PosixPath :=
  if other.root = [] then ⟨path.root, path.parts ++ other.parts⟩ else other

/-- `str(path)`. -/
def text (path : PosixPath) : List Char :=
  if path.root = [] ∧ path.parts = [] then ['.'] else path.root ++ ['/'].intercalate path.parts

example : ((parse "/srv/bot/".toList).join (parse "./icons//a.png".toList)).text =
    "/srv/bot/icons/a.png".toList := by decide +kernel

end PosixPath
