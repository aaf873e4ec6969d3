import Mathlib.Data.List.Basic

/-!
# Escaping by a mark

## Main definitions

* `escape` — a text with a mark before each of its special characters.

## Main results

* `length_escape` — escaping lengthens a text by one for each special character.
-/

variable {α : Type*}

/-- The text with a mark before each special character. -/
def escape (mark : α) (special : α → Bool) (text : List α) : List α :=
  text.flatMap fun c => if special c then [mark, c] else [c]

variable {mark : α} {special : α → Bool} {text : List α}

@[simp] theorem escape_nil (mark : α) (special : α → Bool) : escape mark special [] = [] := rfl

theorem escape_cons (c : α) : escape mark special (c :: text) =
    (if special c then [mark, c] else [c]) ++ escape mark special text := rfl

theorem length_escape (mark : α) (special : α → Bool) (text : List α) :
    (escape mark special text).length = text.length + text.countP special := by
  induction text with
  | nil => rfl
  | cons c text ih =>
    rw [escape_cons, List.length_append, ih, List.length_cons, List.countP_cons]
    split_ifs
    · rw [List.length_cons, List.length_singleton]
      omega
    · rw [List.length_singleton]
      omega

theorem escape_eq_nil_iff : escape mark special text = [] ↔ text = [] := by
  rw [← List.length_eq_zero_iff, length_escape, ← List.length_eq_zero_iff (l := text)]
  have := List.countP_le_length (p := special) (l := text)
  omega
