import Mathlib.Data.List.TakeWhile

/-!
# A list up to its first match

A loop that goes through a list until an element ends it has seen the list up to that element, and
the whole list if there is none.

## Main definitions

* `FirstMatch.upTo` — the list up to and including its first match.
* `FirstMatch.preferred` — the first match of a list, or its first element.

## Main results

* `FirstMatch.upTo_cons`, `FirstMatch.upTo_append` — the equations of the loop.
* `FirstMatch.upTo_isPrefix`, `FirstMatch.upTo_dropLast`, `FirstMatch.upTo_getLast?` — it is the
  shortest part of the list that ends with a match, or the whole list.
* `FirstMatch.preferred_concat` — the preferred element of a list read from left to right.
-/

namespace FirstMatch

variable {α : Type*} {p q : α → Bool} {x : α} {xs ys : List α}

/-- The list up to and including its first match. -/
def upTo (p : α → Bool) (xs : List α) : List α :=
  (xs.takeWhile fun x => !p x) ++ (xs.find? p).toList

@[simp] theorem upTo_nil : upTo p [] = [] := rfl

theorem upTo_cons (p : α → Bool) (x : α) (xs : List α) :
    upTo p (x :: xs) = if p x then [x] else x :: upTo p xs := by
  cases h : p x <;> simp [upTo, h]

/-- The loop goes on behind elements that do not match. -/
theorem upTo_append (hxs : ∀ x ∈ xs, p x = false) (ys : List α) :
    upTo p (xs ++ ys) = xs ++ upTo p ys := by
  induction xs with
  | nil => rfl
  | cons x xs ih =>
    obtain ⟨hx, hxs⟩ := List.forall_mem_cons.mp hxs
    rw [List.cons_append, upTo_cons, hx, ih hxs]
    rfl

theorem upTo_isPrefix (p : α → Bool) (xs : List α) : upTo p xs <+: xs := by
  induction xs with
  | nil => exact List.prefix_rfl
  | cons x xs ih =>
    rw [upTo_cons]
    split_ifs
    · exact ⟨xs, rfl⟩
    · exact (List.prefix_cons_inj x).mpr ih

/-- Only the last element can be a match. -/
theorem upTo_dropLast (h : x ∈ (upTo p xs).dropLast) : p x = false := by
  have hmem : x ∈ xs.takeWhile fun x => !p x := by
    rw [upTo] at h
    cases hfind : xs.find? p with
    | none =>
      rw [hfind, Option.toList_none, List.append_nil] at h
      exact (List.dropLast_sublist _).subset h
    | some last =>
      rw [hfind, Option.toList_some, List.dropLast_concat] at h
      exact h
  simpa using List.mem_takeWhile_imp hmem

/-- Unless it is the whole list, the last element is a match. -/
theorem upTo_getLast? (h : (upTo p xs).length < xs.length) :
    ∃ x, (upTo p xs).getLast? = some x ∧ p x = true := by
  rw [upTo] at h ⊢
  cases hfind : xs.find? p with
  | none =>
    have hall : ∀ x ∈ xs, (!p x) = true := fun x hx => by
      simpa using List.find?_eq_none.mp hfind x hx
    rw [hfind, List.takeWhile_eq_self_iff.mpr hall, Option.toList_none, List.append_nil] at h
    exact absurd h (lt_irrefl _)
  | some last => exact ⟨last, List.getLast?_concat, List.find?_some hfind⟩

/-- Without a match it is the whole list. -/
theorem upTo_eq_self (h : ∀ x ∈ upTo p xs, p x = false) : upTo p xs = xs := by
  by_contra hne
  have hlength : (upTo p xs).length < xs.length :=
    lt_of_le_of_ne (upTo_isPrefix p xs).length_le fun heq =>
      hne ((upTo_isPrefix p xs).eq_of_length heq)
  obtain ⟨x, hx, hmatch⟩ := upTo_getLast? hlength
  cases hmatch.symm.trans (h x (List.mem_of_getLast? hx))

/-- The loop depends on the matches only. -/
theorem upTo_congr (h : ∀ x ∈ xs, p x = q x) : upTo p xs = upTo q xs := by
  induction xs with
  | nil => rfl
  | cons x xs ih =>
    obtain ⟨hx, hxs⟩ := List.forall_mem_cons.mp h
    rw [upTo_cons, upTo_cons, hx, ih hxs]

/-- The first match of a list, or its first element if there is none. -/
def preferred (p : α → Bool) (xs : List α) : Option α := (xs.find? p).or xs.head?

/-- An element replaces the preferred one if it matches and the preferred one does not. -/
theorem preferred_concat (p : α → Bool) (xs : List α) (x : α) :
    preferred p (xs ++ [x]) =
      match preferred p xs with
      | none => some x
      | some y => if p x && !p y then some x else some y := by
  cases xs with
  | nil => cases hx : p x <;> simp [preferred, hx]
  | cons first xs =>
    rw [preferred, preferred, List.find?_append, List.head?_append, List.head?_cons, Option.some_or]
    cases hfind : (first :: xs).find? p with
    | some y => simp [List.find?_some hfind]
    | none =>
      have hfirst : p first = false := by
        simpa using List.find?_eq_none.mp hfind first List.mem_cons_self
      cases hx : p x <;> simp [hx, hfirst]

theorem preferred_eq_none : preferred p xs = none ↔ xs = [] := by
  cases xs <;> simp [preferred]

end FirstMatch
