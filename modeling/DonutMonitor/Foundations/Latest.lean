import Mathlib.Data.List.Induction

/-!
# The latest value of a history

A field that some events assign and others leave alone holds the value of the last event that
assigns it.

## Main definitions

* `Latest.latest` — the value of the last event that has one.

## Main results

* `Latest.latest_concat` — the field after one more event.
* `Latest.latest_eq_some_iff` — an event has assigned the value, and none after it another one.
-/

namespace Latest

variable {α β : Type*} (f : α → Option β) (xs : List α)

/-- The value of the last element that has one. -/
def latest : Option β := (xs.filterMap f).getLast?

@[simp] theorem latest_nil : latest f [] = none := rfl

theorem latest_append (ys : List α) : latest f (xs ++ ys) = (latest f ys).or (latest f xs) := by
  rw [latest, List.filterMap_append, List.getLast?_append, latest, latest]

theorem latest_concat (x : α) : latest f (xs ++ [x]) = (f x).or (latest f xs) := by
  rw [latest_append]
  cases h : f x <;> simp [latest, h]

theorem latest_eq_none_iff : latest f xs = none ↔ ∀ x ∈ xs, f x = none := by
  rw [latest, List.getLast?_eq_none_iff, List.filterMap_eq_nil_iff]

/-- The value is that of an element behind which no element has one. -/
theorem latest_eq_some_iff {b : β} : latest f xs = some b ↔
    ∃ before x after, xs = before ++ x :: after ∧ f x = some b ∧ ∀ y ∈ after, f y = none := by
  induction xs using List.reverseRecOn with
  | nil => simp
  | append_singleton xs x ih =>
    rw [latest_concat]
    cases hx : f x with
    | some c =>
      constructor
      · intro h
        exact ⟨xs, x, [], rfl, hx.trans h, by simp⟩
      · rintro ⟨before, y, after, hsplit, hy, hafter⟩
        rcases List.eq_nil_or_concat after with rfl | ⟨after, last, rfl⟩
        · rw [(List.append_inj' hsplit rfl).2 |> List.head_eq_of_cons_eq] at hx
          exact hx.symm.trans hy
        · rw [List.concat_eq_append, ← List.cons_append, ← List.append_assoc] at hsplit
          have hlast : x = last := List.head_eq_of_cons_eq (List.append_inj' hsplit rfl).2
          rw [hlast, hafter last (by simp)] at hx
          cases hx
    | none =>
      rw [Option.none_or, ih]
      constructor
      · rintro ⟨before, y, after, rfl, hy, hafter⟩
        refine ⟨before, y, after ++ [x], by simp, hy, fun z hz => ?_⟩
        rcases List.mem_append.mp hz with hz | hz
        · exact hafter z hz
        · rw [List.mem_singleton.mp hz, hx]
      · rintro ⟨before, y, after, hsplit, hy, hafter⟩
        rcases List.eq_nil_or_concat after with rfl | ⟨after, last, rfl⟩
        · rw [List.head_eq_of_cons_eq (List.append_inj' hsplit rfl).2, hy] at hx
          cases hx
        · rw [List.concat_eq_append, ← List.cons_append, ← List.append_assoc] at hsplit
          exact ⟨before, y, after, (List.append_inj' hsplit rfl).1, hy,
            fun z hz => hafter z (by simp [hz])⟩

end Latest
