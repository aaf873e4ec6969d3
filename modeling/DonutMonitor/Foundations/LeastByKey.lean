import Mathlib.Data.List.Basic
import Mathlib.Order.Bounds.Basic

/-!
# The least element by a key that can fail

The search for a least element of a list computes the key of every element, fails when one of the
keys fails, and keeps the first element with the least key.

## Main results

* `LeastByKey.leastFrom_eq_some` — the element that is found is the leftmost one with the least key.
* `LeastByKey.leastFrom_eq_none` — the search fails only at an element whose key fails.
* `LeastByKey.IsLeftmostLeast.key_eq` — the least key does not depend on the order of the list.
-/

namespace LeastByKey

variable {α β : Type*} [LinearOrder β] {key : α → Option β}

/-- The search through the rest of a list, with the best element so far and its key. -/
def leastFrom (key : α → Option β) (best : α) (least : β) : List α → Option α
  | [] => some best
  | x :: xs =>
    match key x with
    | none => none
    | some k => if k < least then leastFrom key x k xs else leastFrom key best least xs

/-- The leftmost element with the least key of a list on which all keys are defined. -/
def IsLeftmostLeast (key : α → Option β) (xs : List α) (x : α) : Prop :=
  ∃ before after k, xs = before ++ x :: after ∧ key x = some k ∧
    (∀ y ∈ before, ∃ r, key y = some r ∧ k < r) ∧ ∀ y ∈ after, ∃ r, key y = some r ∧ k ≤ r

/-- The search keeps the leftmost least element: all elements before the best one have larger keys,
and those between it and the rest have keys that are not smaller. -/
theorem leastFrom_eq_some {before between rest : List α} {best x : α} {least : β}
    (hbest : key best = some least) (hbefore : ∀ y ∈ before, ∃ r, key y = some r ∧ least < r)
    (hbetween : ∀ y ∈ between, ∃ r, key y = some r ∧ least ≤ r)
    (h : leastFrom key best least rest = some x) :
    IsLeftmostLeast key (before ++ best :: (between ++ rest)) x := by
  induction rest generalizing before between best least with
  | nil =>
    obtain rfl := Option.some.inj h
    exact ⟨before, between, least, by rw [List.append_nil], hbest, hbefore, hbetween⟩
  | cons y rest ih =>
    rw [leastFrom] at h
    cases hy : key y with
    | none =>
      rw [hy] at h
      cases h
    | some k =>
      simp only [hy] at h
      split_ifs at h with hless
      · have hlarger : ∀ z ∈ before ++ best :: between, ∃ r, key z = some r ∧ k < r := by
          intro z hz
          rcases List.mem_append.mp hz with hz | hz
          · obtain ⟨r, hr, hlt⟩ := hbefore z hz
            exact ⟨r, hr, hless.trans hlt⟩
          · rcases List.mem_cons.mp hz with rfl | hz
            · exact ⟨least, hbest, hless⟩
            · obtain ⟨r, hr, hle⟩ := hbetween z hz
              exact ⟨r, hr, hless.trans_le hle⟩
        have hnone : ∀ z ∈ ([] : List α), ∃ r, key z = some r ∧ k ≤ r := List.forall_mem_nil _
        simpa using ih hy hlarger hnone h
      · have hnotless : ∀ z ∈ between ++ [y], ∃ r, key z = some r ∧ least ≤ r := by
          intro z hz
          rcases List.mem_append.mp hz with hz | hz
          · exact hbetween z hz
          · obtain rfl := List.mem_singleton.mp hz
            exact ⟨k, hy, not_lt.mp hless⟩
        simpa using ih hbest hbefore hnotless h

/-- The search fails only at an element whose key fails. -/
theorem leastFrom_eq_none {rest : List α} {best : α} {least : β}
    (h : leastFrom key best least rest = none) : ∃ y ∈ rest, key y = none := by
  induction rest generalizing best least with
  | nil => cases h
  | cons y rest ih =>
    rw [leastFrom] at h
    cases hy : key y with
    | none => exact ⟨y, List.mem_cons_self, hy⟩
    | some k =>
      simp only [hy] at h
      split_ifs at h with hless <;> obtain ⟨z, hz, hkey⟩ := ih h <;>
        exact ⟨z, List.mem_cons_of_mem y hz, hkey⟩

namespace IsLeftmostLeast

variable {xs ys : List α} {x y : α}

/-- The key of the leftmost least element is the least of all keys, which are all defined. -/
theorem isLeast (h : IsLeftmostLeast key xs x) :
    (∀ z ∈ xs, (key z).isSome = true) ∧
      ∃ k, key x = some k ∧ IsLeast {r | ∃ z ∈ xs, key z = some r} k := by
  obtain ⟨before, after, k, rfl, hk, hbefore, hafter⟩ := h
  have hall : ∀ z ∈ before ++ x :: after, ∃ r, key z = some r ∧ k ≤ r := by
    intro z hz
    rcases List.mem_append.mp hz with hz | hz
    · obtain ⟨r, hr, hlt⟩ := hbefore z hz
      exact ⟨r, hr, hlt.le⟩
    · rcases List.mem_cons.mp hz with rfl | hz
      · exact ⟨k, hk, le_rfl⟩
      · exact hafter z hz
  refine ⟨fun z hz => ?_, k, hk, ⟨x, by simp, hk⟩, ?_⟩
  · obtain ⟨r, hr, -⟩ := hall z hz
    rw [hr]
    rfl
  · rintro r ⟨z, hz, hr⟩
    obtain ⟨r', hr', hle⟩ := hall z hz
    rwa [Option.some.inj (hr.symm.trans hr')]

theorem mem (h : IsLeftmostLeast key xs x) : x ∈ xs := by
  obtain ⟨before, after, k, rfl, -⟩ := h
  simp

/-- The least key does not depend on the order of the list. -/
theorem key_eq (h : IsLeftmostLeast key xs x) (h' : IsLeftmostLeast key ys y)
    (hperm : xs.Perm ys) : key x = key y := by
  obtain ⟨-, k, hk, hleast⟩ := h.isLeast
  obtain ⟨-, k', hk', hleast'⟩ := h'.isLeast
  have hset : {r | ∃ z ∈ xs, key z = some r} = {r | ∃ z ∈ ys, key z = some r} := by
    ext r
    simp only [Set.mem_ofPred_eq, hperm.mem_iff]
  rw [hk, hk', hleast.unique (hset ▸ hleast')]

end IsLeftmostLeast

end LeastByKey
