import Mathlib.Data.List.Nodup
import Mathlib.Data.List.Perm.Subperm
import Mathlib.Order.Lattice
import Mathlib.Order.Nat

/-!
# Ranks in increasing lists

In a strictly increasing list an element is found at the index that is its rank, the number of
smaller elements. When nothing has been inserted up to an element, its rank can only have dropped,
and its old index leads to no smaller element.

## Main definitions

* `Rank.rank` — the number of smaller elements.

## Main results

* `Rank.getElem?_eq_some_iff` — what is found at an index.
* `Rank.le_of_getElem?` — an old index leads to no smaller element.
* `Rank.getElem?_iff_kept` — it leads to the same element if and only if this element and all
  smaller ones have been kept.
-/

namespace Rank

variable {α : Type*} [LinearOrder α]

/-- The number of elements of a list that are smaller. -/
def rank (l : List α) (a : α) : ℕ := l.countP (· < a)

variable {l l' : List α} {i : ℕ} {a b : α}

theorem rank_cons_self (h : ∀ b ∈ l, a < b) : rank (a :: l) a = 0 :=
  List.countP_eq_zero.mpr fun b hb => by
    rcases List.mem_cons.mp hb with rfl | hb
    · simp
    · simpa using (h b hb).le

theorem rank_cons_of_lt (h : b < a) : rank (b :: l) a = rank l a + 1 :=
  List.countP_cons_of_pos (by simpa using h)

/-- In a strictly increasing list an element is at the index that is its rank. -/
theorem getElem?_eq_some_iff (hl : l.Pairwise (· < ·)) :
    l[i]? = some a ↔ a ∈ l ∧ rank l a = i := by
  induction l generalizing i with
  | nil => simp
  | cons b l ih =>
    obtain ⟨hb, hl⟩ := List.pairwise_cons.mp hl
    cases i with
    | zero =>
      rw [List.getElem?_cons_zero, Option.some.injEq]
      constructor
      · rintro rfl
        exact ⟨List.mem_cons_self, rank_cons_self hb⟩
      · rintro ⟨hmem, hrank⟩
        rcases List.mem_cons.mp hmem with rfl | hmem
        · rfl
        · rw [rank_cons_of_lt (hb a hmem)] at hrank
          cases hrank
    | succ i =>
      rw [List.getElem?_cons_succ, ih hl]
      constructor
      · rintro ⟨hmem, rfl⟩
        exact ⟨List.mem_cons_of_mem _ hmem, rank_cons_of_lt (hb a hmem)⟩
      · rintro ⟨hmem, hrank⟩
        rcases List.mem_cons.mp hmem with rfl | hmem
        · rw [rank_cons_self hb] at hrank
          cases hrank
        · rw [rank_cons_of_lt (hb a hmem)] at hrank
          exact ⟨hmem, Nat.succ.inj hrank⟩

theorem rank_mono (l : List α) (h : b ≤ a) : rank l b ≤ rank l a :=
  List.countP_mono_left fun _ _ hlt => by simpa using (of_decide_eq_true hlt).trans_le h

theorem rank_lt_rank (hb : b ∈ l) (h : b < a) : rank l b < rank l a := by
  induction l with
  | nil => cases hb
  | cons c l ih =>
    have hmono := rank_mono l h.le
    rcases List.mem_cons.mp hb with rfl | hb
    · rw [rank_cons_of_lt h, rank, List.countP_cons_of_neg (by simp)]
      exact Nat.lt_succ_of_le hmono
    · have hrest := ih hb
      by_cases hc : c < b
      · rw [rank_cons_of_lt hc, rank_cons_of_lt (hc.trans h)]
        exact Nat.succ_lt_succ hrest
      · rw [rank, List.countP_cons_of_neg (by simpa using hc)]
        exact Nat.lt_of_lt_of_le hrest (List.sublist_cons_self c l).countP_le

/-- When nothing smaller has been inserted, the rank has not grown, and it is the same if and only
if all smaller elements have been kept. -/
theorem rank_le (hl' : l'.Nodup) (hold : ∀ b ∈ l', b < a → b ∈ l) : rank l' a ≤ rank l a := by
  rw [rank, rank, List.countP_eq_length_filter, List.countP_eq_length_filter]
  refine (List.subperm_of_subset (hl'.filter _) fun b hb => ?_).length_le
  obtain ⟨hmem, hlt⟩ := List.mem_filter.mp hb
  exact List.mem_filter.mpr ⟨hold b hmem (by simpa using hlt), hlt⟩

theorem rank_eq_iff (hl : l.Nodup) (hl' : l'.Nodup) (hold : ∀ b ∈ l', b < a → b ∈ l) :
    rank l' a = rank l a ↔ ∀ b ∈ l, b < a → b ∈ l' := by
  refine ⟨fun hrank b hb hlt => ?_, fun hkept =>
    Nat.le_antisymm (rank_le hl' hold) (rank_le hl hkept)⟩
  have hsub : (l'.filter (· < a)).Subperm (l.filter (· < a)) :=
    List.subperm_of_subset (hl'.filter _) fun c hc => by
      obtain ⟨hmem, hc⟩ := List.mem_filter.mp hc
      exact List.mem_filter.mpr ⟨hold c hmem (by simpa using hc), hc⟩
  rw [rank, rank, List.countP_eq_length_filter, List.countP_eq_length_filter] at hrank
  have hperm := hsub.perm_of_length_le hrank.ge
  exact List.mem_of_mem_filter (hperm.mem_iff.mpr (List.mem_filter.mpr ⟨hb, by simpa using hlt⟩))

variable (hl : l.Pairwise (· < ·)) (hl' : l'.Pairwise (· < ·))

include hl hl'

/-- An index leads to no smaller element in a list into which nothing has been inserted up to the
element that was there. -/
theorem le_of_getElem? (hold : ∀ b ∈ l', b ≤ a → b ∈ l) (ha : l[i]? = some a)
    (hb : l'[i]? = some b) : a ≤ b := by
  obtain ⟨-, rfl⟩ := (getElem?_eq_some_iff hl).mp ha
  obtain ⟨hmem, hrank⟩ := (getElem?_eq_some_iff hl').mp hb
  by_contra hlt
  rw [not_le] at hlt
  have hle := rank_le (a := b) (hl'.imp ne_of_lt) fun c hc hcb => hold c hc (hcb.trans hlt).le
  have := rank_lt_rank (hold b hmem hlt.le) hlt
  omega

omit hl' in
/-- The order of the indices is that of the elements. -/
theorem index_le_iff {j : ℕ} (ha : l[i]? = some a) (hb : l[j]? = some b) : j ≤ i ↔ b ≤ a := by
  obtain ⟨hmema, rfl⟩ := (getElem?_eq_some_iff hl).mp ha
  obtain ⟨-, rfl⟩ := (getElem?_eq_some_iff hl).mp hb
  refine ⟨fun hle => ?_, rank_mono l⟩
  by_contra hlt
  have := rank_lt_rank hmema (not_le.mp hlt)
  omega

/-- An index leads to the same element if and only if it and all smaller ones have been kept. -/
theorem getElem?_iff_kept (hold : ∀ b ∈ l', b ≤ a → b ∈ l) (ha : l[i]? = some a) :
    l'[i]? = some a ↔ a ∈ l' ∧ ∀ b ∈ l, b < a → b ∈ l' := by
  obtain ⟨-, rfl⟩ := (getElem?_eq_some_iff hl).mp ha
  rw [getElem?_eq_some_iff hl', rank_eq_iff (hl.imp ne_of_lt) (hl'.imp ne_of_lt)
    fun b hb hlt => hold b hb hlt.le]

end Rank
