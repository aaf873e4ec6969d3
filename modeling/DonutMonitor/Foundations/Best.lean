import Mathlib.Data.List.Infix
import Mathlib.Data.List.Sort
import Mathlib.Order.Lattice

/-!
# The best elements of a list

A list is sorted by a key and cut. The sort is stable, so the cut keeps the elements before which
few enough others come: those with a smaller key, and those with the same key that stand before them
in the list.

## Main definitions

* `Best.best` — the first elements in the order of their keys.
* `Best.Precedes` — an element comes before another.

## Main results

* `Best.pairwise_best` — the order of the elements that are kept.
* `Best.mem_best_iff` — which elements are kept.
* `Best.mem_best_of_countP_le`, `Best.of_mem_best` — what becomes of elements that come before all
  others.
-/

namespace Best

open List

variable {α β : Type*} [LinearOrder β] (key : α → β)

/-- The first `n` elements in the order of their keys. -/
def best (n : ℕ) (l : List α) : List α := (l.insertionSort (key · ≤ key ·)).take n

/-- The first element has a smaller key, or the same key and stands before the other. -/
def Precedes (l : List α) (a b : α) : Prop := key a < key b ∨ key a = key b ∧ [a, b] <+ l

instance [DecidableEq α] (l : List α) (a b : α) : Decidable (Precedes key l a b) :=
  inferInstanceAs (Decidable (_ ∨ _ ∧ _))

variable {key} {l : List α} {a b : α} {n : ℕ}

theorem pair_sublist_cons {c : α} : [a, b] <+ c :: l ↔ [a, b] <+ l ∨ a = c ∧ b ∈ l := by
  rw [sublist_cons_iff]
  simp [and_assoc]

/-- Of two elements one stands before the other. -/
theorem pair_sublist_or (ha : a ∈ l) (hb : b ∈ l) (hne : a ≠ b) : [a, b] <+ l ∨ [b, a] <+ l := by
  induction l with
  | nil => cases ha
  | cons c l ih =>
    rw [pair_sublist_cons, pair_sublist_cons]
    by_cases hac : a = c
    · exact .inl (.inr ⟨hac, mem_of_ne_of_mem (hac ▸ hne.symm) hb⟩)
    · have ha := mem_of_ne_of_mem hac ha
      by_cases hbc : b = c
      · exact .inr (.inr ⟨hbc, ha⟩)
      · exact (ih ha (mem_of_ne_of_mem hbc hb)).imp .inl .inl

/-- In a list without repetitions only one does. -/
theorem not_pair_sublist (hl : l.Nodup) (h : [a, b] <+ l) : ¬[b, a] <+ l := by
  induction l with
  | nil => cases h
  | cons c l ih =>
    obtain ⟨hc, hl⟩ := nodup_cons.mp hl
    rw [pair_sublist_cons] at h ⊢
    rintro (h' | ⟨rfl, ha⟩) <;> rcases h with h | ⟨rfl, hb⟩
    · exact ih hl h h'
    · exact hc (h'.subset (by simp))
    · exact hc (h.subset (by simp))
    · exact hc hb

/-- What is dropped from the list does not matter. -/
theorem precedes_filter {p : α → Bool} (ha : p a) (hb : p b) :
    Precedes key (l.filter p) a b ↔ Precedes key l a b := by
  have hpair : [a, b] <+ l.filter p ↔ [a, b] <+ l :=
    ⟨fun h => h.trans filter_sublist, fun h => by simpa [ha, hb] using h.filter p⟩
  rw [Precedes, Precedes, hpair]

/-- In a list without repetitions the first `n` elements are those before which fewer stand. -/
theorem mem_take_iff [DecidableEq α] (hl : l.Nodup) :
    a ∈ l.take n ↔ a ∈ l ∧ l.countP ([·, a] <+ l) < n := by
  induction l generalizing n with
  | nil => simp
  | cons c l ih =>
    obtain ⟨hc, hl⟩ := nodup_cons.mp hl
    have hcount : l.countP ([·, a] <+ c :: l) = l.countP ([·, a] <+ l) :=
      countP_congr fun b hb => by
        simp [pair_sublist_cons, ne_of_mem_of_not_mem hb hc]
    cases n with
    | zero => simp
    | succ n =>
      rw [take_succ_cons, mem_cons, mem_cons, ih hl, countP_cons, hcount]
      by_cases hac : a = c
      · subst hac
        have hnone : l.countP ([·, a] <+ l) = 0 :=
          countP_eq_zero.mpr fun b _ hpair =>
            hc ((of_decide_eq_true hpair).subset (by simp))
        simp [hnone, hc]
      · rw [or_iff_right hac, or_iff_right hac]
        refine and_congr_right fun ha => ?_
        rw [if_pos (by simp [ha]), Nat.add_lt_add_iff_right]

/-! ### The order of the sorted list -/

variable (hl : l.Nodup)

include hl

/-- The sorted list has its elements in the order in which they come. -/
theorem pair_sublist_insertionSort_iff (ha : a ∈ l) (hb : b ∈ l) :
    [a, b] <+ l.insertionSort (key · ≤ key ·) ↔ Precedes key l a b := by
  have hperm := perm_insertionSort (key · ≤ key ·) l
  have hnodup := hperm.nodup_iff.mpr hl
  have hle {a b : α} (h : [a, b] <+ l.insertionSort (key · ≤ key ·)) : key a ≤ key b :=
    pairwise_iff_forall_sublist.mp (pairwise_insertionSort (key · ≤ key ·) l) h
  have hstable {a b : α} (hab : key a ≤ key b) (h : [a, b] <+ l) :
      [a, b] <+ l.insertionSort (key · ≤ key ·) := pair_sublist_insertionSort hab h
  constructor
  · intro h
    have hne : a ≠ b := fun heq => not_pair_sublist hnodup h (heq ▸ heq ▸ h)
    refine (hle h).lt_or_eq.imp_right fun heq => ⟨heq, ?_⟩
    exact (pair_sublist_or ha hb hne).resolve_right fun h' =>
      not_pair_sublist hnodup h (hstable heq.ge h')
  · rintro (hlt | ⟨heq, h⟩)
    · refine (pair_sublist_or (hperm.mem_iff.mpr ha) (hperm.mem_iff.mpr hb)
        (ne_of_apply_ne key hlt.ne)).resolve_right fun h => ?_
      exact hlt.not_ge (hle h)
    · exact hstable heq.le h

/-- The elements that are kept stand in the order in which they come. -/
theorem pairwise_best (n : ℕ) : (best key n l).Pairwise (Precedes key l) := by
  refine Pairwise.sublist (take_sublist n _) (pairwise_iff_forall_sublist.mpr fun {a b} h => ?_)
  have hmem {c : α} (hc : c ∈ [a, b]) : c ∈ l :=
    (perm_insertionSort (key · ≤ key ·) l).mem_iff.mp (h.subset hc)
  exact (pair_sublist_insertionSort_iff hl (hmem (by simp)) (hmem (by simp))).mp h

/-- An element is kept if and only if fewer than `n` others come before it. -/
theorem mem_best_iff [DecidableEq α] :
    a ∈ best key n l ↔ a ∈ l ∧ l.countP (Precedes key l · a) < n := by
  have hperm := perm_insertionSort (key · ≤ key ·) l
  rw [best, mem_take_iff (hperm.nodup_iff.mpr hl), hperm.mem_iff, hperm.countP_eq]
  refine and_congr_right fun ha => ?_
  have hcount : l.countP ([·, a] <+ l.insertionSort (key · ≤ key ·)) =
      l.countP (Precedes key l · a) :=
    countP_congr fun b hb => by simpa using pair_sublist_insertionSort_iff hl hb ha
  rw [hcount]

variable [DecidableEq α] {p : α → Bool}

/-- Elements that come before all others are kept when there are few enough of them. -/
theorem mem_best_of_countP_le (hp : ∀ b ∈ l, key b ≤ key a → p b) (hn : l.countP p ≤ n)
    (ha : a ∈ l) : a ∈ best key n l := by
  refine (mem_best_iff hl).mpr ⟨ha, lt_of_lt_of_le ?_ hn⟩
  have hself : ¬Precedes key l a a := by
    rintro (hlt | ⟨-, h⟩)
    · exact lt_irrefl _ hlt
    · exact not_pair_sublist hl h h
  rw [countP_eq_length_filter, countP_eq_length_filter]
  have hnodup : (a :: l.filter (Precedes key l · a)).Nodup :=
    nodup_cons.mpr ⟨by simp [hself], hl.filter _⟩
  refine (subperm_of_subset hnodup fun b hb => ?_).length_le
  rcases mem_cons.mp hb with rfl | hb
  · exact mem_filter.mpr ⟨ha, hp _ ha le_rfl⟩
  · obtain ⟨hb, hbefore⟩ := mem_filter.mp hb
    refine mem_filter.mpr ⟨hb, hp b hb ?_⟩
    exact (of_decide_eq_true hbefore).elim le_of_lt fun h => h.1.le

/-- Only elements that come before all others are kept when there are enough of them. -/
theorem of_mem_best (hp : ∀ b ∈ l, p b → p a = false → key b < key a) (hn : n ≤ l.countP p)
    (ha : a ∈ best key n l) : p a := by
  by_contra hpa
  obtain ⟨hmem, hcount⟩ := (mem_best_iff hl).mp ha
  refine hcount.not_ge (hn.trans (countP_mono_left fun b hb hpb => ?_))
  exact decide_eq_true (.inl (hp b hb hpb (by simpa using hpa)))

end Best
