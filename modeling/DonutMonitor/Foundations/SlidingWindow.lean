import Mathlib.Algebra.Order.Floor.Semiring
import Mathlib.Algebra.Order.Group.Basic
import Mathlib.Data.List.Chain
import Mathlib.Tactic.Linarith

/-!
# Counting timestamps in windows

Two ways of bounding how many entries of a log lie in a window of a given length.

An *admission log*, most recent entry first, lets an entry in only when fewer than a given number
of the older entries lie less than `w` before it (`SlidingWindow.Admitted`). A queue that forgets
old entries can decide this as long as it *retains* every entry younger than `w`
(`SlidingWindow.Retains`). A *spaced* list has successive entries at least `c` apart.

## Main results

* `SlidingWindow.Admitted.countP_window_le` — an admission log has at most `limit` selected
  entries in every half-open window of length `w`, not only in those ending at an entry.
* `SlidingWindow.Retains.expire`, `SlidingWindow.Retains.push` — forgetting the expired front of
  the queue, and recording an entry, keep it retaining.
* `SlidingWindow.dropWhile_eq_filter` — expiry of a sorted queue keeps exactly the younger entries.
* `SlidingWindow.countP_window_le_of_spaced` — a spaced list has at most `⌊L / c⌋ + 1` entries in
  every window of length `L`.
-/

namespace SlidingWindow

section Admission

variable {ι α : Type*} [AddCommGroup α] [LinearOrder α] [IsOrderedAddMonoid α]
  (w : α) (time : ι → α) (p : ι → Prop) [DecidablePred p] (limit : ℤ)

/-- Every selected entry of the log, most recent first, found fewer than `limit` older entries
less than `w` before it. -/
def Admitted : List ι → Prop
  | [] => True
  | x :: older =>
    (p x → (older.countP fun y => time x - w < time y : ℤ) < limit) ∧ Admitted older

variable {w time p limit}

/-- The selected entries of an admission log in a half-open window of length `w`. -/
theorem Admitted.countP_window_le {log : List ι} (h : Admitted w time p limit log)
    (hlimit : 0 ≤ limit) (a : α) :
    (log.countP fun x => p x ∧ a < time x ∧ time x ≤ a + w : ℤ) ≤ limit := by
  induction log with
  | nil => simpa using hlimit
  | cons x older ih =>
    by_cases hx : p x ∧ a < time x ∧ time x ≤ a + w
    · rw [List.countP_cons_of_pos (by simpa using hx)]
      have hmono : (older.countP fun y => p y ∧ a < time y ∧ time y ≤ a + w) ≤
          older.countP fun y => time x - w < time y := by
        apply List.countP_mono_left
        intro y _ hy
        have hxa : time x - w ≤ a := sub_le_iff_le_add.mpr hx.2.2
        simp only [decide_eq_true_eq] at hy ⊢
        exact lt_of_le_of_lt hxa hy.2.1
      have hlt := h.1 hx.1
      push_cast
      omega
    · rw [List.countP_cons_of_neg (by simpa using hx)]
      exact ih h.2

variable (w time)

/-- The queue holds every entry of the log that is younger than `w` at the time `t`, or will be
at a later time. -/
def Retains (t : α) (log : List ι) (queue : List α) : Prop :=
  ∀ c, t - w ≤ c → (log.countP fun x => c < time x) ≤ queue.countP fun s => c < s

variable {w time} {t u : α} {log : List ι} {queue : List α}

private theorem countP_dropWhile {β : Type*} {p q : β → Bool} (hpq : ∀ b, p b → q b = false)
    (l : List β) : (l.dropWhile p).countP q = l.countP q := by
  induction l with
  | nil => rfl
  | cons b l ih =>
    by_cases hb : p b
    · rw [List.dropWhile_cons_of_pos hb, List.countP_cons_of_neg (by simp [hpq b hb]), ih]
    · rw [List.dropWhile_cons_of_neg hb]

omit [IsOrderedAddMonoid α] in
theorem Retains.nil : Retains w time t ([] : List ι) [] := fun _ _ => by simp

theorem Retains.mono (h : Retains w time t log queue) (htu : t ≤ u) : Retains w time u log queue :=
  fun c hc => h c ((sub_le_sub_right htu w).trans hc)

/-- Dropping a front that has expired by the time `u` loses no entry younger than `w`. -/
theorem Retains.expire (h : Retains w time t log queue) (htu : t ≤ u) :
    Retains w time u log (queue.dropWhile fun s => s ≤ u - w) := by
  intro c hc
  refine (h.mono htu c hc).trans (countP_dropWhile (fun s hs => ?_) queue).ge
  have hsu : s ≤ u - w := by simpa using hs
  simpa using hsu.trans hc

omit [IsOrderedAddMonoid α] in
theorem Retains.push {x : ι} (h : Retains w time t log queue) (hx : time x = t) :
    Retains w time t (x :: log) (queue ++ [t]) := by
  intro c hc
  have := h c hc
  simp only [List.countP_cons, List.countP_append, List.countP_nil, hx]
  omega

omit [IsOrderedAddMonoid α] in
/-- A retaining queue is at least as long as the number of entries younger than `w`. -/
theorem Retains.countP_le_length (h : Retains w time t log queue) :
    (log.countP fun x => t - w < time x) ≤ queue.length :=
  (h _ le_rfl).trans List.countP_le_length

end Admission

/-- Dropping an expired front of a sorted queue keeps exactly the younger entries. -/
theorem dropWhile_eq_filter {α : Type*} [LinearOrder α] {queue : List α}
    (h : queue.Pairwise (· ≤ ·)) (c : α) :
    queue.dropWhile (fun s => s ≤ c) = queue.filter fun s => c < s := by
  induction queue with
  | nil => rfl
  | cons s queue ih =>
    obtain ⟨hs, hqueue⟩ := List.pairwise_cons.mp h
    by_cases hc : s ≤ c
    · rw [List.dropWhile_cons_of_pos (by simpa using hc), ih hqueue,
        List.filter_cons_of_neg (by simpa using hc)]
    · rw [List.dropWhile_cons_of_neg (by simpa using hc)]
      refine (List.filter_eq_self.mpr fun t ht => ?_).symm
      rcases List.mem_cons.mp ht with rfl | ht
      · simpa using hc
      · simpa using lt_of_lt_of_le (not_le.mp hc) (hs t ht)

section Spacing

variable {α : Type*} [Field α] [LinearOrder α] [IsStrictOrderedRing α]

/-- Entries at least `c` apart that lie in a window of length `L` span at most `L`. -/
theorem length_sub_one_mul_le {c : α} {l : List α} (hl : l.Pairwise fun x y => x + c ≤ y)
    {a L : α} (hL : 0 ≤ L) (hc : 0 < c) (hmem : ∀ x ∈ l, a ≤ x ∧ x ≤ a + L) :
    ((l.length : α) - 1) * c ≤ L := by
  induction l generalizing a L with
  | nil =>
    simp only [List.length_nil, Nat.cast_zero]
    linarith
  | cons x l ih =>
    obtain ⟨hx, hl⟩ := List.pairwise_cons.mp hl
    have hax := hmem x List.mem_cons_self
    rcases l.eq_nil_or_concat with rfl | ⟨l', y, rfl⟩
    · simpa using hL
    · have hy : x + c ≤ y := hx y (by simp)
      have hya := hmem y (by simp)
      have hrest := ih hl (a := x + c) (L := a + L - (x + c)) (by linarith) fun z hz =>
        ⟨hx z hz, by linarith [(hmem z (List.mem_cons_of_mem x hz)).2]⟩
      rw [List.length_cons, Nat.cast_add_one]
      linarith

/-- A list of entries at least `c` apart has at most `⌊L / c⌋ + 1` entries in a window of
length `L`. -/
theorem countP_window_le_of_spaced [FloorSemiring α] {c : α} (hc : 0 < c) {l : List α}
    (hl : l.Pairwise fun x y => x + c ≤ y) (a : α) {L : α} (hL : 0 ≤ L) :
    (l.countP fun x => a ≤ x ∧ x ≤ a + L) ≤ ⌊L / c⌋₊ + 1 := by
  rw [List.countP_eq_length_filter]
  have hspan := length_sub_one_mul_le (hl.filter fun x => decide (a ≤ x ∧ x ≤ a + L)) hL hc
    fun x hx => by simpa using (List.mem_filter.mp hx).2
  cases hn : (l.filter fun x => decide (a ≤ x ∧ x ≤ a + L)).length with
  | zero => exact Nat.zero_le _
  | succ n =>
    rw [hn, Nat.cast_add_one, add_sub_cancel_right, ← le_div_iff₀ hc] at hspan
    exact Nat.succ_le_succ (Nat.le_floor hspan)

end Spacing

end SlidingWindow
