import DonutMonitor.Foundations.Regex

/-!
# Substitution in the pieces of a text

A substitution works on the pieces of a text one by one as long as no match that it replaces
reaches over the end of a piece.

## Main definitions

* `Substitution.reaches` — a match that is replaced begins in a text and ends in the one after it.
* `Substitution.Apart` — none does so at the end of a piece.
* `Substitution.subPieces` — the pieces, each with its matches replaced.

## Main results

* `Regex.filterMap_tries` — what follows a text adds ways to match, but changes none.
* `Substitution.sub_flatten` — a substitution of pieces that are apart.
-/

variable {α : Type*}

namespace Regex

/-- A way to match that leaves all of `v`, as a way to match the text before `v`. -/
def before (v : List α) (m : List α × List α) : Option (List α × List α) :=
  if v.length ≤ m.2.length then some (m.1, m.2.take (m.2.length - v.length)) else none

theorem before_append (v a b : List α) : before v (a, b ++ v) = some (a, b) := by
  simp [before]

private theorem before_eq_none {v : List α} {m : List α × List α} (h : m.2.length < v.length) :
    before v m = none := if_neg (Nat.not_le.mpr h)

/-- A match either ends before `v` or takes some of it. -/
private theorem rest_cases {u v a b : List α} (h : u ++ v = a ++ b) :
    (∃ b', u = a ++ b' ∧ b = b' ++ v) ∨ b.length < v.length := by
  rcases List.append_eq_append_iff.mp h with ⟨as, rfl, rfl⟩ | ⟨bs, rfl, rfl⟩
  · cases as with
    | nil => exact .inl ⟨[], by simp, rfl⟩
    | cons c as => exact .inr (by simp only [List.length_append, List.length_cons]; omega)
  · exact .inl ⟨bs, rfl, rfl⟩

private theorem filterMap_runs (p : α → Bool) (u v : List α) :
    (runs p (u ++ v)).filterMap (before v) = runs p u := by
  induction u with
  | nil =>
    cases v with
    | nil => rfl
    | cons c v =>
      have hnone : ∀ m ∈ (runs p v).map fun m => (c :: m.1, m.2), before (c :: v) m = none := by
        intro m hm
        obtain ⟨⟨a, b⟩, hmem, rfl⟩ := List.mem_map.mp hm
        have hv := (mem_tries (r := .run p).mp hmem).1
        refine before_eq_none ?_
        simp only [hv, List.length_cons, List.length_append]
        omega
      have hlast := before_append (c :: v) [] []
      simp only [List.nil_append] at hlast ⊢
      rw [runs, runs]
      split
      · rw [List.filterMap_append, List.filterMap_eq_nil_iff.mpr hnone, List.nil_append,
          List.filterMap_cons_some hlast, List.filterMap_nil]
      · rw [List.filterMap_cons_some hlast, List.filterMap_nil]
  | cons c u ih =>
    have hlast := before_append v [] (c :: u)
    have hcons : (before v ∘ fun m : List α × List α => (c :: m.1, m.2)) =
        fun m => (before v m).map fun m => (c :: m.1, m.2) := by
      funext m
      simp only [before, Function.comp_apply]
      split <;> rfl
    rw [List.cons_append, runs, runs]
    split
    · rw [List.filterMap_append, List.filterMap_map, hcons, ← List.map_filterMap, ih]
      rw [← List.cons_append, List.filterMap_cons_some hlast, List.filterMap_nil]
    · rw [← List.cons_append, List.filterMap_cons_some hlast, List.filterMap_nil]

/-- Two expressions after each other, where `f` is what becomes of the two parts of a match and of
the rest. -/
private theorem filterMap_flatMap_tries {γ : Type*} {s : Regex α} {u v : List α}
    (hs : ∀ u, (s.tries (u ++ v)).filterMap (before v) = s.tries u)
    {f : List α → List α → List α → γ} {k : γ → Option γ}
    (hk : ∀ a n, k (f a n.1 n.2) = (before v n).map fun n => f a n.1 n.2)
    {ms : List (List α × List α)} (hms : ∀ m ∈ ms, u ++ v = m.1 ++ m.2) :
    (ms.flatMap fun m => (s.tries m.2).map fun n => f m.1 n.1 n.2).filterMap k =
      (ms.filterMap (before v)).flatMap fun m => (s.tries m.2).map fun n => f m.1 n.1 n.2 := by
  induction ms with
  | nil => rfl
  | cons m ms ih =>
    rw [List.flatMap_cons, List.filterMap_append,
      ih fun m' hm' => hms m' (List.mem_cons_of_mem _ hm')]
    have hcomp : (k ∘ fun n : List α × List α => f m.1 n.1 n.2) =
        fun n => (before v n).map fun n => f m.1 n.1 n.2 := funext fun n => hk m.1 n
    rcases rest_cases (hms m List.mem_cons_self) with ⟨b, -, hb⟩ | hlt
    · have hmatch : before v m = some (m.1, b) := by rw [← before_append, ← hb]
      rw [List.filterMap_cons_some hmatch, List.flatMap_cons, List.filterMap_map, hcomp,
        ← List.map_filterMap, hb, hs]
    · have hnone : ∀ n ∈ s.tries m.2, (before v n).map (fun n => f m.1 n.1 n.2) = none := by
        intro n hn
        rw [before_eq_none, Option.map_none]
        refine Nat.lt_of_le_of_lt ?_ hlt
        rw [(mem_tries.mp hn).1, List.length_append]
        exact Nat.le_add_left _ _
      rw [List.filterMap_cons_none (before_eq_none hlt), List.filterMap_map, hcomp,
        List.filterMap_eq_nil_iff.mpr hnone, List.nil_append]

/-- What follows a text adds ways to match, but changes none. -/
theorem filterMap_tries (r : Regex α) (u v : List α) :
    (r.tries (u ++ v)).filterMap (before v) = r.tries u := by
  induction r generalizing u with
  | empty => simp [tries, before_append]
  | set p =>
    cases u with
    | nil =>
      cases v with
      | nil => rfl
      | cons c v =>
        rw [List.nil_append, tries, tries]
        split <;> simp [before]
    | cons c u =>
      rw [List.cons_append, tries, tries]
      split <;> simp [before_append]
  | run p => exact filterMap_runs p u v
  | alt r s ihr ihs => rw [tries, tries, List.filterMap_append, ihr, ihs]
  | seq r s ihr ihs =>
    have hk : ∀ a (n : List α × List α), before v (a ++ n.1, n.2) =
        (before v n).map fun n => (a ++ n.1, n.2) := by
      intro a n
      simp only [before]
      split <;> rfl
    rw [tries, filterMap_flatMap_tries ihs (f := fun a b c => (a ++ b, c)) hk fun m hm =>
      (mem_tries.mp hm).1, ihr, tries]

end Regex

namespace Substitution

variable {s : Substitution α} {prev : Option α} {u v : List α}

private theorem filterMap_tries (s : Substitution α) (u v : List α) :
    (s.tries (u ++ v)).filterMap (fun m => (Regex.before v m.2).map fun n => (m.1, n)) =
      s.tries u := by
  have hk : ∀ (a : List α) (n : List α × List α), (Regex.before v n).map (fun n => (a, n)) =
      (Regex.before v n).map fun n => (a, n.1, n.2) := fun a n => rfl
  rw [tries, Regex.filterMap_flatMap_tries (s.value.filterMap_tries · v)
    (f := fun a b c => (a, b, c)) hk fun m hm => (Regex.mem_tries.mp hm).1,
    Regex.filterMap_tries, tries]

/-- What follows a text does not change a match that ends within the text. -/
theorem find_append (hu : u ≠ [])
    (h : ∀ m, s.find prev (u ++ v) = some m → v.length ≤ m.2.2.length) :
    s.find prev (u ++ v) = (s.find prev u).map fun m => (m.1, m.2.1, m.2.2 ++ v) := by
  rw [find, find, List.head?_append_of_ne_nil _ hu]
  split
  · next hanchor =>
    have htries := filterMap_tries s u v
    cases hms : s.tries (u ++ v) with
    | nil =>
      rw [hms] at htries
      rw [← htries]
      rfl
    | cons m ms =>
      have hfind : s.find prev (u ++ v) = some m := by
        rw [find, List.head?_append_of_ne_nil _ hu, if_pos hanchor, hms, List.head?_cons]
      obtain ⟨b, -, hb⟩ := (Regex.rest_cases (find_eq_some hfind).1).resolve_right
        (Nat.not_lt.mpr (h m hfind))
      have hbefore : Regex.before v m.2 = some (m.2.1, b) := by rw [← Regex.before_append, ← hb]
      rw [hms, List.filterMap_cons_some (b := (m.1, m.2.1, b)) (by rw [hbefore]; rfl)] at htries
      rw [← htries, List.head?_cons, List.head?_cons, Option.map_some, ← hb]
  · rfl

/-- A match that is replaced begins in a text and ends in the text `v` after it; as many characters
of a match as are still to be passed over do not count. -/
def reachesFrom (s : Substitution α) (v : List α) : ℕ → Option α → List α → Bool
  | _, _, [] => false
  | n + 1, _, c :: u => reachesFrom s v n (some c) u
  | 0, prev, c :: u =>
    match s.find prev (c :: u ++ v) with
    | some (kept, value, rest) =>
      rest.length < v.length || reachesFrom s v (kept.length + value.length - 1) (some c) u
    | none => reachesFrom s v 0 (some c) u

/-- A match that is replaced begins in a text and ends in the text `v` after it. -/
def reaches (s : Substitution α) (prev : Option α) (u v : List α) : Bool :=
  s.reachesFrom v 0 prev u

/-- Pieces of a text, in none of which a match begins that ends in a later one. -/
def Apart (s : Substitution α) : Option α → List (List α) → Prop
  | _, [] => True
  | prev, u :: us => s.reaches prev u us.flatten = false ∧ Apart s (u.getLast?.or prev) us

instance Apart.instDecidable (s : Substitution α) :
    (prev : Option α) → (us : List (List α)) → Decidable (s.Apart prev us)
  | _, [] => .isTrue trivial
  | prev, u :: us =>
    have := instDecidable s (u.getLast?.or prev) us
    inferInstanceAs (Decidable (_ ∧ _))

/-- The pieces of a text, each with its matches replaced. -/
def subPieces (s : Substitution α) : Option α → List (List α) → List (List α)
  | _, [] => []
  | prev, u :: us => s.subFrom 0 prev u :: subPieces s (u.getLast?.or prev) us

/-- Past a text in which no match begins that is replaced and ends after it, a substitution begins
anew. -/
theorem subFrom_append_of_not_reaches {n : ℕ} (hn : n ≤ u.length)
    (h : s.reachesFrom v n prev u = false) :
    s.subFrom n prev (u ++ v) = s.subFrom n prev u ++ s.subFrom 0 (u.getLast?.or prev) v := by
  have hlast (c : α) (u : List α) (prev : Option α) :
      (c :: u).getLast?.or prev = u.getLast?.or (some c) := by
    rw [List.getLast?_cons, Option.some_or, Option.or_some]
  induction u generalizing n prev with
  | nil =>
    obtain rfl := Nat.le_zero.mp hn
    rfl
  | cons c u ih =>
    cases n with
    | succ n =>
      rw [hlast]
      exact ih (Nat.le_of_succ_le_succ hn) h
    | zero =>
      rw [reachesFrom] at h
      have hfind := @find_append _ s prev (c :: u) v (List.cons_ne_nil c u)
      rw [hlast, List.cons_append, subFrom, subFrom]
      rw [List.cons_append] at h hfind
      cases hm : s.find prev (c :: (u ++ v)) with
      | none =>
        rw [hm] at h hfind
        rw [Option.map_eq_none_iff.mp (hfind fun _ hm => (Option.some_ne_none _ hm.symm).elim).symm]
        exact congrArg (c :: ·) (ih (Nat.zero_le _) h)
      | some m =>
        obtain ⟨kept, value, rest⟩ := m
        rw [hm] at h hfind
        obtain ⟨hle, hlater⟩ := Bool.or_eq_false_iff.mp h
        have hleaves : ∀ m', some (kept, value, rest) = some m' → v.length ≤ m'.2.2.length := by
          intro m' hm'
          obtain rfl := Option.some.inj hm'
          exact Nat.not_lt.mp (of_decide_eq_false hle)
        obtain ⟨⟨kept', value', b⟩, hu, heq⟩ := Option.map_eq_some_iff.mp (hfind hleaves).symm
        cases heq
        have hlength : kept'.length + value'.length - 1 ≤ u.length := by
          have hcount := congrArg List.length (find_eq_some hu).1
          simp only [List.length_cons, List.length_append] at hcount
          omega
        rw [hu]
        dsimp only
        rw [ih hlength hlater, List.append_assoc]

/-- A substitution of pieces that are apart replaces the matches of each. -/
theorem sub_flatten {us : List (List α)} (h : s.Apart prev us) :
    s.subFrom 0 prev us.flatten = (s.subPieces prev us).flatten := by
  induction us generalizing prev with
  | nil => rfl
  | cons u us ih =>
    rw [List.flatten_cons, subFrom_append_of_not_reaches (Nat.zero_le _) h.1, ih h.2, subPieces,
      List.flatten_cons]

/-- Of what stands before a text, only the condition on its first match depends. -/
theorem subFrom_congr {prev' : Option α} {w : List α} (h : s.find prev w = s.find prev' w) :
    s.subFrom 0 prev w = s.subFrom 0 prev' w := by
  cases w with
  | nil => rfl
  | cons c w => rw [subFrom, subFrom, h]

/-- A substitution without a condition on what stands before a match does not depend on it. -/
theorem subFrom_eq_sub (hs : ∀ before after, s.anchor before after = true) (w : List α) :
    s.subFrom 0 prev w = s.sub w :=
  subFrom_congr (by rw [find, find, hs, hs])

theorem subFrom_ne_nil (hs : ∀ kept, s.replace kept ≠ []) {w : List α} (hw : w ≠ []) :
    s.subFrom 0 prev w ≠ [] := by
  obtain ⟨c, w, rfl⟩ := List.exists_cons_of_ne_nil hw
  rw [subFrom]
  split
  · exact List.append_ne_nil_of_left_ne_nil (hs _) _
  · exact List.cons_ne_nil _ _

/-- The characters of the result are those of the text and of the replacements. -/
theorem mem_subFrom {n : ℕ} {w : List α} {d : α} (h : d ∈ s.subFrom n prev w) :
    d ∈ w ∨ ∃ kept ⊆ w, d ∈ s.replace kept := by
  induction w generalizing n prev with
  | nil => cases n <;> cases h
  | cons c w ih =>
    have hlater {n : ℕ} {prev : Option α} (h : d ∈ s.subFrom n prev w) :
        d ∈ c :: w ∨ ∃ kept ⊆ c :: w, d ∈ s.replace kept :=
      (ih h).imp (List.mem_cons_of_mem c) fun ⟨kept, hkept, hd⟩ =>
        ⟨kept, fun _ hc => List.mem_cons_of_mem c (hkept hc), hd⟩
    cases n with
    | succ n => exact hlater h
    | zero =>
      rw [subFrom] at h
      split at h
      · next kept value rest hfind =>
        rcases List.mem_append.mp h with hd | hd
        · refine .inr ⟨kept, ?_, hd⟩
          rw [(find_eq_some hfind).1, List.append_assoc]
          exact List.subset_append_left _ _
        · exact hlater hd
      · rcases List.mem_cons.mp h with rfl | hd
        · exact .inl List.mem_cons_self
        · exact hlater hd

end Substitution
