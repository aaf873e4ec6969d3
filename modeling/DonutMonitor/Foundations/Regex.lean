import Mathlib.Data.List.Basic

/-!
# Regular expressions and substitution

The expressions that are built from sets of characters, greedy runs of them, alternatives and
sequences, with the meaning that a backtracking matcher gives them: `Regex.tries` lists the ways to
match a prefix of a text in the order in which the matcher tries them, and the first one is the
match.  `Regex.Accepts` is the language of an expression.

A `Substitution` replaces the matches of an expression from left to right.  The expression has a
first part, which the replacement may quote, and a second one; a condition on the characters on
both sides of the place of a match stands before them.

## Main definitions

* `Regex`, `Regex.tries`, `Regex.Accepts`.
* `Substitution`, `Substitution.find`, `Substitution.sub`.
* `Substitution.Scan` — a text and its result, with the matches on the way.

## Main results

* `Regex.mem_tries` — the matcher tries exactly the prefixes in the language.
* `Regex.EndsRun.seq` — a greedy run at the end of an expression is a longest one.
* `Substitution.find_eq_some`, `Substitution.find_ne_none` — where a match begins.
* `Substitution.subFrom_of_find`, `Substitution.subFrom_append_of_find` — what a match is replaced
  by, and what a text without a match becomes.
* `Substitution.scan_sub` — what `sub` computes is a scan.
-/

variable {α : Type*}

/-- A regular expression over characters of type `α`. -/
inductive Regex (α : Type*) where
  /-- The empty word. -/
  | empty
  /-- One character of a set. -/
  | set (p : α → Bool)
  /-- As many characters of a set as there are, fewer when the match fails otherwise. -/
  | run (p : α → Bool)
  /-- The first expression or the second. -/
  | alt (r s : Regex α)
  /-- One expression after the other. -/
  | seq (r s : Regex α)

namespace Regex

/-- The texts that become `word` when their characters are folded. -/
def word [DecidableEq α] (fold : α → α) : List α → Regex α
  | [] => .empty
  | c :: cs => .seq (.set fun d => fold d = c) (word fold cs)

/-- The expression or nothing. -/
def optional (r : Regex α) : Regex α := .alt r .empty

/-- A run of one character at least. -/
def run1 (p : α → Bool) : Regex α := .seq (.set p) (.run p)

/-- The runs at the beginning of a text with what follows them, the longest first. -/
def runs (p : α → Bool) : List α → List (List α × List α)
  | [] => [([], [])]
  | c :: w =>
    if p c then (runs p w).map (fun m => (c :: m.1, m.2)) ++ [([], c :: w)] else [([], c :: w)]

/-- The prefixes of a text that match the expression with what follows them, in the order in which
a backtracking matcher tries them. -/
def tries : Regex α → List α → List (List α × List α)
  | empty, w => [([], w)]
  | set _, [] => []
  | set p, c :: w => if p c then [([c], w)] else []
  | run p, w => runs p w
  | alt r s, w => r.tries w ++ s.tries w
  | seq r s, w => (r.tries w).flatMap fun m => (s.tries m.2).map fun n => (m.1 ++ n.1, n.2)

/-- The language of an expression. -/
def Accepts : Regex α → List α → Prop
  | empty, u => u = []
  | set p, u => ∃ c, p c = true ∧ u = [c]
  | run p, u => ∀ c ∈ u, p c = true
  | alt r s, u => r.Accepts u ∨ s.Accepts u
  | seq r s, u => ∃ u₁ u₂, u = u₁ ++ u₂ ∧ r.Accepts u₁ ∧ s.Accepts u₂

private theorem mem_runs {p : α → Bool} {u v w : List α} :
    (u, v) ∈ runs p w ↔ w = u ++ v ∧ ∀ c ∈ u, p c = true := by
  induction w generalizing u with
  | nil => cases u <;> simp [runs]
  | cons c w ih =>
    by_cases hc : p c = true
    · rw [runs, if_pos hc, List.mem_append, List.mem_map, List.mem_singleton]
      constructor
      · rintro (⟨⟨u', v'⟩, hmem, heq⟩ | heq)
        · obtain ⟨rfl, rfl⟩ := Prod.mk.inj heq
          obtain ⟨rfl, hu⟩ := ih.mp hmem
          exact ⟨rfl, List.forall_mem_cons.mpr ⟨hc, hu⟩⟩
        · obtain ⟨rfl, rfl⟩ := Prod.mk.inj heq
          exact ⟨rfl, List.forall_mem_nil _⟩
      · rintro ⟨hw, hu⟩
        cases u with
        | nil => exact .inr (congrArg (Prod.mk []) hw.symm)
        | cons d u =>
          obtain ⟨rfl, rfl⟩ := List.cons.inj hw
          exact .inl ⟨(u, v), ih.mpr ⟨rfl, (List.forall_mem_cons.mp hu).2⟩, rfl⟩
    · rw [runs, if_neg hc, List.mem_singleton]
      constructor
      · intro heq
        obtain ⟨rfl, rfl⟩ := Prod.mk.inj heq
        exact ⟨rfl, List.forall_mem_nil _⟩
      · rintro ⟨hw, hu⟩
        cases u with
        | nil => exact congrArg (Prod.mk []) hw.symm
        | cons d u =>
          obtain ⟨rfl, -⟩ := List.cons.inj hw
          exact absurd (List.forall_mem_cons.mp hu).1 hc

/-- The matcher tries exactly the prefixes in the language. -/
theorem mem_tries {r : Regex α} {u v w : List α} :
    (u, v) ∈ r.tries w ↔ w = u ++ v ∧ r.Accepts u := by
  induction r generalizing u v w with
  | empty =>
    simp only [tries, List.mem_singleton, Prod.mk.injEq, Accepts]
    constructor
    · rintro ⟨rfl, rfl⟩
      exact ⟨rfl, rfl⟩
    · rintro ⟨rfl, rfl⟩
      exact ⟨rfl, rfl⟩
  | set p =>
    cases w with
    | nil =>
      simp only [tries, List.not_mem_nil, Accepts, false_iff, not_and]
      rintro h ⟨c, -, rfl⟩
      cases h
    | cons c w =>
      by_cases hc : p c = true
      · simp only [tries, hc, if_true, List.mem_singleton, Prod.mk.injEq, Accepts]
        constructor
        · rintro ⟨rfl, rfl⟩
          exact ⟨rfl, c, hc, rfl⟩
        · rintro ⟨h, d, -, rfl⟩
          obtain ⟨rfl, rfl⟩ := List.cons.inj h
          exact ⟨rfl, rfl⟩
      · rw [tries, if_neg hc]
        refine iff_of_false List.not_mem_nil ?_
        rintro ⟨h, d, hd, rfl⟩
        obtain ⟨rfl, -⟩ := List.cons.inj h
        exact hc hd
  | run p => exact mem_runs
  | alt r s ihr ihs =>
    simp only [tries, List.mem_append, ihr, ihs, Accepts]
    exact and_or_left.symm
  | seq r s ihr ihs =>
    simp only [tries, List.mem_flatMap, List.mem_map, Prod.mk.injEq, Accepts]
    constructor
    · rintro ⟨⟨u₁, v₁⟩, hr, ⟨u₂, v₂⟩, hs, rfl, rfl⟩
      obtain ⟨rfl, hu₁⟩ := ihr.mp hr
      obtain ⟨rfl, hu₂⟩ := ihs.mp hs
      exact ⟨(List.append_assoc _ _ _).symm, u₁, u₂, rfl, hu₁, hu₂⟩
    · rintro ⟨rfl, u₁, u₂, rfl, hu₁, hu₂⟩
      exact ⟨(u₁, u₂ ++ v), ihr.mpr ⟨List.append_assoc _ _ _, hu₁⟩, (u₂, v),
        ihs.mpr ⟨rfl, hu₂⟩, rfl, rfl⟩

/-- What the first match of the expression leaves does not begin with a character of `p`. -/
def EndsRun (p : α → Bool) (r : Regex α) : Prop :=
  ∀ w u v, (r.tries w).head? = some (u, v) → ∀ c ∈ v.head?, p c = false

private theorem head?_runs (p : α → Bool) (w : List α) :
    (runs p w).head? = some (w.takeWhile p, w.dropWhile p) := by
  induction w with
  | nil => rfl
  | cons c w ih =>
    by_cases hc : p c = true
    · simp [runs, hc, ih]
    · simp [runs, hc]

theorem EndsRun.run (p : α → Bool) : EndsRun p (.run p) := by
  intro w u v h c hc
  rw [tries, head?_runs] at h
  obtain ⟨-, rfl⟩ := Prod.mk.inj (Option.some.inj h)
  have hnot := List.head?_dropWhile_not p w
  rw [Option.mem_def.mp hc] at hnot
  exact hnot

/-- A greedy run at the end of an expression is a longest one. -/
theorem EndsRun.seq {p : α → Bool} {s : Regex α} (h : EndsRun p s) (r : Regex α) :
    EndsRun p (.seq r s) := by
  intro w u v hhead
  rw [tries, List.head?_flatMap] at hhead
  obtain ⟨m, -, hm⟩ := List.exists_of_findSome?_eq_some hhead
  rw [List.head?_map] at hm
  obtain ⟨⟨u', v'⟩, hn, heq⟩ := Option.map_eq_some_iff.mp hm
  obtain ⟨-, rfl⟩ := Prod.mk.inj heq
  exact h _ _ _ hn

theorem EndsRun.run1 (p : α → Bool) : EndsRun p (run1 p) := (EndsRun.run p).seq _

/-- An option is taken where the expression goes on to match after it. -/
theorem head?_tries_optional {r s : Regex α} {w : List α} (h : (seq r s).tries w ≠ []) :
    ((seq r.optional s).tries w).head? = ((seq r s).tries w).head? := by
  rw [tries, optional, tries, List.flatMap_append]
  exact List.head?_append_of_ne_nil _ h

theorem accepts_run1 {p : α → Bool} {u : List α} :
    (run1 p).Accepts u ↔ ∃ c v, u = c :: v ∧ p c = true ∧ ∀ d ∈ v, p d = true := by
  simp only [run1, Accepts]
  constructor
  · rintro ⟨_, v, rfl, ⟨c, hc, rfl⟩, hv⟩
    exact ⟨c, v, rfl, hc, hv⟩
  · rintro ⟨c, v, rfl, hc, hv⟩
    exact ⟨[c], v, rfl, ⟨c, hc, rfl⟩, hv⟩

theorem accepts_optional {r : Regex α} {u : List α} :
    r.optional.Accepts u ↔ r.Accepts u ∨ u = [] := Iff.rfl

theorem accepts_word [DecidableEq α] {fold : α → α} {cs u : List α} :
    (word fold cs).Accepts u ↔ u.map fold = cs := by
  induction cs generalizing u with
  | nil => simp [word, Accepts]
  | cons c cs ih =>
    simp only [word, Accepts, ih, decide_eq_true_eq]
    constructor
    · rintro ⟨_, v, rfl, ⟨d, rfl, rfl⟩, rfl⟩
      rfl
    · intro h
      obtain ⟨d, v, rfl, hd, hv⟩ := List.map_eq_cons_iff.mp h
      exact ⟨[d], v, rfl, ⟨d, hd, rfl⟩, hv⟩

end Regex

/-- A substitution for the matches of an expression of two parts, the first of which the
replacement may quote. -/
structure Substitution (α : Type*) where
  /-- The condition on the characters before and after the beginning of a match. -/
  anchor : Option α → Option α → Bool
  /-- The part of the match that the replacement may quote. -/
  kept : Regex α
  /-- The rest of the match. -/
  value : Regex α
  /-- The replacement. -/
  replace : List α → List α

namespace Substitution

variable (s : Substitution α)

/-- The ways to match at the beginning of a text: the two parts and what follows. -/
def tries (w : List α) : List (List α × List α × List α) :=
  (s.kept.tries w).flatMap fun m => (s.value.tries m.2).map fun n => (m.1, n.1, n.2)

/-- The match at the beginning of a text that follows the character `prev`. -/
def find (prev : Option α) (w : List α) : Option (List α × List α × List α) :=
  if s.anchor prev w.head? then (s.tries w).head? else none

/-- Replaces the matches of a text from left to right, after as many characters of a match as are
still to be passed over. -/
def subFrom : ℕ → Option α → List α → List α
  | _, _, [] => []
  | n + 1, _, c :: w => subFrom n (some c) w
  | 0, prev, c :: w =>
    match s.find prev (c :: w) with
    | some (kept, value, _) =>
      s.replace kept ++ subFrom (kept.length + value.length - 1) (some c) w
    | none => c :: subFrom 0 (some c) w

/-- Replaces the matches of a text from left to right. -/
def sub (w : List α) : List α := s.subFrom 0 none w

variable {s} {prev : Option α} {w : List α}

theorem find_eq_some {kept value rest : List α} (h : s.find prev w = some (kept, value, rest)) :
    w = kept ++ value ++ rest ∧ s.kept.Accepts kept ∧ s.value.Accepts value := by
  rw [find] at h
  split at h
  · obtain ⟨m, hm, hmem⟩ := List.mem_flatMap.mp (List.mem_of_mem_head? h)
    obtain ⟨n, hn, heq⟩ := List.mem_map.mp hmem
    obtain ⟨hw, hkept⟩ := Regex.mem_tries.mp hm
    obtain ⟨hrest, hvalue⟩ := Regex.mem_tries.mp hn
    cases heq
    exact ⟨by rw [List.append_assoc, ← hrest, hw], hkept, hvalue⟩
  · cases h

theorem anchor_of_find {m : List α × List α × List α} (h : s.find prev w = some m) :
    s.anchor prev w.head? = true := by
  rw [find] at h
  split at h
  · assumption
  · cases h

/-- Where both parts can match, there is a match. -/
theorem find_ne_none {kept value rest : List α} (hanchor : s.anchor prev w.head? = true)
    (hw : w = kept ++ value ++ rest) (hkept : s.kept.Accepts kept)
    (hvalue : s.value.Accepts value) : s.find prev w ≠ none := by
  rw [find, if_pos hanchor, ne_eq, List.head?_eq_none_iff]
  refine List.ne_nil_of_mem (a := (kept, value, rest)) (List.mem_flatMap.mpr
    ⟨(kept, value ++ rest), Regex.mem_tries.mpr ⟨by rw [hw, List.append_assoc], hkept⟩, ?_⟩)
  exact List.mem_map.mpr ⟨(value, rest), Regex.mem_tries.mpr ⟨rfl, hvalue⟩, rfl⟩

/-- The second part of a match is the first one that the matcher tries. -/
theorem head?_value_of_find {kept value rest : List α}
    (h : s.find prev w = some (kept, value, rest)) :
    (s.value.tries (value ++ rest)).head? = some (value, rest) := by
  rw [find] at h
  split at h
  · rw [tries, List.head?_flatMap] at h
    obtain ⟨m, -, hm⟩ := List.exists_of_findSome?_eq_some h
    rw [List.head?_map] at hm
    obtain ⟨⟨value', rest'⟩, hn, heq⟩ := Option.map_eq_some_iff.mp hm
    cases heq
    rwa [(Regex.mem_tries.mp (List.mem_of_mem_head? hn)).1] at hn
  · cases h

/-- A match whose second part ends with a greedy run takes all of it. -/
theorem find_endsRun {p : α → Bool} (hp : Regex.EndsRun p s.value) {kept value rest : List α}
    (h : s.find prev w = some (kept, value, rest)) : ∀ c ∈ rest.head?, p c = false :=
  hp _ _ _ (head?_value_of_find h)

variable (s) in
/-- A text after the character `prev` and what a substitution makes of it. -/
inductive Scan : Option α → List α → List α → Prop
  | nil {prev : Option α} : Scan prev [] []
  /-- No match begins here. -/
  | copy {prev : Option α} {c : α} {w out : List α} (hfind : s.find prev (c :: w) = none)
      (hscan : Scan (some c) w out) : Scan prev (c :: w) (c :: out)
  /-- A match begins here. -/
  | hit {prev prev' : Option α} {kept value rest out : List α}
      (hfind : s.find prev (kept ++ value ++ rest) = some (kept, value, rest))
      (hscan : Scan prev' rest out) : Scan prev (kept ++ value ++ rest) (s.replace kept ++ out)

variable {prev' : Option α} {out : List α}

/-- What a scan of a text that is not empty begins with. -/
theorem Scan.of_cons {c : α} (h : s.Scan prev (c :: w) out) :
    (∃ out', out = c :: out' ∧ s.find prev (c :: w) = none ∧ s.Scan (some c) w out') ∨
      ∃ kept value rest out' prev', c :: w = kept ++ value ++ rest ∧
        s.find prev (c :: w) = some (kept, value, rest) ∧ out = s.replace kept ++ out' ∧
          s.Scan prev' rest out' := by
  generalize hw : c :: w = w' at h
  cases h with
  | nil => cases hw
  | copy hfind hscan =>
    obtain ⟨rfl, rfl⟩ := List.cons.inj hw
    exact .inl ⟨_, rfl, hfind, hscan⟩
  | hit hfind hscan => exact .inr ⟨_, _, _, _, _, rfl, hfind, rfl, hscan⟩

theorem Scan.of_nil (h : s.Scan prev [] out) (hs : ¬ s.value.Accepts []) : out = [] := by
  generalize hw : ([] : List α) = w' at h
  cases h with
  | nil => rfl
  | copy => cases hw
  | hit hfind =>
    obtain ⟨-, -, hvalue⟩ := find_eq_some hfind
    rw [(List.append_eq_nil_iff.mp (List.append_eq_nil_iff.mp hw.symm).1).2] at hvalue
    exact absurd hvalue hs

/-- A text without a match is left as it is. -/
theorem Scan.eq_self (h : s.Scan prev w out)
    (hnone : ∀ u v, w = u ++ v → s.find (u.getLast?.or prev) v = none) : out = w := by
  induction h with
  | nil => rfl
  | @copy prev c w out hfind hscan ih =>
    refine congrArg (c :: ·) (ih fun u v hw => ?_)
    have hlater := hnone (c :: u) v (by rw [hw, List.cons_append])
    cases u with
    | nil => exact hlater
    | cons d u => exact hlater
  | hit hfind _ _ =>
    have hhere := hnone [] _ (List.nil_append _).symm
    rw [List.getLast?_nil, Option.none_or, hfind] at hhere
    cases hhere

private theorem subFrom_append (u w : List α) (prev : Option α) :
    ∃ prev', s.subFrom u.length prev (u ++ w) = s.subFrom 0 prev' w := by
  induction u generalizing prev with
  | nil => exact ⟨prev, rfl⟩
  | cons c u ih => exact ih (some c)

/-- A match at the beginning of a text is replaced, and the substitution goes on after it. -/
theorem subFrom_of_find (hs : ¬ s.value.Accepts []) {kept value rest : List α}
    (h : s.find prev w = some (kept, value, rest)) :
    rest.length < w.length ∧
      ∃ prev', s.subFrom 0 prev w = s.replace kept ++ s.subFrom 0 prev' rest := by
  obtain ⟨rfl, -, hvalue⟩ := find_eq_some h
  obtain ⟨c, u, hu⟩ : ∃ c u, kept ++ value = c :: u := by
    refine List.exists_cons_of_ne_nil fun hnil => hs ?_
    rwa [(List.append_eq_nil_iff.mp hnil).2] at hvalue
  have hlength : kept.length + value.length - 1 = u.length := by
    rw [← List.length_append, hu, List.length_cons, Nat.add_sub_cancel]
  obtain ⟨prev', hrest⟩ := subFrom_append (s := s) u rest (some c)
  rw [hu] at h ⊢
  refine ⟨by simp only [List.length_append, List.length_cons]; omega, prev', ?_⟩
  rw [List.cons_append] at h ⊢
  rw [subFrom, h]
  dsimp only
  rw [hlength, hrest]

/-- A text in which no match begins is copied. -/
theorem subFrom_append_of_find {u : List α}
    (h : ∀ a b, u = a ++ b → b ≠ [] → s.find (a.getLast?.or prev) (b ++ w) = none) :
    s.subFrom 0 prev (u ++ w) = u ++ s.subFrom 0 (u.getLast?.or prev) w := by
  induction u generalizing prev with
  | nil => rfl
  | cons c u ih =>
    have hhere : s.find prev (c :: (u ++ w)) = none := h [] (c :: u) rfl (List.cons_ne_nil c u)
    have hlast (a : List α) : (c :: a).getLast?.or prev = a.getLast?.or (some c) := by
      rw [List.getLast?_cons, Option.some_or, Option.or_some]
    rw [List.cons_append, subFrom, hhere, hlast]
    refine congrArg (c :: ·) (ih fun a b hu hb => ?_)
    rw [← hlast]
    exact h (c :: a) b (by rw [hu, List.cons_append]) hb

/-- What a substitution computes is a scan, for an expression that does not match the empty
word. -/
theorem scan_subFrom (hs : ¬ s.value.Accepts []) (prev : Option α) (w : List α) :
    s.Scan prev w (s.subFrom 0 prev w) := by
  induction hn : w.length using Nat.strongRecOn generalizing prev w with
  | _ n ih =>
    subst hn
    cases w with
    | nil => exact .nil
    | cons c w =>
      cases hfind : s.find prev (c :: w) with
      | none =>
        rw [subFrom, hfind]
        exact .copy hfind (ih w.length (Nat.lt_succ_self _) _ _ rfl)
      | some m =>
        obtain ⟨kept, value, rest⟩ := m
        obtain ⟨hlt, prev', hout⟩ := subFrom_of_find hs hfind
        obtain ⟨hw, -, -⟩ := find_eq_some hfind
        rw [hout]
        rw [hw] at hfind ⊢
        exact .hit hfind (ih rest.length hlt _ _ rfl)

/-- What a substitution makes of a text is a scan of it. -/
theorem scan_sub (hs : ¬ s.value.Accepts []) (w : List α) : s.Scan none w (s.sub w) :=
  scan_subFrom hs none w

end Substitution
