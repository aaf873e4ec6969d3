import Mathlib.Data.List.Infix

/-!
# Text in SQL

The operator `LIKE` and the function `substr`. Databases differ in whether `LIKE` distinguishes the
case of letters, so the comparison of characters is a parameter.

## Main definitions

* `SqlText.like` — `text LIKE pattern`.
* `SqlText.substr` — `substr(text, start)`.

## Main results

* `SqlText.like_percent`, `SqlText.like_literal` — a pattern that begins with `%`, and one that
  begins with literal characters.
-/

namespace SqlText

/-- `text LIKE pattern`, where `same` compares a character of the pattern with one of the text. -/
def like (same : Char → Char → Bool) : List Char → List Char → Bool
  | [], text => text.isEmpty
  | a :: pattern, text =>
    if a = '%' then text.tails.any fun rest => like same pattern rest
    else text.head?.any (fun c => a = '_' || same a c) && like same pattern text.tail

/-- `substr(text, start)`, where the first character has position 1. -/
def substr (text : String) (start : ℕ) : String := .ofList (text.toList.drop (start - 1))

/-- The code of a character, where that of a capital ASCII letter is that of the small one. -/
def letterCode (c : Char) : ℕ :=
  if 65 ≤ c.toNat ∧ c.toNat ≤ 90 then c.toNat + 32 else c.toNat

/-- ASCII letters are the same in both cases. -/
def sameLetter (a c : Char) : Bool := letterCode a = letterCode c

variable {same : Char → Char → Bool} {pattern text : List Char}

@[simp] theorem like_nil : like same [] text = true ↔ text = [] := by
  rw [like, List.isEmpty_iff]

/-- `%` stands for any text. -/
theorem like_percent : like same ('%' :: pattern) text = true ↔
    ∃ u v, text = u ++ v ∧ like same pattern v = true := by
  rw [like, if_pos rfl, List.any_eq_true]
  constructor
  · rintro ⟨v, hv, hlike⟩
    obtain ⟨u, rfl⟩ := (List.mem_tails _ _).mp hv
    exact ⟨u, v, rfl, hlike⟩
  · rintro ⟨u, v, rfl, hlike⟩
    exact ⟨v, (List.mem_tails _ _).mpr (List.suffix_append u v), hlike⟩

/-- Characters other than `%` and `_` stand for themselves. -/
theorem like_literal {literal : List Char} (hliteral : ∀ a ∈ literal, a ≠ '%' ∧ a ≠ '_') :
    like same (literal ++ pattern) text = true ↔ ∃ u v, text = u ++ v ∧
      List.Forall₂ (fun a c => same a c = true) literal u ∧ like same pattern v = true := by
  induction literal generalizing text with
  | nil =>
    constructor
    · exact fun hlike => ⟨[], text, rfl, .nil, hlike⟩
    · rintro ⟨u, v, rfl, hforall, hlike⟩
      cases hforall
      exact hlike
  | cons a literal ih =>
    obtain ⟨hpercent, hunderscore⟩ := hliteral a List.mem_cons_self
    rw [List.cons_append, like, if_neg hpercent]
    cases text with
    | nil =>
      refine iff_of_false (by simp) ?_
      rintro ⟨u, v, htext, hforall, -⟩
      obtain ⟨rfl, -⟩ := List.append_eq_nil_iff.mp htext.symm
      cases hforall
    | cons c text =>
      simp only [List.head?_cons, Option.any_some, List.tail_cons, hunderscore, decide_false,
        Bool.false_or, Bool.and_eq_true, ih fun a ha => hliteral a (List.mem_cons_of_mem _ ha)]
      constructor
      · rintro ⟨hsame, u, v, rfl, hforall, hlike⟩
        exact ⟨c :: u, v, rfl, .cons hsame hforall, hlike⟩
      · rintro ⟨u, v, htext, hforall, hlike⟩
        cases hforall with
        | @cons _ c' _ u hsame hforall =>
          obtain ⟨rfl, rfl⟩ := List.cons.inj htext
          exact ⟨hsame, u, v, rfl, hforall, hlike⟩

/-- `literal%` stands for the texts that begin with the literal. -/
theorem like_prefix {literal : List Char} (hliteral : ∀ a ∈ literal, a ≠ '%' ∧ a ≠ '_') :
    like same (literal ++ ['%']) text = true ↔
      ∃ u v, text = u ++ v ∧ List.Forall₂ (fun a c => same a c = true) literal u := by
  simp only [like_literal hliteral, like_percent, like_nil]
  refine exists_congr fun u => exists_congr fun v => and_congr_right fun _ => ?_
  exact and_iff_left ⟨v, [], (List.append_nil v).symm, rfl⟩

/-- `%a%` stands for the texts in which the character occurs. -/
theorem like_contains {a : Char} (ha : a ≠ '%' ∧ a ≠ '_') :
    like same ['%', a, '%'] text = true ↔ ∃ c ∈ text, same a c = true := by
  have hliteral : ∀ v, like same [a, '%'] v = true ↔ ∃ u w, v = u ++ w ∧
      List.Forall₂ (fun a c => same a c = true) [a] u := fun v =>
    like_prefix fun b hb => by rwa [List.mem_singleton.mp hb]
  simp only [like_percent, hliteral]
  constructor
  · rintro ⟨u, _, rfl, v, w, rfl, hforall⟩
    cases hforall with
    | @cons _ c _ _ hsame hnil => exact ⟨c, by simp, hsame⟩
  · rintro ⟨c, hc, hsame⟩
    obtain ⟨u, v, rfl⟩ := List.append_of_mem hc
    exact ⟨u, c :: v, rfl, [c], v, rfl, .cons hsame .nil⟩

/-- A character that is neither a letter nor the code of one is the same only as itself. -/
theorem sameLetter_iff {a c : Char} (ha : a.toNat < 65) : sameLetter a c = true ↔ a = c := by
  rw [sameLetter, decide_eq_true_iff, letterCode, letterCode]
  constructor
  · intro h
    refine Char.toNat_inj.mp ?_
    split_ifs at h <;> omega
  · rintro rfl
    rfl

end SqlText
