import Mathlib.Algebra.Order.Field.Rat
import Mathlib.Data.List.DropRight
import Mathlib.Tactic.FieldSimp
import Mathlib.Tactic.NormNum
import Mathlib.Tactic.Ring

/-!
# Decimal numerals

Numerals with a separator between the thousands, as the format code `,` writes them, and fractions
without trailing zeros.

## Main definitions

* `DecimalText.group` — digits with a separator before every third digit from the right.
* `DecimalText.value?` — the value of a plain numeral.

## Main results

* `DecimalText.group_eq` — the grouped digits are a group of one to three digits, followed by
  groups of three digits, each behind a separator.
* `DecimalText.length_group` — how many separators there are.
* `DecimalText.fractionValue_rdropWhile` — trailing zeros of a fraction do not count.
-/

namespace DecimalText

/-! ### Grouping -/

/-- The grouping of digits in the reverse order. -/
def groupReversed (separator : Char) : List Char → List Char
  | a :: b :: c :: d :: digits => a :: b :: c :: separator :: groupReversed separator (d :: digits)
  | digits => digits

/-- Digits with a separator before every third digit from the right. -/
def group (separator : Char) (digits : List Char) : List Char :=
  (groupReversed separator digits.reverse).reverse

example : group ',' "1234567".toList = "1,234,567".toList := by decide

variable {separator : Char} {digits : List Char}

private theorem length_le_three
    (h : ∀ (a b c d : Char) (rest : List Char), digits = a :: b :: c :: d :: rest → False) :
    digits.length ≤ 3 := by
  match digits with
  | [] | [_] | [_, _] | [_, _, _] => simp
  | a :: b :: c :: d :: rest => exact (h a b c d rest rfl).elim

private theorem groupReversed_of_length_le (separator : Char) (h : digits.length ≤ 3) :
    groupReversed separator digits = digits := by
  match digits with
  | [] | [_] | [_, _] | [_, _, _] => rfl
  | a :: b :: c :: d :: rest =>
    simp only [List.length_cons] at h
    omega

private theorem map_groupReversed (f : Char → Char) (separator : Char) (digits : List Char) :
    (groupReversed separator digits).map f = groupReversed (f separator) (digits.map f) := by
  induction digits using groupReversed.induct with
  | case1 a b c d digits ih => simp [groupReversed, ih]
  | case2 digits h =>
    have hlength := length_le_three h
    rw [groupReversed_of_length_le _ hlength, groupReversed_of_length_le _ (by simpa using hlength)]

private theorem length_groupReversed (separator : Char) (h : digits ≠ []) :
    (groupReversed separator digits).length = digits.length + (digits.length - 1) / 3 := by
  induction digits using groupReversed.induct with
  | case1 a b c d digits ih =>
    have hlength := ih (by simp)
    simp only [groupReversed, List.length_cons] at hlength ⊢
    omega
  | case2 digits hshort =>
    have hlength := length_le_three hshort
    have hpos := List.length_pos_iff.mpr h
    rw [groupReversed_of_length_le _ hlength]
    omega

private theorem groupReversed_eq (separator : Char) (h : digits ≠ []) :
    ∃ (groups : List (List Char)) (last : List Char),
      groupReversed separator digits = (groups.flatMap fun g => g ++ [separator]) ++ last ∧
        groups.flatten ++ last = digits ∧ (∀ g ∈ groups, g.length = 3) ∧ last ≠ [] ∧
        last.length ≤ 3 := by
  induction digits using groupReversed.induct with
  | case1 a b c d digits ih =>
    obtain ⟨groups, last, hgroup, hdigits, hgroups, hlast, hlength⟩ := ih (by simp)
    refine ⟨[a, b, c] :: groups, last, ?_, ?_, ?_, hlast, hlength⟩
    · simp [groupReversed, hgroup]
    · simp [hdigits]
    · simpa using hgroups
  | case2 digits hshort =>
    have hlength := length_le_three hshort
    exact ⟨[], digits, groupReversed_of_length_le _ hlength, rfl, by simp, h, hlength⟩

/-- A character by character replacement replaces the separator. -/
theorem map_group (f : Char → Char) (separator : Char) (digits : List Char) :
    (group separator digits).map f = group (f separator) (digits.map f) := by
  rw [group, group, List.map_reverse, map_groupReversed, List.map_reverse]

theorem length_group (separator : Char) (h : digits ≠ []) :
    (group separator digits).length = digits.length + (digits.length - 1) / 3 := by
  rw [group, List.length_reverse, length_groupReversed separator (by simpa using h),
    List.length_reverse]

/-- Grouped digits start with one to three digits; each separator is followed by three digits. -/
theorem group_eq (separator : Char) (h : digits ≠ []) :
    ∃ (first : List Char) (groups : List (List Char)),
      group separator digits = first ++ groups.flatMap (fun g => separator :: g) ∧
        first ++ groups.flatten = digits ∧ first ≠ [] ∧ first.length ≤ 3 ∧
        ∀ g ∈ groups, g.length = 3 := by
  obtain ⟨groups, last, hgroup, hdigits, hgroups, hlast, hlength⟩ :=
    groupReversed_eq separator (show digits.reverse ≠ [] by simpa using h)
  refine ⟨last.reverse, (groups.map List.reverse).reverse, ?_, ?_, by simpa using hlast,
    by simpa using hlength, ?_⟩
  · rw [group, hgroup, List.reverse_append, List.reverse_flatMap]
    congr 1
    rw [← List.map_reverse, List.flatMap_map]
    simp [Function.comp_def]
  · rw [← List.reverse_reverse digits, ← hdigits, List.reverse_append, List.reverse_flatten]
  · intro g hg
    have hlength := hgroups g.reverse (by simpa using hg)
    rwa [List.length_reverse] at hlength

theorem mem_group {c : Char} (h : c ∈ group separator digits) : c = separator ∨ c ∈ digits := by
  by_cases hempty : digits = []
  · subst hempty
    cases h
  · obtain ⟨first, groups, hgroup, hdigits, -⟩ := group_eq separator hempty
    rw [hgroup, List.mem_append, List.mem_flatMap] at h
    rw [← hdigits, List.mem_append, List.mem_flatten]
    rcases h with hfirst | ⟨g, hg, hc⟩
    · exact .inr (.inl hfirst)
    · exact (List.mem_cons.mp hc).imp id fun hc => .inr ⟨g, hg, hc⟩

/-! ### Values -/

/-- The value of the digits behind the decimal point. -/
def fractionValue (digits : List Char) : ℚ :=
  (Nat.ofDigitChars 10 digits 0 : ℚ) / 10 ^ digits.length

/-- The value of a numeral of digits, with an optional decimal point and digits behind it. -/
def value? (numeral : List Char) : Option ℚ :=
  let whole := numeral.takeWhile Char.isDigit
  if whole = [] then none
  else
    match numeral.dropWhile Char.isDigit with
    | [] => some (Nat.ofDigitChars 10 whole 0)
    | point :: fraction =>
      if point = '.' ∧ fraction ≠ [] ∧ fraction.all Char.isDigit = true then
        some (Nat.ofDigitChars 10 whole 0 + fractionValue fraction)
      else none

/-- The text behind the whole part of a numeral: nothing for an empty fraction. -/
def fractionText (fraction : List Char) : List Char :=
  if fraction = [] then [] else '.' :: fraction

theorem value?_append {whole fraction : List Char} (hwhole : ∀ c ∈ whole, c.isDigit = true)
    (hne : whole ≠ []) (hfraction : ∀ c ∈ fraction, c.isDigit = true) :
    value? (whole ++ fractionText fraction) =
      some (Nat.ofDigitChars 10 whole 0 + fractionValue fraction) := by
  have hpoint : ¬ '.'.isDigit = true := by decide
  by_cases hempty : fraction = []
  · subst hempty
    have htake : whole.takeWhile Char.isDigit = whole := List.takeWhile_eq_self_iff.mpr hwhole
    have hdrop : whole.dropWhile Char.isDigit = [] := List.dropWhile_eq_nil_iff.mpr hwhole
    simp [value?, fractionText, htake, hdrop, hne, fractionValue]
  · have htake : (whole ++ '.' :: fraction).takeWhile Char.isDigit = whole := by
      rw [List.takeWhile_append_of_pos hwhole, List.takeWhile_cons_of_neg hpoint, List.append_nil]
    have hdrop : (whole ++ '.' :: fraction).dropWhile Char.isDigit = '.' :: fraction := by
      rw [List.dropWhile_append_of_pos hwhole, List.dropWhile_cons_of_neg hpoint]
    have hall : fraction.all Char.isDigit = true := List.all_eq_true.mpr hfraction
    simp [value?, fractionText, htake, hdrop, hne, hempty, hall]

theorem fractionValue_append_zero (digits : List Char) :
    fractionValue (digits ++ ['0']) = fractionValue digits := by
  rw [fractionValue, fractionValue, Nat.ofDigitChars_append]
  simp only [Nat.ofDigitChars_cons, Nat.ofDigitChars_nil, Nat.sub_self, List.length_append,
    List.length_singleton, pow_succ, Nat.add_zero]
  push_cast
  field_simp

/-- Trailing zeros of a fraction do not count. -/
theorem fractionValue_rdropWhile (digits : List Char) :
    fractionValue (digits.rdropWhile (· == '0')) = fractionValue digits := by
  induction digits using List.reverseRecOn with
  | nil => rfl
  | append_singleton digits c ih =>
    by_cases hc : c = '0'
    · subst hc
      rw [List.rdropWhile_concat_pos _ _ _ (by simp), ih, fractionValue_append_zero]
    · rw [List.rdropWhile_concat_neg _ _ _ (by simpa using hc)]

end DecimalText
