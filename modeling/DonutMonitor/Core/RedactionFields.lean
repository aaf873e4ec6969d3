import DonutMonitor.Core.Redaction
import Mathlib.Data.List.Infix

/-!
# Fields whose value is redacted

`_AUTH_PATTERN` and `_TOKEN_FIELD_PATTERN` look for a *field*, a key word with a separator after
it, and put the mark `[REDACTED]` in the place of the value that follows.  A text in which every
field is followed by the mark and no more is *masked*.

## Main definitions

* `IsField`, `Masked` — a field of some key words, and a masked text.
* `MasksFields` — a substitution that redacts the values of the fields of some key words.

## Main results

* `MasksFields.masked` — what such a substitution makes of a text is masked.
* `MasksFields.masked_of_masked` — it keeps texts masked for other key words.
* `MasksFields.eq_self` — it leaves a masked text as it is.
* `MasksFields.reflects` — a word of the result that the mark cannot hold stands in the text, with
  the same character before it.
-/

namespace DonutMonitor

/-! ### Characters -/

/-- The characters of a separator besides its assignment. -/
def isGap (c : Char) : Bool := isSpace c || isQuote c

private theorem letter_toNat {c : Char} (h : (foldCase c).isLower = true) :
    (65 ≤ c.toNat ∧ c.toNat ≤ 90) ∨ (97 ≤ c.toNat ∧ c.toNat ≤ 122) ∨ c.toNat = 0x130 ∨
      c.toNat = 0x131 ∨ c.toNat = 0x17f ∨ c.toNat = 0x212a := by
  by_cases h₁ : c = '\u0130' ∨ c = '\u0131'
  · rcases h₁ with rfl | rfl <;> decide
  by_cases h₂ : c = '\u017f'
  · subst h₂
    decide
  by_cases h₃ : c = '\u212a'
  · subst h₃
    decide
  rw [foldCase, if_neg h₁, if_neg h₂, if_neg h₃] at h
  by_cases hupper : c.val ≥ 'A'.val ∧ c.val ≤ 'Z'.val
  · exact .inl ⟨UInt32.le_iff_toNat_le.mp hupper.1, UInt32.le_iff_toNat_le.mp hupper.2⟩
  · have hsame : c.toLower = c := dif_neg hupper
    rw [hsame] at h
    obtain ⟨hlow, hhigh⟩ := Bool.and_eq_true_iff.mp h
    exact .inr (.inl ⟨UInt32.le_iff_toNat_le.mp (of_decide_eq_true hlow),
      UInt32.le_iff_toNat_le.mp (of_decide_eq_true hhigh)⟩)

/-- The characters that match the letter `b` are alphanumeric. -/
theorem isAlphanum_of_foldCase {c : Char} (h : foldCase c = 'b') : c.isAlphanum = true := by
  by_cases hspecial : c = '\u0130' ∨ c = '\u0131' ∨ c = '\u017f' ∨ c = '\u212a'
  · rcases hspecial with rfl | rfl | rfl | rfl <;> cases h
  obtain ⟨h₁, h₂, h₃, h₄⟩ : c ≠ '\u0130' ∧ c ≠ '\u0131' ∧ c ≠ '\u017f' ∧ c ≠ '\u212a' := by
    simpa only [not_or] using hspecial
  rw [foldCase, if_neg (not_or.mpr ⟨h₁, h₂⟩), if_neg h₃, if_neg h₄] at h
  by_cases hupper : c.val ≥ 'A'.val ∧ c.val ≤ 'Z'.val
  · have hletter : c.isUpper = true := decide_eq_true hupper
    have halphanum : (c.isUpper || c.isLower || c.isDigit) = true := by
      rw [hletter, Bool.true_or, Bool.true_or]
    exact halphanum
  · have hsame : c.toLower = c := dif_neg hupper
    rw [hsame] at h
    rw [h]
    decide

theorem isGap_of_letter {c : Char} (h : (foldCase c).isLower = true) :
    isGap c = false := by
  have hc := letter_toNat h
  have hspace : isSpace c = false := by
    simp only [isSpace, Bool.or_eq_false_iff, Bool.and_eq_false_iff, decide_eq_false_iff_not,
      beq_eq_false_iff_ne]
    omega
  have hquote : isQuote c = false := by
    rw [isQuote, Bool.or_eq_false_iff, decide_eq_false_iff_not, decide_eq_false_iff_not]
    refine ⟨?_, ?_⟩
    · rintro rfl
      revert hc
      decide
    · rintro rfl
      revert hc
      decide
  rw [isGap, hspace, hquote]
  rfl

theorem isSecret_of_letter {c : Char} (h : (foldCase c).isLower = true) : isSecret c = true := by
  have hgap := isGap_of_letter h
  obtain ⟨hspace, hquote⟩ := Bool.or_eq_false_iff.mp hgap
  have hother : ∀ d : Char, (foldCase d).isLower = false → c ≠ d := by
    rintro d hd rfl
    cases h.symm.trans hd
  simp [isSecret, hspace, hquote, hother ',' (by decide), hother '}' (by decide)]

theorem isSecret_of_isGap {c : Char} (h : isGap c = true) : isSecret c = false := by
  rw [isGap, Bool.or_eq_true] at h
  rcases h with h | h <;> simp [isSecret, h]

theorem isSecret_of_isAssign {c : Char} (h : isAssign c = true) : isSecret c = true := by
  rw [isAssign, Bool.or_eq_true, decide_eq_true_eq, decide_eq_true_eq] at h
  rcases h with rfl | rfl <;> decide

/-- The characters of a separator are no letters. -/
theorem not_letter_of_separator {c : Char} (h : isGap c = true ∨ isAssign c = true) :
    (foldCase c).isLower = false := by
  rcases h with h | h
  · rw [← Bool.not_eq_true]
    intro hletter
    rw [isGap_of_letter hletter] at h
    cases h
  · rw [isAssign, Bool.or_eq_true, decide_eq_true_eq, decide_eq_true_eq] at h
    rcases h with rfl | rfl <;> decide

/-! ### Separators and fields -/

/-- A separator has one assignment. -/
theorem separator_accepts {t : List Char} (h : separator.Accepts t) :
    ∃ u c v, t = u ++ c :: v ∧ isAssign c = true ∧ (∀ d ∈ u, isGap d = true) ∧
      ∀ d ∈ v, isGap d = true := by
  have hquote {u : List Char} (h : (Regex.optional (.set isQuote)).Accepts u) :
      ∀ d ∈ u, isGap d = true := by
    rcases Regex.accepts_optional.mp h with ⟨c, hc, rfl⟩ | rfl
    · simpa [isGap] using .inr hc
    · exact List.forall_mem_nil _
  have hspace {u : List Char} (h : (Regex.run isSpace).Accepts u) : ∀ d ∈ u, isGap d = true :=
    fun d hd => Bool.or_eq_true_iff.mpr (.inl (h d hd))
  obtain ⟨q, _, rfl, hq, w, _, rfl, hw, _, _, rfl, ⟨c, hc, rfl⟩, w', q', rfl, hw', hq'⟩ := h
  refine ⟨q ++ w, c, w' ++ q', by simp, hc, ?_, ?_⟩
  · exact List.forall_mem_append.mpr ⟨hquote hq, hspace hw⟩
  · exact List.forall_mem_append.mpr ⟨hspace hw', hquote hq'⟩

/-- No letter stands in a separator. -/
theorem not_letter_of_mem_separator {t : List Char} (h : separator.Accepts t) {c : Char}
    (hc : c ∈ t) : (foldCase c).isLower = false := by
  obtain ⟨u, a, v, rfl, ha, hu, hv⟩ := separator_accepts h
  rcases List.mem_append.mp hc with hc | hc
  · exact not_letter_of_separator (.inl (hu c hc))
  · rcases List.mem_cons.mp hc with rfl | hc
    · exact not_letter_of_separator (.inr ha)
    · exact not_letter_of_separator (.inl (hv c hc))

/-- A field: one of the key words in any case, with a separator after it. -/
def IsField (keys : List (List Char)) (u : List Char) : Prop :=
  ∃ k t, u = k ++ t ∧ k.map foldCase ∈ keys ∧ separator.Accepts t

/-- The text does not begin with a character of a secret. -/
def Ends (w : List Char) : Prop := ∀ c ∈ w.head?, isSecret c = false

/-- The value of each field of the text is the mark. -/
def Masked (keys : List (List Char)) (w : List Char) : Prop :=
  ∀ u field c v, w = u ++ (field ++ c :: v) → IsField keys field → isSecret c = true →
    ∃ rest, c :: v = redacted ++ rest ∧ Ends rest

/-- Key words none of which begins another one or stands within one. -/
structure KeyWords (keys : List (List Char)) : Prop where
  lower : ∀ key ∈ keys, ∀ c ∈ key, c.isLower = true
  ne_nil : ∀ key ∈ keys, key ≠ []
  prefixFree : ∀ key ∈ keys, ∀ key' ∈ keys, key <+: key' → key = key'
  unbordered : ∀ key ∈ keys, ∀ key' ∈ keys, ∀ v ∈ key'.tail.tails, ¬ key <+: v

/-- `authorization`. -/
def authKeys : List (List Char) := ["authorization".toList]

/-- `token`, `secret` and `password`. -/
def tokenKeys : List (List Char) := ["token".toList, "secret".toList, "password".toList]

/-- A property of the characters of a closed text is decided character by character. -/
theorem forall_mem_of_all {p : Char → Prop} [DecidablePred p] {w : List Char}
    (h : w.all (fun c => p c) = true) : ∀ c ∈ w, p c := by
  simpa using h

theorem keyWords_authKeys : KeyWords authKeys where
  lower := fun key hkey => forall_mem_of_all (by revert key; decide)
  ne_nil := by decide
  prefixFree := by decide
  unbordered := by decide

theorem keyWords_tokenKeys : KeyWords tokenKeys where
  lower := fun key hkey => forall_mem_of_all (by revert key; decide)
  ne_nil := by decide
  prefixFree := by decide
  unbordered := by decide

namespace IsField

variable {keys : List (List Char)} {field field' : List Char}

/-- A field has letters, gaps and assignments only. -/
theorem of_mem (hkeys : KeyWords keys) (h : IsField keys field) {c : Char} (hc : c ∈ field) :
    (foldCase c).isLower = true ∨ isGap c = true ∨ isAssign c = true := by
  obtain ⟨k, t, rfl, hk, ht⟩ := h
  rcases List.mem_append.mp hc with hc | hc
  · exact .inl (hkeys.lower _ hk _ (List.mem_map_of_mem hc))
  · obtain ⟨u, a, v, rfl, ha, hu, hv⟩ := separator_accepts ht
    rcases List.mem_append.mp hc with hc | hc
    · exact .inr (.inl (hu c hc))
    · rcases List.mem_cons.mp hc with rfl | hc
      · exact .inr (.inr ha)
      · exact .inr (.inl (hv c hc))

theorem exists_isAssign (h : IsField keys field) : ∃ c ∈ field, isAssign c = true := by
  obtain ⟨k, t, rfl, -, ht⟩ := h
  obtain ⟨u, a, v, rfl, ha, -, -⟩ := separator_accepts ht
  exact ⟨a, by simp, ha⟩

/-- A field begins with a letter. -/
theorem exists_cons (hkeys : KeyWords keys) (h : IsField keys field) :
    ∃ c v, field = c :: v ∧ (foldCase c).isLower = true := by
  obtain ⟨k, t, rfl, hk, -⟩ := h
  cases k with
  | nil => exact absurd rfl (hkeys.ne_nil _ hk)
  | cons c k => exact ⟨c, k ++ t, rfl, hkeys.lower _ hk _ List.mem_cons_self⟩

private theorem separator_count {t : List Char} (h : separator.Accepts t) :
    t.countP isSecret = 1 := by
  obtain ⟨u, a, v, rfl, ha, hu, hv⟩ := separator_accepts h
  have hgaps {w : List Char} (hw : ∀ d ∈ w, isGap d = true) : w.countP isSecret = 0 :=
    List.countP_eq_zero.mpr fun d hd => Bool.eq_false_iff.mp (isSecret_of_isGap (hw d hd))
  rw [List.countP_append, List.countP_cons_of_pos (isSecret_of_isAssign ha), hgaps hu, hgaps hv]

/-- The separator before a secret is as long as it can be. -/
private theorem separator_eq {t t' v v' : List Char} {c c' : Char} (h : separator.Accepts t)
    (h' : separator.Accepts t') (hc : isSecret c = true) (hc' : isSecret c' = true)
    (heq : t ++ c :: v = t' ++ c' :: v') : t = t' := by
  have hlonger {t t' a : List Char} {c : Char} (h : separator.Accepts t)
      (h' : separator.Accepts t') (hc : isSecret c = true) (ht : t' = t ++ c :: a) : False := by
    have hcount := separator_count h'
    rw [ht, List.countP_append, separator_count h, List.countP_cons_of_pos hc] at hcount
    omega
  rcases List.append_eq_append_iff.mp heq with ⟨a, ht, ha⟩ | ⟨a, ht, ha⟩
  · cases a with
    | nil => rw [ht, List.append_nil]
    | cons d a =>
      obtain ⟨rfl, -⟩ := List.cons.inj ha
      exact (hlonger h h' hc ht).elim
  · cases a with
    | nil => rw [ht, List.append_nil]
    | cons d a =>
      obtain ⟨rfl, -⟩ := List.cons.inj ha
      exact (hlonger h' h hc' ht).elim

/-- Two fields at one place, each before a secret, are one. -/
theorem eq_of_append (hkeys : KeyWords keys) (h : IsField keys field) (h' : IsField keys field')
    {c c' : Char} {v v' : List Char} (hc : isSecret c = true) (hc' : isSecret c' = true)
    (heq : field ++ c :: v = field' ++ c' :: v') : field = field' := by
  obtain ⟨k, t, rfl, hk, ht⟩ := h
  obtain ⟨k', t', rfl, hk', ht'⟩ := h'
  have hsame : k = k' := by
    rw [List.append_assoc, List.append_assoc] at heq
    rcases List.append_eq_append_iff.mp heq with ⟨a, ha, -⟩ | ⟨a, ha, -⟩
    · have hbegin := hkeys.prefixFree _ hk _ hk' ⟨a.map foldCase, by rw [ha, List.map_append]⟩
      have hlength := congrArg List.length hbegin
      rw [List.length_map, List.length_map, ha, List.length_append] at hlength
      rw [ha, List.eq_nil_of_length_eq_zero (by omega : a.length = 0), List.append_nil]
    · have hbegin := hkeys.prefixFree _ hk' _ hk ⟨a.map foldCase, by rw [ha, List.map_append]⟩
      have hlength := congrArg List.length hbegin
      rw [List.length_map, List.length_map, ha, List.length_append] at hlength
      rw [ha, List.eq_nil_of_length_eq_zero (by omega : a.length = 0), List.append_nil]
  subst hsame
  rw [List.append_assoc, List.append_assoc, List.append_cancel_left_eq] at heq
  rw [separator_eq ht ht' hc hc' heq]

/-- No rest of a separator begins with a letter. -/
private theorem separator_not_cons {t u v w w' : List Char} {c : Char} (h : separator.Accepts t)
    (ht : t = u ++ v) (hv : v ≠ []) (hc : (foldCase c).isLower = true) : v ++ w ≠ c :: w' := by
  intro heq
  obtain ⟨d, v, rfl⟩ := List.exists_cons_of_ne_nil hv
  obtain ⟨rfl, -⟩ := List.cons.inj heq
  cases hc.symm.trans (not_letter_of_mem_separator h (c := d) (by simp [ht]))

/-- No field begins within another one. -/
theorem not_within (hkeys : KeyWords keys) (h : IsField keys field) {u v w w' : List Char}
    (h' : IsField keys (u ++ v)) (hu : u ≠ []) (hv : v ≠ []) : v ++ w ≠ field ++ w' := by
  intro heq
  obtain ⟨k, t, rfl, hk, -⟩ := h
  obtain ⟨k', t', hfield, hk', ht'⟩ := h'
  have hletters : ∀ c ∈ k, (foldCase c).isLower = true := fun c hc =>
    hkeys.lower _ hk _ (List.mem_map_of_mem hc)
  rw [List.append_assoc] at heq
  rcases List.append_eq_append_iff.mp hfield with ⟨a, rfl, rfl⟩ | ⟨a, rfl, htail⟩
  · -- It would begin within the key word.
    have hborder : ¬ k <+: a := by
      intro hbegin
      refine hkeys.unbordered _ hk _ hk' _ ?_ (hbegin.map foldCase)
      obtain ⟨c, u, rfl⟩ := List.exists_cons_of_ne_nil hu
      rw [List.mem_tails]
      exact ⟨u.map foldCase, by simp⟩
    rw [List.append_assoc] at heq
    rcases List.append_eq_append_iff.mp heq with ⟨b, rfl, hb⟩ | ⟨b, rfl, -⟩
    · cases b with
      | nil => exact hborder (by simp)
      | cons c b =>
        have hc := hletters c (List.mem_append_right _ List.mem_cons_self)
        obtain ⟨x, d, y, rfl, -⟩ := separator_accepts ht'
        exact separator_not_cons (u := []) ht' rfl (by simp) hc hb
    · exact hborder (List.prefix_append _ _)
  · -- It would begin within the separator.
    obtain ⟨c, k, rfl⟩ := List.exists_cons_of_ne_nil fun hnil : k = [] =>
      hkeys.ne_nil _ hk (List.map_eq_nil_iff.mpr hnil)
    exact separator_not_cons ht' htail hv (hletters c List.mem_cons_self) heq

end IsField

/-! ### Words that a mark cannot hold -/

/-- A word with a character that the mark has not, and without its brackets. -/
structure Outside (mark word : List Char) : Prop where
  opening : '[' ∉ word
  closing : ']' ∉ word
  exists_not_mem : ∃ c ∈ word, c ∉ mark

/-- Such a word does not begin within the mark. -/
theorem Outside.not_within {mark word u v w w' : List Char} (h : Outside mark word)
    (hmark : mark.getLast? = some ']') (heq : mark = u ++ v) (hv : v ≠ []) :
    v ++ w ≠ word ++ w' := by
  intro hword
  have hlast : ']' ∈ v := by
    rw [heq, List.getLast?_append, List.getLast?_eq_some_getLast hv, Option.some_or] at hmark
    exact Option.some.inj hmark ▸ List.getLast_mem hv
  rcases List.append_eq_append_iff.mp hword with ⟨a, rfl, -⟩ | ⟨a, rfl, -⟩
  · exact h.closing (List.mem_append_left _ hlast)
  · obtain ⟨c, hc, hnot⟩ := h.exists_not_mem
    exact hnot (heq ▸ List.mem_append_right _ (List.mem_append_left _ hc))

theorem redacted_getLast? : redacted.getLast? = some ']' := by decide

/-- A field stands outside of every mark without an assignment. -/
theorem IsField.outside {keys : List (List Char)} {field mark : List Char} (hkeys : KeyWords keys)
    (h : IsField keys field) (hmark : ∀ c ∈ mark, isAssign c = false) : Outside mark field := by
  have hbracket (c : Char) (hc : (foldCase c).isLower = false) (hgap : isGap c = false)
      (hassign : isAssign c = false) : c ∉ field := by
    intro hmem
    rcases h.of_mem hkeys hmem with h | h | h
    · cases h.symm.trans hc
    · cases h.symm.trans hgap
    · cases h.symm.trans hassign
  refine ⟨hbracket '[' (by decide) (by decide) (by decide),
    hbracket ']' (by decide) (by decide) (by decide), ?_⟩
  obtain ⟨c, hc, hassign⟩ := h.exists_isAssign
  exact ⟨c, hc, fun hmem => by cases hassign.symm.trans (hmark c hmem)⟩

theorem isAssign_of_mem_redacted : ∀ c ∈ redacted, isAssign c = false :=
  forall_mem_of_all (by decide)

/-- Where a text that begins before a mark can be cut. -/
theorem append_mark_cases {x mark out u rest : List Char}
    (h : x ++ (mark ++ out) = u ++ rest) :
    (∃ v, v ≠ [] ∧ x = u ++ v ∧ rest = v ++ (mark ++ out)) ∨
      (∃ y z, z ≠ [] ∧ mark = y ++ z ∧ u = x ++ y ∧ rest = z ++ out) ∨
        ∃ u', u = x ++ (mark ++ u') ∧ out = u' ++ rest := by
  have hmark {a : List Char} (hu : u = x ++ a) (ha : mark ++ out = a ++ rest) :
      (∃ y z, z ≠ [] ∧ mark = y ++ z ∧ u = x ++ y ∧ rest = z ++ out) ∨
        ∃ u', u = x ++ (mark ++ u') ∧ out = u' ++ rest := by
    rcases List.append_eq_append_iff.mp ha with ⟨b, rfl, hout⟩ | ⟨b, hb, hrest⟩
    · exact .inr ⟨b, hu, hout⟩
    · by_cases hnil : b = []
      · subst hnil
        exact .inr ⟨[], by rw [hu, hb, List.append_nil, List.append_nil], hrest.symm⟩
      · exact .inl ⟨a, b, hnil, hb, hu, hrest⟩
  rcases List.append_eq_append_iff.mp h with ⟨a, hu, ha⟩ | ⟨a, hx, ha⟩
  · exact .inr (hmark hu ha)
  · by_cases hnil : a = []
    · subst hnil
      exact .inr (hmark (a := []) (by rw [hx, List.append_nil, List.append_nil]) ha.symm)
    · exact .inl ⟨a, hnil, hx, ha⟩

/-- A word without brackets does not reach into a mark. -/
theorem append_redacted {v out word r : List Char}
    (h : v ++ (redacted ++ out) = word ++ r) (hword : '[' ∉ word) :
    ∃ a, v = word ++ a ∧ r = a ++ (redacted ++ out) := by
  rcases List.append_eq_append_iff.mp h with ⟨a, rfl, ha⟩ | ⟨a, rfl, rfl⟩
  · cases a with
    | nil => exact ⟨[], by rw [List.append_nil, List.append_nil], ha.symm⟩
    | cons d a =>
      obtain ⟨rfl, -⟩ := List.cons.inj ha
      exact absurd (List.mem_append_right _ List.mem_cons_self) hword
  · exact ⟨a, rfl, rfl⟩

/-! ### Substitutions that redact the values of fields -/

/-- The substitution replaces the values of the fields of the key words by the mark. -/
structure MasksFields (s : Substitution Char) (keys : List (List Char)) : Prop where
  keyWords : KeyWords keys
  anchor : ∀ before after, s.anchor before after = true
  kept : ∀ u, s.kept.Accepts u ↔ IsField keys u
  value_cons : ∀ u, s.value.Accepts u → ∃ c v, u = c :: v ∧ isSecret c = true
  value_singleton : ∀ c, isSecret c = true → s.value.Accepts [c]
  value_bracket : ∀ u, s.value.Accepts ('[' :: u) → ∀ c ∈ u, isSecret c = true
  endsRun : Regex.EndsRun isSecret s.value
  replace : ∀ u, s.replace u = u ++ redacted

private theorem accepts_field {keys : List (List Char)} {r : Regex Char}
    (hr : ∀ k, r.Accepts k ↔ k.map foldCase ∈ keys) (u : List Char) :
    (Regex.seq r separator).Accepts u ↔ IsField keys u :=
  exists_congr fun k => exists_congr fun _ => and_congr_right' (and_congr_left' (hr k))

/-- `_TOKEN_FIELD_PATTERN` redacts the fields `token`, `secret` and `password`. -/
theorem tokenFieldPattern_masksFields : MasksFields tokenFieldPattern tokenKeys where
  keyWords := keyWords_tokenKeys
  anchor _ _ := rfl
  kept := accepts_field fun k => by
    simp only [Regex.Accepts, Regex.accepts_word, tokenKeys, List.mem_cons, List.not_mem_nil,
      or_false]
  value_cons u h := (Regex.accepts_run1.mp h).imp fun _ => Exists.imp fun _ h => ⟨h.1, h.2.1⟩
  value_singleton c hc := Regex.accepts_run1.mpr ⟨c, [], rfl, hc, List.forall_mem_nil _⟩
  value_bracket u h := by
    obtain ⟨c, v, heq, -, hv⟩ := Regex.accepts_run1.mp h
    obtain ⟨-, rfl⟩ := List.cons.inj heq
    exact hv
  endsRun := .run1 _
  replace _ := rfl

/-- A word that begins with `bearer` begins with a letter `b`. -/
theorem bearer_cons {u : List Char} (h : bearer.Accepts u) :
    ∃ c v, u = c :: v ∧ foldCase c = 'b' := by
  obtain ⟨k, w, rfl, hk, -⟩ := h
  obtain ⟨c, k, rfl, hc, -⟩ := List.map_eq_cons_iff.mp (Regex.accepts_word.mp hk)
  exact ⟨c, k ++ w, rfl, hc⟩

/-- `_AUTH_PATTERN` redacts the field `authorization`. -/
theorem authPattern_masksFields : MasksFields authPattern authKeys where
  keyWords := keyWords_authKeys
  anchor _ _ := rfl
  kept := accepts_field fun k => by
    simp only [Regex.accepts_word, authKeys, List.mem_singleton]
  value_cons u h := by
    obtain ⟨b, r, rfl, hb, hr⟩ := h
    obtain ⟨c, v, rfl, hc, -⟩ := Regex.accepts_run1.mp hr
    rcases Regex.accepts_optional.mp hb with hb | rfl
    · obtain ⟨d, b, rfl, hd⟩ := bearer_cons hb
      exact ⟨d, _, rfl, isSecret_of_letter (by rw [hd]; decide)⟩
    · exact ⟨c, v, rfl, hc⟩
  value_singleton c hc := ⟨[], [c], rfl, .inr rfl,
    Regex.accepts_run1.mpr ⟨c, [], rfl, hc, List.forall_mem_nil _⟩⟩
  value_bracket u h := by
    obtain ⟨b, r, heq, hb, hr⟩ := h
    rcases Regex.accepts_optional.mp hb with hb | rfl
    · obtain ⟨d, b, rfl, hd⟩ := bearer_cons hb
      obtain ⟨rfl, -⟩ := List.cons.inj heq
      exact absurd hd (by decide)
    · obtain ⟨c, v, rfl, -, hv⟩ := Regex.accepts_run1.mp hr
      obtain ⟨-, rfl⟩ := List.cons.inj heq
      exact hv
  endsRun := (Regex.EndsRun.run1 _).seq _
  replace _ := rfl

namespace MasksFields

variable {s : Substitution Char} {keys keys' : List (List Char)} {prev : Option Char}
  {w out : List Char}

theorem value_ne_nil (hs : MasksFields s keys) : ¬ s.value.Accepts [] := by
  intro h
  obtain ⟨c, v, hcons, -⟩ := hs.value_cons [] h
  cases hcons

/-- Where a field stands before a secret, there is a match. -/
theorem find_ne_none (hs : MasksFields s keys) {field v : List Char} {c : Char}
    (h : IsField keys field) (hc : isSecret c = true) :
    s.find prev (field ++ c :: v) ≠ none :=
  Substitution.find_ne_none (hs.anchor _ _)
    (by rw [List.append_assoc, List.singleton_append] : field ++ c :: v = field ++ [c] ++ v)
    ((hs.kept field).mpr h) (hs.value_singleton c hc)

/-- A match is a field with a secret after it. -/
theorem of_find (hs : MasksFields s keys) {field value rest : List Char}
    (h : s.find prev w = some (field, value, rest)) :
    IsField keys field ∧ (∃ c v, value = c :: v ∧ isSecret c = true) ∧ Ends rest := by
  obtain ⟨-, hfield, hvalue⟩ := Substitution.find_eq_some h
  exact ⟨(hs.kept _).mp hfield, hs.value_cons _ hvalue, Substitution.find_endsRun hs.endsRun h⟩

/-- The result begins with the character that the text begins with. -/
theorem head?_eq (hs : MasksFields s keys) (h : s.Scan prev w out) : out.head? = w.head? := by
  cases h with
  | nil => rfl
  | copy => rfl
  | hit hfind =>
    obtain ⟨c, v, rfl, -⟩ := (hs.of_find hfind).1.exists_cons hs.keyWords
    rw [hs.replace]
    rfl

theorem ends (hs : MasksFields s keys) (h : s.Scan prev w out) (hw : Ends w) : Ends out := by
  rwa [Ends, hs.head?_eq h]

private theorem takeWhile_isSecret {u v : List Char} (hu : ∀ c ∈ u, isSecret c = true)
    (hv : Ends v) : (u ++ v).takeWhile isSecret = u := by
  rw [List.takeWhile_append_of_pos hu]
  cases v with
  | nil => rw [List.takeWhile_nil, List.append_nil]
  | cons c v =>
    rw [List.takeWhile_cons_of_neg (Bool.eq_false_iff.mp (hv c rfl)), List.append_nil]

/-- A masked text is left as it is. -/
theorem eq_self (hs : MasksFields s keys) (h : s.Scan prev w out) (hw : Masked keys w) :
    out = w := by
  induction h with
  | nil => rfl
  | @copy _ c w out hfind hscan ih =>
    exact congrArg (c :: ·) (ih fun u field d v heq => hw (c :: u) field d v (by simp [heq]))
  | @hit prev prev' field value rest out hfind hscan ih =>
    obtain ⟨-, -, hvalue⟩ := Substitution.find_eq_some hfind
    obtain ⟨hfield, ⟨c, v, rfl, hc⟩, hends⟩ := hs.of_find hfind
    obtain ⟨rest', hmark, hends'⟩ := hw [] field c (v ++ rest) (by simp) hfield hc
    have hvalue' : ∀ d ∈ c :: v, isSecret d = true := by
      obtain ⟨rfl, -⟩ := List.cons.inj hmark
      exact List.forall_mem_cons.mpr ⟨hc, hs.value_bracket v hvalue⟩
    have hsame : c :: v = redacted := by
      have hredacted : ∀ d ∈ redacted, isSecret d = true := forall_mem_of_all (by decide)
      have hrun := takeWhile_isSecret hredacted hends'
      rw [← hmark] at hrun
      exact (takeWhile_isSecret hvalue' hends).symm.trans hrun
    rw [hs.replace, hsame, List.append_assoc, List.append_assoc]
    refine congrArg (field ++ ·) (congrArg (redacted ++ ·) (ih fun u field' d v' heq => ?_))
    exact hw (field ++ (c :: v) ++ u) field' d v' (by simp [heq])

/-- What the scan of a text has still to do after a word of its result: it stands between two
matches or between the field and the mark of one. -/
def Follows (s : Substitution Char) (w out : List Char) : Prop :=
  (∃ prev, s.Scan prev w out) ∨
    ∃ v c value rest out' prev', w = v ++ (c :: value ++ rest) ∧ out = v ++ (redacted ++ out') ∧
      '[' ∉ v ∧ Ends rest ∧ s.Scan prev' rest out'

private theorem opening_not_mem (hs : MasksFields s keys) {field u v : List Char}
    (h : IsField keys field) (hfield : field = u ++ v) : '[' ∉ v := fun hmem =>
  (h.outside hs.keyWords isAssign_of_mem_redacted).opening (hfield ▸ List.mem_append_right _ hmem)

/-- A word without brackets at the beginning of the result stands at the beginning of the text. -/
theorem reflects_prefix (hs : MasksFields s keys) (h : s.Scan prev w out) {word r : List Char}
    (hout : out = word ++ r) (hword : '[' ∉ word) :
    ∃ w', w = word ++ w' ∧ Follows s w' r := by
  induction h generalizing word with
  | @nil prev =>
    obtain ⟨rfl, rfl⟩ := List.append_eq_nil_iff.mp hout.symm
    exact ⟨[], rfl, .inl ⟨prev, .nil⟩⟩
  | @copy prev c w out hfind hscan ih =>
    cases word with
    | nil =>
      rw [List.nil_append] at hout
      subst hout
      exact ⟨c :: w, rfl, .inl ⟨prev, .copy hfind hscan⟩⟩
    | cons d word =>
      obtain ⟨rfl, htail⟩ := List.cons.inj hout
      obtain ⟨w', rfl, hfollows⟩ := ih htail fun hmem => hword (List.mem_cons_of_mem _ hmem)
      exact ⟨w', rfl, hfollows⟩
  | @hit prev prev' field value rest out hfind hscan ih =>
    obtain ⟨hfield, ⟨c, value, rfl, -⟩, hends⟩ := hs.of_find hfind
    rw [hs.replace, List.append_assoc] at hout
    obtain ⟨a, rfl, rfl⟩ := append_redacted hout hword
    exact ⟨a ++ (c :: value ++ rest), by simp, .inr ⟨a, c, value, rest, out, prev', rfl, rfl,
      hs.opening_not_mem hfield rfl, hends, hscan⟩⟩

/-- A word of the result that the mark cannot hold stands in the text, with the same character
before it, unless it follows a mark and begins with a character that ends a secret. -/
theorem reflects (hs : MasksFields s keys) (h : s.Scan prev w out) {u word r : List Char}
    (hout : out = u ++ (word ++ r)) (hword : Outside redacted word) :
    ∃ u' w', w = u' ++ (word ++ w') ∧ Follows s w' r ∧ (u'.getLast? = u.getLast? ∨ Ends word) := by
  induction h generalizing u with
  | nil =>
    obtain ⟨c, hc, -⟩ := hword.exists_not_mem
    have hmem : c ∈ u ++ (word ++ r) := List.mem_append_right _ (List.mem_append_left _ hc)
    rw [← hout] at hmem
    cases hmem
  | @copy prev c w out hfind hscan ih =>
    cases u with
    | nil =>
      rw [List.nil_append] at hout
      obtain ⟨w', hw, hfollows⟩ :=
        hs.reflects_prefix (.copy hfind hscan) hout hword.opening
      exact ⟨[], w', hw, hfollows, .inl rfl⟩
    | cons d u =>
      obtain ⟨rfl, htail⟩ := List.cons.inj hout
      obtain ⟨u', w', rfl, hfollows, hlast⟩ := ih htail
      refine ⟨c :: u', w', rfl, hfollows, hlast.imp_left fun hlast => ?_⟩
      rw [List.getLast?_cons, List.getLast?_cons, hlast]
  | @hit prev prev' field value rest out hfind hscan ih =>
    obtain ⟨hfield, ⟨c, value, rfl, -⟩, hends⟩ := hs.of_find hfind
    rw [hs.replace, List.append_assoc] at hout
    rcases append_mark_cases hout with
      ⟨v, hv, rfl, hrest⟩ | ⟨y, z, hz, hyz, -, hrest⟩ | ⟨u', rfl, rfl⟩
    · obtain ⟨a, rfl, rfl⟩ := append_redacted hrest.symm hword.opening
      exact ⟨u, a ++ (c :: value ++ rest), by simp, .inr ⟨a, c, value, rest, out, prev', rfl, rfl,
        hs.opening_not_mem hfield (List.append_assoc _ _ _).symm, hends, hscan⟩, .inl rfl⟩
    · exact absurd hrest.symm (hword.not_within redacted_getLast? hyz hz)
    · obtain ⟨u'', w', rfl, hfollows, hlast⟩ := ih rfl
      refine ⟨field ++ (c :: value ++ u''), w', by simp, hfollows, ?_⟩
      by_cases hnil : u'' = []
      · -- The word follows the mark.
        subst hnil
        right
        intro d hd
        refine hends d ?_
        rw [List.nil_append, List.head?_append, Option.mem_def.mp hd]
        rfl
      · refine hlast.imp_left fun hlast => ?_
        obtain ⟨d, hd⟩ := Option.ne_none_iff_exists'.mp
          fun h => hnil (List.getLast?_eq_none_iff.mp h)
        rw [List.getLast?_append, List.getLast?_append, List.getLast?_append,
          List.getLast?_append, ← hlast, hd]
        rfl

/-- The mark goes through a scan as it is. -/
private theorem scan_mark (hs : MasksFields s keys) {u m v : List Char} (hm : redacted = u ++ m)
    (h : s.Scan prev (m ++ v) out) : ∃ out' prev', out = m ++ out' ∧ s.Scan prev' v out' := by
  induction m generalizing u prev out with
  | nil => exact ⟨out, prev, rfl, h⟩
  | cons c m ih =>
    rw [List.cons_append] at h
    rcases h.of_cons with ⟨out', rfl, -, hcopy⟩ | ⟨field, value, rest, -, -, heq, hfind, -, -⟩
    · obtain ⟨out', prev', rfl, hscan⟩ := ih (u := u ++ [c]) (by simp [hm]) hcopy
      exact ⟨out', prev', rfl, hscan⟩
    · have hfield := (hs.of_find hfind).1
      rw [List.append_assoc, ← List.cons_append] at heq
      exact absurd heq ((hfield.outside hs.keyWords isAssign_of_mem_redacted).not_within
        redacted_getLast? hm (List.cons_ne_nil _ _))

/-- A character of the result that follows a word stands in the text, or begins a mark. -/
private theorem Follows.cons (hs : MasksFields s keys) {c : Char} {v : List Char}
    (h : Follows s w (c :: v)) :
    (∃ w', w = c :: w' ∧ ∀ rest, c :: w' = redacted ++ rest → Ends rest →
      ∃ rest', c :: v = redacted ++ rest' ∧ Ends rest') ∨
      ∃ rest, c :: v = redacted ++ rest ∧ Ends rest := by
  rcases h with ⟨prev, h⟩ | ⟨x, d, value, rest, out', prev', rfl, hv, hx, hends, hscan⟩
  · obtain ⟨w', rfl⟩ : ∃ w', w = c :: w' := by
      cases w with
      | nil => cases hs.head?_eq h
      | cons d w => exact ⟨w, by rw [Option.some.inj (hs.head?_eq h)]⟩
    refine .inl ⟨w', rfl, fun rest hrest hends => ?_⟩
    rw [hrest] at h
    obtain ⟨out', prev', hout, hscan⟩ := hs.scan_mark (List.nil_append _).symm h
    exact ⟨out', hout, hs.ends hscan hends⟩
  · cases x with
    | nil => exact .inr ⟨out', hv, hs.ends hscan hends⟩
    | cons e x =>
      obtain ⟨rfl, rfl⟩ := List.cons.inj hv
      refine .inl ⟨_, rfl, fun rest hrest _ => ?_⟩
      obtain ⟨rfl, -⟩ := List.cons.inj hrest
      exact absurd List.mem_cons_self hx

/-- What the substitution makes of a text masked for some key words is masked for them. -/
theorem masked_of_masked (hs : MasksFields s keys) (hkeys' : KeyWords keys')
    (h : s.Scan prev w out) (hw : Masked keys' w) : Masked keys' out := by
  intro u field c v hout hfield hc
  obtain ⟨u', w', hw', hfollows, -⟩ :=
    hs.reflects h hout (hfield.outside hkeys' isAssign_of_mem_redacted)
  rcases hfollows.cons hs with ⟨w'', rfl, hmark⟩ | hmark
  · obtain ⟨rest, hrest, hends⟩ := hw u' field c w'' hw' hfield hc
    exact hmark rest hrest hends
  · exact hmark

/-- What the substitution makes of a text is masked for its key words. -/
theorem masked (hs : MasksFields s keys) (h : s.Scan prev w out) : Masked keys out := by
  induction h with
  | nil =>
    intro u field c v hout
    simp at hout
  | @copy prev c w out hfind hscan ih =>
    intro u field d v hout hfield hd
    cases u with
    | nil =>
      -- A field that is copied would have been a match.
      rw [List.nil_append] at hout
      obtain ⟨w', hw', hfollows⟩ := hs.reflects_prefix (.copy hfind hscan) hout
        (hfield.outside hs.keyWords isAssign_of_mem_redacted).opening
      rcases hfollows.cons hs with ⟨w'', rfl, -⟩ | hmark
      · rw [hw'] at hfind
        exact absurd hfind (hs.find_ne_none hfield hd)
      · exact hmark
    | cons e u => exact ih u field d v (List.cons.inj hout).2 hfield hd
  | @hit prev prev' field value rest out hfind hscan ih =>
    obtain ⟨hfield, -, hends⟩ := hs.of_find hfind
    intro u field' d v hout hfield' hd
    rw [hs.replace, List.append_assoc] at hout
    rcases append_mark_cases hout with
      ⟨x, hx, hux, hrest⟩ | ⟨y, z, hz, hyz, -, hrest⟩ | ⟨u', rfl, rfl⟩
    · cases u with
      | nil =>
        rw [List.nil_append] at hux
        subst hux
        have hsame := hfield'.eq_of_append hs.keyWords hfield hd (by decide) hrest
        rw [hsame] at hrest
        exact ⟨out, List.append_cancel_left hrest, hs.ends hscan hends⟩
      | cons e u =>
        rw [hux] at hfield
        exact absurd hrest.symm (hfield'.not_within hs.keyWords hfield (List.cons_ne_nil _ _) hx)
    · exact absurd hrest.symm ((hfield'.outside hs.keyWords isAssign_of_mem_redacted).not_within
        redacted_getLast? hyz hz)
    · exact ih u' field' d v rfl hfield' hd

end MasksFields

end DonutMonitor
