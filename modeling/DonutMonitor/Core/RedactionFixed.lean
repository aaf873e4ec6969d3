import DonutMonitor.Core.RedactionFields

/-!
# Redacted texts are left as they are

The substitution for `_BEARER_PATTERN` leaves no match of the expression behind, it keeps texts
masked, and the two substitutions for fields bring no match of it about.  So what
`redact_secrets` makes of a text is masked for all key words and without a match of
`_BEARER_PATTERN`, and redacting it again changes nothing.

## Main definitions

* `WithoutBearer` — a text without a match of `_BEARER_PATTERN`.
* `IsRedacted` — a text without a secret.

## Main results

* `withoutBearer_of_scan`, `masked_of_bearer_scan` — what the substitution for `_BEARER_PATTERN`
  achieves and keeps.
* `MasksFields.withoutBearer` — what the substitutions for fields keep.
* `redactSecrets_redactSecrets` — what `redact_secrets` makes of a text is left as it is.
* `isRedacted_iff` — the redacted texts are those that are left as they are.
-/

namespace DonutMonitor

/-- The replacement of `_BEARER_PATTERN`. -/
def bearerMark : List Char := "Bearer ".toList ++ redacted

/-- No match of `_BEARER_PATTERN` begins in the text, which follows the character `prev`. -/
def WithoutBearer (isWord : Char → Bool) (prev : Option Char) (w : List Char) : Prop :=
  ∀ u v, w = u ++ v → (bearerPattern isWord).find (u.getLast?.or prev) v = none

/-! ### The word of a bearer credential -/

private theorem bearer_accepts {b : List Char} (h : bearer.Accepts b) :
    ∃ k t, b = k ++ t ∧ k.map foldCase = "bearer".toList ∧ t ≠ [] ∧ ∀ c ∈ t, isSpace c = true := by
  obtain ⟨k, t, rfl, hk, ht⟩ := h
  obtain ⟨c, v, rfl, hc, hv⟩ := Regex.accepts_run1.mp ht
  exact ⟨k, c :: v, rfl, Regex.accepts_word.mp hk, List.cons_ne_nil _ _,
    List.forall_mem_cons.mpr ⟨hc, hv⟩⟩

private theorem foldCase_of_isSpace {c : Char} (h : isSpace c = true) : foldCase c ≠ 'b' := by
  intro hc
  have hgap := isGap_of_letter (c := c) (by rw [hc]; decide)
  rw [isGap, h, Bool.true_or] at hgap
  cases hgap

/-- The letter `b` stands at the beginning only. -/
private theorem bearer_cons_tail {b : List Char} (h : bearer.Accepts b) :
    ∃ c v, b = c :: v ∧ foldCase c = 'b' ∧ ∀ d ∈ v, foldCase d ≠ 'b' := by
  obtain ⟨k, t, rfl, hk, -, ht⟩ := bearer_accepts h
  have hletters : "bearer".toList = 'b' :: "earer".toList := by decide
  obtain ⟨c, k, rfl, hc, hk⟩ := List.map_eq_cons_iff.mp (hk.trans hletters)
  refine ⟨c, k ++ t, rfl, hc, List.forall_mem_append.mpr ⟨fun d hd => ?_, fun d hd =>
    foldCase_of_isSpace (ht d hd)⟩⟩
  have hmem : foldCase d ∈ "earer".toList := hk ▸ List.mem_map_of_mem hd
  intro hb
  rw [hb] at hmem
  revert hmem
  decide

private theorem isBearer_of_foldCase {c : Char} (h : foldCase c = 'b') : isBearer c = true := by
  rw [isBearer, h]
  rfl

private theorem isSecret_of_foldCase {c : Char} (h : foldCase c = 'b') : isSecret c = true :=
  isSecret_of_letter (by rw [h]; decide)

/-- The word with the first character of the credential stands outside of the marks of fields. -/
private theorem bearer_outside {b : List Char} {c : Char} (h : bearer.Accepts b)
    (hc : isBearer c = true) : Outside redacted (b ++ [c]) := by
  obtain ⟨k, t, rfl, hk, hne, ht⟩ := bearer_accepts h
  have hbracket (d : Char) (hletter : (foldCase d).isLower = false) (hspace : isSpace d = false)
      (hbearer : isBearer d = false) : d ∉ k ++ t ++ [c] := by
    intro hmem
    rcases List.mem_append.mp hmem with hmem | hmem
    · rcases List.mem_append.mp hmem with hmem | hmem
      · have hmem' : foldCase d ∈ "bearer".toList := hk ▸ List.mem_map_of_mem hmem
        have hlower : ∀ e ∈ "bearer".toList, e.isLower = true := forall_mem_of_all (by decide)
        cases (hlower _ hmem').symm.trans hletter
      · cases (ht d hmem).symm.trans hspace
    · rw [List.mem_singleton.mp hmem] at hbearer
      cases hc.symm.trans hbearer
  refine ⟨hbracket '[' (by decide) (by decide) (by decide),
    hbracket ']' (by decide) (by decide) (by decide), ?_⟩
  obtain ⟨d, t, rfl⟩ := List.exists_cons_of_ne_nil hne
  refine ⟨d, by simp, fun hmem => ?_⟩
  have hspaces : ∀ e ∈ redacted, isSpace e = false := forall_mem_of_all (by decide)
  cases (ht d List.mem_cons_self).symm.trans (hspaces d hmem)

section Find

variable {isWord : Char → Bool} {prev : Option Char} {w out : List Char}

/-- A match is the word with a character of the credential after it. -/
private theorem bearer_of_find {m : List Char × List Char × List Char}
    (h : (bearerPattern isWord).find prev w = some m) :
    ∃ b c rest, w = b ++ c :: rest ∧ bearer.Accepts b ∧ isBearer c = true ∧
      (bearerPattern isWord).anchor prev b.head? = true := by
  obtain ⟨kept, value, rest⟩ := m
  obtain ⟨rfl, hkept, b, x, rfl, hb, hx⟩ := Substitution.find_eq_some h
  obtain ⟨c, x, rfl, hc, -⟩ := Regex.accepts_run1.mp hx
  have hanchor := Substitution.anchor_of_find h
  obtain rfl : kept = [] := hkept
  refine ⟨b, c, x ++ rest, by simp, hb, hc, ?_⟩
  obtain ⟨d, v, rfl, -⟩ := bearer_cons hb
  exact hanchor

private theorem bearer_find_ne_none {b rest : List Char} {c : Char} (hb : bearer.Accepts b)
    (hc : isBearer c = true) (hanchor : (bearerPattern isWord).anchor prev b.head? = true) :
    (bearerPattern isWord).find prev (b ++ c :: rest) ≠ none := by
  have hsplit : b ++ c :: rest = [] ++ (b ++ [c]) ++ rest := by simp
  refine Substitution.find_ne_none ?_ hsplit rfl
    ⟨b, [c], rfl, hb, Regex.accepts_run1.mpr ⟨c, [], rfl, hc, List.forall_mem_nil _⟩⟩
  obtain ⟨d, v, rfl, -⟩ := bearer_cons hb
  exact hanchor

/-- A match takes all characters of the credential. -/
private theorem rest_of_find {kept value rest : List Char}
    (h : (bearerPattern isWord).find prev w = some (kept, value, rest)) :
    ∀ d ∈ rest.head?, isBearer d = false :=
  Substitution.find_endsRun ((Regex.EndsRun.run1 _).seq _) h

/-- What a scan of a text that is not empty begins with. -/
private theorem scan_of_cons {c : Char} (h : (bearerPattern isWord).Scan prev (c :: w) out) :
    (∃ out', out = c :: out' ∧ (bearerPattern isWord).find prev (c :: w) = none ∧
      (bearerPattern isWord).Scan (some c) w out') ∨
      foldCase c = 'b' ∧ ∃ rest out' prev', out = bearerMark ++ out' ∧
        (∀ d ∈ rest.head?, isBearer d = false) ∧ (bearerPattern isWord).Scan prev' rest out' := by
  rcases h.of_cons with hcopy | ⟨kept, value, rest, out', prev', hw, hfind, rfl, hscan⟩
  · exact .inl hcopy
  · obtain ⟨b, d, rest', hb, hbearer, -⟩ := bearer_of_find hfind
    obtain ⟨e, v, rfl, he⟩ := bearer_cons hbearer
    obtain ⟨rfl, -⟩ := List.cons.inj hb
    exact .inr ⟨he, rest, out', prev', rfl, rest_of_find hfind, hscan⟩

private theorem value_ne_nil : ¬ (bearerPattern isWord).value.Accepts [] := by
  rintro ⟨b, x, hnil, hb, -⟩
  obtain ⟨c, v, rfl, -⟩ := bearer_cons hb
  cases hnil

/-- A word of the result without the letter `b` has been copied. -/
private theorem scan_reflects {word r : List Char}
    (h : (bearerPattern isWord).Scan prev w (word ++ r)) (hword : ∀ c ∈ word, foldCase c ≠ 'b') :
    ∃ w' prev', w = word ++ w' ∧ (bearerPattern isWord).Scan prev' w' r := by
  induction word generalizing prev w with
  | nil => exact ⟨w, prev, rfl, h⟩
  | cons c word ih =>
    obtain ⟨hc, hword⟩ := List.forall_mem_cons.mp hword
    cases w with
    | nil => cases h.of_nil value_ne_nil
    | cons d w =>
      rcases scan_of_cons h with ⟨out', hout, -, hscan⟩ | ⟨-, rest, out', prev', hout, -⟩
      · obtain ⟨rfl, rfl⟩ := List.cons.inj hout
        obtain ⟨w', prev', rfl, hrest⟩ := ih hscan hword
        exact ⟨w', prev', rfl, hrest⟩
      · obtain ⟨rfl, -⟩ := List.cons.inj hout
        exact absurd (by decide) hc

/-- A word of the text without the letter `b` is copied. -/
private theorem scan_copies {word v : List Char}
    (h : (bearerPattern isWord).Scan prev (word ++ v) out) (hword : ∀ c ∈ word, foldCase c ≠ 'b') :
    ∃ out' prev', out = word ++ out' ∧ (bearerPattern isWord).Scan prev' v out' := by
  induction word generalizing prev out with
  | nil => exact ⟨out, prev, rfl, h⟩
  | cons c word ih =>
    obtain ⟨hc, hword⟩ := List.forall_mem_cons.mp hword
    rw [List.cons_append] at h
    rcases scan_of_cons h with ⟨out', rfl, -, hscan⟩ | ⟨hb, -⟩
    · obtain ⟨out', prev', rfl, hrest⟩ := ih hscan hword
      exact ⟨out', prev', rfl, hrest⟩
    · exact absurd hb hc

/-- The result does not begin with the letter `b` where the text does not begin with a character
of a credential. -/
private theorem not_head_of_scan (h : (bearerPattern isWord).Scan prev w out)
    (hw : ∀ d ∈ w.head?, isBearer d = false) {c : Char} {v : List Char} (hout : out = c :: v)
    (hc : foldCase c = 'b') : False := by
  subst hout
  cases w with
  | nil => cases h.of_nil value_ne_nil
  | cons d w =>
    have hd : foldCase d = 'b' := by
      rcases scan_of_cons h with ⟨out', hout, -⟩ | ⟨hd, -⟩
      · rw [← (List.cons.inj hout).1, hc]
      · exact hd
    cases (isBearer_of_foldCase hd).symm.trans (hw d rfl)

private theorem length_bearer {b : List Char} (h : bearer.Accepts b) : 7 ≤ b.length := by
  obtain ⟨k, t, rfl, hk, hne, -⟩ := bearer_accepts h
  have hkey : k.length = 6 := by rw [← List.length_map foldCase, hk]; decide
  have ht := List.length_pos_iff.mpr hne
  rw [List.length_append]
  omega

private theorem ends_of_scan (h : (bearerPattern isWord).Scan prev w out) (hw : Ends w) :
    Ends out := by
  intro c hc
  cases w with
  | nil =>
    rw [h.of_nil value_ne_nil] at hc
    cases hc
  | cons d w =>
    rcases scan_of_cons h with ⟨out', rfl, -⟩ | ⟨hd, -⟩
    · exact hw c hc
    · cases (isSecret_of_foldCase hd).symm.trans (hw d rfl)

/-- No match begins within the replacement. -/
private theorem not_within_bearerMark {b u v rest : List Char} {c : Char} (hb : bearer.Accepts b)
    (hc : isBearer c = true) (hmark : bearerMark = u ++ v) (hv : v ≠ []) :
    v ++ w ≠ b ++ c :: rest := by
  intro heq
  cases u with
  | nil =>
    -- The word with the first character of the credential does not fit before the bracket.
    obtain rfl : bearerMark = v := hmark
    have hword : "Bearer ".toList ++ (redacted ++ w) = b ++ [c] ++ rest := by
      rw [List.append_assoc b, List.singleton_append, ← heq]
      exact (List.append_assoc _ _ _).symm
    obtain ⟨a, ha, -⟩ := append_redacted hword (bearer_outside hb hc).opening
    have hlength := congrArg List.length ha
    have hseven : "Bearer ".toList.length = 7 := by decide
    rw [hseven, List.length_append, List.length_append, List.length_singleton] at hlength
    have hb := length_bearer hb
    omega
  | cons d u =>
    -- The letter `b` stands at the beginning of the replacement only.
    obtain ⟨e, b, rfl, he⟩ := bearer_cons hb
    have hletters : ∀ x ∈ bearerMark.tail, foldCase x ≠ 'b' := forall_mem_of_all (by decide)
    obtain ⟨f, v, rfl⟩ := List.exists_cons_of_ne_nil hv
    obtain ⟨rfl, -⟩ := List.cons.inj heq
    refine hletters f ?_ he
    rw [hmark]
    exact List.mem_append_right _ List.mem_cons_self

end Find

/-! ### What the substitution for `_BEARER_PATTERN` achieves and keeps -/

variable {isWord : Char → Bool} {prev : Option Char} {w out : List Char}

/-- The substitution leaves no match behind. -/
theorem withoutBearer_of_scan (h : (bearerPattern isWord).Scan prev w out) :
    WithoutBearer isWord prev out := by
  induction h with
  | @nil prev =>
    intro u v hout
    obtain ⟨rfl, rfl⟩ := List.append_eq_nil_iff.mp hout.symm
    refine Option.eq_none_iff_forall_ne_some.mpr fun m hfind => ?_
    obtain ⟨b, c, rest, hnil, -⟩ := bearer_of_find hfind
    simp at hnil
  | @copy prev c w out hfind hscan ih =>
    intro u v hout
    cases u with
    | nil =>
      refine Option.eq_none_iff_forall_ne_some.mpr fun m hfind' => ?_
      obtain ⟨b, d, rest, rfl, hb, hd, hanchor⟩ := bearer_of_find hfind'
      obtain ⟨e, b, rfl, -, htail⟩ := bearer_cons_tail hb
      obtain ⟨rfl, rfl⟩ := List.cons.inj hout
      -- The word has been copied, and with it a character of the credential.
      obtain ⟨w', prev', rfl, hrest⟩ := scan_reflects hscan htail
      obtain ⟨d', w', rfl, hd'⟩ : ∃ d' w'', w' = d' :: w'' ∧ isBearer d' = true := by
        cases w' with
        | nil => cases hrest.of_nil value_ne_nil
        | cons d' w'' =>
          rcases scan_of_cons hrest with ⟨out', hout', -⟩ | ⟨hb', -⟩
          · exact ⟨d', w'', rfl, (List.cons.inj hout').1 ▸ hd⟩
          · exact ⟨d', w'', rfl, isBearer_of_foldCase hb'⟩
      exact bearer_find_ne_none hb hd' hanchor hfind
    | cons d u =>
      obtain ⟨rfl, htail⟩ := List.cons.inj hout
      have hlater := ih u v htail
      cases u with
      | nil => exact hlater
      | cons e u => exact hlater
  | @hit prev prev' kept value rest out hfind hscan ih =>
    intro u v hout
    have hmark : [] ++ (bearerMark ++ out) = u ++ v := hout
    rcases append_mark_cases hmark with
      ⟨x, hx, hnil, -⟩ | ⟨y, z, hz, hyz, -, rfl⟩ | ⟨u', rfl, rfl⟩
    · exact absurd (List.append_eq_nil_iff.mp hnil.symm).2 hx
    · refine Option.eq_none_iff_forall_ne_some.mpr fun m hfind' => ?_
      obtain ⟨b, c, rest', heq, hb, hc, -⟩ := bearer_of_find hfind'
      exact not_within_bearerMark hb hc hyz hz heq
    · by_cases hnil : u' = []
      · subst hnil
        refine Option.eq_none_iff_forall_ne_some.mpr fun m hfind' => ?_
        obtain ⟨b, c, rest', rfl, hb, -⟩ := bearer_of_find hfind'
        obtain ⟨d, b, rfl, hd⟩ := bearer_cons hb
        exact not_head_of_scan hscan (rest_of_find hfind) rfl hd
      · obtain ⟨d, hd⟩ := Option.ne_none_iff_exists'.mp
          fun h => hnil (List.getLast?_eq_none_iff.mp h)
        have hlater := ih u' v rfl
        rw [hd] at hlater
        rw [List.nil_append, List.getLast?_append, hd]
        exact hlater

/-- A field of the result has been copied. -/
private theorem field_reflects {keys : List (List Char)} (hkeys : KeyWords keys)
    (hletter : ∀ key ∈ keys, 'b' ∉ key) (h : (bearerPattern isWord).Scan prev w out)
    {u field r : List Char} (hout : out = u ++ (field ++ r)) (hfield : IsField keys field) :
    ∃ u' w' prev', w = u' ++ (field ++ w') ∧ (bearerPattern isWord).Scan prev' w' r := by
  have hcopied : ∀ c ∈ field, foldCase c ≠ 'b' := by
    obtain ⟨k, t, rfl, hk, ht⟩ := hfield
    refine List.forall_mem_append.mpr ⟨fun c hc hb => ?_, fun c hc hb => ?_⟩
    · exact hletter _ hk (hb ▸ List.mem_map_of_mem hc)
    · have hnot := not_letter_of_mem_separator ht hc
      rw [hb] at hnot
      exact absurd hnot (by decide)
  induction h generalizing u with
  | nil =>
    obtain ⟨c, v, rfl, -⟩ := hfield.exists_cons hkeys
    simp at hout
  | @copy prev c w out hfind hscan ih =>
    cases u with
    | nil =>
      have hword : (bearerPattern isWord).Scan prev (c :: w) (field ++ r) :=
        (hout.trans (List.nil_append _)) ▸ .copy hfind hscan
      obtain ⟨w', prev', hw, hrest⟩ := scan_reflects hword hcopied
      exact ⟨[], w', prev', hw, hrest⟩
    | cons d u =>
      obtain ⟨rfl, htail⟩ := List.cons.inj hout
      obtain ⟨u', w', prev', rfl, hrest⟩ := ih htail
      exact ⟨c :: u', w', prev', rfl, hrest⟩
  | @hit prev prev' kept value rest out hfind hscan ih =>
    have hmark : [] ++ (bearerMark ++ out) = u ++ (field ++ r) := hout
    rcases append_mark_cases hmark with
      ⟨x, hx, hnil, -⟩ | ⟨y, z, hz, hyz, -, hrest⟩ | ⟨u', rfl, rfl⟩
    · exact absurd (List.append_eq_nil_iff.mp hnil.symm).2 hx
    · have houtside := hfield.outside hkeys (forall_mem_of_all (w := bearerMark) (by decide))
      exact absurd hrest.symm (houtside.not_within (by decide) hyz hz)
    · obtain ⟨u'', w', prev', rfl, hrest⟩ := ih rfl
      exact ⟨kept ++ (value ++ u''), w', prev', by simp, hrest⟩

/-- The substitution keeps texts masked. -/
theorem masked_of_bearer_scan {keys : List (List Char)} (hkeys : KeyWords keys)
    (hletter : ∀ key ∈ keys, 'b' ∉ key) (h : (bearerPattern isWord).Scan prev w out)
    (hw : Masked keys w) : Masked keys out := by
  intro u field c v hout hfield hc
  obtain ⟨u', w', prev', hw', hscan⟩ := field_reflects hkeys hletter h hout hfield
  cases w' with
  | nil => cases hscan.of_nil value_ne_nil
  | cons d w' =>
    rcases scan_of_cons hscan with ⟨out', hout', -⟩ | ⟨hd, -⟩
    · obtain ⟨rfl, -⟩ := List.cons.inj hout'
      obtain ⟨rest, hrest, hends⟩ := hw u' field c w' hw' hfield hc
      rw [hrest] at hscan
      have hletters : ∀ x ∈ redacted, foldCase x ≠ 'b' := forall_mem_of_all (by decide)
      obtain ⟨out'', prev'', hmark, hlater⟩ := scan_copies hscan hletters
      exact ⟨out'', hmark, ends_of_scan hlater hends⟩
    · -- A match that follows a field would be its value.
      obtain ⟨rest, hrest, -⟩ := hw u' field d w' hw' hfield (isSecret_of_foldCase hd)
      obtain ⟨rfl, -⟩ := List.cons.inj hrest
      exact absurd hd (by decide)

/-- A substitution for fields brings no match about. -/
theorem MasksFields.withoutBearer {s : Substitution Char} {keys : List (List Char)}
    (hs : MasksFields s keys) (h : s.Scan none w out) (hw : WithoutBearer isWord none w) :
    WithoutBearer isWord none out := by
  intro u v hout
  refine Option.eq_none_iff_forall_ne_some.mpr fun m hfind => ?_
  obtain ⟨b, c, rest, rfl, hb, hc, hanchor⟩ := bearer_of_find hfind
  have hword : out = u ++ (b ++ [c] ++ rest) := by simp [hout]
  obtain ⟨u', w', rfl, -, hlast⟩ := hs.reflects h hword (bearer_outside hb hc)
  rcases hlast with hlast | hends
  · have hnone := hw u' _ rfl
    rw [List.append_assoc, List.singleton_append, hlast] at hnone
    exact bearer_find_ne_none hb hc hanchor hnone
  · obtain ⟨d, v, rfl, hd⟩ := bearer_cons hb
    cases (isSecret_of_foldCase hd).symm.trans (hends d rfl)

/-! ### Redacted texts -/

/-- A text that is masked for all key words and without a match of `_BEARER_PATTERN`. -/
structure IsRedacted (isWord : Char → Bool) (w : List Char) : Prop where
  auth : Masked authKeys w
  bearer : WithoutBearer isWord none w
  tokenField : Masked tokenKeys w

/-- What `redact_secrets` makes of a text is redacted. -/
theorem isRedacted_redactSecrets (isWord : Char → Bool) (value : List Char) :
    IsRedacted isWord (redactSecrets isWord value) := by
  have hauth := authPattern_masksFields
  have htoken := tokenFieldPattern_masksFields
  have h₁ := Substitution.scan_sub hauth.value_ne_nil value
  have h₂ : (bearerPattern isWord).Scan none (authPattern.sub value)
      ((bearerPattern isWord).sub (authPattern.sub value)) :=
    Substitution.scan_sub value_ne_nil _
  have h₃ := Substitution.scan_sub htoken.value_ne_nil
    ((bearerPattern isWord).sub (authPattern.sub value))
  exact ⟨htoken.masked_of_masked keyWords_authKeys h₃
      (masked_of_bearer_scan keyWords_authKeys (by decide) h₂ (hauth.masked h₁)),
    htoken.withoutBearer h₃ (withoutBearer_of_scan h₂), htoken.masked h₃⟩

namespace IsRedacted

theorem authPattern_sub (h : IsRedacted isWord w) : authPattern.sub w = w :=
  authPattern_masksFields.eq_self
    (Substitution.scan_sub authPattern_masksFields.value_ne_nil w) h.auth

theorem tokenFieldPattern_sub (h : IsRedacted isWord w) : tokenFieldPattern.sub w = w :=
  tokenFieldPattern_masksFields.eq_self
    (Substitution.scan_sub tokenFieldPattern_masksFields.value_ne_nil w) h.tokenField

theorem bearerPattern_sub (h : IsRedacted isWord w) : (bearerPattern isWord).sub w = w :=
  (Substitution.scan_sub value_ne_nil w).eq_self h.bearer

/-- Whatever stands before the text, the substitution for `_BEARER_PATTERN` leaves it as it is. -/
theorem bearerPattern_subFrom (hword : ∀ c, foldCase c = 'b' → isWord c = true)
    (h : IsRedacted isWord w) (before : Option Char) :
    (bearerPattern isWord).subFrom 0 before w = w := by
  refine (Substitution.scan_subFrom value_ne_nil before w).eq_self fun u v hw => ?_
  rcases eq_or_ne u [] with rfl | hu
  · refine Option.eq_none_iff_forall_ne_some.mpr fun m hfind => ?_
    obtain ⟨b, c, rest, rfl, hb, hc, -⟩ := bearer_of_find hfind
    obtain ⟨d, b, rfl, hd⟩ := bearer_cons hb
    have hanchor : (bearerPattern isWord).anchor none (d :: b).head? = true := by
      simp [bearerPattern, hword d hd]
    exact bearer_find_ne_none hb hc hanchor (h.bearer [] _ hw)
  · have hnone := h.bearer u v hw
    obtain ⟨c, hlast⟩ := Option.isSome_iff_exists.mp (List.getLast?_isSome.mpr hu)
    rw [hlast] at hnone ⊢
    exact hnone

/-- `redact_secrets` leaves a redacted text as it is. -/
theorem redactSecrets_eq_self (h : IsRedacted isWord w) : redactSecrets isWord w = w := by
  rw [redactSecrets, h.authPattern_sub, h.bearerPattern_sub, h.tokenFieldPattern_sub]

/-- A text in which some letter of each key word and of `bearer` is missing is redacted. -/
theorem of_letters (letters : List Char) (hauth : ∀ key ∈ authKeys, key.any letters.contains = true)
    (htoken : ∀ key ∈ tokenKeys, key.any letters.contains = true) (hb : 'b' ∈ letters)
    (hw : ∀ c ∈ w, foldCase c ∉ letters) : IsRedacted isWord w := by
  have hmasked {keys : List (List Char)} (hkeys : ∀ key ∈ keys, key.any letters.contains = true) :
      Masked keys w := by
    rintro u field c v rfl ⟨k, t, rfl, hk, -⟩ -
    obtain ⟨d, hd, hletter⟩ := List.any_eq_true.mp (hkeys _ hk)
    obtain ⟨x, hx, rfl⟩ := List.mem_map.mp hd
    exact absurd (List.contains_iff_mem.mp hletter) (hw x (by simp [hx]))
  refine ⟨hmasked hauth, fun u v huv => ?_, hmasked htoken⟩
  refine Option.eq_none_iff_forall_ne_some.mpr fun m hfind => ?_
  obtain ⟨b, c, rest, rfl, hbearer, -, -⟩ := bearer_of_find hfind
  obtain ⟨d, b, rfl, hd⟩ := bearer_cons hbearer
  exact hw d (by simp [huv]) (hd ▸ hb)

/-- A single character is redacted. -/
theorem singleton (c : Char) : IsRedacted isWord [c] := by
  have hmasked {keys : List (List Char)} (hkeys : KeyWords keys) : Masked keys [c] := by
    intro u field d v hw hfield
    obtain ⟨e, field, rfl, -⟩ := hfield.exists_cons hkeys
    have hlength := congrArg List.length hw
    simp only [List.length_append, List.length_cons, List.length_nil] at hlength
    omega
  refine ⟨hmasked keyWords_authKeys, fun u v huv => ?_, hmasked keyWords_tokenKeys⟩
  refine Option.eq_none_iff_forall_ne_some.mpr fun m hfind => ?_
  obtain ⟨b, d, rest, rfl, hb, -, -⟩ := bearer_of_find hfind
  have hlength := congrArg List.length huv
  have hbearer := length_bearer hb
  simp only [List.length_append, List.length_cons, List.length_nil] at hlength
  omega

end IsRedacted

/-- `redact_secrets` leaves what it makes of a text as it is. -/
theorem redactSecrets_redactSecrets (isWord : Char → Bool) (value : List Char) :
    redactSecrets isWord (redactSecrets isWord value) = redactSecrets isWord value :=
  (isRedacted_redactSecrets isWord value).redactSecrets_eq_self

/-- The redacted texts are those that `redact_secrets` leaves as they are. -/
theorem isRedacted_iff : IsRedacted isWord w ↔ redactSecrets isWord w = w := by
  refine ⟨IsRedacted.redactSecrets_eq_self, fun h => ?_⟩
  rw [← h]
  exact isRedacted_redactSecrets isWord w

end DonutMonitor
