import DonutMonitor.Core.RedactionFixed
import DonutMonitor.Foundations.PercentFormat
import DonutMonitor.Foundations.TextPieces

/-!
# Redaction of the parts of a format

`redact_secrets` redacts the pieces of a text one by one as long as none of the matches that it
replaces reaches over the end of a piece. For the parts of a format this is asked of the format and
of the text that it stands for; the texts of the format are then redacted alike in both, unless a
match of `_BEARER_PATTERN` at the beginning of one depends on the conversion before it.

## Main definitions

* `RedactsApart` — no match that is replaced reaches over the end of a piece.
* `SameStarts` — the conversions matter for no match at the beginning of a text.

## Main results

* `RedactsApart.redactSecrets_flatten` — the redaction of pieces.
* `redactPieces_parts` — the redaction of a format and of its result has the same texts.
-/

namespace DonutMonitor

open PercentFormat

variable {isWord : Char → Bool}

/-- The pieces of a text, redacted by the three substitutions of `redact_secrets`. -/
def redactPieces (isWord : Char → Bool) (us : List (List Char)) : List (List Char) :=
  tokenFieldPattern.subPieces none
    ((bearerPattern isWord).subPieces none (authPattern.subPieces none us))

/-- None of the matches that `redact_secrets` replaces reaches over the end of a piece. -/
structure RedactsApart (isWord : Char → Bool) (us : List (List Char)) : Prop where
  auth : authPattern.Apart none us
  bearer : (bearerPattern isWord).Apart none (authPattern.subPieces none us)
  tokenField : tokenFieldPattern.Apart none
    ((bearerPattern isWord).subPieces none (authPattern.subPieces none us))

/-- `redact_secrets` redacts pieces that are apart one by one. -/
theorem RedactsApart.redactSecrets_flatten {us : List (List Char)} (h : RedactsApart isWord us) :
    redactSecrets isWord us.flatten = (redactPieces isWord us).flatten := by
  rw [redactSecrets, Substitution.sub, Substitution.sub, Substitution.sub,
    Substitution.sub_flatten h.auth, Substitution.sub_flatten h.bearer,
    Substitution.sub_flatten h.tokenField, redactPieces]

instance (us : List (List Char)) : Decidable (RedactsApart isWord us) :=
  decidable_of_iff (_ ∧ _ ∧ _) ⟨fun h => ⟨h.1, h.2.1, h.2.2⟩, fun h => ⟨h.1, h.2, h.3⟩⟩

/-! ### Substitution in the texts of a format -/

section Substitute

variable (s : Substitution Char)

/-- Whether a match begins where a text of the format begins does not depend on whether specifiers
or their outputs stand before it. -/
def SameStarts : Option Char → Option Char → List Part → Prop
  | _, _, [] => True
  | before, before', .text w :: ps =>
    s.find before w = s.find before' w ∧ SameStarts (w.getLast?.or before) (w.getLast?.or before') ps
  | before, before', .conversion source output :: ps =>
    SameStarts (source.getLast?.or before) (output.getLast?.or before') ps

instance SameStarts.instDecidable :
    (before before' : Option Char) → (ps : List Part) → Decidable (SameStarts s before before' ps)
  | _, _, [] => .isTrue trivial
  | before, before', .text w :: ps =>
    have := instDecidable (w.getLast?.or before) (w.getLast?.or before') ps
    inferInstanceAs (Decidable (_ ∧ _))
  | before, before', .conversion source output :: ps =>
    instDecidable (source.getLast?.or before) (output.getLast?.or before') ps

/-- The parts of a format with the matches in its texts replaced. -/
def substituteTexts : Option Char → List Part → List Part
  | _, [] => []
  | before, .text w :: ps =>
    .text (s.subFrom 0 before w) :: substituteTexts (w.getLast?.or before) ps
  | before, .conversion source output :: ps =>
    .conversion source output :: substituteTexts (source.getLast?.or before) ps

variable {s} {before before' : Option Char} {ps : List Part}

theorem sameStarts_of_anchor (hs : ∀ before after, s.anchor before after = true) :
    SameStarts s before before' ps := by
  induction ps generalizing before before' with
  | nil => trivial
  | cons p ps ih =>
    cases p with
    | text w => exact ⟨by rw [Substitution.find, Substitution.find, hs, hs], ih⟩
    | conversion source output => exact ih

theorem conversion_mem_substituteTexts {source output : List Char} :
    .conversion source output ∈ substituteTexts s before ps ↔ .conversion source output ∈ ps := by
  induction ps generalizing before with
  | nil => rfl
  | cons p ps ih => cases p <;> simp [substituteTexts, ih]

/-- The pieces of the format, each with its matches replaced. -/
theorem map_source_substituteTexts (hps : ∀ source output, .conversion source output ∈ ps →
      ∀ before, s.subFrom 0 before source = source) :
    (substituteTexts s before ps).map Part.source = s.subPieces before (ps.map Part.source) := by
  induction ps generalizing before with
  | nil => rfl
  | cons p ps ih =>
    have hrest := fun source output hp => hps source output (List.mem_cons_of_mem p hp)
    cases p with
    | text w =>
      rw [substituteTexts, List.map_cons, List.map_cons, Substitution.subPieces, ih hrest]
      rfl
    | conversion source output =>
      rw [substituteTexts, List.map_cons, List.map_cons, Substitution.subPieces, ih hrest,
        Part.source, hps source output List.mem_cons_self]

/-- The pieces of the result, each with its matches replaced. -/
theorem map_output_substituteTexts (hps : ∀ source output, .conversion source output ∈ ps →
      ∀ before, s.subFrom 0 before output = output) (hstarts : SameStarts s before before' ps) :
    (substituteTexts s before ps).map Part.output = s.subPieces before' (ps.map Part.output) := by
  induction ps generalizing before before' with
  | nil => rfl
  | cons p ps ih =>
    have hrest := fun source output hp => hps source output (List.mem_cons_of_mem p hp)
    cases p with
    | text w =>
      rw [substituteTexts, List.map_cons, List.map_cons, Substitution.subPieces,
        ih hrest hstarts.2, Part.output, Part.output, Substitution.subFrom_congr hstarts.1]
    | conversion source output =>
      rw [substituteTexts, List.map_cons, List.map_cons, Substitution.subPieces,
        ih hrest hstarts, Part.output, hps source output List.mem_cons_self]

/-- A substitution whose replacements bring no `%` about leaves a format one. -/
theorem rewrites_substituteTexts (hne : ∀ kept, s.replace kept ≠ [])
    (hpercent : ∀ kept, '%' ∈ s.replace kept → '%' ∈ kept) :
    List.Forall₂ Part.Rewrites ps (substituteTexts s before ps) := by
  induction ps generalizing before with
  | nil => exact .nil
  | cons p ps ih =>
    cases p with
    | text w =>
      refine .cons ⟨Substitution.subFrom_ne_nil hne, fun hw hmem => hw ?_⟩ ih
      rcases Substitution.mem_subFrom hmem with hmem | ⟨kept, hkept, hmem⟩
      · exact hmem
      · exact hkept (hpercent kept hmem)
    | conversion source output => exact .cons rfl ih

end Substitute

/-! ### Redaction of the texts of a format -/

/-- A specifier is redacted: none of the letters `b`, `t` and `p` stands in it. -/
theorem isRedacted_of_isSpecifier {source : List Char} {m : Modifiers} {kind : Char}
    (h : IsSpecifier source m kind) (hkind : kind ∈ "srac%".toList) :
    IsRedacted isWord source := by
  obtain ⟨w, rfl, hw, -, -⟩ := h
  have hmodifier : ∀ c ∈ "-+ #0123456789.hlL".toList, foldCase c ∉ "btp".toList :=
    forall_mem_of_all (by decide)
  have htype : ∀ c ∈ "srac%".toList, foldCase c ∉ "btp".toList := forall_mem_of_all (by decide)
  refine IsRedacted.of_letters "btp".toList (by decide) (by decide) (by decide) fun c hc => ?_
  rcases List.mem_cons.mp hc with rfl | hc
  · exact htype _ (by decide)
  · rcases List.mem_append.mp hc with hc | hc
    · exact hmodifier c (List.contains_iff_mem.mp (hw c hc))
    · exact htype c (List.mem_singleton.mp hc ▸ hkind)

/-- The redaction of a format and that of its result have the same texts, when none of the
conversions holds a secret. -/
theorem redactPieces_parts (hword : ∀ c, foldCase c = 'b' → isWord c = true) {ps : List Part}
    (hps : ∀ source output, .conversion source output ∈ ps →
      IsRedacted isWord source ∧ IsRedacted isWord output)
    (hstarts : SameStarts (bearerPattern isWord) none none (substituteTexts authPattern none ps)) :
    ∃ ps', List.Forall₂ Part.Rewrites ps ps' ∧
      redactPieces isWord (ps.map Part.source) = ps'.map Part.source ∧
        redactPieces isWord (ps.map Part.output) = ps'.map Part.output := by
  have hauth := authPattern_masksFields
  have htoken := tokenFieldPattern_masksFields
  have hauth' {w : List Char} (hw : IsRedacted isWord w) (before : Option Char) :
      authPattern.subFrom 0 before w = w :=
    (Substitution.subFrom_eq_sub hauth.anchor w).trans hw.authPattern_sub
  have htoken' {w : List Char} (hw : IsRedacted isWord w) (before : Option Char) :
      tokenFieldPattern.subFrom 0 before w = w :=
    (Substitution.subFrom_eq_sub htoken.anchor w).trans hw.tokenFieldPattern_sub
  -- the parts after each of the three substitutions
  generalize hps₁ : substituteTexts authPattern none ps = ps₁ at hstarts
  have hconversions₁ : ∀ source output, .conversion source output ∈ ps₁ →
      IsRedacted isWord source ∧ IsRedacted isWord output := fun source output hp =>
    hps source output (conversion_mem_substituteTexts.mp (hps₁ ▸ hp))
  generalize hps₂ : substituteTexts (bearerPattern isWord) none ps₁ = ps₂
  have hconversions₂ : ∀ source output, .conversion source output ∈ ps₂ →
      IsRedacted isWord source ∧ IsRedacted isWord output := fun source output hp =>
    hconversions₁ source output (conversion_mem_substituteTexts.mp (hps₂ ▸ hp))
  refine ⟨substituteTexts tokenFieldPattern none ps₂, ?_, ?_, ?_⟩
  · have hfield {keys : List (List Char)} {s : Substitution Char} (hs : MasksFields s keys)
        {ps : List Part} : List.Forall₂ Part.Rewrites ps (substituteTexts s none ps) := by
      refine rewrites_substituteTexts (fun kept => ?_) fun kept hmem => ?_
      · rw [hs.replace]
        exact List.append_ne_nil_of_right_ne_nil _ (by decide)
      · rw [hs.replace] at hmem
        exact (List.mem_append.mp hmem).resolve_right (by decide)
    have hbearer : List.Forall₂ Part.Rewrites ps₁ ps₂ :=
      hps₂ ▸ rewrites_substituteTexts (fun _ => (by decide : bearerMark ≠ []))
        fun _ hmem => absurd hmem (by decide : '%' ∉ bearerMark)
    exact rewrites_trans (rewrites_trans (hps₁ ▸ hfield hauth) hbearer) (hfield htoken)
  · rw [redactPieces,
      ← map_source_substituteTexts fun source output hp => hauth' (hps source output hp).1, hps₁,
      ← map_source_substituteTexts fun source output hp =>
        (hconversions₁ source output hp).1.bearerPattern_subFrom hword, hps₂,
      ← map_source_substituteTexts fun source output hp =>
        htoken' (hconversions₂ source output hp).1]
  · rw [redactPieces,
      ← map_output_substituteTexts (fun source output hp => hauth' (hps source output hp).2)
        (sameStarts_of_anchor hauth.anchor), hps₁,
      ← map_output_substituteTexts (fun source output hp =>
        (hconversions₁ source output hp).2.bearerPattern_subFrom hword) hstarts, hps₂,
      ← map_output_substituteTexts (fun source output hp =>
        htoken' (hconversions₂ source output hp).2) (sameStarts_of_anchor htoken.anchor)]

end DonutMonitor
