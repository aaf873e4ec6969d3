import DonutMonitor.Core.RedactionParts

/-!
# Redaction of log records

`SecretRedactionFilter` redacts the message of a record and its arguments one by one, before they
are formatted. A match can thus take a conversion specifier away, or come about only when the
message is formatted.

## Main definitions

* `LogRecord.EmitsRedacted` — filtering a record keeps its message one that can be formatted, and
  leaves no secret in it.
* `LogRecord.Confined` — no match reaches over the end of a part of the message.

## Main results

* `LogRecord.emitsRedacted_of_confined` — confined records are redacted.
* `LogRecord.not_emitsRedacted` — a specifier that stands where a secret is expected is lost.
-/

namespace DonutMonitor

open PercentFormat

/-- What the Unicode tables of the interpreter say about characters. -/
structure CharacterTables where
  /-- The characters that `\w` matches. -/
  isWord : Char → Bool
  /-- The characters that `repr` does not escape. -/
  isPrintable : Char → Bool
  isWord_of_isAlphanum : ∀ c : Char, c.isAlphanum = true → isWord c = true

variable {tables : CharacterTables}

/-- A `LogRecord` whose message is a text and whose arguments are a tuple of texts. -/
structure LogRecord where
  msg : List Char
  args : List (List Char)

namespace LogRecord

/-- `LogRecord.getMessage`, unless it raises. -/
def getMessage (tables : CharacterTables) (record : LogRecord) : Option (List Char) :=
  if record.args = [] then some record.msg
  else format tables.isPrintable record.msg record.args

end LogRecord

/-- `_redact_log_argument` of a text. -/
def redactLogArgument (isWord : Char → Bool) (value : List Char) : List Char :=
  redactSecrets isWord value

/-- `SecretRedactionFilter.filter`, with the record that it leaves. -/
def SecretRedactionFilter.filter (isWord : Char → Bool) (record : LogRecord) : Bool × LogRecord :=
  let msg := redactSecrets isWord record.msg
  let args := if record.args = [] then record.args
    else record.args.map (redactLogArgument isWord)
  (true, { msg, args })

/-- What a conversion other than a plain `%s` makes of its argument holds no secret. -/
def OutputRedacted (isWord : Char → Bool) : Part → Prop
  | .text _ => True
  | .conversion source output => source = "%s".toList ∨ redactSecrets isWord output = output

instance (isWord : Char → Bool) : DecidablePred (OutputRedacted isWord)
  | .text _ => .isTrue trivial
  | .conversion _ _ => inferInstanceAs (Decidable (_ ∨ _))

/-- Redaction works on the parts of a format one by one. -/
structure RedactsParts (isWord : Char → Bool) (ps : List Part) : Prop where
  /-- No match in the format reaches over the end of a part. -/
  format : RedactsApart isWord (ps.map Part.source)
  /-- No match in the result reaches over the end of a part. -/
  message : RedactsApart isWord (ps.map Part.output)
  outputs : ∀ p ∈ ps, OutputRedacted isWord p
  /-- Whether a match of `_BEARER_PATTERN` begins where a text of the format begins is the same in
  the format and in the result. -/
  starts : SameStarts (bearerPattern isWord) none none (substituteTexts authPattern none ps)

instance (isWord : Char → Bool) (ps : List Part) : Decidable (RedactsParts isWord ps) :=
  decidable_of_iff (_ ∧ _ ∧ _ ∧ _)
    ⟨fun h => ⟨h.1, h.2.1, h.2.2.1, h.2.2.2⟩, fun h => ⟨h.1, h.2, h.3, h.4⟩⟩

/-- The conversions of a format hold no secret once its arguments are redacted. -/
private theorem RedactsParts.isRedacted {w : List Char} {args : List (List Char)} {ps : List Part}
    (h : RedactsParts tables.isWord ps) (hps : parts tables.isPrintable 0 w
      (args.map (redactSecrets tables.isWord)) = some ps) {source output : List Char}
    (hp : .conversion source output ∈ ps) :
    IsRedacted tables.isWord source ∧ IsRedacted tables.isWord output := by
  obtain ⟨hspells, -⟩ := parts_eq_some.mp hps
  obtain ⟨m, kind, hkind, hsource⟩ := hspells.isSpecifier hp
  refine ⟨isRedacted_of_isSpecifier hsource hkind, ?_⟩
  rcases h.outputs _ hp with rfl | houtput
  · obtain ⟨arg, -, rfl⟩ := List.mem_map.mp (hspells.mem_args hp)
    exact isRedacted_redactSecrets _ _
  · exact isRedacted_iff.mpr houtput

/-- The redacted format is one again, and it makes of the redacted arguments what redaction makes of
the message as formatted with them. -/
theorem RedactsParts.parts_redactSecrets {w : List Char} {args : List (List Char)} {ps : List Part}
    (h : RedactsParts tables.isWord ps) (hps : parts tables.isPrintable 0 w
      (args.map (redactSecrets tables.isWord)) = some ps) :
    ∃ ps', parts tables.isPrintable 0 (redactSecrets tables.isWord w)
        (args.map (redactSecrets tables.isWord)) = some ps' ∧
      ps'.flatMap Part.output = redactSecrets tables.isWord (ps.flatMap Part.output) := by
  have hword (c : Char) (hc : foldCase c = 'b') : tables.isWord c = true :=
    tables.isWord_of_isAlphanum c (isAlphanum_of_foldCase hc)
  obtain ⟨ps', hrewrites, hsources, houtputs⟩ :=
    redactPieces_parts hword (fun _ _ hp => h.isRedacted hps hp) h.starts
  obtain ⟨hspells, rfl⟩ := parts_eq_some.mp hps
  refine ⟨ps', parts_eq_some.mpr ⟨hspells.rewrite hrewrites, ?_⟩, ?_⟩
  · rw [List.flatMap_def, h.format.redactSecrets_flatten, hsources, List.flatMap_def]
  · rw [List.flatMap_def, ← houtputs, ← h.message.redactSecrets_flatten, List.flatMap_def]

namespace LogRecord

/-- Filtering the record loses no message, and no secret is left in it. -/
def EmitsRedacted (tables : CharacterTables) (record : LogRecord) : Prop :=
  ∀ message, record.getMessage tables = some message →
    ∃ message', (SecretRedactionFilter.filter tables.isWord record).2.getMessage tables =
      some message' ∧ redactSecrets tables.isWord message' = message'

/-- There are no arguments, or redaction works on the parts of the message, as formatted with the
redacted arguments, one by one. -/
def Confined (tables : CharacterTables) (record : LogRecord) : Prop :=
  record.args ≠ [] → ∀ ps ∈ parts tables.isPrintable 0 record.msg
    (record.args.map (redactSecrets tables.isWord)), RedactsParts tables.isWord ps

/-- The message of a filtered record. -/
theorem getMessage_filter {record : LogRecord} (hargs : record.args ≠ []) :
    (SecretRedactionFilter.filter tables.isWord record).2.getMessage tables =
      format tables.isPrintable (redactSecrets tables.isWord record.msg)
        (record.args.map (redactSecrets tables.isWord)) := by
  have hargs' : record.args.map (redactLogArgument tables.isWord) ≠ [] :=
    mt List.map_eq_nil_iff.mp hargs
  simp only [SecretRedactionFilter.filter, getMessage, if_neg hargs, if_neg hargs']
  rfl

/-- The message with the redacted arguments, when the message can be formatted. -/
private theorem exists_parts {record : LogRecord} {message : List Char}
    (hargs : record.args ≠ []) (h : record.getMessage tables = some message) :
    ∃ ps, parts tables.isPrintable 0 record.msg
      (record.args.map (redactSecrets tables.isWord)) = some ps := by
  rw [getMessage, if_neg hargs] at h
  obtain ⟨qs, hqs, -⟩ := Option.map_eq_some_iff.mp h
  refine exists_parts_map (fun arg harg => ?_) hqs
  obtain ⟨c, rfl⟩ := List.length_eq_one_iff.mp harg
  rw [(IsRedacted.singleton c).redactSecrets_eq_self, harg]

/-- A confined record is emitted without a secret. -/
theorem emitsRedacted_of_confined {record : LogRecord} (h : record.Confined tables) :
    record.EmitsRedacted tables := by
  intro message hmessage
  by_cases hargs : record.args = []
  · refine ⟨redactSecrets tables.isWord record.msg, ?_, redactSecrets_redactSecrets _ _⟩
    simp only [getMessage, SecretRedactionFilter.filter, hargs, if_true]
  · obtain ⟨ps, hps⟩ := exists_parts hargs hmessage
    obtain ⟨ps', hps', houtput⟩ := (h hargs ps hps).parts_redactSecrets hps
    refine ⟨ps'.flatMap Part.output, ?_, ?_⟩
    · rw [getMessage_filter hargs, format, hps', Option.map_some]
    · rw [houtput, redactSecrets_redactSecrets]

end LogRecord

/-- Tables that agree with those of Python on the characters of ASCII. -/
def CharacterTables.ascii : CharacterTables where
  isWord c := c.isAlphanum || c = '_'
  isPrintable _ := false
  isWord_of_isAlphanum c hc := by rw [hc, Bool.true_or]

namespace LogRecord

/-- A token in the format and a password in an argument. -/
theorem emitsRedacted_twoSecrets :
    (⟨"token=a for %s: %s".toList, ["bob".toList, "password: b".toList]⟩ : LogRecord).Confined
        .ascii ∧
      (⟨"token=a for %s: %s".toList, ["bob".toList, "password: b".toList]⟩ :
        LogRecord).EmitsRedacted .ascii := by
  have hconfined : (⟨"token=a for %s: %s".toList, ["bob".toList, "password: b".toList]⟩ :
      LogRecord).Confined .ascii := by
    intro _
    decide +kernel
  exact ⟨hconfined, emitsRedacted_of_confined hconfined⟩

/-- A specifier is lost that stands where a secret is expected, and a secret remains that stands in
another argument than its key word. -/
theorem not_emitsRedacted :
    ¬ (⟨"token=%s".toList, ["x".toList]⟩ : LogRecord).EmitsRedacted .ascii ∧
      ¬ (⟨"%s=%s".toList, ["token".toList, "x".toList]⟩ : LogRecord).EmitsRedacted .ascii := by
  constructor
  · intro h
    obtain ⟨message, hmessage, -⟩ := h "token=x".toList (by decide +kernel)
    have hlost : (SecretRedactionFilter.filter CharacterTables.ascii.isWord
        ⟨"token=%s".toList, ["x".toList]⟩).2.getMessage .ascii = none := by decide +kernel
    cases hlost.symm.trans hmessage
  · intro h
    obtain ⟨message, hmessage, hredacted⟩ := h "token=x".toList (by decide +kernel)
    have hkept : (SecretRedactionFilter.filter CharacterTables.ascii.isWord
        ⟨"%s=%s".toList, ["token".toList, "x".toList]⟩).2.getMessage .ascii =
          some "token=x".toList := by decide +kernel
    obtain rfl := Option.some.inj (hkept.symm.trans hmessage)
    revert hredacted
    decide +kernel

-- The condition is not necessary: here a secret remains, but `redact_secrets` would not find it.
example : ((SecretRedactionFilter.filter CharacterTables.ascii.isWord
    ⟨"bearer token=%s".toList, ["x".toList]⟩).2.getMessage .ascii).map
      (redactSecrets CharacterTables.ascii.isWord) = some "Bearer [REDACTED]x".toList := by
  decide +kernel

end LogRecord

end DonutMonitor
