import Mathlib.Data.List.TakeWhile
import Mathlib.Data.List.Forall2

/-!
# The operator `%` of texts

The text that `%` of Python makes of a format and a tuple of texts, or `none` where it raises. Which
characters are printable follows the Unicode tables of the interpreter and is a parameter.

## Main definitions

* `PercentFormat.Part` — a run of the format without `%`, or a specifier with what it is replaced
  by.
* `PercentFormat.parts`, `PercentFormat.format` — the parts of a format, and the text.
* `PercentFormat.Spells` — the parts that a format with some arguments can have.

## Main results

* `PercentFormat.parts_eq_some` — the parts of a format are the only ones that spell it.
-/

namespace PercentFormat

/-! ### Conversion specifiers -/

/-- The characters of the conversion flags. -/
def isFlag (c : Char) : Bool := "-+ #0".toList.contains c

/-- The characters that may stand between `%` and the conversion type. -/
def isModifier (c : Char) : Bool := "-+ #0123456789.hlL".toList.contains c

/-- The conversion flag for texts, the minimum field width and the precision. -/
structure Modifiers where
  leftAdjusted : Bool := false
  width : ℕ := 0
  precision : Option ℕ := none

/-- The number that digits denote. -/
def number (digits : List Char) : ℕ :=
  digits.foldl (fun n c => 10 * n + (c.toNat - '0'.toNat)) 0

/-- The modifiers that a text denotes: flags, a width, a precision and one length modifier, in this
order. A width has to fit into a `Py_ssize_t`, a precision into an `int`. -/
def modifiers? (w : List Char) : Option Modifiers :=
  let flags := w.takeWhile isFlag
  let w := w.dropWhile isFlag
  let width := number (w.takeWhile Char.isDigit)
  let w := w.dropWhile Char.isDigit
  let (precision, w) := match w with
    | '.' :: w => (some (number (w.takeWhile Char.isDigit)), w.dropWhile Char.isDigit)
    | w => (none, w)
  let w := match w with
    | 'h' :: w | 'l' :: w | 'L' :: w => w
    | w => w
  if w = [] ∧ width ≤ 9223372036854775807 ∧ precision.getD 0 ≤ 2147483647 then
    some { leftAdjusted := flags.contains '-', width, precision }
  else none

/-- The modifiers of the specifier whose `%` the text follows, its conversion type and the number of
its characters after `%`. -/
def specifier? (w : List Char) : Option (Modifiers × Char × ℕ) :=
  match w.dropWhile isModifier with
  | [] => none
  | kind :: _ =>
    let modifiers := w.takeWhile isModifier
    (modifiers? modifiers).map fun m => (m, kind, modifiers.length + 1)

/-! ### Conversions -/

/-- The last `digits` hexadecimal digits of a number. -/
def hex : ℕ → ℕ → List Char
  | 0, _ => []
  | digits + 1, n => hex digits (n / 16) ++ [Nat.digitChar (n % 16)]

/-- An escape sequence for a character by its number. -/
def escape (c : Char) : List Char :=
  let n := c.toNat
  if n ≤ 0xff then '\\' :: 'x' :: hex 2 n
  else if n ≤ 0xffff then '\\' :: 'u' :: hex 4 n
  else '\\' :: 'U' :: hex 8 n

/-- A character in the representation of a text between quotes. -/
def reprChar (isPrintable : Char → Bool) (quote c : Char) : List Char :=
  if c = quote ∨ c = '\\' then ['\\', c]
  else if c = '\t' then ['\\', 't']
  else if c = '\n' then ['\\', 'n']
  else if c = '\r' then ['\\', 'r']
  else if c.toNat < 0x20 ∨ c.toNat = 0x7f then escape c
  else if c.toNat < 0x7f ∨ isPrintable c = true then [c]
  else escape c

/-- `repr` of a text. -/
def repr (isPrintable : Char → Bool) (w : List Char) : List Char :=
  let quote := if w.contains '\'' && !w.contains '"' then '"' else '\''
  quote :: (w.flatMap (reprChar isPrintable quote) ++ [quote])

/-- `ascii` of a text. -/
def ascii (w : List Char) : List Char := repr (fun _ => false) w

/-- Cuts a text down to the precision. -/
def Modifiers.truncate (m : Modifiers) (w : List Char) : List Char :=
  match m.precision with
  | some precision => w.take precision
  | none => w

/-- Fills a text up to the width. -/
def Modifiers.pad (m : Modifiers) (w : List Char) : List Char :=
  let fill := List.replicate (m.width - w.length) ' '
  if m.leftAdjusted then w ++ fill else fill ++ w

/-- What a specifier makes of a text, unless it raises: all other conversion types are unknown or
want a number. -/
def convert (isPrintable : Char → Bool) (m : Modifiers) (kind : Char) (arg : List Char) :
    Option (List Char) :=
  match kind with
  | 's' => some (m.pad (m.truncate arg))
  | 'r' => some (m.pad (m.truncate (repr isPrintable arg)))
  | 'a' => some (m.pad (m.truncate (ascii arg)))
  | 'c' => if arg.length = 1 then some (m.pad arg) else none
  | _ => none

/-! ### Formats -/

/-- A part of a format. -/
inductive Part where
  /-- A run of characters other than `%`. -/
  | text (w : List Char)
  /-- A specifier, and what stands in its place in the result. -/
  | conversion (source output : List Char)

/-- The part in the format. -/
def Part.source : Part → List Char
  | text w => w
  | conversion source _ => source

/-- The part in the result. -/
def Part.output : Part → List Char
  | text w => w
  | conversion _ output => output

/-- One more character before the parts. -/
def Part.cons (c : Char) : List Part → List Part
  | text w :: ps => text (c :: w) :: ps
  | ps => text [c] :: ps

/-- The parts of a format, after as many characters of a specifier as are still to be passed over.
Every specifier but `%%` takes one of the arguments, and none may be left; with modifiers the type
`%` is unknown. -/
def parts (isPrintable : Char → Bool) : ℕ → List Char → List (List Char) → Option (List Part)
  | _, [], args => if args = [] then some [] else none
  | n + 1, _ :: w, args => parts isPrintable n w args
  | 0, c :: w, args =>
    if c = '%' then
      match specifier? w with
      | none => none
      | some (m, kind, length) =>
        if kind = '%' ∧ length = 1 then
          (parts isPrintable length w args).map (.conversion (c :: w.take length) ['%'] :: ·)
        else match args with
          | [] => none
          | arg :: args => do
            let output ← convert isPrintable m kind arg
            (parts isPrintable length w args).map (.conversion (c :: w.take length) output :: ·)
    else (parts isPrintable 0 w args).map (Part.cons c)

/-- `w % args`. -/
def format (isPrintable : Char → Bool) (w : List Char) (args : List (List Char)) :
    Option (List Char) :=
  (parts isPrintable 0 w args).map fun ps => ps.flatMap Part.output

example : format (fun _ => true) "%-4s|%.2s|%r%%".toList
    ["ab".toList, "abc".toList, "it's".toList] = some "ab  |ab|\"it's\"%".toList := by decide

example : format (fun _ => true) "%5%".toList ["a".toList] = none := by decide

/-! ### What formats spell -/

/-- A conversion specifier with its modifiers and its type. -/
def IsSpecifier (source : List Char) (m : Modifiers) (kind : Char) : Prop :=
  ∃ w, source = '%' :: (w ++ [kind]) ∧ (∀ c ∈ w, isModifier c = true) ∧
    isModifier kind = false ∧ modifiers? w = some m

/-- The parts that a format with these arguments can have. -/
inductive Spells (isPrintable : Char → Bool) : List (List Char) → List Part → Prop
  | nil : Spells isPrintable [] []
  /-- A run without `%`, as long as possible. -/
  | text {w : List Char} {args : List (List Char)} {ps : List Part} (hw : w ≠ [])
      (hpercent : '%' ∉ w) (hps : ∀ w' ps', ps ≠ .text w' :: ps')
      (h : Spells isPrintable args ps) : Spells isPrintable args (.text w :: ps)
  /-- The specifier for the character `%`. -/
  | percent {args : List (List Char)} {ps : List Part} (h : Spells isPrintable args ps) :
      Spells isPrintable args (.conversion ['%', '%'] ['%'] :: ps)
  /-- A specifier that takes an argument. -/
  | conversion {source : List Char} {m : Modifiers} {kind : Char} {arg output : List Char}
      {args : List (List Char)} {ps : List Part} (hsource : IsSpecifier source m kind)
      (hconvert : convert isPrintable m kind arg = some output) (h : Spells isPrintable args ps) :
      Spells isPrintable (arg :: args) (.conversion source output :: ps)

variable {isPrintable : Char → Bool} {w : List Char} {args : List (List Char)} {ps : List Part}

theorem specifier?_eq_some {m : Modifiers} {kind : Char} {length : ℕ} :
    specifier? w = some (m, kind, length) ↔ ∃ v rest, w = v ++ kind :: rest ∧
      (∀ c ∈ v, isModifier c = true) ∧ isModifier kind = false ∧ modifiers? v = some m ∧
        length = v.length + 1 := by
  constructor
  · intro h
    have hw := List.takeWhile_append_dropWhile (p := isModifier) (l := w)
    rw [specifier?] at h
    split at h
    · cases h
    · next kind' rest hrest =>
      obtain ⟨m', hm, heq⟩ := Option.map_eq_some_iff.mp h
      obtain ⟨rfl, rfl, rfl⟩ : m' = m ∧ kind' = kind ∧
          (w.takeWhile isModifier).length + 1 = length := by simpa using heq
      have hkind := List.head?_dropWhile_not isModifier w
      rw [hrest] at hw hkind
      exact ⟨w.takeWhile isModifier, rest, hw.symm, fun c hc => List.mem_takeWhile_imp hc,
        hkind, hm, rfl⟩
  · rintro ⟨v, rest, rfl, hv, hkind, hm, rfl⟩
    have htake : (v ++ kind :: rest).takeWhile isModifier = v := by
      rw [List.takeWhile_append_of_pos hv,
        List.takeWhile_cons_of_neg (Bool.eq_false_iff.mp hkind), List.append_nil]
    have hdrop : (v ++ kind :: rest).dropWhile isModifier = kind :: rest := by
      rw [List.dropWhile_append_of_pos hv,
        List.dropWhile_cons_of_neg (Bool.eq_false_iff.mp hkind)]
    rw [specifier?, hdrop, htake]
    simp only [hm, Option.map_some]

private theorem parts_drop (isPrintable : Char → Bool) (n : ℕ) (w : List Char)
    (args : List (List Char)) :
    parts isPrintable n w args = parts isPrintable 0 (w.drop n) args := by
  induction w generalizing n with
  | nil => cases n <;> rfl
  | cons c w ih =>
    cases n with
    | zero => rfl
    | succ n => exact ih n

/-- A specifier that was found, in the text that follows `%`. -/
private theorem specifier_source {m : Modifiers} {kind : Char} {length : ℕ}
    (h : specifier? w = some (m, kind, length)) :
    IsSpecifier ('%' :: w.take length) m kind ∧ (w.drop length).length < w.length := by
  obtain ⟨v, rest, rfl, hv, hkind, hm, rfl⟩ := specifier?_eq_some.mp h
  have hsplit : v ++ kind :: rest = (v ++ [kind]) ++ rest := by simp
  have hlength : (v ++ [kind]).length = v.length + 1 := List.length_append
  rw [hsplit, List.take_left' hlength, List.drop_left' hlength, List.length_append, hlength]
  exact ⟨⟨v, rfl, hv, hkind, hm⟩, by omega⟩

/-- A specifier is found wherever it stands. -/
private theorem specifier_of_source {source : List Char} {m : Modifiers} {kind : Char}
    (h : IsSpecifier source m kind) :
    ∃ u, source = '%' :: u ∧ ∀ rest, specifier? (u ++ rest) = some (m, kind, u.length) := by
  obtain ⟨v, rfl, hv, hkind, hm⟩ := h
  exact ⟨v ++ [kind], rfl, fun rest => specifier?_eq_some.mpr
    ⟨v, rest, by simp, hv, hkind, hm, List.length_append⟩⟩

private theorem spells_cons {c : Char} (hc : c ≠ '%') (h : Spells isPrintable args ps) :
    Spells isPrintable args (Part.cons c ps) ∧
      (Part.cons c ps).flatMap Part.source = c :: ps.flatMap Part.source := by
  cases h with
  | nil => exact ⟨.text (List.cons_ne_nil _ _) (by simpa using hc.symm) nofun .nil, rfl⟩
  | text hw hpercent hps h =>
    exact ⟨.text (List.cons_ne_nil _ _) (by simpa [hc.symm] using hpercent) hps h, rfl⟩
  | percent h =>
    exact ⟨.text (List.cons_ne_nil _ _) (by simpa using hc.symm) nofun (.percent h), rfl⟩
  | conversion hsource hconvert h =>
    exact ⟨.text (List.cons_ne_nil _ _) (by simpa using hc.symm) nofun
      (.conversion hsource hconvert h), rfl⟩

private theorem spells_of_parts (h : parts isPrintable 0 w args = some ps) :
    Spells isPrintable args ps ∧ w = ps.flatMap Part.source := by
  induction hn : w.length using Nat.strongRecOn generalizing w args ps with
  | _ n ih =>
    subst hn
    cases w with
    | nil =>
      rw [parts] at h
      split_ifs at h with hargs
      obtain rfl := Option.some.inj h
      exact ⟨hargs ▸ .nil, rfl⟩
    | cons c w =>
      rw [parts] at h
      split_ifs at h with hc
      · subst hc
        split at h
        · cases h
        · next m kind length hspecifier =>
          obtain ⟨hsource, hlt⟩ := specifier_source hspecifier
          have hw (ps : List Part) (output : List Char)
              (hps : w.drop length = ps.flatMap Part.source) : '%' :: w =
              (Part.conversion ('%' :: w.take length) output :: ps).flatMap Part.source := by
            rw [List.flatMap_cons, ← hps, Part.source, List.cons_append, List.take_append_drop]
          split_ifs at h with hkind
          · obtain ⟨ps, hps, rfl⟩ := Option.map_eq_some_iff.mp h
            rw [parts_drop] at hps
            obtain ⟨hspells, hrest⟩ := ih _ (hlt.trans (Nat.lt_succ_self _)) hps rfl
            have hpercent : '%' :: w.take length = ['%', '%'] := by
              obtain ⟨v, rest, rfl, -, -, -, hlength⟩ := specifier?_eq_some.mp hspecifier
              obtain rfl := List.length_eq_zero_iff.mp (by omega : v.length = 0)
              rw [hkind.1, hkind.2]
              rfl
            exact ⟨hpercent ▸ .percent hspells, hw ps _ hrest⟩
          · split at h
            · cases h
            · next arg args =>
              obtain ⟨output, hconvert, h⟩ := Option.bind_eq_some_iff.mp h
              obtain ⟨ps, hps, rfl⟩ := Option.map_eq_some_iff.mp h
              rw [parts_drop] at hps
              obtain ⟨hspells, hrest⟩ := ih _ (hlt.trans (Nat.lt_succ_self _)) hps rfl
              exact ⟨.conversion hsource hconvert hspells, hw ps _ hrest⟩
      · obtain ⟨ps, hps, rfl⟩ := Option.map_eq_some_iff.mp h
        obtain ⟨hspells, rfl⟩ := ih _ (Nat.lt_succ_self _) hps rfl
        obtain ⟨hspells, hsource⟩ := spells_cons hc hspells
        exact ⟨hspells, hsource.symm⟩

/-- The conversion types that do not raise. -/
theorem mem_of_convert {m : Modifiers} {kind : Char} {arg output : List Char}
    (h : convert isPrintable m kind arg = some output) : kind ∈ "srac".toList := by
  unfold convert at h
  split at h
  · decide
  · decide
  · decide
  · decide
  · cases h

private theorem parts_of_spells (h : Spells isPrintable args ps) :
    parts isPrintable 0 (ps.flatMap Part.source) args = some ps := by
  induction h with
  | nil => rfl
  | @text w args ps hw hpercent hps h ih =>
    have hcons : ∀ v, v ≠ [] → '%' ∉ v →
        parts isPrintable 0 (v ++ ps.flatMap Part.source) args = some (.text v :: ps) := by
      intro v hv hpercent
      induction v with
      | nil => exact absurd rfl hv
      | cons c v ihv =>
        obtain ⟨hc, hpercent⟩ := not_or.mp (mt List.mem_cons.mpr hpercent)
        rw [List.cons_append, parts, if_neg (Ne.symm hc)]
        rcases eq_or_ne v [] with rfl | hv
        · rw [List.nil_append, ih, Option.map_some, Part.cons]
          exact hps
        · rw [ihv hv hpercent]
          rfl
    exact hcons w hw hpercent
  | @percent args ps h ih =>
    have hspecifier : specifier? ('%' :: ps.flatMap Part.source) = some ({}, '%', 1) :=
      specifier?_eq_some.mpr ⟨[], _, rfl, by simp, by decide, rfl, rfl⟩
    rw [List.flatMap_cons, Part.source, List.cons_append, parts, if_pos rfl, List.cons_append,
      List.nil_append, hspecifier]
    dsimp only
    rw [if_pos ⟨rfl, rfl⟩, parts_drop, List.drop_one, List.tail_cons, ih, Option.map_some]
    rfl
  | @conversion source m kind arg output args ps hsource hconvert h ih =>
    obtain ⟨u, rfl, hu⟩ := specifier_of_source hsource
    have hkind : kind ≠ '%' := fun hkind => absurd (mem_of_convert hconvert) (hkind ▸ by decide)
    rw [List.flatMap_cons, Part.source, List.cons_append, parts, if_pos rfl, hu]
    dsimp only
    rw [if_neg (hkind ·.1), hconvert, Option.bind_eq_bind, Option.bind_some, parts_drop,
      List.take_left, List.drop_left, ih, Option.map_some]

/-- The parts of a format are the only ones that spell it. -/
theorem parts_eq_some : parts isPrintable 0 w args = some ps ↔
    Spells isPrintable args ps ∧ w = ps.flatMap Part.source := by
  refine ⟨spells_of_parts, ?_⟩
  rintro ⟨h, rfl⟩
  exact parts_of_spells h

/-- Each conversion of a format is a specifier, which does not raise. -/
theorem Spells.isSpecifier {source output : List Char} (h : Spells isPrintable args ps)
    (hp : .conversion source output ∈ ps) :
    ∃ m, ∃ kind ∈ "srac%".toList, IsSpecifier source m kind := by
  induction h with
  | nil => cases hp
  | text hw hpercent hps h ih =>
    exact ih ((List.mem_cons.mp hp).resolve_left fun hp => nomatch hp)
  | percent h ih =>
    rcases List.mem_cons.mp hp with heq | hp
    · obtain ⟨rfl, -⟩ := Part.conversion.inj heq
      exact ⟨{}, '%', by decide, [], rfl, by simp, by decide, rfl⟩
    · exact ih hp
  | conversion hsource hconvert h ih =>
    rcases List.mem_cons.mp hp with heq | hp
    · obtain ⟨rfl, -⟩ := Part.conversion.inj heq
      exact ⟨_, _, List.mem_append_left ['%'] (mem_of_convert hconvert), hsource⟩
    · exact ih hp

/-- A plain `%s` puts an argument as it is. -/
theorem Spells.mem_args {output : List Char} (h : Spells isPrintable args ps)
    (hp : .conversion "%s".toList output ∈ ps) : output ∈ args := by
  have hplain {m : Modifiers} {kind : Char} (hsource : IsSpecifier "%s".toList m kind) :
      kind = 's' ∧ m = {} := by
    obtain ⟨w, hw, -, -, hm⟩ := hsource
    have hsplit : [] ++ ['s'] = w ++ [kind] := (List.cons.inj hw).2
    obtain ⟨rfl, hkind⟩ := List.append_inj' hsplit rfl
    exact ⟨(List.singleton_inj.mp hkind).symm, (Option.some.inj hm).symm⟩
  induction h with
  | nil => cases hp
  | text hw hpercent hps h ih =>
    exact ih ((List.mem_cons.mp hp).resolve_left fun hp => nomatch hp)
  | percent h ih =>
    rcases List.mem_cons.mp hp with heq | hp
    · exact absurd (Part.conversion.inj heq).1 (by decide)
    · exact ih hp
  | conversion hsource hconvert h ih =>
    rcases List.mem_cons.mp hp with heq | hp
    · obtain ⟨rfl, rfl⟩ := Part.conversion.inj heq
      obtain ⟨rfl, rfl⟩ := hplain hsource
      obtain rfl := Option.some.inj hconvert
      simp [Modifiers.pad, Modifiers.truncate]
    · exact List.mem_cons_of_mem _ (ih hp)

/-! ### Other texts and other arguments -/

/-- A part of the same kind: a text that is neither emptied nor given a `%`, or the same
conversion. -/
def Part.Rewrites : Part → Part → Prop
  | text w, text w' => (w ≠ [] → w' ≠ []) ∧ ('%' ∉ w → '%' ∉ w')
  | conversion source output, p => p = conversion source output
  | text _, conversion _ _ => False

theorem Part.Rewrites.trans {p p' p'' : Part} (h : p.Rewrites p') (h' : p'.Rewrites p'') :
    p.Rewrites p'' := by
  cases p with
  | text w =>
    cases p' with
    | text w' =>
      cases p'' with
      | text w'' => exact ⟨h'.1 ∘ h.1, h'.2 ∘ h.2⟩
      | conversion => exact h'.elim
    | conversion => exact h.elim
  | conversion source output =>
    obtain rfl := h
    exact h'

theorem rewrites_trans {ps' ps'' : List Part} (h : List.Forall₂ Part.Rewrites ps ps')
    (h' : List.Forall₂ Part.Rewrites ps' ps'') : List.Forall₂ Part.Rewrites ps ps'' := by
  induction h generalizing ps'' with
  | nil => exact h'
  | cons hp hrest ih =>
    obtain ⟨p'', ps'', hp', hrest', rfl⟩ := List.forall₂_cons_left_iff.mp h'
    exact .cons (hp.trans hp') (ih hrest')

/-- Formats stay formats when their texts are rewritten. -/
theorem Spells.rewrite {ps' : List Part} (h : Spells isPrintable args ps)
    (hps : List.Forall₂ Part.Rewrites ps ps') : Spells isPrintable args ps' := by
  induction h generalizing ps' with
  | nil =>
    cases hps
    exact .nil
  | @text w args ps hw hpercent hnext h ih =>
    obtain ⟨p', ps', hp, hrest, rfl⟩ := List.forall₂_cons_left_iff.mp hps
    cases p' with
    | conversion => exact hp.elim
    | text w' =>
      refine .text (hp.1 hw) (hp.2 hpercent) ?_ (ih hrest)
      rintro v vs rfl
      obtain ⟨p, ps, hp, -, rfl⟩ := List.forall₂_cons_right_iff.mp hrest
      cases p with
      | text v' => exact hnext _ _ rfl
      | conversion => cases hp
  | percent h ih =>
    obtain ⟨p', ps', rfl, hrest, rfl⟩ := List.forall₂_cons_left_iff.mp hps
    exact .percent (ih hrest)
  | conversion hsource hconvert h ih =>
    obtain ⟨p', ps', rfl, hrest, rfl⟩ := List.forall₂_cons_left_iff.mp hps
    exact .conversion hsource hconvert (ih hrest)

/-- A conversion raises for one text when it raises for another, unless just one of them has one
character. -/
theorem convert_isSome {m : Modifiers} {kind : Char} {arg arg' : List Char}
    (harg : arg.length = 1 → arg'.length = 1)
    (h : (convert isPrintable m kind arg).isSome) :
    (convert isPrintable m kind arg').isSome := by
  unfold convert at h ⊢
  split at h
  · rfl
  · rfl
  · rfl
  · split_ifs at h with hlength
    · rw [if_pos (harg hlength)]
      rfl
    · cases h
  · exact h

/-- A part with the same source, and no text where there was none. -/
private def Part.SameSource (p p' : Part) : Prop :=
  p'.source = p.source ∧ ∀ w, p' = .text w → p = .text w

private theorem Spells.exists_sameSource {f : List Char → List Char}
    (hf : ∀ arg, arg.length = 1 → (f arg).length = 1) (h : Spells isPrintable args ps) :
    ∃ ps', Spells isPrintable (args.map f) ps' ∧ List.Forall₂ Part.SameSource ps ps' := by
  induction h with
  | nil => exact ⟨[], .nil, .nil⟩
  | @text w args ps hw hpercent hps h ih =>
    obtain ⟨ps', hspells, hsame⟩ := ih
    refine ⟨.text w :: ps', .text hw hpercent ?_ hspells, .cons ⟨rfl, fun _ hw' => hw'⟩ hsame⟩
    rintro w' ps'' rfl
    obtain ⟨p, ps, hp, -, rfl⟩ := List.forall₂_cons_right_iff.mp hsame
    exact hps w' ps (by rw [hp.2 w' rfl])
  | percent h ih =>
    obtain ⟨ps', hspells, hsame⟩ := ih
    exact ⟨_, .percent hspells, .cons ⟨rfl, fun _ hw => nomatch hw⟩ hsame⟩
  | @conversion source m kind arg output args ps hsource hconvert h ih =>
    obtain ⟨ps', hspells, hsame⟩ := ih
    obtain ⟨output', houtput⟩ := Option.isSome_iff_exists.mp
      (convert_isSome (hf arg) (Option.isSome_iff_exists.mpr ⟨output, hconvert⟩))
    exact ⟨.conversion source output' :: ps', .conversion hsource houtput hspells,
      .cons ⟨rfl, fun _ hw => nomatch hw⟩ hsame⟩

/-- A format stays one for other arguments, as long as no single character becomes something
else. -/
theorem exists_parts_map {f : List Char → List Char}
    (hf : ∀ arg, arg.length = 1 → (f arg).length = 1) (h : parts isPrintable 0 w args = some ps) :
    ∃ ps', parts isPrintable 0 w (args.map f) = some ps' := by
  obtain ⟨hspells, rfl⟩ := parts_eq_some.mp h
  obtain ⟨ps', hspells', hsame⟩ := hspells.exists_sameSource hf
  refine ⟨ps', parts_eq_some.mpr ⟨hspells', ?_⟩⟩
  clear h hspells hspells'
  induction hsame with
  | nil => rfl
  | cons hp hrest ih => rw [List.flatMap_cons, List.flatMap_cons, hp.1, ih]

end PercentFormat
