import DonutMonitor.Core.RedactionFields
import DonutMonitor.Foundations.TextPieces

/-!
# The token of an authorization header

Of a text with an authorization header, only what stands before the token and after it enters the
redacted text. The first expression finds the header where it stands, since the key word does not
overlap with itself; it takes the word `bearer` with its blanks, since there is a token after them;
and it takes the whole token, since no character of a token ends it. The two other expressions then
work on a text that does not depend on the token.

## Main results

* `authPattern_sub_header` — what the first expression makes of a text with a header.
* `redactSecrets_header` — the redacted text is the same for any two tokens.
-/

namespace DonutMonitor

/-- The characters of `isSpace`. -/
private def spaces : List Char :=
  (List.range' 9 5 ++ List.range' 28 5 ++ [0x85, 0xA0, 0x1680] ++ List.range' 0x2000 11 ++
    [0x2028, 0x2029, 0x202F, 0x205F, 0x3000]).map Char.ofNat

private theorem mem_spaces {c : Char} (h : isSpace c = true) : c ∈ spaces := by
  refine List.mem_map.mpr ⟨c.toNat, ?_, Char.ofNat_toNat c⟩
  simp only [isSpace, Bool.or_eq_true, Bool.and_eq_true, decide_eq_true_eq, beq_iff_eq] at h
  simp only [List.mem_append, List.mem_range'_1, List.mem_cons, List.not_mem_nil, or_false]
  omega

/-- The characters of a token are characters of a secret. -/
theorem isSecret_of_isBearer {c : Char} (h : isBearer c = true) : isSecret c = true := by
  have hother (d : Char) (hd : isBearer d = false) : c ≠ d := by
    rintro rfl
    cases h.symm.trans hd
  have hspace : isSpace c = false := by
    rw [← Bool.not_eq_true]
    intro hspace
    have hspaces : ∀ d ∈ spaces, isBearer d = false := forall_mem_of_all (by decide)
    cases h.symm.trans (hspaces c (mem_spaces hspace))
  simp [isSecret, isQuote, hspace, hother ',' (by decide), hother '\'' (by decide),
    hother '"' (by decide), hother '}' (by decide)]

private theorem isSpace_of_isSecret {c : Char} (h : isSecret c = true) : isSpace c = false := by
  rw [← Bool.not_eq_true]
  intro hspace
  rw [isSecret, hspace] at h
  cases h

private theorem dropWhile_append {p : Char → Bool} {u v : List Char} (hu : ∀ c ∈ u, p c = true)
    (hv : ∀ c ∈ v.head?, p c = false) : (u ++ v).dropWhile p = v := by
  rw [List.dropWhile_append_of_pos hu]
  cases v with
  | nil => rfl
  | cons c v => exact List.dropWhile_cons_of_neg (Bool.eq_false_iff.mp (hv c rfl))

/-- What stands after the word `bearer` and its blanks is determined. -/
private theorem bearer_append {b b' v v' : List Char} (h : bearer.Accepts b)
    (h' : bearer.Accepts b') (hv : ∀ c ∈ v.head?, isSpace c = false)
    (hv' : ∀ c ∈ v'.head?, isSpace c = false) (heq : b ++ v = b' ++ v') : v = v' := by
  obtain ⟨k, w, rfl, hk, hw⟩ := h
  obtain ⟨k', w', rfl, hk', hw'⟩ := h'
  have hlength : k.length = k'.length := by
    rw [← List.length_map foldCase, Regex.accepts_word.mp hk, ← Regex.accepts_word.mp hk',
      List.length_map]
  have hspaces {w : List Char} (hw : (Regex.run1 isSpace).Accepts w) :
      ∀ c ∈ w, isSpace c = true := by
    obtain ⟨c, u, rfl, hc, hu⟩ := Regex.accepts_run1.mp hw
    exact List.forall_mem_cons.mpr ⟨hc, hu⟩
  rw [List.append_assoc, List.append_assoc] at heq
  have htail := congrArg (List.dropWhile isSpace) (List.append_inj heq hlength).2
  rwa [dropWhile_append (hspaces hw) hv, dropWhile_append (hspaces hw') hv'] at htail

variable {pre header blanks post token : List Char}

/-- No header begins in a text without the key word, whatever header follows the text. -/
private theorem find_before (hpre : ¬ "authorization".toList <:+: pre.map foldCase)
    (hheader : IsField authKeys header) (w : List Char) {a b : List Char} (hab : pre = a ++ b)
    (hb : b ≠ []) (prev : Option Char) : authPattern.find prev (b ++ (header ++ w)) = none := by
  by_contra hfind
  obtain ⟨⟨field, value, rest⟩, hfind⟩ := Option.ne_none_iff_exists'.mp hfind
  obtain ⟨hfield, -, -⟩ := authPattern_masksFields.of_find hfind
  have hkey (u : List Char) : b ≠ field ++ u := by
    rintro rfl
    obtain ⟨k, t, rfl, hk, -⟩ := hfield
    refine hpre ⟨a.map foldCase, (t ++ u).map foldCase, ?_⟩
    rw [← List.mem_singleton.mp hk, hab, ← List.map_append, ← List.map_append]
    simp
  obtain ⟨hw, -, -⟩ := Substitution.find_eq_some hfind
  rw [List.append_assoc] at hw
  rcases List.append_eq_append_iff.mp hw with ⟨u, hu, hrest⟩ | ⟨u, hu, -⟩
  · rcases eq_or_ne u [] with rfl | hne
    · exact hkey [] (by rw [hu, List.append_nil, List.append_nil])
    · exact hheader.not_within keyWords_authKeys (hu ▸ hfield) hb hne hrest.symm
  · exact hkey u hu

/-- At a header the match takes the word `bearer`, the blanks, and all that follows up to the end of
the secret. -/
private theorem find_header (hheader : IsField authKeys header) (hbearer : bearer.Accepts blanks)
    (htoken : ∀ c ∈ token, isSecret c = true) (hne : token ≠ []) (prev : Option Char) :
    ∃ value, authPattern.find prev (header ++ (blanks ++ (token ++ post))) =
      some (header, value, post.dropWhile isSecret) := by
  obtain ⟨first, word, hfirst, hb⟩ := bearer_cons hbearer
  have hsecret : isSecret first = true := isSecret_of_letter (by rw [hb]; decide)
  have hfind : authPattern.find prev (header ++ first :: (word ++ (token ++ post))) ≠ none :=
    authPattern_masksFields.find_ne_none hheader hsecret
  rw [← List.cons_append, ← hfirst] at hfind
  obtain ⟨⟨field, value, rest⟩, hfind⟩ := Option.ne_none_iff_exists'.mp hfind
  obtain ⟨hw, -, -⟩ := Substitution.find_eq_some hfind
  obtain ⟨hfield, ⟨c, v, rfl, hc⟩, hends⟩ := authPattern_masksFields.of_find hfind
  rw [List.append_assoc] at hw
  obtain rfl : header = field := hheader.eq_of_append keyWords_authKeys hfield hsecret hc
    (by rw [hfirst, List.cons_append] at hw; exact hw)
  rw [List.append_cancel_left_eq] at hw
  -- The option is taken, since the token can be matched after it.
  have htaken : (Regex.seq bearer (.run1 isSecret)).tries (blanks ++ (token ++ post)) ≠ [] := by
    obtain ⟨d, u, rfl⟩ := List.exists_cons_of_ne_nil hne
    refine List.ne_nil_of_mem (a := (blanks ++ d :: u, post)) (Regex.mem_tries.mpr
      ⟨by rw [List.append_assoc], blanks, d :: u, rfl, hbearer, Regex.accepts_run1.mpr
        ⟨d, u, rfl, htoken d List.mem_cons_self, fun e he => htoken e (List.mem_cons_of_mem d he)⟩⟩)
  have hvalue := Substitution.head?_value_of_find hfind
  rw [← hw] at hvalue
  have hmem := List.mem_of_mem_head? ((Regex.head?_tries_optional htaken).symm.trans hvalue)
  obtain ⟨-, b, run, hcons, hb', hrun⟩ := Regex.mem_tries.mp hmem
  obtain ⟨d, u, rfl, hd, hu⟩ := Regex.accepts_run1.mp hrun
  have hsame : token ++ post = (d :: u) ++ rest := by
    refine bearer_append hbearer hb' ?_ ?_ (by rw [hw, hcons, List.append_assoc])
    · intro e he
      refine isSpace_of_isSecret ?_
      obtain ⟨d, u, rfl⟩ := List.exists_cons_of_ne_nil hne
      exact Option.some.inj he ▸ htoken d List.mem_cons_self
    · intro e he
      exact isSpace_of_isSecret (Option.some.inj he ▸ hd)
  refine ⟨c :: v, ?_⟩
  have hdrop := congrArg (List.dropWhile isSecret) hsame
  rw [dropWhile_append (List.forall_mem_cons.mpr ⟨hd, hu⟩) hends,
    List.dropWhile_append_of_pos htoken] at hdrop
  rw [hfind, hdrop]

/-- What the first expression makes of a text with a header. -/
theorem authPattern_sub_header (hpre : ¬ "authorization".toList <:+: pre.map foldCase)
    (hheader : IsField authKeys header) (hbearer : bearer.Accepts blanks)
    (htoken : ∀ c ∈ token, isSecret c = true) (hne : token ≠ []) :
    authPattern.sub (pre ++ (header ++ (blanks ++ (token ++ post)))) =
      pre ++ (header ++ redacted ++ authPattern.sub (post.dropWhile isSecret)) := by
  rw [Substitution.sub, Substitution.subFrom_append_of_find fun a b hab hb =>
    find_before hpre hheader _ hab hb _]
  obtain ⟨value, hfind⟩ : ∃ value, authPattern.find (pre.getLast?.or none)
      (header ++ (blanks ++ (token ++ post))) = some (header, value, post.dropWhile isSecret) :=
    find_header hheader hbearer htoken hne _
  obtain ⟨-, prev, hrest⟩ :=
    Substitution.subFrom_of_find authPattern_masksFields.value_ne_nil hfind
  rw [hrest, Substitution.subFrom_eq_sub fun _ _ => rfl]
  rfl

/-- The token of an authorization header does not enter the redacted text: in a text without the key
word before the header, any two tokens are redacted to the same text, whatever follows. -/
theorem redactSecrets_header (isWord : Char → Bool)
    (pre header blanks post token token' : List Char)
    (hpre : ¬ "authorization".toList <:+: pre.map foldCase)
    (hheader : authPattern.kept.Accepts header) (hbearer : bearer.Accepts blanks)
    (htoken : ∀ c ∈ token, isBearer c = true) (hne : token ≠ [])
    (htoken' : ∀ c ∈ token', isBearer c = true) (hne' : token' ≠ []) :
    redactSecrets isWord (pre ++ (header ++ (blanks ++ (token ++ post)))) =
      redactSecrets isWord (pre ++ (header ++ (blanks ++ (token' ++ post)))) := by
  have hfield := (authPattern_masksFields.kept header).mp hheader
  rw [redactSecrets, redactSecrets,
    authPattern_sub_header hpre hfield hbearer (fun c hc => isSecret_of_isBearer (htoken c hc)) hne,
    authPattern_sub_header hpre hfield hbearer
      (fun c hc => isSecret_of_isBearer (htoken' c hc)) hne']

/-- A token that holds the key word of another field. -/
theorem redactSecrets_header_key :
    redactSecrets Char.isAlphanum ("GET / ".toList ++ ("AUTHORIZATION: ".toList ++
        ("bearer ".toList ++ ("token=bearer".toList ++ "\n".toList)))) =
      redactSecrets Char.isAlphanum ("GET / ".toList ++ ("AUTHORIZATION: ".toList ++
        ("bearer ".toList ++ ("abc".toList ++ "\n".toList)))) :=
  redactSecrets_header Char.isAlphanum "GET / ".toList "AUTHORIZATION: ".toList "bearer ".toList
    "\n".toList "token=bearer".toList "abc".toList (by decide)
    (Regex.mem_tries.mp (by decide :
      ("AUTHORIZATION: ".toList, []) ∈ authPattern.kept.tries "AUTHORIZATION: ".toList)).2
    (Regex.mem_tries.mp (by decide : ("bearer ".toList, []) ∈ bearer.tries "bearer ".toList)).2
    (forall_mem_of_all (by decide)) (by decide) (forall_mem_of_all (by decide)) (by decide)

end DonutMonitor
