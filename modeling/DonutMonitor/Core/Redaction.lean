import DonutMonitor.Core.ItemIds
import DonutMonitor.Foundations.Regex

/-!
# Redaction of secrets

`redact_secrets`, with the three expressions that it substitutes.  Texts are lists of characters.
The expressions ignore case, and for them the characters that match `\w` are a parameter, since
they follow the Unicode tables of the interpreter.
-/

namespace DonutMonitor

/-! ### The sets of characters of the expressions -/

/-- What ignoring the case makes of a character, as far as the letters `a` to `z` are concerned:
the capital letters and the four others that match one of them. -/
def foldCase (c : Char) : Char :=
  if c = '\u0130' ∨ c = '\u0131' then 'i'
  else if c = '\u017f' then 's'
  else if c = '\u212a' then 'k'
  else c.toLower

/-- `['\"]`. -/
def isQuote (c : Char) : Bool := c = '\'' || c = '"'

/-- `[:=]`. -/
def isAssign (c : Char) : Bool := c = ':' || c = '='

/-- `[^\s,'\"}]`. -/
def isSecret (c : Char) : Bool := !(isSpace c || c = ',' || isQuote c || c = '}')

/-- `[A-Za-z0-9._~+/=-]`. -/
def isBearer (c : Char) : Bool := (foldCase c).isAlphanum || "._~+/=-".toList.contains c

/-! ### The three expressions -/

/-- `['\"]?\s*[:=]\s*['\"]?`. -/
def separator : Regex Char :=
  .seq (.optional (.set isQuote)) (.seq (.run isSpace) (.seq (.set isAssign)
    (.seq (.run isSpace) (.optional (.set isQuote)))))

/-- `bearer\s+`. -/
def bearer : Regex Char := .seq (.word foldCase "bearer".toList) (.run1 isSpace)

/-- `[REDACTED]`. -/
def redacted : List Char := "[REDACTED]".toList

/-- `_AUTH_PATTERN` and its replacement. -/
def authPattern : Substitution Char where
  anchor _ _ := true
  kept := .seq (.word foldCase "authorization".toList) separator
  value := .seq (.optional bearer) (.run1 isSecret)
  replace kept := kept ++ redacted

/-- `_BEARER_PATTERN` and its replacement. -/
def bearerPattern (isWord : Char → Bool) : Substitution Char where
  anchor before after := before.any isWord != after.any isWord
  kept := .empty
  value := .seq bearer (.run1 isBearer)
  replace _ := "Bearer ".toList ++ redacted

/-- `_TOKEN_FIELD_PATTERN` and its replacement. -/
def tokenFieldPattern : Substitution Char where
  anchor _ _ := true
  kept := .seq (.alt (.word foldCase "token".toList) (.alt (.word foldCase "secret".toList)
    (.word foldCase "password".toList))) separator
  value := .run1 isSecret
  replace kept := kept ++ redacted

/-- `redact_secrets`. -/
def redactSecrets (isWord : Char → Bool) (value : List Char) : List Char :=
  tokenFieldPattern.sub ((bearerPattern isWord).sub (authPattern.sub value))

end DonutMonitor
