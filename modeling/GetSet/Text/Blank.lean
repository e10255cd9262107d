/-!
# Blanks

Two notions of blank are used. Between the words of a tag or a declaration stand spaces and tabs
(`isSpacing`); `trim` cuts off every character that has the Unicode property White_Space (`isBlank`).
-/

namespace GetSet.Text

/-- Spaces and tabs, which separate words on one line. -/
def isSpacing (c : Char) : Bool :=
  c == ' ' || c == '\t'

/-- The property White_Space of Unicode. -/
def isBlank (c : Char) : Bool :=
  ('\t' ≤ c && c ≤ '\r') || c == ' ' || c == '\u0085' || c == '\u00a0' || c == '\u1680' ||
  ('\u2000' ≤ c && c ≤ '\u200a') || c == '\u2028' || c == '\u2029' || c == '\u202f' || c == '\u205f' ||
  c == '\u3000'

/-- What core calls whitespace is blank. -/
theorem isBlank_of_isWhitespace {c : Char} (h : c.isWhitespace = true) : isBlank c = true := by
  simp only [Char.isWhitespace, Bool.or_eq_true, decide_eq_true_eq] at h
  rcases h with ((rfl | rfl) | rfl) | rfl <;> decide

/-- Cuts blanks off both ends. -/
def trimBlanks (cs : List Char) : List Char :=
  ((cs.dropWhile isBlank).reverse.dropWhile isBlank).reverse

/-- The text without the blanks at its ends. -/
def trim (text : String) : String :=
  .ofList (trimBlanks text.toList)

end GetSet.Text
