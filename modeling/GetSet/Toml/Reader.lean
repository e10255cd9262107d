import GetSet.Text.Blank

/-!
# Readers

A reader takes what it stands for from the front of a text and leaves the rest, or fails. TOML is read by readers that
are built on the ones here.
-/

namespace GetSet.Toml

/-- Takes something from the front of a text. -/
abbrev Reader (α : Type) := List Char → Option (α × List Char)

/-- What follows the spaces and tabs at the front of a text. -/
def skipSpacing (cs : List Char) : List Char :=
  cs.dropWhile Text.isSpacing

/-- The characters of a comment and, with one exception each, of strings on one line: no control character but the
tab. -/
def isPrintable (c : Char) : Bool :=
  c == '\t' || (' ' ≤ c && c != '\x7f')

/-- A line break: a line feed, alone or after a carriage return. -/
def newline? : List Char → Option (List Char)
  | '\n' :: cs => some cs
  | '\r' :: '\n' :: cs => some cs
  | _ => none

/-- The end of a line: spaces and tabs, a comment, and a line break or the end of the text. -/
def lineEnd? (cs : List Char) : Option (List Char) :=
  let afterComment :=
    match skipSpacing cs with
    | '#' :: cs => cs.dropWhile isPrintable
    | cs => cs
  match afterComment with
  | [] => some []
  | cs => newline? cs

/-- What follows spaces, tabs and line breaks. -/
def skipBlankLines : List Char → List Char
  | '\r' :: '\n' :: cs => skipBlankLines cs
  | c :: cs => if c == '\n' || Text.isSpacing c then skipBlankLines cs else c :: cs
  | [] => []

/-- What follows spaces, tabs, line breaks and comments. -/
def skipLayout (inComment : Bool) : List Char → List Char
  | '\n' :: cs => skipLayout false cs
  | '\r' :: '\n' :: cs => skipLayout false cs
  | c :: cs =>
    if if inComment then isPrintable c else Text.isSpacing c then skipLayout inComment cs
    else if !inComment && c == '#' then skipLayout true cs
    else c :: cs
  | [] => []

/-- What follows a word at the front of a text. -/
def word? (word : String) (cs : List Char) : Option (List Char) :=
  word.toList.isPrefixOf? cs

end GetSet.Toml
