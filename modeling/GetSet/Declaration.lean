import GetSet.Text.Blank
import GetSet.Text.Line

/-!
# Class declarations

A line declares a class if its words, separated by spaces and tabs, are modifiers (any number of `abstract`, `final`
and `readonly`), then `class`, then a word that begins with an identifier. The first such line names the class of
a file. Letters are compared by Unicode's simple case folding, under which `ſ` is an `s` and the Kelvin sign a `k`:
both spell keywords and may stand in an identifier.
-/

namespace GetSet.Declaration

open Text

/-- Simple case folding, as far as its values are ASCII letters. -/
def fold (c : Char) : Char :=
  if c == 'ſ' then 's' else if c == '\u212a' then 'k' else c.toLower

/-- The words of a line: its longest parts without spaces and tabs. -/
def words (line : List Char) : List (List Char) :=
  (line.splitOnP isSpacing).filter (!·.isEmpty)

/-- Whether a word spells a keyword, whatever the case of its letters. -/
def spells (keyword : String) (word : List Char) : Bool :=
  word.map fold == keyword.toList

/-- The words that may stand before `class`. -/
def isModifier (word : List Char) : Bool :=
  ["abstract", "final", "readonly"].any (spells · word)

/-- The characters an identifier may begin with. -/
def isIdentifierStart (c : Char) : Bool :=
  (fold c).isAlpha || c == '_'

/-- The characters an identifier may go on with. -/
def isIdentifierChar (c : Char) : Bool :=
  isIdentifierStart c || c.isDigit

/-- The longest identifier at the front of a word. -/
def identifier? : List Char → Option (List Char)
  | c :: cs => if isIdentifierStart c then some (c :: cs.takeWhile isIdentifierChar) else none
  | [] => none

/-- The class that a line of these words declares. -/
def ofWords? : List (List Char) → Option (List Char)
  | [] => none
  | word :: rest =>
    if spells "class" word then rest.head?.bind identifier?
    else if isModifier word then ofWords? rest
    else none

/-- The class that a line declares. -/
def ofLine? (line : List Char) : Option (List Char) :=
  ofWords? (words line)

/-- The name of the first class that a text declares. -/
def className? (text : String) : Option String :=
  ((lines text.toList).findSome? ofLine?).map .ofList

example : className? "/**\n * Class Wrong\n */\nfinal class Right {}\n" = some "Right" := by decide
example : className? "\tABSTRACT  final Claſs _a9-b" = some "_a9" := by decide
example : className? "classy Foo\nclass\nFoo class Bar" = none := by decide

end GetSet.Declaration
