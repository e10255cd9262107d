import GetSet.Name
import GetSet.Text.Blank

/-!
# Tags

A documentation comment declares a property by a tag such as

    @property string $expiry_month  Month of expiry

The type may be missing, and what follows the name is description. A tag stands at the start of the text or
after a line feed, a space or a tab. `Tag.scan` tries every such position in turn, so that no tag hides another one:
two tags never overlap, because the only `@` of a tag is its first character.
-/

namespace GetSet

open Text

/-- A tag as it is written: the declared type, empty if there is none, and the name without its `$`. -/
structure Tag where
  typeHint : String
  rawName : String
deriving DecidableEq, Repr

namespace Tag

/-- The characters of a declared type: those of a name and the backslash. -/
def isTypeChar (c : Char) : Bool :=
  Name.isNameChar c || c == '\\'

/-- The word that opens a tag. -/
def keyword : List Char :=
  "@property".toList

/-- What follows one or more spaces and tabs. -/
def afterSpacing? : List Char → Option (List Char)
  | c :: cs => if isSpacing c then some (cs.dropWhile isSpacing) else none
  | [] => none

/-- The name after a `$`: all name characters that follow it, at least one. -/
def rawName? : List Char → Option (List Char)
  | '$' :: cs =>
    match cs.takeWhile Name.isNameChar with
    | [] => none
    | name => some name
  | _ => none

/-- The type and the name after the keyword and its spacing. -/
def typeAndName? (cs : List Char) : Option Tag :=
  match cs.takeWhile isTypeChar with
  | [] => (rawName? cs).map fun name => ⟨"", .ofList name⟩
  | type => do
    let name ← rawName? (← afterSpacing? (cs.dropWhile isTypeChar))
    return ⟨.ofList type, .ofList name⟩

/-- The tag at the front of a text. -/
def read? (cs : List Char) : Option Tag := do
  typeAndName? (← afterSpacing? (← keyword.isPrefixOf? cs))

/-- The characters after which a tag may stand. -/
def isBoundary (c : Char) : Bool :=
  c == '\n' || isSpacing c

/-- The tags in a text, in order; `atBoundary` tells whether one may stand at its first character. -/
def scanFrom (atBoundary : Bool) : List Char → List Tag
  | [] => []
  | c :: cs =>
    (if atBoundary then (read? (c :: cs)).toList else []) ++ scanFrom (isBoundary c) cs

/-- All tags of a text, in order, repeated ones included. -/
def scan (text : String) : List Tag :=
  scanFrom true text.toList

example : scan " * @property string $name Card holder\n" = [⟨"string", "name"⟩] := by decide
example : scan "@property $cvn @property \\App\\Money $limit" = [⟨"", "cvn"⟩, ⟨"\\App\\Money", "limit"⟩] := by
  decide
example : scan "x@property int $a\n@property int\n" = [] := by decide

/-! ## Tags and line ends

No part of a tag goes beyond the end of a line, so that a text can be searched line by line. A tag ends before every
character that no tag has; line feeds and carriage returns are such characters.
-/

/-- A character that stands in no tag. -/
structure IsForeign (c : Char) : Prop where
  isSpacing_eq : isSpacing c = false
  isTypeChar_eq : isTypeChar c = false
  not_mem_keyword : c ∉ keyword
  ne_dollar : c ≠ '$'

theorem isForeign_newline : IsForeign '\n' := by
  constructor <;> decide

theorem isForeign_return : IsForeign '\r' := by
  constructor <;> decide

theorem IsForeign.isNameChar_eq {c : Char} (h : IsForeign c) : Name.isNameChar c = false :=
  (Bool.or_eq_false_iff.1 h.isTypeChar_eq).1

variable {stop : Char}

theorem takeWhile_append_stop {p : Char → Bool} (h : p stop = false) (cs ds : List Char) :
    (cs ++ stop :: ds).takeWhile p = cs.takeWhile p := by
  induction cs with
  | nil => simp [List.takeWhile, h]
  | cons c cs ih => simp [List.takeWhile, ih]

theorem dropWhile_append_stop {p : Char → Bool} (h : p stop = false) (cs ds : List Char) :
    (cs ++ stop :: ds).dropWhile p = cs.dropWhile p ++ stop :: ds := by
  induction cs with
  | nil => simp [List.dropWhile, h]
  | cons c cs ih =>
    simp only [List.cons_append, List.dropWhile_cons, ih]
    split <;> rfl

theorem isPrefixOf?_append_stop {word : List Char} (h : stop ∉ word) (cs ds : List Char) :
    word.isPrefixOf? (cs ++ stop :: ds) = (word.isPrefixOf? cs).map (· ++ stop :: ds) := by
  induction word generalizing cs with
  | nil => rfl
  | cons w word ih =>
    simp only [List.mem_cons, not_or] at h
    cases cs with
    | nil =>
      show (if w == stop then word.isPrefixOf? ds else none) = none
      rw [if_neg (by simpa using Ne.symm h.1)]
    | cons c cs =>
      show (if w == c then word.isPrefixOf? (cs ++ stop :: ds) else none) =
        (if w == c then word.isPrefixOf? cs else none).map (· ++ stop :: ds)
      rw [ih h.2]
      split <;> rfl

theorem afterSpacing?_append_stop (h : IsForeign stop) (cs ds : List Char) :
    afterSpacing? (cs ++ stop :: ds) = (afterSpacing? cs).map (· ++ stop :: ds) := by
  cases cs with
  | nil => simp [afterSpacing?, h.isSpacing_eq]
  | cons c cs =>
    simp only [List.cons_append, afterSpacing?, dropWhile_append_stop h.isSpacing_eq]
    split <;> rfl

theorem rawName?_append_stop (h : IsForeign stop) (cs ds : List Char) : rawName? (cs ++ stop :: ds) = rawName? cs := by
  cases cs with
  | nil => simp [rawName?, h.ne_dollar]
  | cons c cs =>
    by_cases hc : c = '$'
    · subst hc
      simp only [List.cons_append, rawName?, takeWhile_append_stop h.isNameChar_eq]
    · simp [rawName?, hc]

/-- A tag ends before a character that stands in no tag. -/
theorem read?_append_stop (h : IsForeign stop) (cs ds : List Char) : read? (cs ++ stop :: ds) = read? cs := by
  have inner : ∀ cs, typeAndName? (cs ++ stop :: ds) = typeAndName? cs := by
    intro cs
    simp only [typeAndName?, takeWhile_append_stop h.isTypeChar_eq, dropWhile_append_stop h.isTypeChar_eq,
      rawName?_append_stop h, afterSpacing?_append_stop h]
    cases afterSpacing? (cs.dropWhile isTypeChar) <;> simp [rawName?_append_stop h]
  simp only [read?, isPrefixOf?_append_stop h.not_mem_keyword]
  cases keyword.isPrefixOf? cs with
  | none => rfl
  | some rest =>
    simp only [Option.map_some, Option.bind_eq_bind, Option.bind_some, afterSpacing?_append_stop h]
    cases afterSpacing? rest <;> simp [inner]

/-- The tags of two texts with such a character between them are those of the first and then those of the second one. -/
theorem scanFrom_append_stop (h : IsForeign stop) (atBoundary : Bool) (cs ds : List Char) :
    scanFrom atBoundary (cs ++ stop :: ds) = scanFrom atBoundary cs ++ scanFrom (isBoundary stop) ds := by
  induction cs generalizing atBoundary with
  | nil =>
    have hread : read? (stop :: ds) = none := read?_append_stop h [] ds
    simp only [List.nil_append, scanFrom, hread, Option.toList_none, ite_self]
  | cons c cs ih =>
    have head := read?_append_stop h (c :: cs) ds
    rw [List.cons_append] at head
    simp only [List.cons_append, scanFrom, head, ih, List.append_assoc]

end Tag

end GetSet
