import GetSet.Toml.Layout
import GetSet.Toml.Number
import GetSet.Toml.Text
import GetSet.Toml.Time

/-!
# TOML documents

A document is a sequence of statements, each on a line of its own: headers that open a table, and keys with values.
`Document.parse?` reads a whole document and yields the layout that its statements define.

Arrays and inline tables may stand inside each other to a limited depth; the reader of a value recurses on what is left
of it. Whatever is repeated ends because each round leaves a shorter text.
-/

namespace GetSet.Toml

/-- Keys have fewer parts than this, and values stand inside fewer values. -/
def depthLimit : Nat := 80

/-! ## Keys -/

/-- The characters of a key without quotes. -/
def isBareChar (c : Char) : Bool :=
  c.isAlphanum || c == '_' || c == '-'

/-- One part of a key. -/
def keyPart? (cs : List Char) : Option (String × List Char) :=
  match lineString? cs with
  | some part => some part
  | none =>
    match cs.takeWhile isBareChar with
    | [] => none
    | part => some (.ofList part, cs.dropWhile isBareChar)

/-- The parts of a key with their dots. -/
def keyParts? (cs : List Char) : Option (List String × List Char) := do
  let (part, rest) ← keyPart? (skipSpacing cs)
  match skipSpacing rest with
  | '.' :: rest' =>
    if _h : rest'.length < cs.length then
      let (parts, rest) ← keyParts? rest'
      return (part :: parts, rest)
    else none
  | rest' => return ([part], rest')
termination_by cs.length

/-- A key. -/
def key? (cs : List Char) : Option (List String × List Char) := do
  let (parts, rest) ← keyParts? cs
  if parts.length < depthLimit then some (parts, rest) else none

/-- A key, its equals sign and its value. -/
def assignment? (value? : Reader Value) (cs : List Char) : Option ((List String × Value) × List Char) := do
  let (names, rest) ← key? cs
  match rest with
  | '=' :: rest =>
    let (v, rest) ← value? (skipSpacing rest)
    return ((names, v), rest)
  | _ => none

/-! ## Values -/

/-- What follows the items of an array and its closing bracket. -/
def arrayItems? (item? : Reader Value) (cs : List Char) : Option (List Char) :=
  match skipLayout false cs with
  | ']' :: rest => some rest
  | start =>
    match item? start with
    | none => none
    | some (_, afterItem) =>
      match skipLayout false afterItem with
      | ']' :: rest => some rest
      | ',' :: rest => if _h : rest.length < cs.length then arrayItems? item? rest else none
      | _ => none
termination_by cs.length

/-- What follows the assignments of an inline table and its closing brace. -/
def tableItems? (item? : Reader Value) (layout : Layout) (cs : List Char) : Option (List Char) :=
  match assignment? item? cs with
  | none => none
  | some ((names, v), afterItem) =>
    match layout.assign? [] names v with
    | none => none
    | some layout =>
      match skipSpacing afterItem with
      | '}' :: rest => some rest
      | ',' :: rest => if _h : rest.length < cs.length then tableItems? item? layout rest else none
      | _ => none
termination_by cs.length

/-- What follows an inline table after its opening brace. -/
def inlineTable? (item? : Reader Value) (cs : List Char) : Option (List Char) :=
  match skipSpacing cs with
  | '}' :: rest => some rest
  | _ => tableItems? item? {} cs

/-- A value in which values may stand inside each other to a depth. -/
def value? (depth : Nat) (cs : List Char) : Option (Value × List Char) :=
  match cs with
  | '"' :: _ => (string? cs).map fun (s, rest) => (.string s, rest)
  | '\'' :: _ => (string? cs).map fun (s, rest) => (.string s, rest)
  | '[' :: rest =>
    match depth with
    | 0 => none
    | depth + 1 => (arrayItems? (value? depth) rest).map (.array, ·)
  | '{' :: rest =>
    match depth with
    | 0 => none
    | depth + 1 => (inlineTable? (value? depth) rest).map (.table, ·)
  | 't' :: _ => (word? "true" cs).map (.boolean true, ·)
  | 'f' :: _ => (word? "false" cs).map (.boolean false, ·)
  | _ =>
    match time? cs with
    | some rest => some (.time, rest)
    | none => (number? cs).map (.number, ·)

/-! ## Statements -/

/-- The rest of a header after its first bracket: opens a table, or one more table of an array. -/
def header? (layout : Layout) (cs : List Char) : Option ((Layout × List Step) × List Char) :=
  match cs with
  | '[' :: cs => do
    let (names, rest) ← key? cs
    match rest with
    | ']' :: ']' :: rest => return (← layout.openElement? names, rest)
    | _ => none
  | _ => do
    let (names, rest) ← key? cs
    match rest with
    | ']' :: rest => return (← layout.openTable? names, rest)
    | _ => none

/-- One statement, which stands in a table and may open another one. -/
def statement? (layout : Layout) (table : List Step) (cs : List Char) :
    Option ((Layout × List Step) × List Char) :=
  match cs with
  | '[' :: cs => do
    let (opened, rest) ← header? layout cs
    return (opened, ← lineEnd? rest)
  | _ => do
    let ((names, v), rest) ← assignment? (value? (depthLimit - 1)) cs
    return ((← layout.assign? table names v, table), ← lineEnd? rest)

/-- All statements from a table on. -/
def statements? (layout : Layout) (table : List Step) (cs : List Char) : Option Layout :=
  match cs with
  | [] => some layout
  | c :: rest =>
    if Text.isSpacing c then statements? layout table rest
    else
      let next :=
        if c == '#' || c == '\n' || c == '\r' then (lineEnd? cs).map fun rest => ((layout, table), rest)
        else statement? layout table cs
      match next with
      | none => none
      | some ((layout, table), rest') =>
        if _h : rest'.length ≤ rest.length then statements? layout table rest' else none
termination_by cs.length

/-- The layout of a document; a byte order mark at its start does not count. -/
def parse? (text : String) : Option Layout :=
  match text.toList with
  | '\ufeff' :: cs => statements? {} [] cs
  | cs => statements? {} [] cs

end GetSet.Toml
