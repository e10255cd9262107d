/-!
# The tables of a TOML document

A document defines values and tables at paths of keys. A table can be there because a header names it, because a header
names one inside it, or because dotted keys lead through it; what may still be added to it depends on that. The
elements of an array of tables are counted, and a path that leads through the array leads to its last element.

The layout of a document is the list of its definitions. Every function here either adds to it or refuses.
-/

namespace GetSet.Toml

/-- What is known of a value: texts and truth values are kept, of the others only the kind. -/
inductive Value where
  | string (s : String)
  | boolean (b : Bool)
  | number
  | time
  | array
  | table
deriving DecidableEq, Repr

/-- A step of a path: into a table by a key, or into an array of tables by a number. -/
inductive Step where
  | key (name : String)
  | element (n : Nat)
deriving DecidableEq, Repr

/-- What a path leads to. -/
inductive Definition where
  | value (v : Value)
  /-- A table that a header names. -/
  | explicit
  /-- A table that is only there because a header names one inside it. -/
  | implicit
  /-- A table that dotted keys lead through. -/
  | dotted
  /-- An array of so many tables. -/
  | tables (count : Nat)
deriving DecidableEq, Repr

/-- The definitions of a document, the last one in front; the empty path is the document itself. -/
structure Layout where
  definitions : List (List Step × Definition) := []
deriving Repr

namespace Layout

/-- What is defined at a path. -/
def get? (l : Layout) (path : List Step) : Option Definition :=
  if path.isEmpty then some .explicit else l.definitions.lookup path

/-- Defines what is at a path. -/
def set (l : Layout) (path : List Step) (d : Definition) : Layout :=
  ⟨(path, d) :: l.definitions⟩

/-- Goes from a table into the tables inside it, and defines those that are missing as `missing`. Dotted keys lead
through no table that a header names. -/
def descend? (l : Layout) (missing : Definition) (table : List Step) : List String → Option (Layout × List Step)
  | [] => some (l, table)
  | name :: names =>
    let path := table ++ [.key name]
    match l.get? path with
    | none => (l.set path missing).descend? missing path names
    | some (.value _) => none
    | some .explicit => if missing == .dotted then none else l.descend? missing path names
    | some .implicit => l.descend? missing path names
    | some .dotted => l.descend? missing path names
    | some (.tables count) => l.descend? missing (path ++ [.element (count - 1)]) names

/-- Defines a value in a table, through dotted keys if there is more than one. A table that is not there because of
dotted keys takes no value from them. -/
def assign? (l : Layout) (table : List Step) (names : List String) (v : Value) : Option Layout := do
  let last ← names.getLast?
  let (l, table) ← l.descend? .dotted table names.dropLast
  -- a table that dotted keys made takes values from dotted keys only, any other one from plain keys only
  let isDotted := l.get? table == some .dotted
  if isDotted == names.dropLast.isEmpty then none
  else
    let path := table ++ [.key last]
    match l.get? path with
    | none => some (l.set path (.value v))
    | some _ => none

/-- Opens the table that a header names, which no other header may have named. -/
def openTable? (l : Layout) (names : List String) : Option (Layout × List Step) := do
  let last ← names.getLast?
  let (l, table) ← l.descend? .implicit [] names.dropLast
  let path := table ++ [.key last]
  match l.get? path with
  | none => some (l.set path .explicit, path)
  | some .implicit => some (l.set path .explicit, path)
  | some _ => none

/-- Opens one more table of the array that a header names. -/
def openElement? (l : Layout) (names : List String) : Option (Layout × List Step) := do
  let last ← names.getLast?
  let (l, table) ← l.descend? .implicit [] names.dropLast
  let path := table ++ [.key last]
  let count ←
    match l.get? path with
    | none => some 0
    | some (.tables count) => some count
    | some _ => none
  let element := path ++ [.element count]
  return ((l.set path (.tables (count + 1))).set element .explicit, element)

end Layout

end GetSet.Toml
