import GetSet.Text.Lossy

/-!
# Paths

A path is kept as the bytes that it was given as; nothing is simplified when paths are joined. Its pieces are what
stands between its slashes. Pieces that are empty or a single dot after the first one lead nowhere and have no weight:
`a//b/.` has the pieces `a`, ``, `b` and `.`, of which `a` and `b` count.

Most paths are texts. One that is not can be followed all the same, but it is shown with replacement characters.
-/

namespace GetSet

/-- A path, kept as its bytes. -/
structure Path where
  ofBytes ::
  bytes : Bytes
deriving DecidableEq, Repr, Inhabited

namespace Path

/-- The path that a text names. -/
abbrev mk (text : String) : Path := ⟨text⟩

/-- The path as it is shown. -/
def text (p : Path) : String :=
  Text.ofBytesLossy p.bytes

/-- Whether the path is a text. -/
def isText (p : Path) : Bool :=
  (Text.ofBytes? p.bytes).isSome

@[simp]
theorem text_mk (text : String) : (mk text).text = text :=
  Text.ofBytesLossy_bytes text

@[simp]
theorem isText_mk (text : String) : (mk text).isText = true := by
  simp [isText]

/-- A path that is a text is shown as it is. -/
theorem mk_text {p : Path} (h : p.isText = true) : mk p.text = p := by
  obtain ⟨text, htext⟩ := Option.isSome_iff_exists.1 h
  obtain rfl : p = mk text := congrArg ofBytes (Text.ofBytes?_eq_some_iff.1 htext)
  rw [text_mk]

/-! ## Pieces and names -/

/-- Stands between the names in a path. -/
def slash : UInt8 := 0x2f

/-- Stands between a name and its extension. -/
def dot : UInt8 := 0x2e

/-- What stands between the slashes. -/
def pieces (p : Path) : List Bytes :=
  p.bytes.splitOn slash

/-- The pieces that are not empty, in order. -/
def names (p : Path) : List Bytes :=
  p.pieces.filter (!·.isEmpty)

/-- Whether the path starts at the root. -/
def isAbsolute (p : Path) : Bool :=
  p.bytes.head? == some slash

/-- Whether the path ends in a slash, as only the path of a directory may. -/
def endsInSlash (p : Path) : Bool :=
  p.bytes.getLast? == some slash

/-! ## Joining -/

/-- The path that leads from `p` to `q`: an absolute `q` replaces `p`, and a slash is put between the two unless `p`
is empty or ends in one. -/
def join (p q : Path) : Path :=
  if q.isAbsolute then q
  else if p.bytes.isEmpty || p.endsInSlash then ⟨p.bytes ++ q.bytes⟩
  else ⟨p.bytes ++ slash :: q.bytes⟩

example : join ⟨"a"⟩ ⟨"b"⟩ = ⟨"a/b"⟩ := by decide
example : join ⟨"a/"⟩ ⟨"b"⟩ = ⟨"a/b"⟩ := by decide
example : join ⟨""⟩ ⟨"b"⟩ = ⟨"b"⟩ := by decide
example : join ⟨"a"⟩ ⟨""⟩ = ⟨"a/"⟩ := by decide
example : join ⟨"a"⟩ ⟨"/b"⟩ = ⟨"/b"⟩ := by decide

/-! ## The last name -/

/-- The last name of a path, if it is the name of an entry: neither missing nor `..`. -/
def fileName? (p : Path) : Option Bytes :=
  match (p.names.filter fun name : Bytes => name != ".").getLast? with
  | some name => if name == ".." then none else some name
  | none => none

/-- What follows the last dot of a file's name, unless that dot is its first byte. -/
def extensionOf? (name : Bytes) : Option Bytes :=
  match name.reverse.dropWhile (· != dot) with
  | _ :: _ :: _ => some (name.reverse.takeWhile (· != dot)).reverse
  | _ => none

/-- The extension of the last name. -/
def extension? (p : Path) : Option Bytes :=
  p.fileName?.bind extensionOf?

example : extension? ⟨"src.d/Card.PHP"⟩ = some ("PHP" : Bytes) := by decide
example : extension? ⟨"src/.php"⟩ = none := by decide
example : extension? ⟨"a.php/"⟩ = some ("php" : Bytes) := by decide
example : extension? ⟨"a."⟩ = some ("" : Bytes) := by decide

/-- Whether two texts differ at most in the case of their ASCII letters. -/
def sameLetters (a b : String) : Bool :=
  a.toList.map Char.toLower == b.toList.map Char.toLower

/-- Whether the path has one of the extensions, whatever the case of their ASCII letters. An extension that is no text
is none of them. -/
def matchesExtension (p : Path) (extensions : List String) : Bool :=
  match p.extension?.bind Text.ofBytes? with
  | some extension => extensions.any (sameLetters extension)
  | none => false

/-! ## Ancestors -/

/-- Whether a piece leads nowhere. -/
def isWeightless (piece : Bytes) : Bool :=
  piece.isEmpty || piece == "."

/-- The path of some pieces; the first one is empty in an absolute path. -/
def ofPieces : List Bytes → Path
  | [[]] => ⟨"/"⟩
  | pieces => ⟨[slash].intercalate pieces⟩

/-- The paths that end before a piece of weight, the shortest one first. `done` are the pieces up to the last one of
weight, `pending` the weightless ones after it. -/
def prefixesBefore (done pending : List Bytes) : List Bytes → List Path
  | [] => []
  | piece :: rest =>
    if isWeightless piece then prefixesBefore done (pending ++ [piece]) rest
    else ofPieces done :: prefixesBefore (done ++ pending ++ [piece]) [] rest

/-- The path itself, then what is left when its last name is cut off, and so on down to the empty path or the root. -/
def ancestors (p : Path) : List Path :=
  match p.pieces with
  | [] => [p]
  | [] :: rest => p :: (prefixesBefore [[]] [] rest).reverse
  | first :: rest => p :: ((prefixesBefore [first] [] rest).reverse ++ [⟨""⟩])

example : ancestors ⟨"a/b//./c/"⟩ = [⟨"a/b//./c/"⟩, ⟨"a/b"⟩, ⟨"a"⟩, ⟨""⟩] := by decide
example : ancestors ⟨"./x"⟩ = [⟨"./x"⟩, ⟨"."⟩, ⟨""⟩] := by decide
example : ancestors ⟨"/a/b"⟩ = [⟨"/a/b"⟩, ⟨"/a"⟩, ⟨"/"⟩] := by decide
example : ancestors ⟨""⟩ = [⟨""⟩] := by decide

end Path

end GetSet
