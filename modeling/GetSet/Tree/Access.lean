import GetSet.Tree.Locate

/-!
# Access by path

What programs do with a tree: look at it, read and write files, make directories and links, remove entries. Reading
never changes the tree, and a change that fails leaves the tree as it is. Making a directory with all that are missing
above it (`makeDirectories`) can fail half-way; what it made by then stays.

Two things are ideal here. Nobody is refused an access that is possible: nodes have no owners and no permissions. And
there is always room: a file that can be opened is written in full, and a directory that can be made is made. Nothing
else changes the tree in the meantime.
-/

namespace GetSet.Tree

/-! ## Looking -/

/-- The node that a path leads to through links. -/
def status? (t : Tree) (p : Path) : Option Node :=
  match t.locate .look p with
  | .ok (.occupied _ node) => some node
  | _ => none

/-- Whether a path leads to anything. -/
def pathExists (t : Tree) (p : Path) : Bool :=
  (t.status? p).isSome

/-- Whether a path leads to a directory. -/
def isDirectory (t : Tree) (p : Path) : Bool :=
  t.status? p == some .directory

/-- Whether a path leads to a file. -/
def isFile (t : Tree) (p : Path) : Bool :=
  match t.status? p with
  | some (.file _) => true
  | _ => false

/-- A path leads to a file or a directory: links are followed. -/
theorem status?_ne_link (t : Tree) (p : Path) (target : Path) : t.status? p ≠ some (.link target) := by
  unfold status?
  split
  · next l node h =>
    have holds := locate_holds h
    rintro ⟨⟩
    exact holds.2 (by decide) target rfl
  · simp

/-! ## Reading -/

/-- The bytes of the file that a path leads to. -/
def read (t : Tree) (p : Path) : Except SystemError ByteArray :=
  match t.locate .look p with
  | .ok (.occupied _ (.file content)) => .ok content
  | .ok (.occupied _ .directory) => .error .isADirectory
  | .ok _ => .error .notFound
  | .error e => .error e

/-- The text of the file that a path leads to. -/
def readText (t : Tree) (p : Path) : Except SystemError String := do
  match String.fromUTF8? (← t.read p) with
  | some text => return text
  | none => throw .notText

/-- A path leads to a file exactly if the file can be read. -/
theorem isFile_iff (t : Tree) (p : Path) : t.isFile p = true ↔ ∃ content, t.read p = .ok content := by
  unfold isFile status? read
  rcases t.locate .look p with e | ⟨l, _ | content | target⟩ | ⟨dir, name⟩ <;> simp

/-! ## Changing -/

/-- Writes a file: the one that the path leads to, or a new one. -/
def write (t : Tree) (p : Path) (content : ByteArray) : Except SystemError Tree :=
  match t.locate .write p with
  | .ok (.occupied l (.file _)) => .ok (t.replace l content)
  | .ok (.occupied _ _) => .error .isADirectory
  | .ok (.vacant dir name) => .ok (t.insert dir name (.file content))
  | .error e => .error e

/-- Adds an entry where a path leads, if nothing is there. -/
def add (t : Tree) (p : Path) (node : Node) (slash : Bool) : Except SystemError Tree :=
  match t.locate .entry p slash with
  | .ok (.occupied _ _) => .error .alreadyExists
  | .ok (.vacant dir name) => .ok (t.insert dir name node)
  | .error e => .error e

/-- Makes a directory; a slash at the end of its path means nothing. -/
def makeDirectory (t : Tree) (p : Path) : Except SystemError Tree :=
  t.add p .directory false

/-- Makes a symbolic link. Its target need not lead anywhere, but it must be a path that could. -/
def makeLink (t : Tree) (p target : Path) : Except SystemError Tree :=
  if target.bytes.contains 0 || p.bytes.contains 0 then .error .interiorNul
  else if target.bytes.isEmpty then .error .notFound
  else if pathLimit ≤ target.bytes.length then .error .nameTooLong
  else t.add p (.link target) p.endsInSlash

/-- Removes a file, a link, or a directory with all that it holds. -/
def remove (t : Tree) (p : Path) : Except SystemError Tree :=
  match t.locate .entry p with
  | .ok (.occupied l _) => .ok (t.erase l)
  | .ok (.vacant _ _) => .error .notFound
  | .error e => .error e

/-- Makes the first directory of a chain of ancestors; if there is none to make it in, makes the others first. A
directory that is there already is as good as a new one. -/
def makeChain (t : Tree) : List Path → Except SystemError Unit × Tree
  | [] => (.ok (), t)
  | p :: above =>
    if p.bytes.isEmpty then (.ok (), t)
    else
      match t.makeDirectory p with
      | .ok t' => (.ok (), t')
      | .error .notFound =>
        match makeChain t above with
        | (.ok (), t') =>
          -- now the path may lead to a directory that is there, as `a/..` does once `a` is made
          match t'.makeDirectory p with
          | .ok t'' => (.ok (), t'')
          | .error e => (if t'.isDirectory p then .ok () else .error e, t')
        | failed => failed
      | .error e => (if t.isDirectory p then .ok () else .error e, t)

/-- Makes a directory and all that are missing above it. -/
def makeDirectories (t : Tree) (p : Path) : Except SystemError Unit × Tree :=
  t.makeChain p.ancestors

end GetSet.Tree
