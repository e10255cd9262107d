import GetSet.Command.Run

/-!
# The program

The command on the files of the machine. The tree that it works on holds the files whose paths come on standard input,
one on each line and relative to the working directory, as `find * -type f` prints them. What the command changes below
the working directory is carried out afterwards, directories before the files in them.
-/

namespace GetSet.Main

/-- The lines of a stream up to its end, without their line feeds. -/
partial def readLines (stream : IO.FS.Stream) : IO (List String) := do
  let line ← stream.getLine
  if line.isEmpty then return []
  else return .ofList (line.toList.filter (· != '\n')) :: (← readLines stream)

/-- Puts a file of the machine into a tree. -/
def loadFile (tree : Tree) (path : String) : IO Tree := do
  let content ← IO.FS.readBinFile path
  let (_, tree) := tree.makeDirectories ((Path.mk path).ancestors.getD 1 ⟨""⟩)
  match tree.write (.mk path) content with
  | .ok tree => return tree
  | .error e => throw (IO.userError (path ++ ": " ++ e.message))

/-- Whether an entry is not in a list of entries as it is now. -/
def isNew (before : List (Path × Node)) (entry : Path × Node) : Bool :=
  before.lookup entry.1 != some entry.2

/-- Makes or replaces an entry on the machine. -/
def carryOut : Path × Node → IO Unit
  | (path, .directory) => IO.FS.createDirAll path.text
  | (path, .file content) => IO.FS.writeBinFile path.text content
  | (_, .link _) => return

end GetSet.Main

/-- Runs the command on the files whose paths come on standard input. -/
def main (args : List String) : IO UInt32 := do
  let paths ← GetSet.Main.readLines (← IO.getStdin)
  let before ← (paths.filter (!·.isEmpty)).foldlM GetSet.Main.loadFile .empty
  let (report, after) := GetSet.Command.run (args.map GetSet.Text.bytes) true before
  for line in report.stderr do
    IO.eprintln line
  let changes := (after.listing.filter (GetSet.Main.isNew before.listing)).mergeSort fun a b => a.1.bytes ≤ b.1.bytes
  for entry in changes do
    GetSet.Main.carryOut entry
  IO.print report.stdout
  return report.code.toUInt32
