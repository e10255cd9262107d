import GetSet.Action
import GetSet.Tree.Walk

/-!
# Collecting files

A collector finds the files below a directory that have one of its extensions.
-/

namespace GetSet

/-- Finds files by their extensions. -/
structure Collector where
  extensions : List String := ["php"]
deriving DecidableEq, Repr

namespace Collector

/-- Adds an extension, unless one is there that differs from it at most in the case of ASCII letters. -/
def addExtension (c : Collector) (extension : String) : Collector :=
  if c.extensions.any (Path.sameLetters extension) then c else ⟨c.extensions ++ [extension]⟩

/-- The matching files below a directory. -/
def filesBelow (c : Collector) (tree : Tree) (dir : Path) : List Path :=
  (tree.filesBelow dir).filter (·.matchesExtension c.extensions)

/-- Finds the matching files below a directory. -/
def collect (c : Collector) (dir : Path) : Action (List Path) := do
  Action.report (.collecting dir)
  unless ← Action.inspect (·.isDirectory dir) do
    throw (.notADirectory dir)
  let files ← Action.inspect (c.filesBelow · dir)
  Action.reportAll (files.map .foundFile)
  Action.report (.collected files.length)
  return files

/-- In a directory the matching files are found, and nothing is changed. -/
theorem exec_collect (c : Collector) {dir : Path} {w : Workspace} (h : w.tree.isDirectory dir = true) :
    (c.collect dir).exec w = (.ok (c.filesBelow w.tree dir), { w with
      journal := w.journal ++ .collecting dir ::
        ((c.filesBelow w.tree dir).map .foundFile ++ [.collected (c.filesBelow w.tree dir).length]) }) := by
  unfold collect
  simp [h, Except.map]

/-- Replaces every directory by the matching files below it and keeps all other paths. -/
def expand (c : Collector) (inputs : List Path) : Action (List Path) := do
  let found ← inputs.mapM fun input => do
    if ← Action.inspect (·.isDirectory input) then c.collect input else return [input]
  return found.flatten

end Collector

end GetSet
