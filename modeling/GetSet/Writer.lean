import GetSet.Action

/-!
# Writing documents

A writer puts documents into its output directory, which it makes if it is missing. Unless it overwrites, it leaves a
file alone that is there already.
-/

namespace GetSet

/-- Where documents are written to, and whether they replace what is there. -/
structure Writer where
  outputDir : Path
  overwrite : Bool
deriving DecidableEq, Repr

namespace Writer

/-- The path of a document's file. -/
def targetPath (w : Writer) (document : Document) : Path :=
  w.outputDir.join ⟨document.fileName⟩

/-- Writes a document, or skips it. -/
def write (w : Writer) (document : Document) : Action WriteOutcome := do
  let path := w.targetPath document
  if !w.overwrite && (← Action.inspect (·.pathExists path)) then
    Action.report (.skipped path)
    return .skipped path
  unless ← Action.inspect (·.pathExists w.outputDir) do
    Action.report (.creatingDirectory w.outputDir)
    Action.makeDirectories w.outputDir
  Action.changing path (·.write path document.body.toUTF8)
  Action.report (.written path)
  return .written path

end Writer

end GetSet
