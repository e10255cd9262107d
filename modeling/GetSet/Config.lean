import GetSet.Action
import GetSet.Toml.Document

/-!
# Configuration files

Options can be given in a TOML file, each by a value of its own at the top of the document. Options that are missing
have their defaults, and other keys do not count.
-/

namespace GetSet.Options

open Toml (Layout)

/-- The text at the top of a document, or `missing` if nothing is there. -/
def text? (l : Layout) (name : String) (missing : String) : Option String :=
  match l.get? [.key name] with
  | none => some missing
  | some (.value (.string s)) => some s
  | some _ => none

/-- The truth value at the top of a document, or `missing` if nothing is there. -/
def flag? (l : Layout) (name : String) (missing : Bool) : Option Bool :=
  match l.get? [.key name] with
  | none => some missing
  | some (.value (.boolean b)) => some b
  | some _ => none

/-- The options that a document gives. -/
def ofLayout? (l : Layout) : Option Options := do
  let defaults : Options := {}
  return {
    outputDir := ⟨← text? l "output_dir" defaults.outputDir.text⟩
    overwriteFiles := ← flag? l "overwrite_files" defaults.overwriteFiles
    argumentTypes := ← flag? l "argument_types" defaults.argumentTypes
    returnTypes := ← flag? l "return_types" defaults.returnTypes
    generateClasses := ← flag? l "generate_classes" defaults.generateClasses
    extension := ← text? l "extension" defaults.extension }

/-- The options that the text of a configuration file gives. -/
def ofToml? (text : String) : Option Options :=
  (Toml.parse? text).bind ofLayout?

/-- Reads options from a configuration file. -/
def load (path : Path) : Action Options := do
  match ← Action.inspect (·.readText path) with
  | .error cause => throw (.configuration path (.unreadable cause))
  | .ok text =>
    match ofToml? text with
    | none => throw (.configuration path .malformed)
    | some options => return options

end GetSet.Options
