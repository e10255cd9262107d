import GetSet.Tree.SystemError
import GetSet.Path

/-!
# Faults

What ends a generation. A property without a usable name is no fault, it is dropped; a file that exists already and is
not to be overwritten is no fault either, it is skipped.
-/

namespace GetSet

/-- What is wrong with a configuration file. -/
inductive ConfigProblem where
  /-- It cannot be read. -/
  | unreadable (cause : SystemError)
  /-- It is not TOML, or an option has a value of the wrong type. -/
  | malformed
deriving DecidableEq, Repr

/-- The reason for which an action fails. -/
inductive Fault where
  /-- An input file does not exist. -/
  | missingInput (path : Path)
  /-- A template that is needed is no file. -/
  | missingTemplate (path : Path)
  /-- A file cannot be read or written. -/
  | access (path : Path) (cause : SystemError)
  /-- A configuration file is of no use. -/
  | configuration (path : Path) (problem : ConfigProblem)
  /-- What is to be searched for files is no directory. -/
  | notADirectory (path : Path)
deriving DecidableEq, Repr

/-- The text that reports a problem with a configuration file. -/
def ConfigProblem.message : ConfigProblem → String
  | unreadable cause => cause.message
  | malformed => "TOML parse error"

namespace Fault

/-- The text that reports a fault. -/
def message : Fault → String
  | missingInput path => "File could not be found: '" ++ path.text ++ "'"
  | missingTemplate path => "Template could not be found: '" ++ path.text ++ "'"
  | access path cause => "I/O error on " ++ path.text ++ ": " ++ cause.message
  | configuration path problem => "Invalid configuration " ++ path.text ++ ": " ++ problem.message
  | notADirectory path => "Not a directory: " ++ path.text

/-- The error of the system behind a fault. -/
def cause? : Fault → Option SystemError
  | access _ cause => some cause
  | _ => none

/-- A file or directory could not be accessed. -/
def IsAccess (fault : Fault) : Prop :=
  ∃ path cause, fault = access path cause

end Fault

end GetSet
