import GetSet.Data.Value
import GetSet.Document

/-!
# Statistics

What a generation counts. Every file that it is given either yields documents or declares no class; every document is
either written or skipped.
-/

namespace GetSet

/-- What happened to a document. -/
inductive WriteOutcome where
  /-- Its file was made or replaced. -/
  | written (path : Path)
  /-- Its file was there already and stays as it was. -/
  | skipped (path : Path)
deriving DecidableEq, Repr

/-- The path of the document's file. -/
def WriteOutcome.path : WriteOutcome → Path
  | written path => path
  | skipped path => path

/-- The counts of a generation. -/
structure Stats where
  /-- Files processed. -/
  totalUnits : Nat := 0
  /-- Files that documents were generated for. -/
  generatedUnits : Nat := 0
  /-- Files that declare no class. -/
  unitsWithoutClass : Nat := 0
  unitsWithoutClassPaths : List Path := []
  /-- Properties that have accessors. -/
  properties : Nat := 0
  /-- Tags without a usable name. -/
  propertiesDropped : Nat := 0
  filesWritten : Nat := 0
  writtenPaths : List Path := []
  filesSkipped : Nat := 0
  skippedPaths : List Path := []
deriving DecidableEq, Repr

namespace Stats

/-- Counts a document. -/
def recordWrite (s : Stats) : WriteOutcome → Stats
  | .written path => { s with filesWritten := s.filesWritten + 1, writtenPaths := s.writtenPaths ++ [path] }
  | .skipped path => { s with filesSkipped := s.filesSkipped + 1, skippedPaths := s.skippedPaths ++ [path] }

/-- Counts a file that declares no class. -/
def recordMissingClass (s : Stats) (path : Path) : Stats :=
  { s with
    unitsWithoutClass := s.unitsWithoutClass + 1
    unitsWithoutClassPaths := s.unitsWithoutClassPaths ++ [path] }

/-- Counts a file that documents were generated for. -/
def recordOutput (s : Stats) (output : UnitOutput) (dropped : Nat) : Stats :=
  { s with
    generatedUnits := s.generatedUnits + 1
    properties := s.properties + output.accessorPairs
    propertiesDropped := s.propertiesDropped + dropped }

/-- The number of documents, written or skipped. -/
def totalFiles (s : Stats) : Nat :=
  s.filesWritten + s.filesSkipped

/-- The counts in one line. -/
def summary (s : Stats) : String :=
  toString s.generatedUnits ++ " units, " ++ toString s.properties ++ " properties (" ++
    toString s.propertiesDropped ++ " dropped), " ++ toString s.filesWritten ++ " files written, " ++
    toString s.filesSkipped ++ " skipped"

/-- All paths that the statistics name. -/
def paths (s : Stats) : List Path :=
  s.unitsWithoutClassPaths ++ s.writtenPaths ++ s.skippedPaths

/-- The statistics as data, with the paths as they are shown. -/
def encode (s : Stats) : Value :=
  let paths (ps : List Path) : Value := .array (ps.map fun p => .string p.text)
  .object
    [("total_units", .number s.totalUnits), ("generated_units", .number s.generatedUnits),
     ("units_without_class", .number s.unitsWithoutClass),
     ("units_without_class_paths", paths s.unitsWithoutClassPaths), ("properties", .number s.properties),
     ("properties_dropped", .number s.propertiesDropped), ("files_written", .number s.filesWritten),
     ("written_paths", paths s.writtenPaths), ("files_skipped", .number s.filesSkipped),
     ("skipped_paths", paths s.skippedPaths)]

/-- The statistics as data, unless a path is no text. -/
def encode? (s : Stats) : Option Value :=
  if s.paths.all Path.isText then some s.encode else none

end Stats

end GetSet
