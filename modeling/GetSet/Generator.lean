import GetSet.Loading
import GetSet.Progress
import GetSet.Writer

/-!
# Generating

A generator has options, templates and registered files. `render` generates the documents of all files, in the order of
their registration; `generate` also writes each file's documents before it turns to the next file, which may therefore
be one that was just written. The first fault ends a run, and what was written by then stays.
-/

namespace GetSet

/-- What a run did with one file. -/
inductive FileReport where
  | withoutClass (path : Path)
  | generated (output : UnitOutput) (dropped : Nat) (outcomes : List WriteOutcome)
deriving DecidableEq, Repr

namespace FileReport

/-- The documents that were generated for the file. -/
def output? : FileReport → Option UnitOutput
  | withoutClass _ => none
  | generated output .. => some output

end FileReport

namespace Stats

/-- Counts what was done with a file. -/
def record (s : Stats) : FileReport → Stats
  | .withoutClass path => { s with totalUnits := s.totalUnits + 1 }.recordMissingClass path
  | .generated output dropped outcomes =>
    outcomes.foldl recordWrite ({ s with totalUnits := s.totalUnits + 1 }.recordOutput output dropped)

/-- The statistics of a run. -/
def ofReports (reports : List FileReport) : Stats :=
  reports.foldl record {}

end Stats

/-- What a run yields. -/
structure RunResult where
  /-- The documents of all files that declare a class, in the order of the files. -/
  units : List UnitOutput
  stats : Stats
deriving DecidableEq, Repr

/-- What a run yields that did this with its files. -/
def RunResult.ofReports (reports : List FileReport) : RunResult where
  units := reports.filterMap (·.output?)
  stats := Stats.ofReports reports

/-- Generates documents for registered files. -/
structure Generator where
  options : Options := {}
  templates : TemplateSet := .builtin
  /-- The registered files, in order. -/
  classFiles : List Path := []
  /-- Whether every property that is kept is reported. -/
  verbose : Bool := false
  progress : Progress := {}
deriving DecidableEq, Repr

namespace Generator

/-! ## Registering files -/

/-- Registers a file, which must exist. -/
def addClass (g : Generator) (path : Path) : Action Generator := do
  unless ← Action.inspect (·.pathExists path) do
    throw (.missingInput path)
  Action.report (.registered path)
  return { g with classFiles := g.classFiles ++ [path] }

/-- Registers files until one does not exist; returns the generator with those before it, and the fault. -/
def addClasses (g : Generator) : List Path → Action (Generator × Option Fault)
  | [] => return (g, none)
  | path :: paths => do
    match ← observing (addClass g path) with
    | .ok g => addClasses g paths
    | .error fault => return (g, some fault)

/-! ## Running -/

/-- Generates the documents of a file, and writes them if there is a writer. -/
def process (g : Generator) (writer : Option Writer) (path : Path) : Action FileReport := do
  match ← SourceUnit.load g.verbose path with
  | none =>
    Action.report (.noClass path)
    return .withoutClass path
  | some unit =>
    -- all documents of a file are generated before the first one is written
    Action.reportAll (unit.properties.map fun p => .synthesizing unit.name p.pascalName)
    let output := unit.generate g.options g.templates
    let outcomes ←
      match writer with
      | some w => output.documents.mapM w.write
      | none => pure []
    return .generated output unit.droppedProperties outcomes

/-- Processes all registered files in order. -/
def processAll (g : Generator) (writer : Option Writer) : Action (List FileReport) :=
  g.progress.track Progress.silent (g.process writer) g.classFiles

/-- Whether classes are to be generated for which there are no templates. -/
def lacksTemplates (g : Generator) : Bool :=
  g.options.generateClasses && g.templates.skeleton.isNone

/-- Processes all registered files, and counts. -/
def run (g : Generator) (writer : Option Writer) : Action RunResult := do
  if g.lacksTemplates then
    throw (.missingTemplate TemplateSet.classDocumentFile)
  Action.report (.generating g.classFiles.length)
  let reports ← g.processAll writer
  let result := RunResult.ofReports reports
  Action.report (.finished result.stats)
  return result

/-- The writer that the options describe. -/
def writer (g : Generator) : Writer where
  outputDir := g.options.outputDir
  overwrite := g.options.overwriteFiles

/-- Generates all documents and writes none. -/
def render (g : Generator) : Action RunResult :=
  g.run none

/-- Generates and writes all documents. -/
def generate (g : Generator) : Action RunResult :=
  g.run (some g.writer)

end Generator

end GetSet
