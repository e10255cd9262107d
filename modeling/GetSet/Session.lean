import GetSet.Command.Run
import GetSet.Data.Codec
import GetSet.Text.Lossy

/-!
# Sessions

A session has a generator, a collector and a directory tree, and goes on step by step. A step that fails leaves the
generator and the collector as they were, with one exception: files that are registered together stay registered up to
the first one that does not exist.
-/

namespace GetSet

/-! ## Steps -/

/-- A change of a generator's configuration. -/
inductive Change where
  | outputDir (dir : Path)
  | extension (extension : String)
  | overwriteFiles (on : Bool)
  | argumentTypes (on : Bool)
  | returnTypes (on : Bool)
  | generateClasses (on : Bool)
  | verbose (on : Bool)
  | quiet
  | templates (templates : TemplateSet)
deriving Repr

/-- Changes the configuration of a generator. -/
def Generator.configure (g : Generator) : Change → Generator
  | .outputDir dir => { g with options.outputDir := dir }
  | .extension extension => { g with options.extension := extension }
  | .overwriteFiles on => { g with options.overwriteFiles := on }
  | .argumentTypes on => { g with options.argumentTypes := on }
  | .returnTypes on => { g with options.returnTypes := on }
  | .generateClasses on => { g with options.generateClasses := on }
  | .verbose on => { g with verbose := on }
  | .quiet => { g with progress.hidden := true }
  | .templates templates => { g with templates }

/-- What can be done in a session. -/
inductive Step where
  /-- Writes a file and makes the directories it needs. -/
  | write (path : Path) (content : ByteArray)
  | makeDirectory (path : Path)
  | makeLink (path target : Path)
  | remove (path : Path)
  | list
  /-- Starts with a new generator, with options if some are given. -/
  | newGenerator (options : Option Value)
  | configure (change : Change)
  | loadTemplates (dir : Path) (withClasses : Bool)
  | loadOptions (path : Path)
  | addClass (path : Path)
  | addClasses (paths : List Path)
  | classFiles
  | render
  | generate
  | parseFile (path : Path) (verbose : Bool)
  /-- Writes a document of a form. -/
  | writeDocument (writer : Writer) (form : Value) (fileName body : String)
  /-- Starts with a new collector, with extensions if some are given. -/
  | newCollector (extensions : Option (List String))
  | addExtension (extension : String)
  | collect (dir : Path)
  | expand (inputs : List Path)
  /-- Runs the command. -/
  | command (args : List String) (showLog : Bool)

/-- What a step answers. -/
inductive Answer where
  | done
  | options (options : Options)
  | templates (templates : TemplateSet)
  | paths (paths : List Path)
  | result (result : RunResult)
  | unit (unit : Option SourceUnit)
  | outcome (outcome : WriteOutcome)
  /-- The entries below the working directory; a directory's path ends in a slash and a link's in `@`, and a file has
  its text. -/
  | listing (entries : List (String × Option String))
  | report (report : Command.Report)
  | fault (fault : Fault)
  /-- Options or a form are not what they should be. -/
  | rejected

/-! ## The tree as a list -/

/-- An entry of a tree as it is listed. -/
def listEntry : Path × Node → Path × Option String
  | (path, .directory) => (⟨path.bytes ++ "/"⟩, none)
  | (path, .file content) => (path, some (Text.ofBytesLossy content.data.toList))
  | (path, .link _) => (⟨path.bytes ++ "@"⟩, none)

/-- The entries below the working directory, sorted by their paths. -/
def Tree.listed (t : Tree) : List (Path × Option String) :=
  (t.listing.map listEntry).mergeSort fun a b => a.1.bytes ≤ b.1.bytes

/-! ## The course of a session -/

/-- The state of a session. -/
structure Session where
  generator : Generator := {}
  collector : Collector := {}
  tree : Tree := .empty

namespace Session

/-- What a step does, apart from the tree: the next generator and collector, and the answer. -/
structure Outcome where
  generator : Generator
  collector : Collector
  answer : Answer

/-- Makes the directories above a path. -/
def makeParents (path : Path) : Action Unit :=
  match path.ancestors with
  | _ :: parent :: _ => Action.makeDirectories parent
  | _ => return

/-- Performs a step. -/
def perform (s : Session) (step : Step) : Action Outcome := do
  let same (answer : Answer) : Outcome := ⟨s.generator, s.collector, answer⟩
  let withGenerator (g : Generator) (answer : Answer) : Outcome := ⟨g, s.collector, answer⟩
  match step with
  | .write path content =>
    makeParents path
    Action.changing path (·.write path content)
    return same .done
  | .makeDirectory path =>
    Action.makeDirectories path
    return same .done
  | .makeLink path target =>
    makeParents path
    Action.changing path (·.makeLink path target)
    return same .done
  | .remove path =>
    Action.changing path (·.remove path)
    return same .done
  | .list =>
    let entries ← Action.inspect (·.listed)
    return same (.listing (entries.map fun e => (e.1.text, e.2)))
  | .newGenerator none => return withGenerator {} (.options {})
  | .newGenerator (some value) =>
    match Options.decode? value with
    | some options => return withGenerator { options } (.options options)
    | none => return same .rejected
  | .configure change =>
    let g := s.generator.configure change
    return withGenerator g (.options g.options)
  | .loadTemplates dir withClasses =>
    let templates ← TemplateSet.load dir withClasses
    return withGenerator (s.generator.configure (.templates templates)) (.templates templates)
  | .loadOptions path => return same (.options (← Options.load path))
  | .addClass path =>
    let g ← s.generator.addClass path
    return withGenerator g (.paths g.classFiles)
  | .addClasses paths =>
    match ← s.generator.addClasses paths with
    | (g, none) => return withGenerator g (.paths g.classFiles)
    | (g, some fault) => return withGenerator g (.fault fault)
  | .classFiles => return same (.paths s.generator.classFiles)
  | .render => return same (.result (← s.generator.render))
  | .generate => return same (.result (← s.generator.generate))
  | .parseFile path verbose => return same (.unit (← SourceUnit.load verbose path))
  | .writeDocument writer form fileName body =>
    match Form.decode? form with
    | some form => return same (.outcome (← writer.write { form, fileName, body }))
    | none => return same .rejected
  | .newCollector extensions =>
    return ⟨s.generator, (extensions.map Collector.mk).getD {}, .done⟩
  | .addExtension extension => return ⟨s.generator, s.collector.addExtension extension, .done⟩
  | .collect dir => return same (.paths (← s.collector.collect dir))
  | .expand inputs => return same (.paths (← s.collector.expand inputs))
  | .command args showLog =>
    let (report, tree) := Command.run (args.map Text.bytes) showLog (← get).tree
    modify fun w => { w with tree }
    return same (.report report)

/-- Goes on by a step; a fault is its answer. Also yields what the step reported. -/
def next (s : Session) (step : Step) : Answer × List Event × Session :=
  match (s.perform step).runOn s.tree with
  | (.ok o, w) => (o.answer, w.journal, ⟨o.generator, o.collector, w.tree⟩)
  | (.error fault, w) => (.fault fault, w.journal, { s with tree := w.tree })

/-- The answers to steps, each with what the step reported. -/
def answers (s : Session) : List Step → List (Answer × List Event)
  | [] => []
  | step :: steps =>
    let (answer, journal, s) := s.next step
    (answer, journal) :: s.answers steps

end Session

end GetSet
