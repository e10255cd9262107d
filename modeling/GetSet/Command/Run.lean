import GetSet.Collector
import GetSet.Command.Arguments
import GetSet.Config
import GetSet.Generator

/-!
# The command

The command registers its inputs, a directory for all matching files below it, and generates their documents. It shows
what it does on standard error, the events of a level and above; with `--json` it prints the statistics, which it
cannot do if they name a path that is no text.
-/

namespace GetSet.Command

namespace Invocation

/-! ## What an invocation does -/

/-- The options: those of the configuration file, if there is one, unless the arguments say otherwise. -/
def options (inv : Invocation) : Action Options := do
  let base ←
    match inv.path? .config with
    | some path => Options.load path
    | none => pure {}
  return {
    outputDir := (inv.path? .outputDir).getD base.outputDir
    overwriteFiles := base.overwriteFiles || inv.has .overwrite
    argumentTypes := base.argumentTypes || inv.has .argumentTypes
    returnTypes := base.returnTypes || inv.has .returnTypes
    generateClasses := base.generateClasses || inv.has .classes
    extension :=
      match inv.extension? with
      | some extension => .ofList (extension.toList.dropWhile (· == '.'))
      | none => base.extension }

/-- The templates: those in the directory that is named, or the built-in ones. -/
def loadTemplates (inv : Invocation) (options : Options) : Action TemplateSet :=
  match inv.path? .templates with
  | some dir => TemplateSet.load dir options.generateClasses
  | none => return .builtin

/-- Registers a file and reports it. -/
def register (g : Generator) (path : Path) : Action Generator := do
  Action.report (.addingInput path)
  g.addClass path

/-- Generates the documents of all inputs. -/
def perform (inv : Invocation) : Action Stats := do
  let options ← inv.options
  let templates ← inv.loadTemplates options
  let files ← Collector.expand ⟨[options.extension]⟩ inv.inputs
  let generator ← files.foldlM register { options, templates, verbose := inv.has .verbose }
  let result ← generator.generate
  unless inv.has .json do
    Action.report (.summary result.stats)
  return result.stats

end Invocation

/-! ## What the command shows -/

/-- What a command leaves behind: its exit code and what it printed. -/
structure Report where
  code : Nat
  stdout : String := ""
  /-- The lines on standard error. -/
  stderr : List String := []
deriving DecidableEq, Repr

/-- The lines of a text. -/
def linesOf (text : String) : List String :=
  (Text.lines text.toList).map .ofList

/-- The lines of an event; all but the first are indented. -/
def eventLines (e : Event) : List String :=
  match linesOf e.text with
  | [] => []
  | line :: lines => line :: lines.map ("    " ++ ·)

/-- The events that are shown: those of level info and above, or debug and above on request. -/
def isShown (verbose : Bool) (e : Event) : Bool :=
  e.level.rank ≤ (if verbose then Level.debug else Level.info).rank

/-- The lines that report an error, with what caused it, if that is known. -/
def errorLines (message : String) (cause : Option String) : List String :=
  linesOf ("Error: " ++ message) ++
    match cause with
    | some cause => ["", "Caused by:", "    " ++ cause]
    | none => []

/-- The lines that report a fault, with the error of the system behind it, if there is one. -/
def faultLines (fault : Fault) : List String :=
  errorLines fault.message (fault.cause?.map (·.message))

/-- The lines that report that statistics cannot be printed because a path in them is no text. -/
def unprintableLines : List String :=
  errorLines "Failed to serialize statistics" (some "path contains invalid UTF-8 characters")

/-- The version that is printed. -/
def versionText : String :=
  "interface-gen 0.1.0\n"

/-- The help that is printed. -/
def helpText : String :=
  "Generate getter/setter interfaces from @property annotations\n\n" ++
  "Usage: interface-gen [OPTIONS] <INPUTS>...\n\n" ++
  "Arguments:\n" ++
  "  <INPUTS>...  Class files or directories to scan\n\n" ++
  "Options:\n" ++
  "  -o, --output-dir <OUTPUT_DIR>  Directory generated files are written into\n" ++
  "      --overwrite                Replace files that already exist\n" ++
  "      --argument-types           Type setter parameters with the declared property type\n" ++
  "      --return-types             Emit getter return types and fluent setter return types\n" ++
  "      --classes                  Also generate a skeleton class implementing each interface\n" ++
  "  -e, --extension <EXTENSION>    Extension of input files to collect and of generated files\n" ++
  "  -c, --config <CONFIG>          TOML file with generator options; flags override it\n" ++
  "  -t, --templates <TEMPLATES>    Directory holding custom templates\n" ++
  "      --json                     Print the run statistics as JSON\n" ++
  "  -v, --verbose                  Enable debug logging\n" ++
  "  -h, --help                     Print help\n" ++
  "  -V, --version                  Print version\n"

/-- What the command shows after an invocation was performed. -/
def Invocation.report (inv : Invocation) (showLog : Bool) (result : Except Fault Stats) (journal : List Event) :
    Report :=
  let log := if showLog then (journal.filter (isShown (inv.has .verbose))).flatMap eventLines else []
  match result with
  | .ok stats =>
    if inv.has .json then
      match stats.encode? with
      | some value => { code := 0, stdout := value.pretty ++ "\n", stderr := log }
      | none => { code := 1, stderr := log ++ unprintableLines }
    else { code := 0, stderr := log }
  | .error fault => { code := 1, stderr := log ++ faultLines fault }

/-- Runs the command with its arguments on a tree. -/
def run (args : List Bytes) (showLog : Bool) (tree : Tree) : Report × Tree :=
  match Invocation.ofArguments args with
  | .error .usage => ({ code := 2 }, tree)
  | .error .help => ({ code := 0, stdout := helpText }, tree)
  | .error .version => ({ code := 0, stdout := versionText }, tree)
  | .ok inv =>
    let (result, after) := inv.perform.runOn tree
    (inv.report showLog result after.journal, after.tree)

end GetSet.Command
