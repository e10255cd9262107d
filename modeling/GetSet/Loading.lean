import GetSet.Action

/-!
# Loading source units and templates

Files become source units and templates. Both are read with line feeds only, whatever their line ends.
-/

namespace GetSet

namespace SourceUnit

/-- What is reported while a unit is read from a text with line feeds only. Properties that are kept are only reported
on request. -/
def events (unit : SourceUnit) (verbose : Bool) (text : String) : List Event :=
  ((readings text).filterMap fun reading =>
    match reading.2 with
    | some p => if verbose then some (.property unit.name reading.1 p.pascalName) else none
    | none => some (.dropped unit.name reading.1)) ++
  [.classFound unit.name unit.properties.length unit.path]

/-- Reads a unit from the content of a file. -/
def read (verbose : Bool) (content : String) (path : Path) : Action (Option SourceUnit) := do
  match parse? content path with
  | none => return none
  | some unit =>
    Action.reportAll (unit.events verbose (Text.withUnixLineEnds content))
    return some unit

/-- Reads a unit from a file, which must exist. -/
def load (verbose : Bool) (path : Path) : Action (Option SourceUnit) := do
  Action.report (.parsing path)
  unless ← Action.inspect (·.pathExists path) do
    throw (.missingInput path)
  read verbose (← Action.reading path (·.readText path)) path

end SourceUnit

namespace Template

/-- Reads a template from a file. -/
def load (path : Path) : Action Template := do
  unless ← Action.inspect (·.isFile path) do
    throw (.missingTemplate path)
  let text ← Action.reading path (·.readText path)
  Action.report (.loadedTemplate path)
  return ⟨Text.withUnixLineEnds text⟩

end Template

namespace TemplateSet

/-- The file of the template for a method of an interface. -/
def interfaceMethodFile : Path := ⟨"InterfaceFunctionTemplate.txt"⟩

/-- The file of the template for an interface. -/
def interfaceDocumentFile : Path := ⟨"InterfaceTemplate.txt"⟩

/-- The file of the template for a method of a class. -/
def classMethodFile : Path := ⟨"ClassFunctionTemplate.txt"⟩

/-- The file of the template for a class. -/
def classDocumentFile : Path := ⟨"ClassTemplate.txt"⟩

/-- Reads the templates in a directory. Those of classes may be missing, unless classes are wanted; then or if both are
there, they are read too. -/
def load (dir : Path) (withClasses : Bool) : Action TemplateSet := do
  Action.report (.loadingTemplates dir)
  let interfaceMethod ← Template.load (dir.join interfaceMethodFile)
  let interfaceDocument ← Template.load (dir.join interfaceDocumentFile)
  let bothThere ← Action.inspect fun t =>
    t.isFile (dir.join classMethodFile) && t.isFile (dir.join classDocumentFile)
  if withClasses || bothThere then
    let method ← Template.load (dir.join classMethodFile)
    let document ← Template.load (dir.join classDocumentFile)
    return { interfaceMethod, interfaceDocument, skeleton := some { method, document } }
  else
    return { interfaceMethod, interfaceDocument, skeleton := none }

end TemplateSet

end GetSet
