import GetSet.Stats

/-!
# The journal

Every action reports what it does as events. An event has a level, and a message that a log shows; the journal keeps
the events themselves, oldest first.
-/

namespace GetSet

/-- The weight of an event, the greatest first. -/
inductive Level where
  | error
  | warn
  | info
  | debug
  | trace
deriving DecidableEq, Repr

namespace Level

/-- The word for a level. -/
def word : Level → String
  | error => "ERROR"
  | warn => "WARN"
  | info => "INFO"
  | debug => "DEBUG"
  | trace => "TRACE"

/-- The place in the order of levels. -/
def rank : Level → Nat
  | error => 0
  | warn => 1
  | info => 2
  | debug => 3
  | trace => 4

end Level

/-- What an action reports. -/
inductive Event where
  /-- The command registers an input file. -/
  | addingInput (path : Path)
  /-- An input file is registered. -/
  | registered (path : Path)
  | parsing (path : Path)
  /-- A property is kept, with its accessor suffix. -/
  | property (className : String) (tag : Tag) (pascalName : String)
  /-- A tag has no usable name. -/
  | dropped (className : String) (tag : Tag)
  | classFound (className : String) (properties : Nat) (path : Path)
  | noClass (path : Path)
  | synthesizing (className pascalName : String)
  | generating (files : Nat)
  | finished (stats : Stats)
  | skipped (path : Path)
  | creatingDirectory (path : Path)
  | written (path : Path)
  | loadingTemplates (dir : Path)
  | loadedTemplate (path : Path)
  | collecting (dir : Path)
  | foundFile (path : Path)
  | collected (files : Nat)
  /-- The command reports the statistics. -/
  | summary (stats : Stats)
deriving DecidableEq, Repr

namespace Event

/-- The level of an event. -/
def level : Event → Level
  | addingInput _ => .info
  | registered _ => .debug
  | parsing _ => .debug
  | property .. => .trace
  | dropped .. => .debug
  | classFound .. => .debug
  | noClass _ => .warn
  | synthesizing .. => .trace
  | generating _ => .info
  | finished _ => .info
  | skipped _ => .info
  | creatingDirectory _ => .debug
  | written _ => .info
  | loadingTemplates _ => .debug
  | loadedTemplate _ => .debug
  | collecting _ => .debug
  | foundFile _ => .trace
  | collected _ => .debug
  | summary _ => .info

/-- The message of an event. -/
def message : Event → String
  | addingInput path => "Adding " ++ path.text
  | registered path => "Adding " ++ path.text
  | parsing path => "Parsing file: " ++ path.text
  | property className tag pascalName =>
    className ++ ": property " ++ tag.typeHint ++ " $" ++ tag.rawName ++ " -> " ++ pascalName
  | dropped className tag =>
    "Dropping property $" ++ tag.rawName ++ " in " ++ className ++ ": no usable accessor name"
  | classFound className properties path =>
    "Found class " ++ className ++ " with " ++ toString properties ++ " properties in " ++ path.text
  | noClass path => "No class declaration found in " ++ path.text
  | synthesizing className pascalName => "Synthesizing accessors for " ++ className ++ "::" ++ pascalName
  | generating files => "Generating interfaces for " ++ toString files ++ " files"
  | finished stats => "Generation finished: " ++ stats.summary
  | skipped path => "Skipping existing file " ++ path.text
  | creatingDirectory path => "Creating directory: " ++ path.text
  | written path => "Wrote " ++ path.text
  | loadingTemplates dir => "Loading templates from " ++ dir.text
  | loadedTemplate path => "Loaded template " ++ path.text
  | collecting dir => "Collecting files from directory: " ++ dir.text
  | foundFile path => "Found file: " ++ path.text
  | collected files => "Collected " ++ toString files ++ " files for processing"
  | summary stats => stats.summary

/-- The level and the message in one text. -/
def text (e : Event) : String :=
  e.level.word ++ " " ++ e.message

end Event

end GetSet
