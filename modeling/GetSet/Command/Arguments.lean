import GetSet.Path

/-!
# Command line arguments

Arguments are bytes and need not be texts. They are read from left to right: switches, which are on or off; settings,
which have a value; and the paths of the inputs. Each has a long form, `--extension inc` or `--extension=inc`, and some
a short one, `-e inc`, `-einc` or `-e=inc`; short switches may be put together. After `--` everything is an input. No
switch and no setting may be given twice, no path may be empty, an extension must be a text, and there must be an input.
-/

namespace GetSet.Command

/-- What can be switched on. -/
inductive Switch where
  | overwrite
  | argumentTypes
  | returnTypes
  | classes
  | json
  | verbose
deriving DecidableEq, Repr

/-- What can be given a value. -/
inductive Setting where
  | outputDir
  | extension
  | config
  | templates
deriving DecidableEq, Repr

/-- What the command is to do. -/
structure Invocation where
  /-- Files and directories, in order. -/
  inputs : List Path := []
  /-- The switches that are on. -/
  switches : List Switch := []
  /-- The settings with their values. -/
  settings : List (Setting × Bytes) := []
deriving DecidableEq, Repr

/-- Why there is nothing to do. -/
inductive Stop where
  /-- The arguments cannot be understood. -/
  | usage
  /-- Help is asked for. -/
  | help
  /-- The version is asked for. -/
  | version
deriving DecidableEq, Repr

/-- What an argument can name. -/
inductive Name where
  | switch (s : Switch)
  | setting (s : Setting)
  | stop (s : Stop)
deriving DecidableEq, Repr

/-- The long names. -/
def longNames : List (String × Name) :=
  [("output-dir", .setting .outputDir), ("overwrite", .switch .overwrite),
   ("argument-types", .switch .argumentTypes), ("return-types", .switch .returnTypes),
   ("classes", .switch .classes), ("extension", .setting .extension), ("config", .setting .config),
   ("templates", .setting .templates), ("json", .switch .json), ("verbose", .switch .verbose),
   ("help", .stop .help), ("version", .stop .version)]

/-- The short names. -/
def shortNames : List (Char × Name) :=
  [('o', .setting .outputDir), ('e', .setting .extension), ('c', .setting .config), ('t', .setting .templates),
   ('v', .switch .verbose), ('h', .stop .help), ('V', .stop .version)]

/-- Begins an argument that is no input. -/
def dash : UInt8 := 0x2d

/-- Stands between a name and its value. -/
def equals : UInt8 := 0x3d

/-- Whether a setting can have a value: an extension is a text, which may be empty, and everything else a path. -/
def Setting.accepts : Setting → Bytes → Bool
  | .extension, value => (Text.ofBytes? value).isSome
  | _, value => !value.isEmpty

namespace Invocation

/-! ## Adding to an invocation -/

/-- Whether a switch is on. -/
def has (inv : Invocation) (s : Switch) : Bool :=
  inv.switches.contains s

/-- The value of a setting. -/
def get? (inv : Invocation) (s : Setting) : Option Bytes :=
  inv.settings.lookup s

/-- The path that a setting gives. -/
def path? (inv : Invocation) (s : Setting) : Option Path :=
  (inv.get? s).map .ofBytes

/-- The extension that is given. -/
def extension? (inv : Invocation) : Option String :=
  (inv.get? .extension).bind Text.ofBytes?

/-- Switches something on, once. -/
def turnOn (inv : Invocation) (s : Switch) : Except Stop Invocation :=
  if inv.has s then .error .usage else .ok { inv with switches := inv.switches ++ [s] }

/-- Gives a setting its value, once. -/
def assign (inv : Invocation) (s : Setting) (value : Bytes) : Except Stop Invocation :=
  if (inv.get? s).isSome || !s.accepts value then .error .usage
  else .ok { inv with settings := inv.settings ++ [(s, value)] }

/-- Adds an input. -/
def addInput (inv : Invocation) (arg : Bytes) : Except Stop Invocation :=
  if arg.isEmpty then .error .usage else .ok { inv with inputs := inv.inputs ++ [⟨arg⟩] }

/-! ## Reading arguments -/

/-- Whether an argument can be no value of a setting before it: it begins with a dash and is not a dash alone. -/
def isOption (arg : Bytes) : Bool :=
  arg.head? == some dash && arg != "-"

/-- Reads short names behind one dash. The last one may be a setting whose value is the next argument. -/
def readShort (inv : Invocation) : Bytes → Except Stop (Invocation × Option Setting)
  | [] => .ok (inv, none)
  | b :: bs =>
    match shortNames.find? (·.1.toUInt8 == b) with
    | none => .error .usage
    | some (_, .stop s) => .error s
    | some (_, .switch s) => do readShort (← inv.turnOn s) bs
    | some (_, .setting s) =>
      -- all that follows is the value, even if it begins with the name of a switch
      if bs.isEmpty then .ok (inv, some s)
      else if bs.head? == some equals then do return (← inv.assign s bs.tail, none)
      else do return (← inv.assign s bs, none)

/-- Reads a long name behind two dashes, with its value behind an equals sign. A setting without a value has the next
argument for it. -/
def readLong (inv : Invocation) (bs : Bytes) : Except Stop (Invocation × Option Setting) :=
  let name? := (Text.ofBytes? (bs.takeWhile (· != equals))).bind (longNames.lookup ·)
  let value? := (bs.dropWhile (· != equals)).tail?
  match name?, value? with
  | some (.stop s), none => .error s
  | some (.switch s), none => do return (← inv.turnOn s, none)
  | some (.setting s), none => .ok (inv, some s)
  | some (.setting s), some value => do return (← inv.assign s value, none)
  | _, _ => .error .usage

/-- Reads one argument. -/
def readOption (inv : Invocation) (arg : Bytes) : Except Stop (Invocation × Option Setting) :=
  if !isOption arg then do return (← inv.addInput arg, none)
  else if arg.tail.head? == some dash then inv.readLong (arg.drop 2)
  else inv.readShort arg.tail

/-- Accepts an invocation after its last argument. -/
def finish (inv : Invocation) : Except Stop Invocation :=
  if inv.inputs.isEmpty then .error .usage else .ok inv

/-- Reads all arguments from some point on; `waiting` is a setting that has its value in the next one. -/
def readAll (inv : Invocation) (waiting : Option Setting) : List Bytes → Except Stop Invocation
  | [] => if waiting.isSome then .error .usage else inv.finish
  | arg :: args =>
    match waiting with
    | some s => if isOption arg then .error .usage else do readAll (← inv.assign s arg) none args
    | none =>
      if arg == "--" then do
        let inv ← args.foldlM addInput inv
        inv.finish
      else do
        let (inv, waiting) ← inv.readOption arg
        readAll inv waiting args

/-- What the arguments of a command line say. -/
def ofArguments (args : List Bytes) : Except Stop Invocation :=
  readAll {} none args

end Invocation

end GetSet.Command
