import GetSet.Data.Value
import GetSet.Document

/-!
# Options, properties and forms as data

A record is written as an object with one field for each of its own. It is read from such an object, whatever the
order of the fields and whatever other fields there are, or from an array of its fields in their order. Fields of
options may be missing and then have their defaults; a field that is there must have the right type, and it must not be
there twice.
-/

namespace GetSet

namespace Value

/-- The fields of a record given as an object or, if it is not longer than the list of their keys, as an array. -/
def recordFields? (keys : List String) : Value → Option (List (String × Value))
  | .object fields => some fields
  | .array items => if items.length ≤ keys.length then some (keys.zip items) else none
  | _ => none

/-- The values that stand under a key. -/
def valuesAt (fields : List (String × Value)) (key : String) : List Value :=
  (fields.filter (·.1 == key)).map (·.2)

end Value

namespace Options

/-- The keys of the options, in order. -/
def keys : List String :=
  ["output_dir", "overwrite_files", "argument_types", "return_types", "generate_classes", "extension"]

/-- Reads a field if it is there; it must then be there once and be accepted. -/
def field? {α : Type} (fields : List (String × Value)) (key : String) (read : Value → Option α) (missing : α) :
    Option α :=
  match Value.valuesAt fields key with
  | [] => some missing
  | [v] => read v
  | _ => none

/-- The options that some fields describe. -/
def ofFields? (fields : List (String × Value)) : Option Options := do
  let defaults : Options := {}
  return {
    outputDir := ⟨← field? fields "output_dir" Value.string? defaults.outputDir.text⟩
    overwriteFiles := ← field? fields "overwrite_files" Value.bool? defaults.overwriteFiles
    argumentTypes := ← field? fields "argument_types" Value.bool? defaults.argumentTypes
    returnTypes := ← field? fields "return_types" Value.bool? defaults.returnTypes
    generateClasses := ← field? fields "generate_classes" Value.bool? defaults.generateClasses
    extension := ← field? fields "extension" Value.string? defaults.extension }

/-- The options that a value describes. -/
def decode? (v : Value) : Option Options :=
  (v.recordFields? keys).bind ofFields?

/-- The values of the options, in order. -/
def values (o : Options) : List Value :=
  [.string o.outputDir.text, .bool o.overwriteFiles, .bool o.argumentTypes, .bool o.returnTypes,
   .bool o.generateClasses, .string o.extension]

/-- The options as an object. -/
def encode (o : Options) : Value :=
  .object (keys.zip o.values)

/-- Options that are written are read back if their directory is a text. -/
theorem decode?_encode {o : Options} (h : o.outputDir.isText = true) : decode? o.encode = some o := by
  simp [decode?, encode, Value.recordFields?, keys, values, ofFields?, field?, Value.valuesAt, Value.string?,
    Value.bool?, Path.mk_text h]

end Options

namespace Property

/-- The keys of a property, in order. -/
def keys : List String :=
  ["type_hint", "raw_name", "pascal_name", "field_name"]

/-- Reads a text that must be there, once. -/
def text? (fields : List (String × Value)) (key : String) : Option String :=
  match Value.valuesAt fields key with
  | [v] => v.string?
  | _ => none

/-- The property that a value describes; no field may be missing. -/
def decode? (v : Value) : Option Property := do
  let fields ← v.recordFields? keys
  return {
    typeHint := ← text? fields "type_hint"
    rawName := ← text? fields "raw_name"
    pascalName := ← text? fields "pascal_name"
    fieldName := ← text? fields "field_name" }

/-- The properties that an array describes. -/
def decodeAll? : Value → Option (List Property)
  | .array items => items.mapM decode?
  | _ => none

/-- The property as an object. -/
def encode (p : Property) : Value :=
  .object (keys.zip [.string p.typeHint, .string p.rawName, .string p.pascalName, .string p.fieldName])

/-- A property that is written is read back. -/
theorem decode?_encode (p : Property) : decode? p.encode = some p := by
  simp [decode?, encode, Value.recordFields?, keys, text?, Value.valuesAt, Value.string?]

end Property

namespace Form

/-- The word for a form. -/
def word : Form → String
  | .interface => "interface"
  | .skeleton => "class"

/-- The form that a word names. -/
def ofWord? (word : String) : Option Form :=
  [Form.interface, Form.skeleton].find? (·.word == word)

/-- The form that a value names: its word, or an object whose one key is the word and whose value is null. -/
def decode? : Value → Option Form
  | .string word => ofWord? word
  | .object [(word, .null)] => ofWord? word
  | _ => none

/-- The form as data. -/
def encode (form : Form) : Value :=
  .string form.word

/-- A form that is written is read back. -/
theorem decode?_encode (form : Form) : decode? form.encode = some form := by
  cases form <;> decide

end Form

end GetSet
