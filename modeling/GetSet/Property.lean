import GetSet.Tag

/-!
# Properties

A property is a tag with the names that generated code uses for it. A property without a type and one of type
`mixed` are both untyped: signatures leave their type out.
-/

namespace GetSet

/-- A property that accessors are generated for. -/
structure Property where
  /-- Declared type, empty if there is none. -/
  typeHint : String
  /-- The name as it is written, without its `$`. -/
  rawName : String
  /-- Suffix of the accessors' names. -/
  pascalName : String
  /-- Name of the field and of the setter's parameter. -/
  fieldName : String
deriving DecidableEq, Repr

namespace Property

/-- The property that a tag declares, if its name can be normalized. -/
def ofTag? (tag : Tag) : Option Property :=
  (Name.normalize? tag.rawName).map fun name => ⟨tag.typeHint, tag.rawName, name.pascal, name.camel⟩

/-- Whether the declared type belongs into signatures. -/
def hasExplicitType (p : Property) : Bool :=
  p.typeHint != "" && p.typeHint != "mixed"

/-- The type that documentation names. -/
def docType (p : Property) : String :=
  if p.typeHint == "" then "mixed" else p.typeHint

/-- The declaration of the backing field, documented if the type is known. -/
def fieldDeclaration (p : Property) : String :=
  let declaration := "    protected $" ++ p.fieldName ++ ";"
  if p.hasExplicitType then
    "    /** @var " ++ p.typeHint ++ " $" ++ p.fieldName ++ " */\n" ++ declaration
  else
    declaration

end Property

end GetSet
