import GetSet.Options
import GetSet.Property
import GetSet.Template.Set
import GetSet.Text.Blank

/-!
# Accessors

A property has a getter and a setter. An interface declares them and a skeleton class implements them; both forms
share name, arguments and documentation, and differ in the setter's return type and in the body. `synthesize` renders
all accessors of a property through the method templates.
-/

namespace GetSet

/-- What a generated text belongs to: the interface or the skeleton class that implements it. -/
inductive Form where
  | interface
  | skeleton
deriving DecidableEq, Repr

/-- The name of the interface for a class. -/
def interfaceName (className : String) : String :=
  className ++ "Interface"

namespace Accessor

/-- Getter or setter. -/
inductive Kind where
  | get
  | set
deriving DecidableEq, Repr

/-! ## Signatures -/

/-- What both forms of an accessor are rendered from. -/
structure Signature where
  name : String
  arguments : String
  /-- The lines of the documentation comment. -/
  doc : List String
  /-- The return type with its colon, empty if there is none. -/
  returnType : Form → String

/-- The getter of a property. -/
def getter (options : Options) (p : Property) : Signature where
  name := "get" ++ p.pascalName
  arguments := ""
  doc := ["/**", " * @return " ++ p.docType, " */"]
  returnType _ := if options.returnTypes && p.hasExplicitType then ": " ++ p.typeHint else ""

/-- The setter of a property. It returns the object, which an interface calls `self` and a class by the interface that
it implements. -/
def setter (options : Options) (p : Property) (className : String) : Signature where
  name := "set" ++ p.pascalName
  arguments :=
    if options.argumentTypes && p.hasExplicitType then p.typeHint ++ " $" ++ p.fieldName else "$" ++ p.fieldName
  doc := ["/**", " * @param " ++ Text.trim (p.typeHint ++ " $" ++ p.fieldName), " *", " * @return $this", " */"]
  returnType form :=
    if options.returnTypes then
      match form with
      | .interface => ": self"
      | .skeleton => ": " ++ interfaceName className
    else
      ""

/-! ## Fragments -/

/-- The text of one accessor in one form. -/
structure Fragment where
  kind : Kind
  form : Form
  text : String
deriving DecidableEq, Repr

/-- The values that both forms bind. -/
def Signature.bindings (s : Signature) (form : Form) : Bindings :=
  Bindings.ofList
    [("FUNCTION_NAME", s.name), ("ARGUMENTS", s.arguments), ("PHPDOC", "\n    ".intercalate s.doc),
     ("RETURN_TYPE", s.returnType form)]

/-- The declaration of an accessor in an interface. -/
def declaration (template : Template) (kind : Kind) (s : Signature) : Fragment where
  kind
  form := .interface
  text := template.render (s.bindings .interface)

/-- The lines of a body, each but the first indented unless it is empty. -/
def indentBody (body : List String) : String :=
  "\n".intercalate (body.take 1 ++ (body.drop 1).map fun line => if line.isEmpty then line else "        " ++ line)

/-- The implementation of an accessor in a skeleton class. -/
def implementation (template : Template) (kind : Kind) (s : Signature) (body : List String) : Fragment where
  kind
  form := .skeleton
  text := template.render ((s.bindings .skeleton).bind "FUNCTION" (indentBody body))

/-- The statements of a getter. -/
def getterBody (p : Property) : List String :=
  ["return $this->" ++ p.fieldName ++ ";"]

/-- The statements of a setter. -/
def setterBody (p : Property) : List String :=
  ["$this->" ++ p.fieldName ++ " = $" ++ p.fieldName ++ ";", "", "return $this;"]

end Accessor

/-- All that is generated for one property. -/
structure Accessors where
  /-- Getter and setter as an interface declares them. -/
  interface : List Accessor.Fragment
  /-- Getter and setter as a skeleton class implements them; empty if no class is generated. -/
  skeleton : List Accessor.Fragment
  /-- The declaration of the backing field, if a class is generated. -/
  field : Option String
deriving DecidableEq, Repr

namespace Accessor

/-- The templates of the skeleton class, if one is to be generated. -/
def skeletonTemplates? (options : Options) (templates : TemplateSet) : Option SkeletonTemplates :=
  if options.generateClasses then templates.skeleton else none

/-- The accessors of a property of a class. -/
def synthesize (options : Options) (templates : TemplateSet) (p : Property) (className : String) : Accessors :=
  let get := getter options p
  let set := setter options p className
  let interface :=
    [declaration templates.interfaceMethod .get get, declaration templates.interfaceMethod .set set]
  match skeletonTemplates? options templates with
  | some skeleton =>
    { interface
      skeleton :=
        [implementation skeleton.method .get get (getterBody p), implementation skeleton.method .set set (setterBody p)]
      field := some p.fieldDeclaration }
  | none => { interface, skeleton := [], field := none }

/-- An interface declares getter and setter, whether a class is generated or not. -/
theorem interface_synthesize (options : Options) (templates : TemplateSet) (p : Property) (className : String) :
    (synthesize options templates p className).interface =
      [declaration templates.interfaceMethod .get (getter options p),
        declaration templates.interfaceMethod .set (setter options p className)] := by
  unfold synthesize
  split <;> rfl

/-- A skeleton class implements getter and setter and declares the field. -/
theorem skeleton_synthesize {options : Options} {templates : TemplateSet} {skeleton : SkeletonTemplates}
    (h : skeletonTemplates? options templates = some skeleton) (p : Property) (className : String) :
    (synthesize options templates p className).skeleton =
      [implementation skeleton.method .get (getter options p) (getterBody p),
        implementation skeleton.method .set (setter options p className) (setterBody p)] ∧
      (synthesize options templates p className).field = some p.fieldDeclaration := by
  unfold synthesize
  rw [h]
  exact ⟨rfl, rfl⟩

end Accessor

end GetSet
