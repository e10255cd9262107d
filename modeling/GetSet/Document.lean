import GetSet.Accessor
import GetSet.SourceUnit

/-!
# Documents

The accessors of a unit are put together to one interface document and, if classes are generated, one class document.
-/

namespace GetSet

/-- A generated file. -/
structure Document where
  form : Form
  /-- Its name in the output directory. -/
  fileName : String
  body : String
deriving DecidableEq, Repr

namespace Document

/-- Members of a document, with a blank line between them. -/
def joinMembers (members : List String) : String :=
  "\n\n".intercalate members

/-- The interface for a class, from the declarations of its methods. -/
def interface (template : Template) (extension className : String) (methods : List String) : Document where
  form := .interface
  fileName := interfaceName className ++ "." ++ extension
  body := template.render <| Bindings.ofList
    [("INTERFACE_NAME", interfaceName className), ("CLASS_NAME", className), ("FUNCTIONS", joinMembers methods)]

/-- The skeleton of a class, from its methods and fields. -/
def skeleton (template : Template) (extension className : String) (methods fields : List String) : Document where
  form := .skeleton
  fileName := className ++ "." ++ extension
  body := template.render <| Bindings.ofList
    [("CLASS_NAME", className), ("INTERFACE_NAME", interfaceName className), ("PROPERTIES", joinMembers fields),
     ("FUNCTIONS", joinMembers methods)]

end Document

/-- What is generated for one unit. -/
structure UnitOutput where
  unitName : String
  sourcePath : Path
  /-- The number of properties that accessors were generated for. -/
  accessorPairs : Nat
  interface : Document
  /-- The skeleton class, if one is generated. -/
  skeleton : Option Document
deriving DecidableEq, Repr

namespace UnitOutput

/-- The documents in the order in which they are written. -/
def documents (output : UnitOutput) : List Document :=
  output.interface :: output.skeleton.toList

end UnitOutput

namespace SourceUnit

/-- The accessors of the unit's properties, in order. -/
def accessors (unit : SourceUnit) (options : Options) (templates : TemplateSet) : List Accessors :=
  unit.properties.map fun p => Accessor.synthesize options templates p unit.name

/-- The documents of a unit. -/
def generate (unit : SourceUnit) (options : Options) (templates : TemplateSet) : UnitOutput :=
  let accessors := unit.accessors options templates
  { unitName := unit.name
    sourcePath := unit.path
    accessorPairs := unit.properties.length
    interface :=
      .interface templates.interfaceDocument options.extension unit.name
        (accessors.flatMap fun a => a.interface.map (·.text))
    skeleton :=
      match templates.skeleton, options.generateClasses with
      | some skeleton, true =>
        some <| .skeleton skeleton.document options.extension unit.name
          (accessors.flatMap fun a => a.skeleton.map (·.text))
          (accessors.filterMap (·.field))
      | _, _ => none }

/-- A class is put together exactly if its members are rendered. -/
theorem skeleton_generate_eq_map (unit : SourceUnit) (options : Options) (templates : TemplateSet) :
    (unit.generate options templates).skeleton =
      (Accessor.skeletonTemplates? options templates).map fun skeleton =>
        .skeleton skeleton.document options.extension unit.name
          ((unit.accessors options templates).flatMap fun a => a.skeleton.map (·.text))
          ((unit.accessors options templates).filterMap (·.field)) := by
  unfold generate Accessor.skeletonTemplates?
  cases options.generateClasses with
  | true => cases templates.skeleton <;> rfl
  | false => cases templates.skeleton <;> rfl

theorem exists_of_skeleton_generate {unit : SourceUnit} {options : Options} {templates : TemplateSet} {d : Document}
    (h : (unit.generate options templates).skeleton = some d) :
    ∃ skeleton, Accessor.skeletonTemplates? options templates = some skeleton ∧
      d = .skeleton skeleton.document options.extension unit.name
        ((unit.accessors options templates).flatMap fun a => a.skeleton.map (·.text))
        ((unit.accessors options templates).filterMap (·.field)) := by
  rw [skeleton_generate_eq_map, Option.map_eq_some_iff] at h
  obtain ⟨skeleton, hskeleton, rfl⟩ := h
  exact ⟨skeleton, hskeleton, rfl⟩

end SourceUnit

end GetSet
