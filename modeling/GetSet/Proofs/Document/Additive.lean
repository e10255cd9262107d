import GetSet.Document
import GetSet.Proofs.Accessor.Forms

/-!
# Classes come on top of interfaces

An interface is generated from the types that are asked for, the extension and its own two templates. Whether classes
are generated too, and from which templates, makes no difference to it. A class has two methods and a field for every
property, in the order of the properties, if it is generated at all (`classes_additive`).
-/

namespace GetSet

/-- Two configurations agree on all that an interface is generated from. -/
structure SameInterfaces (options options' : Options) (templates templates' : TemplateSet) : Prop where
  argumentTypes : options.argumentTypes = options'.argumentTypes
  returnTypes : options.returnTypes = options'.returnTypes
  extension : options.extension = options'.extension
  interfaceMethod : templates.interfaceMethod = templates'.interfaceMethod
  interfaceDocument : templates.interfaceDocument = templates'.interfaceDocument

namespace Accessor

variable {options options' : Options} {templates templates' : TemplateSet}

theorem getter_congr (h : options.returnTypes = options'.returnTypes) (p : Property) :
    getter options p = getter options' p := by
  unfold getter
  rw [h]

theorem setter_congr (harguments : options.argumentTypes = options'.argumentTypes)
    (hreturn : options.returnTypes = options'.returnTypes) (p : Property) (className : String) :
    setter options p className = setter options' p className := by
  unfold setter
  rw [harguments, hreturn]

/-- The accessors that an interface declares. -/
theorem interface_synthesize_congr (h : SameInterfaces options options' templates templates') (p : Property)
    (className : String) :
    (synthesize options templates p className).interface = (synthesize options' templates' p className).interface := by
  rw [interface_synthesize, interface_synthesize, getter_congr h.returnTypes,
    setter_congr h.argumentTypes h.returnTypes, h.interfaceMethod]

/-- Without a class there are no accessors for it. -/
theorem skeleton_synthesize_eq_nil (h : skeletonTemplates? options templates = none) (p : Property)
    (className : String) :
    (synthesize options templates p className).skeleton = [] ∧
      (synthesize options templates p className).field = none := by
  unfold synthesize
  rw [h]
  exact ⟨rfl, rfl⟩

end Accessor

namespace SourceUnit

open Accessor

variable {options options' : Options} {templates templates' : TemplateSet}

/-- The methods of the class for a unit: getter and setter of every property. -/
def methods (unit : SourceUnit) (options : Options) (template : Template) : List Fragment :=
  unit.properties.flatMap fun p =>
    [implementation template .get (getter options p) (getterBody p),
      implementation template .set (setter options p unit.name) (setterBody p)]

theorem interface_generate_congr (h : SameInterfaces options options' templates templates') (unit : SourceUnit) :
    (unit.generate options templates).interface = (unit.generate options' templates').interface := by
  have hmethods : ∀ p, (synthesize options templates p unit.name).interface.map (·.text) =
      (synthesize options' templates' p unit.name).interface.map (·.text) :=
    fun p => congrArg (List.map (·.text)) (interface_synthesize_congr h p unit.name)
  simp only [generate, accessors, List.flatMap_map, hmethods, h.interfaceDocument, h.extension]

/-- No fragment of a class is lost on the way into the class, and none is left over. -/
theorem skeleton_generate (unit : SourceUnit) (options : Options) (templates : TemplateSet) :
    (unit.generate options templates).skeleton =
      (skeletonTemplates? options templates).map fun skeleton =>
        .skeleton skeleton.document options.extension unit.name ((unit.methods options skeleton.method).map (·.text))
          (unit.properties.map (·.fieldDeclaration)) := by
  rw [skeleton_generate_eq_map]
  refine Option.map_congr fun skeleton hskeleton => ?_
  have hfragments := fun p => (skeleton_synthesize hskeleton p unit.name).1
  have hfield := fun p => (skeleton_synthesize hskeleton p unit.name).2
  have hmethods : ((unit.accessors options templates).flatMap fun a => a.skeleton.map (·.text)) =
      (unit.methods options skeleton.method).map (·.text) := by
    rw [accessors, methods, List.flatMap_map, List.map_flatMap]
    simp only [hfragments]
  have hfields : (unit.accessors options templates).filterMap (·.field) = unit.properties.map (·.fieldDeclaration) := by
    rw [accessors, List.filterMap_map, ← List.filterMap_eq_map]
    exact congrArg (List.filterMap · unit.properties) (funext hfield)
  exact congrArg₂ _ hmethods hfields

/-- Classes are generated on top of interfaces. The interface of a unit and the number of its accessor pairs depend
neither on the output directory and what happens to files there nor on whether classes are generated and from which
templates. There is a class exactly if classes are generated and there are templates for them. It does not depend on the
templates of interfaces, and is put together from getter and setter of every property and from a field for every
property, in order; if there is none then no accessor has anything for it. -/
theorem classes_additive (unit : SourceUnit) (options : Options) (templates : TemplateSet) :
    (∀ options' templates', SameInterfaces options options' templates templates' →
      (unit.generate options templates).interface = (unit.generate options' templates').interface ∧
        (unit.generate options templates).accessorPairs = (unit.generate options' templates').accessorPairs) ∧
    ((unit.generate options templates).skeleton.isSome = true ↔
      options.generateClasses = true ∧ templates.skeleton.isSome = true) ∧
    (∀ templates', templates'.skeleton = templates.skeleton →
      (unit.generate options templates').skeleton = (unit.generate options templates).skeleton) ∧
    (∀ d, (unit.generate options templates).skeleton = some d →
      ∃ skeleton, templates.skeleton = some skeleton ∧
        d = .skeleton skeleton.document options.extension unit.name
          ((unit.methods options skeleton.method).map (·.text)) (unit.properties.map (·.fieldDeclaration))) ∧
    ((unit.generate options templates).skeleton = none →
      ∀ a ∈ unit.accessors options templates, a.skeleton = [] ∧ a.field = none) ∧
    (unit.generate options templates).accessorPairs = unit.properties.length := by
  refine ⟨fun options' templates' h => ⟨interface_generate_congr h unit, rfl⟩, ?_, fun templates' h => ?_,
    fun d hd => ?_, fun hnone a ha => ?_, rfl⟩
  · rw [skeleton_generate, Option.isSome_map, Option.isSome_iff_exists, Option.isSome_iff_exists]
    simp only [skeletonTemplates?_eq_some_iff, exists_and_left]
  · rw [skeleton_generate, skeleton_generate, skeletonTemplates?, skeletonTemplates?, h]
  · rw [skeleton_generate, Option.map_eq_some_iff] at hd
    obtain ⟨skeleton, hskeleton, rfl⟩ := hd
    exact ⟨skeleton, (skeletonTemplates?_eq_some_iff.1 hskeleton).2, rfl⟩
  · rw [skeleton_generate, Option.map_eq_none_iff] at hnone
    obtain ⟨p, -, rfl⟩ := List.mem_map.1 ha
    exact skeleton_synthesize_eq_nil hnone p unit.name

/-- A class with two properties of the same name. -/
def doubledCard : SourceUnit where
  path := ⟨"Card.php"⟩
  name := "Card"
  properties := [⟨"int", "number", "Number", "number"⟩, ⟨"", "NUMBER", "Number", "number"⟩]
  droppedProperties := 0

/-- The interface is the same without classes and with a class, for which all four methods are generated. -/
theorem classes_additive_doubled :
    (doubledCard.generate {} { TemplateSet.builtin with skeleton := none }).interface =
        (doubledCard.generate { outputDir := ⟨"src"⟩, overwriteFiles := true, generateClasses := true }
          .builtin).interface ∧
      ∃ d skeleton, (doubledCard.generate { generateClasses := true } .builtin).skeleton = some d ∧
        TemplateSet.builtin.skeleton = some skeleton ∧
        (doubledCard.methods { generateClasses := true } skeleton.method).length = 4 ∧
        d = .skeleton skeleton.document "php" "Card"
          ((doubledCard.methods { generateClasses := true } skeleton.method).map (·.text))
          ["    /** @var int $number */\n    protected $number;", "    protected $number;"] := by
  have hsame : SameInterfaces {} { outputDir := ⟨"src"⟩, overwriteFiles := true, generateClasses := true }
      { TemplateSet.builtin with skeleton := none } .builtin := ⟨rfl, rfl, rfl, rfl, rfl⟩
  obtain ⟨-, hsome, -, hclass, -, -⟩ := doubledCard.classes_additive { generateClasses := true } .builtin
  obtain ⟨d, hd⟩ := Option.isSome_iff_exists.1 (hsome.2 ⟨rfl, rfl⟩)
  obtain ⟨skeleton, hskeleton, hbuilt⟩ := hclass d hd
  have hfields : doubledCard.properties.map (·.fieldDeclaration) =
      ["    /** @var int $number */\n    protected $number;", "    protected $number;"] := by decide +kernel
  rw [hfields] at hbuilt
  exact ⟨((doubledCard.classes_additive {} { TemplateSet.builtin with skeleton := none }).1 _ _ hsame).1, d, skeleton,
    hd, hskeleton, rfl, hbuilt⟩

end SourceUnit

end GetSet
