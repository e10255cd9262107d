import GetSet.Document
import GetSet.Proofs.Source.Append
import GetSet.Proofs.Template.Frame

/-!
# Documents grow with their source

The documents of a unit are frames around its members, which come in the order of its properties. So if a source goes
on with more tags, then its documents go on with more members and stay as they are around them
(`generate_append_newline`).
-/

namespace GetSet

namespace Document

/-! ## Members -/

/-- What stands between the members of two lists: a blank line, unless one of the lists is empty. -/
def separator {α : Type} (xs ys : List α) : String :=
  if xs.isEmpty || ys.isEmpty then "" else "\n\n"

theorem joinMembers_append (xs ys : List String) :
    joinMembers (xs ++ ys) = joinMembers xs ++ separator xs ys ++ joinMembers ys := by
  by_cases hxs : xs = []
  · simp [hxs, joinMembers, separator]
  · by_cases hys : ys = []
    · simp [hys, joinMembers, separator]
    · simp only [joinMembers, separator, List.isEmpty_eq_false_iff.2 hxs, List.isEmpty_eq_false_iff.2 hys]
      exact String.intercalate_append_of_ne_nil hxs hys

/-- The members of two lists of things each of which has at least one member. -/
theorem joinMembers_flatMap_append {α : Type} {f : α → List String} (hf : ∀ a, f a ≠ []) (xs ys : List α) :
    joinMembers ((xs ++ ys).flatMap f) =
      joinMembers (xs.flatMap f) ++ separator xs ys ++ joinMembers (ys.flatMap f) := by
  have hempty : ∀ zs : List α, (zs.flatMap f).isEmpty = zs.isEmpty := by
    intro zs
    cases zs with
    | nil => rfl
    | cons z zs => simp [hf z]
  rw [List.flatMap_append, joinMembers_append, separator, hempty, hempty]
  rfl

/-! ## What surrounds the members -/

/-- An interface is a frame around its methods. -/
theorem exists_interface_frame {template : Template} (h : template.OccursOnce "FUNCTIONS") (className : String) :
    ∃ pre post : String, ∀ (extension : String) (methods : List String),
      (interface template extension className methods).body = pre ++ joinMembers methods ++ post := by
  obtain ⟨pre, post, hrender⟩ := Template.exists_frame h
    (Bindings.ofList [("INTERFACE_NAME", interfaceName className), ("CLASS_NAME", className)])
  refine ⟨pre, post, fun extension methods => hrender _ _ (Bindings.get?_bind_self _ _ _) fun other hother => ?_⟩
  exact Bindings.get?_bind_of_ne _ _ hother

/-- A skeleton class is a frame around its fields and its methods. -/
theorem exists_skeleton_frame {template : Template} (hfields : template.OccursOnce "PROPERTIES")
    (hmethods : template.OccursOnce "FUNCTIONS") (className : String) :
    ∃ (swapped : Bool) (pre between post : String), ∀ (extension : String) (methods fields : List String),
      (skeleton template extension className methods fields).body =
        Template.fillTwo swapped pre between post (joinMembers fields) (joinMembers methods) := by
  obtain ⟨swapped, pre, between, post, hrender⟩ := Template.exists_frame_two (by decide) hfields hmethods
    (Bindings.ofList [("CLASS_NAME", className), ("INTERFACE_NAME", interfaceName className)])
  refine ⟨swapped, pre, between, post,
    fun extension methods fields => hrender _ _ _ ?_ ?_ fun other hfield hmethod => ?_⟩
  · have hne : "PROPERTIES" ≠ "FUNCTIONS" := by decide
    exact (Bindings.get?_bind_of_ne _ _ hne).trans (Bindings.get?_bind_self _ _ _)
  · exact Bindings.get?_bind_self _ _ _
  · exact (Bindings.get?_bind_of_ne _ _ hmethod).trans (Bindings.get?_bind_of_ne _ _ hfield)

end Document

namespace SourceUnit

open Document (joinMembers separator joinMembers_flatMap_append)

/-! ## The members of a unit -/

variable (options : Options) (templates : TemplateSet) (className : String)

/-- Getters and setters of properties as an interface declares them. -/
def declarations (ps : List Property) : String :=
  joinMembers (ps.flatMap fun p => (Accessor.synthesize options templates p className).interface.map (·.text))

/-- Getters and setters of properties as a skeleton class implements them. -/
def implementations (ps : List Property) : String :=
  joinMembers (ps.flatMap fun p => (Accessor.synthesize options templates p className).skeleton.map (·.text))

/-- The declarations of the fields of properties. -/
def fieldDeclarations (ps : List Property) : String :=
  joinMembers (ps.flatMap fun p => (Accessor.synthesize options templates p className).field.toList)

variable {options templates}

theorem declarations_append (ps qs : List Property) :
    declarations options templates className (ps ++ qs) =
      declarations options templates className ps ++ separator ps qs ++
        declarations options templates className qs := by
  refine joinMembers_flatMap_append (fun p => ?_) ps qs
  simp [Accessor.interface_synthesize]

theorem implementations_append {skeleton : SkeletonTemplates}
    (h : Accessor.skeletonTemplates? options templates = some skeleton) (ps qs : List Property) :
    implementations options templates className (ps ++ qs) =
      implementations options templates className ps ++ separator ps qs ++
        implementations options templates className qs := by
  refine joinMembers_flatMap_append (fun p => ?_) ps qs
  simp [(Accessor.skeleton_synthesize h p className).1]

theorem fieldDeclarations_append {skeleton : SkeletonTemplates}
    (h : Accessor.skeletonTemplates? options templates = some skeleton) (ps qs : List Property) :
    fieldDeclarations options templates className (ps ++ qs) =
      fieldDeclarations options templates className ps ++ separator ps qs ++
        fieldDeclarations options templates className qs := by
  refine joinMembers_flatMap_append (fun p => ?_) ps qs
  simp [(Accessor.skeleton_synthesize h p className).2]

theorem body_interface_generate (unit : SourceUnit) {pre post : String}
    (h : ∀ (extension : String) (methods : List String),
      (Document.interface templates.interfaceDocument extension unit.name methods).body =
        pre ++ joinMembers methods ++ post) :
    (unit.generate options templates).interface.body =
      pre ++ declarations options templates unit.name unit.properties ++ post := by
  rw [generate, h, accessors, List.flatMap_map]
  rfl

theorem exists_skeleton_generate (unit : SourceUnit) {skeleton : SkeletonTemplates}
    (hskeleton : Accessor.skeletonTemplates? options templates = some skeleton) {swapped : Bool}
    {pre between post : String}
    (h : ∀ (extension : String) (methods fields : List String),
      (Document.skeleton skeleton.document extension unit.name methods fields).body =
        Template.fillTwo swapped pre between post (joinMembers fields) (joinMembers methods)) :
    ∃ d, (unit.generate options templates).skeleton = some d ∧
      d.body = Template.fillTwo swapped pre between post
        (fieldDeclarations options templates unit.name unit.properties)
        (implementations options templates unit.name unit.properties) := by
  refine ⟨_, by rw [skeleton_generate_eq_map, hskeleton]; rfl, ?_⟩
  rw [h, accessors, List.flatMap_map, List.filterMap_map, List.filterMap_eq_flatMap_toList]
  rfl

/-! ## Longer sources -/

/-- A source that goes on with a second text on new lines declares the same unit with the properties of the second text
behind its own, whether or not the second text declares a class. If the slots of the members each stand once in the
templates of the documents, then both documents only grow where the members are: by a blank line, if there were members
before, and by the members of the second text. -/
theorem generate_append_newline :
    (∀ (first second : String) (path : Path) (unit : SourceUnit), parse? first path = some unit →
      parse? (first ++ "\n" ++ second) path = some (unit.extended second)) ∧
    (∀ (document : Template) (className : String), document.OccursOnce "FUNCTIONS" →
      ∃ pre post : String, ∀ (options : Options) (templates : TemplateSet) (unit : SourceUnit) (second : String),
        templates.interfaceDocument = document → unit.name = className →
          (unit.generate options templates).interface.body =
            pre ++ declarations options templates className unit.properties ++ post ∧
          ((unit.extended second).generate options templates).interface.body =
            pre ++ (declarations options templates className unit.properties ++
              separator unit.properties (declaredProperties second) ++
              declarations options templates className (declaredProperties second)) ++ post) ∧
    ∀ (document : Template) (className : String),
      document.OccursOnce "PROPERTIES" → document.OccursOnce "FUNCTIONS" →
      ∃ (swapped : Bool) (pre between post : String), ∀ (options : Options) (templates : TemplateSet)
        (skeleton : SkeletonTemplates) (unit : SourceUnit) (second : String),
        Accessor.skeletonTemplates? options templates = some skeleton → skeleton.document = document →
        unit.name = className →
          ∃ d d', (unit.generate options templates).skeleton = some d ∧
            ((unit.extended second).generate options templates).skeleton = some d' ∧
            d.body = Template.fillTwo swapped pre between post
              (fieldDeclarations options templates className unit.properties)
              (implementations options templates className unit.properties) ∧
            d'.body = Template.fillTwo swapped pre between post
              (fieldDeclarations options templates className unit.properties ++
                separator unit.properties (declaredProperties second) ++
                fieldDeclarations options templates className (declaredProperties second))
              (implementations options templates className unit.properties ++
                separator unit.properties (declaredProperties second) ++
                implementations options templates className (declaredProperties second)) := by
  refine ⟨fun first second path unit h => parse?_append_newline h second, ?_, ?_⟩
  · intro document className honce
    obtain ⟨pre, post, hframe⟩ := Document.exists_interface_frame honce className
    refine ⟨pre, post, ?_⟩
    rintro options templates unit second rfl rfl
    refine ⟨body_interface_generate unit hframe, ?_⟩
    rw [body_interface_generate (unit.extended second) hframe, ← declarations_append]
    rfl
  · intro document className hfields hmethods
    obtain ⟨swapped, pre, between, post, hframe⟩ := Document.exists_skeleton_frame hfields hmethods className
    refine ⟨swapped, pre, between, post, ?_⟩
    rintro options templates skeleton unit second hskeleton rfl rfl
    obtain ⟨d, hd, hbody⟩ := exists_skeleton_generate unit hskeleton hframe
    obtain ⟨d', hd', hbody'⟩ := exists_skeleton_generate (unit.extended second) hskeleton hframe
    refine ⟨d, d', hd, hd', hbody, ?_⟩
    rw [hbody', ← fieldDeclarations_append unit.name hskeleton, ← implementations_append unit.name hskeleton]
    rfl

/-- Templates in which one slot stands in a brace of its own, and the methods stand before the fields. -/
def compactTemplates : TemplateSet where
  interfaceMethod := TemplateSet.builtinInterfaceMethod
  interfaceDocument :=
    ⟨"\x7b " ++ Template.slotText "INTERFACE_NAME" ++ " \x7b" ++ Template.slotText "FUNCTIONS" ++ "\x7d"⟩
  skeleton := some
    { method := TemplateSet.builtinClassMethod
      document := ⟨Template.slotText "FUNCTIONS" ++ "\n--\n" ++ Template.slotText "PROPERTIES"⟩ }

/-- A class with one property. -/
def numberedCard : SourceUnit where
  path := ⟨"Card.php"⟩
  name := "Card"
  properties := [⟨"int", "number", "Number", "number"⟩]
  droppedProperties := 0

/-- The first source ends in a carriage return, and the second one declares a class of its own. -/
theorem generate_append_newline_card :
    parse? "class Card\n * @property int $number\r" ⟨"Card.php"⟩ = some numberedCard ∧
      parse? ("class Card\n * @property int $number\r" ++ "\n" ++ "class Other\n * @property $cvn") ⟨"Card.php"⟩ =
        some (numberedCard.extended "class Other\n * @property $cvn") ∧
      (∃ pre post,
        ((numberedCard.extended "class Other\n * @property $cvn").generate {} compactTemplates).interface.body =
          pre ++ (declarations {} compactTemplates "Card" numberedCard.properties ++ "\n\n" ++
            declarations {} compactTemplates "Card" (declaredProperties "class Other\n * @property $cvn")) ++ post) ∧
      ∃ d, ((numberedCard.extended "class Other\n * @property $cvn").generate
        { generateClasses := true } compactTemplates).skeleton = some d := by
  have hparse : parse? "class Card\n * @property int $number\r" ⟨"Card.php"⟩ = some numberedCard := by decide +kernel
  have hmore : declaredProperties "class Other\n * @property $cvn" ≠ [] := by decide +kernel
  have hinterface : compactTemplates.interfaceDocument.OccursOnce "FUNCTIONS" := by decide +kernel
  obtain ⟨hparses, hinterfaces, hskeletons⟩ := generate_append_newline
  refine ⟨hparse, hparses _ _ _ _ hparse, ?_, ?_⟩
  · obtain ⟨pre, post, hbodies⟩ := hinterfaces _ "Card" hinterface
    have hseparator : separator numberedCard.properties
        (declaredProperties "class Other\n * @property $cvn") = "\n\n" := by
      simp [separator, numberedCard, hmore]
    refine ⟨pre, post, ?_⟩
    rw [← hseparator]
    exact (hbodies {} compactTemplates numberedCard _ rfl rfl).2
  · obtain ⟨_, _, _, _, hbodies⟩ := hskeletons
      ⟨Template.slotText "FUNCTIONS" ++ "\n--\n" ++ Template.slotText "PROPERTIES"⟩ "Card" (by decide +kernel)
      (by decide +kernel)
    obtain ⟨_, d, _, hd, -⟩ := hbodies { generateClasses := true } compactTemplates _ numberedCard
      "class Other\n * @property $cvn" rfl rfl rfl
    exact ⟨d, hd⟩

end SourceUnit

end GetSet
