import GetSet.Accessor
import GetSet.Proofs.Template.Segments

/-!
# Both forms of an accessor

An accessor is declared by an interface and implemented by a class. Both forms are rendered from one signature and bind
the same values but for the return type, and only the class form binds a body. So if both are rendered through the same
template, which has no slot for a body, then they differ in the return type of the setter only (`forms_agree`).
-/

namespace GetSet.Accessor

open Template (slotText)

/-! ## What a signature binds -/

theorem get?_bindings_returnType (s : Signature) (form : Form) :
    (s.bindings form).get? "RETURN_TYPE" = some (s.returnType form) := by
  simp [Signature.bindings, Bindings.ofList]

theorem get?_bindings_phpdoc (s : Signature) (form : Form) :
    (s.bindings form).get? "PHPDOC" = some ("\n    ".intercalate s.doc) := by
  simp [Signature.bindings, Bindings.ofList]

/-- Only the return type depends on the form. -/
theorem get?_bindings_of_ne (s : Signature) (form form' : Form) {key : String} (h : key ≠ "RETURN_TYPE") :
    (s.bindings form).get? key = (s.bindings form').get? key := by
  simp [Signature.bindings, Bindings.ofList, h]

/-- A signature with the same return type in both forms binds the same values for both. -/
theorem bindings_eq_of_returnType (s : Signature) (h : s.returnType .skeleton = s.returnType .interface) :
    s.bindings .skeleton = s.bindings .interface := by
  rw [Signature.bindings, Signature.bindings, h]

/-! ## One template for both forms -/

section

variable {template : Template} (hlacks : template.Lacks "FUNCTION") (kind : Kind) (s : Signature) (body : List String)

include hlacks

/-- A template without a slot for the body implements a method by its declaration, if that returns the same. -/
theorem text_implementation_of_returnType (h : s.returnType .skeleton = s.returnType .interface) :
    (implementation template kind s body).text = (declaration template kind s).text := by
  show template.render ((s.bindings .skeleton).bind "FUNCTION" (indentBody body)) =
    template.render (s.bindings .interface)
  rw [Template.render_bind_of_lacks hlacks, bindings_eq_of_returnType s h]

/-- In a template without a slot for the body, declaration and implementation are the same around the return types. -/
theorem exists_segments_returnType :
    ∃ segments : List String, segments.length = template.occurrences "RETURN_TYPE" + 1 ∧
      (declaration template kind s).text = (s.returnType .interface).intercalate segments ∧
      (implementation template kind s body).text = (s.returnType .skeleton).intercalate segments := by
  obtain ⟨segments, hlength, hrender⟩ := template.exists_segments "RETURN_TYPE" (s.bindings .interface)
  refine ⟨segments, hlength, ?_, ?_⟩
  · exact hrender _ _ (get?_bindings_returnType s .interface) fun _ _ => rfl
  · show template.render ((s.bindings .skeleton).bind "FUNCTION" (indentBody body)) = _
    rw [Template.render_bind_of_lacks hlacks]
    exact hrender _ _ (get?_bindings_returnType s .skeleton) fun other hother =>
      get?_bindings_of_ne s .skeleton .interface hother

end

/-- The templates of skeleton classes are used if classes are generated. -/
theorem skeletonTemplates?_eq_some_iff {options : Options} {templates : TemplateSet} {skeleton : SkeletonTemplates} :
    skeletonTemplates? options templates = some skeleton ↔
      options.generateClasses = true ∧ templates.skeleton = some skeleton := by
  rw [skeletonTemplates?]
  split
  · next hclasses => simp [hclasses]
  · next hclasses => simp [hclasses]

/-- If one template without a slot for the body serves both forms, then interface and class agree: both have the getter
first and the setter second, the getters have the same text, the setters have it too if no types are returned, and else
the setters are the same around the return types, which are `self` in the interface and the interface in the class. -/
theorem forms_agree {options : Options} {templates : TemplateSet} {skeleton : SkeletonTemplates}
    (hclasses : options.generateClasses = true) (hskeleton : templates.skeleton = some skeleton)
    (hmethod : skeleton.method = templates.interfaceMethod) (hlacks : templates.interfaceMethod.Lacks "FUNCTION")
    (p : Property) (className : String) :
    ∃ getter declared implemented : String,
      (synthesize options templates p className).interface =
        [⟨.get, .interface, getter⟩, ⟨.set, .interface, declared⟩] ∧
      (synthesize options templates p className).skeleton =
        [⟨.get, .skeleton, getter⟩, ⟨.set, .skeleton, implemented⟩] ∧
      (options.returnTypes = false → implemented = declared) ∧
      (options.returnTypes = true →
        ∃ segments : List String, segments.length = templates.interfaceMethod.occurrences "RETURN_TYPE" + 1 ∧
          declared = ": self".intercalate segments ∧
          implemented = (": " ++ className ++ "Interface").intercalate segments) := by
  have hwanted := skeletonTemplates?_eq_some_iff.2 ⟨hclasses, hskeleton⟩
  have hgetter := text_implementation_of_returnType hlacks .get (getter options p) (getterBody p) rfl
  have hsetter := text_implementation_of_returnType hlacks .set (setter options p className) (setterBody p)
  refine ⟨(declaration templates.interfaceMethod .get (getter options p)).text,
    (declaration templates.interfaceMethod .set (setter options p className)).text,
    (implementation templates.interfaceMethod .set (setter options p className) (setterBody p)).text,
    interface_synthesize options templates p className, ?_, fun hreturn => ?_, fun hreturn => ?_⟩
  · rw [(skeleton_synthesize hwanted p className).1, hmethod, ← hgetter]
    rfl
  · refine hsetter ?_
    simp [setter, hreturn]
  · obtain ⟨segments, hlength, hdeclared, himplemented⟩ :=
      exists_segments_returnType hlacks .set (setter options p className) (setterBody p)
    refine ⟨segments, hlength, ?_, ?_⟩
    · rw [hdeclared]
      simp [setter, hreturn]
    · rw [himplemented]
      simp [setter, hreturn, interfaceName, String.append_assoc]

/-- A method template that names the return type twice and has no slot for a body. -/
def repeatingTemplate : Template where
  text := slotText "PHPDOC" ++ slotText "FUNCTION_NAME" ++ "(" ++ slotText "ARGUMENTS" ++ ")" ++
    slotText "RETURN_TYPE" ++ "; //" ++ slotText "RETURN_TYPE"

/-- Uses that template for both forms. -/
def repeatingTemplates : TemplateSet where
  interfaceMethod := repeatingTemplate
  interfaceDocument := TemplateSet.builtinInterfaceDocument
  skeleton := some { method := repeatingTemplate, document := TemplateSet.builtinClassDocument }

/-- A property whose declared type looks like the slot of the return type. -/
def slotProperty : Property where
  typeHint := slotText "RETURN_TYPE"
  rawName := "number"
  pascalName := "Number"
  fieldName := "number"

/-- Types everything and generates classes. -/
def typedOptions : Options where
  argumentTypes := true
  returnTypes := true
  generateClasses := true

/-- The return type stands between three texts, and a declared type that looks like its slot is none. -/
theorem forms_agree_repeated :
    repeatingTemplate.Lacks "FUNCTION" ∧ ∃ (getter declared implemented : String) (segments : List String),
      (synthesize typedOptions repeatingTemplates slotProperty "Card").interface =
        [⟨.get, .interface, getter⟩, ⟨.set, .interface, declared⟩] ∧
      (synthesize typedOptions repeatingTemplates slotProperty "Card").skeleton =
        [⟨.get, .skeleton, getter⟩, ⟨.set, .skeleton, implemented⟩] ∧
      segments.length = 3 ∧ declared = ": self".intercalate segments ∧
      implemented = ": CardInterface".intercalate segments := by
  have hlacks : repeatingTemplate.Lacks "FUNCTION" := by decide +kernel
  have htwice : repeatingTemplates.interfaceMethod.occurrences "RETURN_TYPE" = 2 := by decide +kernel
  have hreturned : ": " ++ "Card" ++ "Interface" = ": CardInterface" := by decide
  have hclasses : typedOptions.generateClasses = true := rfl
  have htemplates : repeatingTemplates.skeleton = some ⟨repeatingTemplate, TemplateSet.builtinClassDocument⟩ := rfl
  obtain ⟨getter, declared, implemented, hinterface, hskeleton, -, hreturn⟩ :=
    forms_agree hclasses htemplates rfl hlacks slotProperty "Card"
  obtain ⟨segments, hlength, hdeclared, himplemented⟩ := hreturn rfl
  rw [htwice] at hlength
  rw [hreturned] at himplemented
  exact ⟨hlacks, getter, declared, implemented, segments, hinterface, hskeleton, hlength, hdeclared, himplemented⟩

end GetSet.Accessor
