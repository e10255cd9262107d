import GetSet.Proofs.Accessor.Forms

/-!
# Declared types in accessors

The declared type of a property stands in the documentation of its accessors, in the return type of its getter and in
the argument of its setter; the last two only if the options ask for it. So without documentation a declared type that
is not asked for leaves no trace (`ofKind_eq_of_lacks`), and two untyped properties, one without a type and one of type
`mixed`, differ in one line of a setter's documentation (`types_hidden`).
-/

namespace GetSet

namespace Property

/-- The property with another declared type. -/
def retyped (p : Property) (type : String) : Property :=
  { p with typeHint := type }

variable {p : Property} {type : String}

@[simp]
theorem typeHint_retyped : (p.retyped type).typeHint = type := rfl

@[simp]
theorem pascalName_retyped : (p.retyped type).pascalName = p.pascalName := rfl

@[simp]
theorem fieldName_retyped : (p.retyped type).fieldName = p.fieldName := rfl

/-- Without a type, or with the type `mixed`, a property is untyped. -/
theorem hasExplicitType_retyped (h : type ∈ ["", "mixed"]) : (p.retyped type).hasExplicitType = false := by
  simp only [List.mem_cons, List.not_mem_nil, or_false] at h
  rcases h with rfl | rfl <;> rfl

/-- Untyped properties are documented alike. -/
theorem docType_retyped (h : type ∈ ["", "mixed"]) : (p.retyped type).docType = "mixed" := by
  simp only [List.mem_cons, List.not_mem_nil, or_false] at h
  rcases h with rfl | rfl <;> rfl

/-- The field of an untyped property is declared without a type. -/
theorem fieldDeclaration_retyped (h : type ∈ ["", "mixed"]) :
    (p.retyped type).fieldDeclaration = "    protected $" ++ p.fieldName ++ ";" := by
  simp [fieldDeclaration, hasExplicitType_retyped h]

end Property

/-- The slot of a key stands in no template of a method. -/
def TemplateSet.MethodsLack (templates : TemplateSet) (key : String) : Prop :=
  templates.interfaceMethod.Lacks key ∧ ∀ skeleton ∈ templates.skeleton, skeleton.method.Lacks key

instance (templates : TemplateSet) (key : String) : Decidable (templates.MethodsLack key) :=
  inferInstanceAs (Decidable (_ ∧ _))

/-- The fragments of a kind, the one of the interface first. -/
def Accessors.ofKind (a : Accessors) (kind : Accessor.Kind) : List Accessor.Fragment :=
  (a.interface ++ a.skeleton).filter (·.kind == kind)

namespace Accessor

open Template (slotText)

/-! ## Accessors by kind -/

/-- The signature of an accessor. -/
def signature (options : Options) (p : Property) (className : String) : Kind → Signature
  | .get => getter options p
  | .set => setter options p className

/-- The statements of an accessor. -/
def body (p : Property) : Kind → List String
  | .get => getterBody p
  | .set => setterBody p

/-- The forms that are generated. -/
def forms (options : Options) (templates : TemplateSet) : List Form :=
  .interface :: ((skeletonTemplates? options templates).map fun _ => Form.skeleton).toList

/-- An accessor is declared, and implemented if classes are generated. -/
theorem ofKind_synthesize (options : Options) (templates : TemplateSet) (p : Property) (className : String)
    (kind : Kind) :
    (synthesize options templates p className).ofKind kind =
      declaration templates.interfaceMethod kind (signature options p className kind) ::
        ((skeletonTemplates? options templates).map fun skeleton =>
          implementation skeleton.method kind (signature options p className kind) (body p kind)).toList := by
  unfold synthesize
  rcases skeletonTemplates? options templates with _ | skeleton
  · cases kind <;> rfl
  · cases kind <;> rfl

/-- The field is declared if classes are generated. -/
theorem field_synthesize (options : Options) (templates : TemplateSet) (p : Property) (className : String) :
    (synthesize options templates p className).field =
      (skeletonTemplates? options templates).map fun _ => p.fieldDeclaration := by
  unfold synthesize
  rcases skeletonTemplates? options templates with _ | skeleton <;> rfl

/-! ## Signatures that differ in their documentation -/

/-- Two signatures make the same line. -/
structure SameLine (s s' : Signature) : Prop where
  name : s.name = s'.name
  arguments : s.arguments = s'.arguments
  returnType : s.returnType = s'.returnType

section

variable {s s' : Signature} {template : Template} {kind : Kind} {statements : List String}

theorem SameLine.get?_bindings_eq (h : SameLine s s') (form : Form) {key : String} (hkey : key ≠ "PHPDOC") :
    (s.bindings form).get? key = (s'.bindings form).get? key := by
  simp [Signature.bindings, Bindings.ofList, Bindings.bind, Bindings.get?, List.lookup_cons, beq_eq_false_iff_ne.2 hkey,
    h.name, h.arguments, h.returnType]

theorem SameLine.get?_implementation_eq (h : SameLine s s') {key : String} (hkey : key ≠ "PHPDOC") :
    ((s.bindings .skeleton).bind "FUNCTION" (indentBody statements)).get? key =
      ((s'.bindings .skeleton).bind "FUNCTION" (indentBody statements)).get? key := by
  by_cases hbody : key = "FUNCTION"
  · rw [hbody, Bindings.get?_bind_self, Bindings.get?_bind_self]
  · rw [Bindings.get?_bind_of_ne _ _ hbody, Bindings.get?_bind_of_ne _ _ hbody, h.get?_bindings_eq .skeleton hkey]

/-- In a template without documentation only the line of the signature is seen. -/
theorem declaration_congr (hlacks : template.Lacks "PHPDOC") (h : SameLine s s') :
    declaration template kind s = declaration template kind s' :=
  congrArg (Fragment.mk kind .interface) (Template.render_eq_of_lacks hlacks fun _ hkey =>
    h.get?_bindings_eq .interface hkey)

theorem implementation_congr (hlacks : template.Lacks "PHPDOC") (h : SameLine s s') :
    implementation template kind s statements = implementation template kind s' statements :=
  congrArg (Fragment.mk kind .skeleton) (Template.render_eq_of_lacks hlacks fun _ hkey => h.get?_implementation_eq hkey)

/-- Declarations of methods with the same line are the same around their documentation. -/
theorem exists_declaration_segments (template : Template) (kind : Kind) (s : Signature) :
    ∃ segments : List String, ∀ s', SameLine s' s →
      declaration template kind s' = ⟨kind, .interface, ("\n    ".intercalate s'.doc).intercalate segments⟩ := by
  obtain ⟨segments, -, hrender⟩ := template.exists_segments "PHPDOC" (s.bindings .interface)
  refine ⟨segments, fun s' h => congrArg (Fragment.mk kind .interface) ?_⟩
  exact hrender _ _ (get?_bindings_phpdoc s' .interface) fun _ hkey => h.get?_bindings_eq .interface hkey

/-- Implementations of methods with the same line and body are the same around their documentation. -/
theorem exists_implementation_segments (template : Template) (kind : Kind) (s : Signature) (statements : List String) :
    ∃ segments : List String, ∀ s', SameLine s' s →
      implementation template kind s' statements =
        ⟨kind, .skeleton, ("\n    ".intercalate s'.doc).intercalate segments⟩ := by
  obtain ⟨segments, -, hrender⟩ :=
    template.exists_segments "PHPDOC" ((s.bindings .skeleton).bind "FUNCTION" (indentBody statements))
  refine ⟨segments, fun s' h => congrArg (Fragment.mk kind .skeleton) ?_⟩
  refine hrender _ _ ?_ fun _ hkey => h.get?_implementation_eq hkey
  exact (Bindings.get?_bind_of_ne _ _ (by decide)).trans (get?_bindings_phpdoc s' .skeleton)

end

/-! ## What a declared type changes -/

section

variable {options : Options} {templates : TemplateSet} {className : String} {p : Property} {kind : Kind}
  {type type' : String}

/-- No statement names a type. -/
theorem body_retyped (p : Property) (type : String) (kind : Kind) : body (p.retyped type) kind = body p kind := by
  cases kind <;> rfl

/-- Without documentation an accessor shows the line of its signature and its body only. -/
theorem ofKind_eq_of_lacks (hlacks : templates.MethodsLack "PHPDOC")
    (h : SameLine (signature options (p.retyped type) className kind)
      (signature options (p.retyped type') className kind)) :
    (synthesize options templates (p.retyped type) className).ofKind kind =
      (synthesize options templates (p.retyped type') className).ofKind kind := by
  rw [ofKind_synthesize, ofKind_synthesize, declaration_congr hlacks.1 h, body_retyped, body_retyped]
  congr 2
  refine Option.map_congr fun skeleton hskeleton => ?_
  exact implementation_congr (hlacks.2 skeleton (skeletonTemplates?_eq_some_iff.1 hskeleton).2) h

/-- The getter returns a declared type only if types are returned. -/
theorem sameLine_getter (h : options.returnTypes = false) :
    SameLine (getter options (p.retyped type)) (getter options (p.retyped type')) :=
  ⟨rfl, rfl, by simp [getter, h]⟩

/-- The setter takes a declared type only if arguments are typed, and never returns one. -/
theorem sameLine_setter (h : options.argumentTypes = false) :
    SameLine (setter options (p.retyped type) className) (setter options (p.retyped type') className) :=
  ⟨rfl, by simp [setter, h], rfl⟩

/-- The getter of an untyped property returns no type. -/
theorem getter_retyped (h : type ∈ ["", "mixed"]) :
    getter options (p.retyped type) = getter options (p.retyped "mixed") := by
  have hmixed : "mixed" ∈ ["", "mixed"] := by decide
  simp [getter, Property.hasExplicitType_retyped h, Property.hasExplicitType_retyped hmixed,
    Property.docType_retyped h, Property.docType_retyped hmixed]

/-- The setter of an untyped property takes no type. -/
theorem sameLine_setter_retyped (h : type ∈ ["", "mixed"]) :
    SameLine (setter options (p.retyped type) className) (setter options (p.retyped "mixed") className) := by
  have hmixed : "mixed" ∈ ["", "mixed"] := by decide
  exact ⟨rfl, by simp [setter, Property.hasExplicitType_retyped h, Property.hasExplicitType_retyped hmixed], rfl⟩

/-- The documentation of a setter with a text for its parameter. -/
def setterComment (parameter : String) : String :=
  "/**\n     * @param " ++ parameter ++ "\n     *\n     * @return $this\n     */"

theorem doc_setter (options : Options) (p : Property) (className : String) :
    "\n    ".intercalate (setter options p className).doc =
      setterComment (Text.trim (p.typeHint ++ " $" ++ p.fieldName)) := by
  have hbegin : "/**" ++ ("\n    " ++ " * @param ") = "/**\n     * @param " := by decide
  have hend : "\n    " ++ (" *" ++ ("\n    " ++ (" * @return $this" ++ ("\n    " ++ " */")))) =
      "\n     *\n     * @return $this\n     */" := by decide
  unfold setterComment setter
  rw [← hbegin, ← hend]
  simp only [String.intercalate_cons_cons, String.intercalate_singleton]
  simp only [String.append_assoc]

/-- The setters of untyped properties are the same around the comment. -/
theorem exists_setter_segments (options : Options) (templates : TemplateSet) (p : Property) (className : String) :
    ∃ segments : Form → List String, ∀ type ∈ ["", "mixed"],
      (synthesize options templates (p.retyped type) className).ofKind .set =
        (forms options templates).map fun form =>
          ⟨.set, form, (setterComment (Text.trim (type ++ " $" ++ p.fieldName))).intercalate (segments form)⟩ := by
  obtain ⟨declared, hdeclared⟩ := exists_declaration_segments templates.interfaceMethod .set
    (setter options (p.retyped "mixed") className)
  have hcomment : ∀ type, "\n    ".intercalate (setter options (p.retyped type) className).doc =
      setterComment (Text.trim (type ++ " $" ++ p.fieldName)) :=
    fun type => doc_setter options (p.retyped type) className
  have hsame : ∀ type ∈ ["", "mixed"], SameLine (setter options (p.retyped type) className)
      (setter options (p.retyped "mixed") className) := fun type htype => sameLine_setter_retyped htype
  rcases hskeleton : skeletonTemplates? options templates with _ | skeleton
  · refine ⟨fun _ => declared, fun type htype => ?_⟩
    rw [ofKind_synthesize, forms, hskeleton, signature, hdeclared _ (hsame type htype), hcomment]
    rfl
  · obtain ⟨implemented, himplemented⟩ := exists_implementation_segments skeleton.method .set
      (setter options (p.retyped "mixed") className) (body p .set)
    refine ⟨fun form => if form = .interface then declared else implemented, fun type htype => ?_⟩
    rw [ofKind_synthesize, forms, hskeleton, signature, body_retyped, hdeclared _ (hsame type htype), hcomment]
    simp only [Option.map_some, himplemented _ (hsame type htype), hcomment]
    rfl

end

/-- A declared type is seen in a signature only if the options ask for it. In templates of methods without documentation
a getter does not depend on the declared type unless types are returned, and a setter does not depend on it unless
arguments are typed; a property without a type and one of type `mixed` have the same accessors. With documentation these
two have the same getters and fields, and their setters differ in the text for the parameter. -/
theorem types_hidden (options : Options) (templates : TemplateSet) (p : Property) (className : String) :
    (templates.MethodsLack "PHPDOC" →
      (options.returnTypes = false → ∀ type type',
        (synthesize options templates (p.retyped type) className).ofKind .get =
          (synthesize options templates (p.retyped type') className).ofKind .get) ∧
      (options.argumentTypes = false → ∀ type type',
        (synthesize options templates (p.retyped type) className).ofKind .set =
          (synthesize options templates (p.retyped type') className).ofKind .set) ∧
      ∀ kind, (synthesize options templates (p.retyped "") className).ofKind kind =
        (synthesize options templates (p.retyped "mixed") className).ofKind kind) ∧
    (synthesize options templates (p.retyped "") className).ofKind .get =
      (synthesize options templates (p.retyped "mixed") className).ofKind .get ∧
    (synthesize options templates (p.retyped "") className).field =
      (synthesize options templates (p.retyped "mixed") className).field ∧
    (p.retyped "").fieldDeclaration = (p.retyped "mixed").fieldDeclaration ∧
    ∃ segments : Form → List String, ∀ type ∈ ["", "mixed"],
      (synthesize options templates (p.retyped type) className).ofKind .set =
        (forms options templates).map fun form =>
          ⟨.set, form, (setterComment (Text.trim (type ++ " $" ++ p.fieldName))).intercalate (segments form)⟩ := by
  have hempty : "" ∈ ["", "mixed"] := by decide
  have hmixed : "mixed" ∈ ["", "mixed"] := by decide
  have hgetter : (synthesize options templates (p.retyped "") className).ofKind .get =
      (synthesize options templates (p.retyped "mixed") className).ofKind .get := by
    rw [ofKind_synthesize, ofKind_synthesize, signature, signature, getter_retyped hempty, body_retyped, body_retyped]
  have hdeclaration : (p.retyped "").fieldDeclaration = (p.retyped "mixed").fieldDeclaration := by
    rw [Property.fieldDeclaration_retyped hempty, Property.fieldDeclaration_retyped hmixed]
  have hfield : (synthesize options templates (p.retyped "") className).field =
      (synthesize options templates (p.retyped "mixed") className).field := by
    rw [field_synthesize, field_synthesize, hdeclaration]
  refine ⟨fun hlacks => ⟨fun hreturn type type' => ?_, fun harguments type type' => ?_, fun kind => ?_⟩, hgetter,
    hfield, hdeclaration, exists_setter_segments options templates p className⟩
  · exact ofKind_eq_of_lacks hlacks (sameLine_getter hreturn)
  · exact ofKind_eq_of_lacks hlacks (sameLine_setter harguments)
  · cases kind with
    | get => exact hgetter
    | set => exact ofKind_eq_of_lacks hlacks (sameLine_setter_retyped hempty)

/-- Methods without documentation; only the class form has a body. -/
def bareTemplates : TemplateSet where
  interfaceMethod := ⟨slotText "FUNCTION_NAME" ++ "(" ++ slotText "ARGUMENTS" ++ ")" ++ slotText "RETURN_TYPE"⟩
  interfaceDocument := TemplateSet.builtinInterfaceDocument
  skeleton := some
    { method := ⟨slotText "FUNCTION_NAME" ++ "(" ++ slotText "ARGUMENTS" ++ ")" ++ slotText "RETURN_TYPE" ++
        slotText "FUNCTION"⟩
      document := TemplateSet.builtinClassDocument }

/-- The accessors of a property of some type in a class `Card`. -/
def bareAccessors (options : Options) (type : String) : Accessors :=
  synthesize options bareTemplates (Property.retyped ⟨"", "limit", "Limit", "limit"⟩ type) "Card"

/-- Each flag alone hides the type from one accessor and shows it in the other one. -/
theorem types_hidden_bare :
    bareTemplates.MethodsLack "PHPDOC" ∧
      (bareAccessors { argumentTypes := true, generateClasses := true } "int").ofKind .get =
        (bareAccessors { argumentTypes := true, generateClasses := true } "Money").ofKind .get ∧
      (bareAccessors { argumentTypes := true, generateClasses := true } "int").ofKind .set ≠
        (bareAccessors { argumentTypes := true, generateClasses := true } "Money").ofKind .set ∧
      (bareAccessors { returnTypes := true, generateClasses := true } "int").ofKind .set =
        (bareAccessors { returnTypes := true, generateClasses := true } "Money").ofKind .set ∧
      (bareAccessors { returnTypes := true, generateClasses := true } "int").ofKind .get ≠
        (bareAccessors { returnTypes := true, generateClasses := true } "Money").ofKind .get := by
  have hlacks : bareTemplates.MethodsLack "PHPDOC" := by decide +kernel
  refine ⟨hlacks, ?_, by decide +kernel, ?_, by decide +kernel⟩
  · exact ((types_hidden { argumentTypes := true, generateClasses := true } bareTemplates
      ⟨"", "limit", "Limit", "limit"⟩ "Card").1 hlacks).1 rfl "int" "Money"
  · exact ((types_hidden { returnTypes := true, generateClasses := true } bareTemplates
      ⟨"", "limit", "Limit", "limit"⟩ "Card").1 hlacks).2.1 rfl "int" "Money"

end Accessor

end GetSet
