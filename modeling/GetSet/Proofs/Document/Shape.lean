import GetSet.Document
import GetSet.Proofs.Source.Property
import GetSet.Proofs.Source.Unit
import GetSet.Proofs.Template.Builtin

/-!
# The shape of the built-in documents

What the built-in templates give, line by line: the methods of both forms (`toList_declaration`,
`toList_implementation`), and the documents around them (`toList_interface`, `toList_skeleton`). What is put into a line
for a property stays within the line (`Inline`), so that the lines of a document are those of its templates.
-/

namespace GetSet

/-! ## Texts within a line -/

/-- No line ends in the text, and no brace opens in it. -/
def Inline (s : String) : Prop :=
  '\n' ∉ s.toList ∧ '\r' ∉ s.toList ∧ '\x7b' ∉ s.toList

instance (s : String) : Decidable (Inline s) :=
  inferInstanceAs (Decidable (_ ∧ _ ∧ _))

theorem Inline.oneLine {s : String} (h : Inline s) : '\n' ∉ s.toList ∧ '\r' ∉ s.toList :=
  ⟨h.1, h.2.1⟩

theorem Inline.append {s s' : String} (h : Inline s) (h' : Inline s') : Inline (s ++ s') := by
  simp [Inline, String.toList_append, h.1, h.2, h'.1, h'.2]

theorem inline_of_isTypeChar {s : String} (h : ∀ c ∈ s.toList, Tag.isTypeChar c = true) : Inline s := by
  refine ⟨?_, ?_, ?_⟩ <;>
    exact fun hmem => absurd (h _ hmem) (by decide)

theorem inline_of_isNameChar {s : String} (h : ∀ c ∈ s.toList, Name.isNameChar c = true) : Inline s := by
  refine ⟨?_, ?_, ?_⟩ <;>
    exact fun hmem => absurd (h _ hmem) (by decide)

theorem inline_of_isIdentifier {s : String} (h : Declaration.IsIdentifier s.toList) : Inline s := by
  refine ⟨?_, ?_, ?_⟩ <;>
    exact fun hmem => absurd (h.char _ hmem) (by decide)

/-- Cutting off blanks brings no characters in. -/
theorem mem_of_mem_trim {s : String} {c : Char} (hc : c ∈ (Text.trim s).toList) : c ∈ s.toList := by
  rw [Text.trim, String.toList_ofList, Text.trimBlanks, List.mem_reverse] at hc
  have hc' := List.mem_reverse.1 ((List.dropWhile_sublist _).mem hc)
  exact (List.dropWhile_sublist _).mem hc'

theorem Inline.trim {s : String} (h : Inline s) : Inline (Text.trim s) :=
  ⟨fun hmem => h.1 (mem_of_mem_trim hmem), fun hmem => h.2.1 (mem_of_mem_trim hmem),
    fun hmem => h.2.2 (mem_of_mem_trim hmem)⟩

/-- What holds of texts with the same beginning, and passes on to two texts on lines of their own, holds of all of them
together. -/
theorem of_intercalate {P : List Char → Prop} (happend : ∀ {cs ds}, P cs → P ds → P (cs ++ '\n' :: ds))
    (start : String) {members : List String} (hne : members ≠ [])
    (h : ∀ member ∈ members, P (start ++ member).toList) :
    P (start ++ ("\n" ++ start).intercalate members).toList := by
  induction members with
  | nil => exact absurd rfl hne
  | cons member members ih =>
    cases members with
    | nil =>
      rw [String.intercalate_singleton]
      exact h member List.mem_cons_self
    | cons next members =>
      have hrest := ih (by simp) fun m hm => h m (List.mem_cons_of_mem member hm)
      have htext : (start ++ ("\n" ++ start).intercalate (member :: next :: members)).toList =
          (start ++ member).toList ++ '\n' :: (start ++ ("\n" ++ start).intercalate (next :: members)).toList := by
        rw [String.intercalate_cons_cons]
        simp
      rw [htext]
      exact happend (h member List.mem_cons_self) hrest

/-- What holds of members, and passes on to texts on lines of their own, holds of all of them, with a blank line before
each. -/
theorem Document.of_joinMembers {P : List Char → Prop} (happend : ∀ {cs ds}, P cs → P ds → P (cs ++ '\n' :: ds))
    (hblank : P []) {members : List String} (h : ∀ member ∈ members, P member.toList) :
    P ("\n" ++ joinMembers members).toList := by
  by_cases hne : members = []
  · rw [hne]
    exact happend hblank hblank
  · refine of_intercalate happend "\n" hne fun member hmember => ?_
    rw [String.toList_append]
    exact happend hblank (h member hmember)

namespace Accessor

/-! ## Signatures -/

/-- A line of a documentation comment. -/
def IsCommentLine (line : String) : Prop :=
  ∃ start rest : String, start ∈ ["/**", " *"] ∧ Inline rest ∧ line = start ++ rest

/-- A signature whose declaration takes one line, with a comment for documentation. -/
structure Signature.Tame (s : Signature) : Prop where
  name : Inline s.name
  name_ends : '(' ∉ s.name.toList
  arguments : Inline s.arguments
  returnType : ∀ form, Inline (s.returnType form)
  doc_ne : s.doc ≠ []
  doc : ∀ line ∈ s.doc, IsCommentLine line

theorem inline_docType {p : Property} (h : p.Spelled) : Inline p.docType := by
  rw [Property.docType]
  split
  · decide
  · exact inline_of_isTypeChar h.typeHint

theorem notMem_append_of_isNameChar {start s : String} (hstart : '(' ∉ start.toList)
    (h : ∀ c ∈ s.toList, Name.isNameChar c = true) : '(' ∉ (start ++ s).toList := by
  have hs : '(' ∉ s.toList := fun hmem => absurd (h _ hmem) (by decide)
  simp [hstart, hs]

theorem tame_getter (options : Options) {p : Property} (h : p.Spelled) : (getter options p).Tame where
  name := Inline.append (by decide) (inline_of_isNameChar h.pascalName)
  name_ends := notMem_append_of_isNameChar (by decide) h.pascalName
  arguments := by
    show Inline ""
    decide
  returnType _ := by
    show Inline (if _ then ": " ++ p.typeHint else "")
    split
    · exact Inline.append (by decide) (inline_of_isTypeChar h.typeHint)
    · decide
  doc_ne := by simp [getter]
  doc line hline := by
    simp only [getter, List.mem_cons, List.not_mem_nil, or_false] at hline
    rcases hline with rfl | rfl | rfl
    · exact ⟨"/**", "", by simp, by decide, rfl⟩
    · refine ⟨" *", " @return " ++ p.docType, by simp, Inline.append (by decide) (inline_docType h), ?_⟩
      rw [← String.append_assoc]
      rfl
    · exact ⟨" *", "/", by simp, by decide, rfl⟩

theorem tame_setter (options : Options) {p : Property} (h : p.Spelled) {className : String}
    (hname : Declaration.IsIdentifier className.toList) : (setter options p className).Tame where
  name := Inline.append (by decide) (inline_of_isNameChar h.pascalName)
  name_ends := notMem_append_of_isNameChar (by decide) h.pascalName
  arguments := by
    have hfield := inline_of_isNameChar h.fieldName
    show Inline (if _ then p.typeHint ++ " $" ++ p.fieldName else "$" ++ p.fieldName)
    split
    · exact ((inline_of_isTypeChar h.typeHint).append (by decide)).append hfield
    · exact Inline.append (by decide) hfield
  returnType form := by
    show Inline (if _ then _ else "")
    split
    · cases form with
      | interface =>
        show Inline ": self"
        decide
      | skeleton => exact Inline.append (by decide) ((inline_of_isIdentifier hname).append (by decide))
    · decide
  doc_ne := by simp [setter]
  doc line hline := by
    simp only [setter, List.mem_cons, List.not_mem_nil, or_false] at hline
    rcases hline with rfl | rfl | rfl | rfl | rfl
    · exact ⟨"/**", "", by simp, by decide, rfl⟩
    · have hparam : Inline (p.typeHint ++ " $" ++ p.fieldName) :=
        ((inline_of_isTypeChar h.typeHint).append (by decide)).append (inline_of_isNameChar h.fieldName)
      refine ⟨" *", " @param " ++ Text.trim (p.typeHint ++ " $" ++ p.fieldName), by simp,
        Inline.append (by decide) hparam.trim, ?_⟩
      rw [← String.append_assoc]
      rfl
    · exact ⟨" *", "", by simp, by decide, rfl⟩
    · exact ⟨" *", " @return $this", by simp, by decide, rfl⟩
    · exact ⟨" *", "/", by simp, by decide, rfl⟩

/-! ## Methods -/

/-- What follows the name of a method on the line that declares it. -/
def Signature.tail (s : Signature) (form : Form) : String :=
  "(" ++ s.arguments ++ ")" ++ s.returnType form

/-- The line that declares a method, up to the end of its signature. -/
def Signature.line (s : Signature) (form : Form) : String :=
  "    public function " ++ (s.name ++ s.tail form)

theorem Signature.line_append (s : Signature) (form : Form) (rest : String) :
    s.line form ++ rest = "    public function " ++ (s.name ++ s.tail form ++ rest) := by
  show "    public function " ++ (s.name ++ s.tail form) ++ rest = _
  rw [String.append_assoc]

theorem Signature.toList_line (s : Signature) (form : Form) :
    (s.line form).toList = "    public function ".toList ++ (s.name.toList ++ (s.tail form).toList) := by
  show ("    public function " ++ (s.name ++ s.tail form)).toList = _
  rw [String.toList_append, String.toList_append]

theorem Signature.toList_tail (s : Signature) (form : Form) :
    (s.tail form).toList = "(".toList ++ s.arguments.toList ++ ")".toList ++ (s.returnType form).toList := by
  show ("(" ++ s.arguments ++ ")" ++ s.returnType form).toList = _
  rw [String.toList_append, String.toList_append, String.toList_append]

theorem Signature.Tame.tail {s : Signature} (h : s.Tame) (form : Form) : Inline (s.tail form) :=
  ((Inline.append (by decide) h.arguments).append (by decide)).append (h.returnType form)

theorem Signature.Tame.line {s : Signature} (h : s.Tame) (form : Form) : Inline (s.line form) :=
  Inline.append (by decide) (h.name.append (h.tail form))

/-- What the slots of a method are filled with. -/
theorem filling_bindings (s : Signature) (form : Form) :
    Template.filling (s.bindings form) "PHPDOC" = ("\n    ".intercalate s.doc).toList ∧
      Template.filling (s.bindings form) "FUNCTION_NAME" = s.name.toList ∧
      Template.filling (s.bindings form) "ARGUMENTS" = s.arguments.toList ∧
      Template.filling (s.bindings form) "RETURN_TYPE" = (s.returnType form).toList := by
  simp [Template.filling, Signature.bindings, Bindings.ofList]

theorem toList_declaration (kind : Kind) (s : Signature) :
    (declaration TemplateSet.builtinInterfaceMethod kind s).text.toList =
      ("    " ++ "\n    ".intercalate s.doc).toList ++ '\n' :: (s.line .interface ++ ";").toList := by
  obtain ⟨hdoc, hname, harguments, hreturn⟩ := filling_bindings s .interface
  have hline : "\n    public function ".toList = '\n' :: "    public function ".toList := rfl
  rw [declaration, TemplateSet.render_builtinInterfaceMethod, hdoc, hname, harguments, hreturn, hline]
  simp only [Signature.toList_line, Signature.toList_tail, String.toList_append, List.append_assoc, List.cons_append]

theorem toList_implementation (kind : Kind) (s : Signature) (body : List String) :
    (implementation TemplateSet.builtinClassMethod kind s body).text.toList =
      ("    " ++ "\n    ".intercalate s.doc).toList ++ '\n' :: ((s.line .skeleton).toList ++
        '\n' :: ("    \x7b".toList ++
          '\n' :: (("        " ++ indentBody body).toList ++ '\n' :: "    \x7d".toList))) := by
  obtain ⟨hdoc, hname, harguments, hreturn⟩ := filling_bindings s .skeleton
  have hline : "\n    public function ".toList = '\n' :: "    public function ".toList := rfl
  have hopen : "\n    \x7b\n        ".toList = '\n' :: ("    \x7b".toList ++ '\n' :: "        ".toList) := rfl
  have hclose : "\n    \x7d".toList = '\n' :: "    \x7d".toList := rfl
  rw [implementation, TemplateSet.render_builtinClassMethod,
    Template.filling_bind_self, Template.filling_bind_of_ne (by decide), Template.filling_bind_of_ne (by decide),
    Template.filling_bind_of_ne (by decide), Template.filling_bind_of_ne (by decide), hdoc, hname, harguments, hreturn,
    hline, hopen, hclose]
  simp only [Signature.toList_line, Signature.toList_tail, String.toList_append, List.append_assoc, List.cons_append]

theorem indentBody_getterBody (p : Property) :
    indentBody (getterBody p) = "return $this->" ++ (p.fieldName ++ ";") := by
  rw [indentBody, getterBody, ← String.append_assoc]
  simp only [List.take_succ_cons, List.take_nil, List.drop_succ_cons, List.drop_nil, List.map_nil, List.append_nil,
    String.intercalate_singleton]

theorem indentBody_setterBody (p : Property) :
    indentBody (setterBody p) =
      "$this->" ++ (p.fieldName ++ " = $" ++ p.fieldName ++ ";") ++ "\n\n        return $this;" := by
  have hempty : ("" : String).isEmpty = true := rfl
  have hreturn : "return $this;".isEmpty = false := by decide
  have hend : "\n" ++ ("" ++ "\n" ++ ("        " ++ "return $this;")) = "\n\n        return $this;" := by decide
  rw [indentBody, setterBody, ← hend]
  simp only [List.take_succ_cons, List.take_zero, List.drop_succ_cons, List.drop_zero, List.map_cons, List.map_nil,
    hempty, hreturn, if_true, Bool.false_eq_true, if_false, List.singleton_append, String.intercalate_cons_cons,
    String.intercalate_singleton, String.append_assoc]

/-- The templates of skeleton classes, if they are wanted, are built in. -/
theorem eq_of_skeletonTemplates?_builtin {options : Options} {skeleton : SkeletonTemplates}
    (h : skeletonTemplates? options .builtin = some skeleton) :
    skeleton = ⟨TemplateSet.builtinClassMethod, TemplateSet.builtinClassDocument⟩ := by
  rw [skeletonTemplates?] at h
  split at h
  · exact (Option.some.inj h).symm
  · simp at h

end Accessor

namespace Document

/-! ## Interfaces -/

/-- What stands above the declaration of an interface. -/
def interfaceHeader : String :=
  "<?php\n\n// Interface generated by interface-gen\n// Do not use without reviewing first!\n"

/-- An interface is its header, the line of its declaration and its methods in braces. -/
theorem toList_interface (extension className : String) (methods : List String) :
    (interface TemplateSet.builtinInterfaceDocument extension className methods).body.toList =
      interfaceHeader.toList ++ '\n' :: (("interface " ++ interfaceName className).toList ++
        '\n' :: ("\x7b".toList ++ '\n' :: (("\n" ++ joinMembers methods).toList ++ '\n' :: "\n\x7d\n".toList))) := by
  have hheader : "<?php\n\n// Interface generated by interface-gen\n// Do not use without reviewing first!\n\n" =
      interfaceHeader ++ "\n" := by simp [interfaceHeader]
  have hfirst : ("<?php\n\n// Interface generated by interface-gen\n// Do not use without reviewing first!\n\n" ++
      "interface ").toList = interfaceHeader.toList ++ '\n' :: "interface ".toList := by
    rw [hheader, String.toList_append, String.toList_append, List.append_assoc]
    rfl
  have hopen : "\n\x7b\n\n".toList = '\n' :: ("\x7b".toList ++ ['\n', '\n']) := by decide
  have hclose : "\n\n\x7d\n".toList = '\n' :: "\n\x7d\n".toList := by decide
  show (TemplateSet.builtinInterfaceDocument.render _).toList = _
  rw [TemplateSet.render_builtinInterfaceDocument, hfirst, hopen, hclose, String.toList_append,
    String.toList_append (s := "\n")]
  simp only [List.append_assoc, List.cons_append, List.nil_append]
  rfl

/-! ## Skeleton classes -/

/-- What stands above the declaration of a skeleton class. -/
def skeletonHeader : String :=
  "<?php\n\n// Class generated by interface-gen\n// Do not use without reviewing first!\n"

/-- A skeleton class is its header, the line of its declaration, and its fields and methods in braces. -/
theorem toList_skeleton (extension className : String) (methods fields : List String) :
    (skeleton TemplateSet.builtinClassDocument extension className methods fields).body.toList =
      skeletonHeader.toList ++ '\n' :: (("class " ++ className ++ " implements " ++ interfaceName className).toList ++
        '\n' :: ("\x7b".toList ++ '\n' :: (("\n" ++ joinMembers fields).toList ++
          '\n' :: (("\n" ++ joinMembers methods).toList ++ '\n' :: "\n\x7d\n".toList)))) := by
  have hheader : "<?php\n\n// Class generated by interface-gen\n// Do not use without reviewing first!\n\n" =
      skeletonHeader ++ "\n" := by simp [skeletonHeader]
  have hfirst : ("<?php\n\n// Class generated by interface-gen\n// Do not use without reviewing first!\n\n" ++
      "class ").toList = skeletonHeader.toList ++ '\n' :: "class ".toList := by
    rw [hheader, String.toList_append, String.toList_append, List.append_assoc]
    rfl
  have hopen : "\n\x7b\n\n".toList = '\n' :: ("\x7b".toList ++ ['\n', '\n']) := by decide
  have hclose : "\n\n\x7d\n".toList = '\n' :: "\n\x7d\n".toList := by decide
  show (TemplateSet.builtinClassDocument.render _).toList = _
  rw [TemplateSet.render_builtinClassDocument, hfirst, hopen, hclose]
  simp only [String.toList_append, List.append_assoc, List.cons_append, List.nil_append]
  rfl

end Document

end GetSet
