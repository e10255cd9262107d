import Mathlib.Data.List.Infix
import GetSet.Proofs.Document.Members
import GetSet.Proofs.Document.Readback
import GetSet.Proofs.Source.Account

/-!
# Generated classes declare no properties

The documentation of a generated class speaks of the properties, but in no tag: what follows an `@` is never the rest of
the keyword of tags. So a class that is read from its skeleton has no properties, and none of them was dropped
(`parse?_skeleton`). `documents_recognized` says what is read from both documents of any text that declares a class.
-/

namespace GetSet

/-! ## Texts without tags -/

namespace Tag

/-- The keyword of tags does not occur in the text, and no carriage return. -/
structure Untagged (cs : List Char) : Prop where
  noKeyword : ¬ keyword <:+: cs
  noReturn : '\r' ∉ cs

instance (cs : List Char) : Decidable (Untagged cs) :=
  decidable_of_iff (¬ keyword <:+: cs ∧ '\r' ∉ cs) ⟨fun h => ⟨h.1, h.2⟩, fun h => ⟨h.noKeyword, h.noReturn⟩⟩

theorem Untagged.append_newline {cs ds : List Char} (h : Untagged cs) (h' : Untagged ds) :
    Untagged (cs ++ '\n' :: ds) where
  noKeyword hkeyword := (Document.infix_of_append_newline (by decide) hkeyword).elim h.noKeyword h'.noKeyword
  noReturn := by simp [h.noReturn, h'.noReturn]

/-- Whether no keyword of tags begins in a text, whatever follows. -/
def opensNoTag : List Char → Bool
  | [] => true
  | c :: cs => !(keyword.isPrefixOf (c :: cs) || (c :: cs).isPrefixOf keyword) && opensNoTag cs

theorem not_infix_append {start rest : List Char} (h : opensNoTag start = true) (hrest : ¬ keyword <:+: rest) :
    ¬ keyword <:+: start ++ rest := by
  induction start with
  | nil => exact hrest
  | cons c cs ih =>
    simp only [opensNoTag, Bool.and_eq_true, Bool.not_eq_true', Bool.or_eq_false_iff] at h
    obtain ⟨⟨hkeyword, hstart⟩, hcs⟩ := h
    rw [List.cons_append, List.infix_cons_iff, not_or, ← List.cons_append]
    refine ⟨fun hprefix => ?_, ih hcs⟩
    rcases List.prefix_or_prefix_of_prefix hprefix (List.prefix_append (c :: cs) rest) with hp | hp
    · rw [List.isPrefixOf_iff_prefix.2 hp] at hkeyword
      exact Bool.noConfusion hkeyword
    · rw [List.isPrefixOf_iff_prefix.2 hp] at hstart
      exact Bool.noConfusion hstart

/-- No tag is found where its keyword does not occur. -/
theorem scanFrom_eq_nil {atBoundary : Bool} {cs : List Char} (h : ¬ keyword <:+: cs) : scanFrom atBoundary cs = [] := by
  induction cs generalizing atBoundary with
  | nil => rfl
  | cons c cs ih =>
    rw [List.infix_cons_iff, not_or] at h
    have hread : read? (c :: cs) = none := by
      rw [read?]
      cases hprefix : keyword.isPrefixOf? (c :: cs) with
      | none => rfl
      | some rest => exact absurd ⟨rest, List.append_eq_of_isPrefixOf?_eq_some hprefix⟩ h.1
    rw [scanFrom, ih h.2, hread]
    cases atBoundary <;> rfl

end Tag

open Tag (Untagged opensNoTag)

/-- The beginning of a line does not matter if no tag begins in it. -/
theorem untagged_append {start rest : String} (hstart : opensNoTag start.toList = true ∧ '\r' ∉ start.toList)
    (hrest : Untagged rest.toList) : Untagged (start ++ rest).toList := by
  rw [String.toList_append]
  exact ⟨Tag.not_infix_append hstart.1 hrest.noKeyword, by simp [hstart.2, hrest.noReturn]⟩

/-- Neither `@` nor a carriage return stands in the text. -/
def Unmarked (s : String) : Prop :=
  '@' ∉ s.toList ∧ '\r' ∉ s.toList

instance (s : String) : Decidable (Unmarked s) :=
  inferInstanceAs (Decidable (_ ∧ _))

namespace Unmarked

theorem append {s s' : String} (h : Unmarked s) (h' : Unmarked s') : Unmarked (s ++ s') := by
  simp [Unmarked, String.toList_append, h.1, h.2, h'.1, h'.2]

theorem trim {s : String} (h : Unmarked s) : Unmarked (Text.trim s) :=
  ⟨fun hmem => h.1 (mem_of_mem_trim hmem), fun hmem => h.2 (mem_of_mem_trim hmem)⟩

theorem untagged {s : String} (h : Unmarked s) : Untagged s.toList :=
  ⟨fun hkeyword => h.1 (hkeyword.subset (by decide)), h.2⟩

end Unmarked

theorem unmarked_of_isTypeChar {s : String} (h : ∀ c ∈ s.toList, Tag.isTypeChar c = true) : Unmarked s := by
  refine ⟨?_, ?_⟩ <;>
    exact fun hmem => absurd (h _ hmem) (by decide)

theorem unmarked_of_isNameChar {s : String} (h : ∀ c ∈ s.toList, Name.isNameChar c = true) : Unmarked s := by
  refine ⟨?_, ?_⟩ <;>
    exact fun hmem => absurd (h _ hmem) (by decide)

theorem unmarked_of_isIdentifier {s : String} (h : Declaration.IsIdentifier s.toList) : Unmarked s := by
  refine ⟨?_, ?_⟩ <;>
    exact fun hmem => absurd (h.char _ hmem) (by decide)

namespace Accessor

/-! ## Methods and fields -/

/-- A signature without an `@`, apart from documentation in which there are no tags. -/
structure Signature.Untagged (s : Signature) : Prop where
  line : ∀ form, Unmarked (s.line form)
  doc_ne : s.doc ≠ []
  doc : ∀ line ∈ s.doc, Tag.Untagged line.toList

theorem untagged_getter (options : Options) {p : Property} (h : p.Spelled) : (getter options p).Untagged where
  line form := by
    have hreturn : Unmarked ((getter options p).returnType form) := by
      show Unmarked (if _ then ": " ++ p.typeHint else "")
      split
      · exact Unmarked.append (by decide) (unmarked_of_isTypeChar h.typeHint)
      · decide
    have hname : Unmarked ("get" ++ p.pascalName) := Unmarked.append (by decide) (unmarked_of_isNameChar h.pascalName)
    have harguments : Unmarked ("(" ++ "" ++ ")") := by decide
    exact Unmarked.append (by decide) (hname.append (harguments.append hreturn))
  doc_ne := by simp [getter]
  doc line hline := by
    simp only [getter, List.mem_cons, List.not_mem_nil, or_false] at hline
    rcases hline with rfl | rfl | rfl
    · decide
    · refine untagged_append (by decide) (Unmarked.untagged ?_)
      rw [Property.docType]
      split
      · decide
      · exact unmarked_of_isTypeChar h.typeHint
    · decide

theorem untagged_setter (options : Options) {p : Property} (h : p.Spelled) {className : String}
    (hname : Declaration.IsIdentifier className.toList) : (setter options p className).Untagged where
  line form := by
    have hfield := unmarked_of_isNameChar h.fieldName
    have harguments : Unmarked (setter options p className).arguments := by
      show Unmarked (if _ then p.typeHint ++ " $" ++ p.fieldName else "$" ++ p.fieldName)
      split
      · exact ((unmarked_of_isTypeChar h.typeHint).append (by decide)).append hfield
      · exact Unmarked.append (by decide) hfield
    have hreturn : Unmarked ((setter options p className).returnType form) := by
      show Unmarked (if _ then _ else "")
      split
      · cases form with
        | interface =>
          show Unmarked ": self"
          decide
        | skeleton => exact Unmarked.append (by decide) ((unmarked_of_isIdentifier hname).append (by decide))
      · decide
    have hmethod : Unmarked ("set" ++ p.pascalName) := Unmarked.append (by decide) (unmarked_of_isNameChar h.pascalName)
    exact Unmarked.append (by decide)
      (hmethod.append (((Unmarked.append (by decide) harguments).append (by decide)).append hreturn))
  doc_ne := by simp [setter]
  doc line hline := by
    simp only [setter, List.mem_cons, List.not_mem_nil, or_false] at hline
    rcases hline with rfl | rfl | rfl | rfl | rfl
    · decide
    · have hparam : Unmarked (p.typeHint ++ " $" ++ p.fieldName) :=
        ((unmarked_of_isTypeChar h.typeHint).append (by decide)).append (unmarked_of_isNameChar h.fieldName)
      exact untagged_append (by decide) hparam.trim.untagged
    · decide
    · decide
    · decide

theorem untagged_getterBody {p : Property} (h : p.Spelled) :
    Untagged ("        " ++ indentBody (getterBody p)).toList := by
  rw [indentBody_getterBody]
  exact (Unmarked.append (by decide)
    (Unmarked.append (by decide) ((unmarked_of_isNameChar h.fieldName).append (by decide)))).untagged

theorem untagged_setterBody {p : Property} (h : p.Spelled) :
    Untagged ("        " ++ indentBody (setterBody p)).toList := by
  have hfield := unmarked_of_isNameChar h.fieldName
  rw [indentBody_setterBody]
  exact (Unmarked.append (by decide) (Unmarked.append (Unmarked.append (by decide)
    (((hfield.append (by decide)).append hfield).append (by decide))) (by decide))).untagged

theorem untagged_implementation (kind : Kind) {s : Signature} (h : s.Untagged) {body : List String}
    (hbody : Untagged ("        " ++ indentBody body).toList) :
    Untagged (implementation TemplateSet.builtinClassMethod kind s body).text.toList := by
  have hdoc : Untagged ("    " ++ "\n    ".intercalate s.doc).toList :=
    of_intercalate Untagged.append_newline "    " h.doc_ne fun line hline =>
      untagged_append (by decide) (h.doc line hline)
  have hopening : Untagged "    \x7b".toList := by decide
  have hclosing : Untagged "    \x7d".toList := by decide
  rw [toList_implementation]
  exact hdoc.append_newline ((h.line .skeleton).untagged.append_newline
    (hopening.append_newline (hbody.append_newline hclosing)))

theorem untagged_fieldDeclaration {p : Property} (h : p.Spelled) : Untagged p.fieldDeclaration.toList := by
  have hfield := unmarked_of_isNameChar h.fieldName
  have hline : Unmarked ("    protected $" ++ p.fieldName ++ ";") :=
    (Unmarked.append (by decide) hfield).append (by decide)
  rw [Property.fieldDeclaration]
  split
  · rw [String.append_assoc, String.append_assoc, String.append_assoc, String.append_assoc]
    exact untagged_append (by decide) ((unmarked_of_isTypeChar h.typeHint).append
      (Unmarked.append (by decide) (hfield.append (Unmarked.append (by decide) hline)))).untagged
  · exact hline.untagged

end Accessor

/-! ## Classes -/

theorem Document.untagged_skeleton {className : String} (hname : Declaration.IsIdentifier className.toList)
    (extension : String) {methods fields : List String} (hmethods : ∀ method ∈ methods, Untagged method.toList)
    (hfields : ∀ field ∈ fields, Untagged field.toList) :
    Untagged (skeleton TemplateSet.builtinClassDocument extension className methods fields).body.toList := by
  have hclass := unmarked_of_isIdentifier hname
  have hheader : Untagged skeletonHeader.toList := Text.holds_toList_ofList (P := Untagged) (by decide +kernel)
  have hdeclaration : Unmarked ("class " ++ className ++ " implements " ++ interfaceName className) :=
    ((Unmarked.append (by decide) hclass).append (by decide)).append (hclass.append (by decide))
  have hblank : Untagged [] := by decide
  have hopening : Untagged "\x7b".toList := by decide
  have hclosing : Untagged "\n\x7d\n".toList := by decide
  rw [toList_skeleton]
  exact hheader.append_newline (hdeclaration.untagged.append_newline (hopening.append_newline
    ((of_joinMembers Untagged.append_newline hblank hfields).append_newline
      ((of_joinMembers Untagged.append_newline hblank hmethods).append_newline hclosing))))

namespace SourceUnit

variable {text : String} {path : Path} {unit : SourceUnit}

/-- There are no tags in the class that is generated for a unit. -/
theorem untagged_skeleton (h : parse? text path = some unit) {options : Options} {d : Document}
    (hd : (unit.generate options .builtin).skeleton = some d) : Untagged d.body.toList := by
  have hname := isIdentifier_of_parse? h
  obtain ⟨templates, htemplates, rfl⟩ := exists_of_skeleton_generate hd
  obtain rfl := Accessor.eq_of_skeletonTemplates?_builtin htemplates
  refine Document.untagged_skeleton hname _ ?_ ?_
  · intro method hmethod
    obtain ⟨accessors, haccessors, hmethod⟩ := List.mem_flatMap.1 hmethod
    obtain ⟨p, hp, rfl⟩ := List.mem_map.1 haccessors
    obtain ⟨fragment, hfragment, rfl⟩ := List.mem_map.1 hmethod
    have hspelled := spelled_of_mem_properties h hp
    rw [(Accessor.skeleton_synthesize htemplates p unit.name).1, List.mem_cons, List.mem_singleton] at hfragment
    rcases hfragment with rfl | rfl
    · exact Accessor.untagged_implementation _ (Accessor.untagged_getter options hspelled)
        (Accessor.untagged_getterBody hspelled)
    · exact Accessor.untagged_implementation _ (Accessor.untagged_setter options hspelled hname)
        (Accessor.untagged_setterBody hspelled)
  · intro field hfield
    obtain ⟨accessors, haccessors, hfield⟩ := List.mem_filterMap.1 hfield
    obtain ⟨p, hp, rfl⟩ := List.mem_map.1 haccessors
    rw [(Accessor.skeleton_synthesize htemplates p unit.name).2] at hfield
    obtain rfl := Option.some.inj hfield
    exact Accessor.untagged_fieldDeclaration (spelled_of_mem_properties h hp)

/-- From the class that is generated for a unit a unit of the same name without properties is read. -/
theorem parse?_skeleton (h : parse? text path = some unit) {options : Options} {d : Document}
    (hd : (unit.generate options .builtin).skeleton = some d) (path' : Path) :
    parse? d.body path' = some { path := path', name := unit.name, properties := [], droppedProperties := 0 } := by
  obtain ⟨unit', hparse, hname⟩ := exists_parse?_skeleton h hd path'
  have huntagged := untagged_skeleton h hd
  have hscan : Tag.scan (Text.withUnixLineEnds d.body) = [] := by
    rw [Tag.scan, Text.withUnixLineEnds, String.toList_ofList, Text.unifyLineEnds_eq_self huntagged.noReturn]
    exact Tag.scanFrom_eq_nil huntagged.noKeyword
  have hreadings : readings (Text.withUnixLineEnds d.body) = [] := by rw [readings, hscan, List.map_nil]
  rw [hparse]
  rw [parse?, ofText?, hreadings] at hparse
  obtain ⟨name, -, rfl⟩ := Option.map_eq_some_iff.1 hparse
  rw [← hname]
  rfl

/-! ## Both documents -/

/-- The built-in templates include those of a class. -/
theorem exists_skeleton_builtin {options : Options} (h : options.generateClasses = true) (unit : SourceUnit) :
    ∃ d, (unit.generate options .builtin).skeleton = some d := by
  have htemplates : Accessor.skeletonTemplates? options .builtin = some _ := if_pos h
  rw [skeleton_generate_eq_map, htemplates]
  exact ⟨_, rfl⟩

/-- Of what the built-in templates make of any text that declares a class, the interface is read as no unit, and the
class as one of the same name without properties. -/
theorem documents_recognized (h : ∃ line ∈ Text.lines text.toList, ∃ name, Declaration.LineDeclares line name)
    (path path' : Path) {options : Options} (hclasses : options.generateClasses = true) :
    ∃ unit d, parse? text path = some unit ∧ (unit.generate options .builtin).skeleton = some d ∧
      parse? (unit.generate options .builtin).interface.body path' = none ∧
      parse? d.body path' = some { path := path', name := unit.name, properties := [], droppedProperties := 0 } := by
  obtain ⟨line, hline, hdeclares⟩ := h
  have hsome : parse? text path ≠ none := fun hnone => parse?_eq_none_iff.1 hnone line hline hdeclares
  obtain ⟨unit, hunit⟩ := Option.ne_none_iff_exists'.1 hsome
  obtain ⟨d, hd⟩ := exists_skeleton_builtin hclasses unit
  exact ⟨unit, d, hunit, hd, parse?_interface hunit options path', parse?_skeleton hunit hd path'⟩

/-- A class named by a keyword, with a property whose type and name are keywords too. -/
theorem documents_recognized_class :
    let unit : SourceUnit := ⟨⟨"a"⟩, "Class", [⟨"class", "final", "Final", "final"⟩], 0⟩
    let options : Options := { generateClasses := true, argumentTypes := true, returnTypes := true }
    (∃ line ∈ Text.lines "/** @property class $final */\nfinal class Class".toList,
        ∃ name, Declaration.LineDeclares line name) ∧
      options.generateClasses = true ∧
      parse? "/** @property class $final */\nfinal class Class" ⟨"a"⟩ = some unit ∧
      ∃ d, (unit.generate options .builtin).skeleton = some d ∧
        parse? (unit.generate options .builtin).interface.body ⟨"b"⟩ = none ∧
        parse? d.body ⟨"b"⟩ = some { path := ⟨"b"⟩, name := "Class", properties := [], droppedProperties := 0 } := by
  intro unit options
  have hdeclares : ∃ line ∈ Text.lines "/** @property class $final */\nfinal class Class".toList,
      ∃ name, Declaration.LineDeclares line name :=
    ⟨"final class Class".toList, by decide, "Class".toList, Declaration.ofLine?_eq_some_iff.1 (by decide)⟩
  have hunit : parse? "/** @property class $final */\nfinal class Class" ⟨"a"⟩ = some unit := by decide
  obtain ⟨unit', d, hunit', hd, hinterface, hskeleton⟩ :=
    documents_recognized hdeclares ⟨"a"⟩ ⟨"b"⟩ (rfl : options.generateClasses = true)
  obtain rfl := Option.some.inj (hunit'.symm.trans hunit)
  exact ⟨hdeclares, rfl, hunit, d, hd, hinterface, hskeleton⟩

end SourceUnit

end GetSet
