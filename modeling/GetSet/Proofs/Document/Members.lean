import Mathlib.Data.List.Basic
import Mathlib.Data.List.DropRight
import Mathlib.Data.List.Infix
import GetSet.Proofs.Document.Shape
import GetSet.Proofs.Text.Run

/-!
# The members that documents declare

The documents of a unit are read line by line (`readLines`). Whatever looks for other lines than plain ones finds in
them the lines that declare the accessors of the properties and their fields, and nothing else
(`readLines_interface_generate`, `readLines_skeleton_generate`). So the methods, the fields and the slots of the
documents are known from the properties (`members_generate`).
-/

namespace GetSet

open Text

/-! ## Reading a text line by line -/

/-- What a reading finds in the lines of a text, in order. -/
def readLines {β : Type} (read : List Char → Option β) (cs : List Char) : List β :=
  (lines cs).filterMap read

section

variable {β : Type} {read : List Char → Option β} {cs ds : List Char}

theorem readLines_append_newline : readLines read (cs ++ '\n' :: ds) = readLines read cs ++ readLines read ds := by
  rw [readLines, lines_append, List.filterMap_append]
  rfl

theorem readLines_of_notMem (h : '\n' ∉ cs) : readLines read cs = (read cs).toList := by
  rw [readLines, lines, List.splitOn_eq_singleton h]
  cases hread : read cs <;> simp [hread]

end

/-! ## Plain lines -/

/-- A line that declares no member and has no slot: `p` is not its first character, blanks apart. -/
structure IsPlainLine (line : List Char) : Prop where
  start : (line.dropWhile isBlank).head? ≠ some 'p'
  noSlot : ¬ ['\x7b', '\x7b'] <:+: line

/-- A text of plain lines. -/
def Plain (cs : List Char) : Prop :=
  ∀ line ∈ lines cs, IsPlainLine line

instance (line : List Char) : Decidable (IsPlainLine line) :=
  decidable_of_iff ((line.dropWhile isBlank).head? ≠ some 'p' ∧ ¬ ['\x7b', '\x7b'] <:+: line)
    ⟨fun h => ⟨h.1, h.2⟩, fun h => ⟨h.start, h.noSlot⟩⟩

instance (cs : List Char) : Decidable (Plain cs) :=
  inferInstanceAs (Decidable (∀ line ∈ lines cs, IsPlainLine line))

theorem Plain.append_newline {cs ds : List Char} (h : Plain cs) (h' : Plain ds) : Plain (cs ++ '\n' :: ds) := by
  intro line hline
  rw [lines_append, List.mem_append] at hline
  exact hline.elim (h line) (h' line)

theorem Inline.noSlot {s : String} (h : Inline s) : ¬ ['\x7b', '\x7b'] <:+: s.toList :=
  fun hslot => h.2.2 (hslot.subset (by simp))

/-- Whether the first character that is no blank is there and is no `p`. -/
def startsApart (start : List Char) : Bool :=
  match start.dropWhile isBlank with
  | c :: _ => c != 'p'
  | [] => false

/-- A single line is plain if its beginning is. -/
theorem plain_append {start rest : String} (h : startsApart start.toList = true) (hstart : Inline start)
    (hrest : Inline rest) : Plain (start ++ rest).toList := by
  have hline : Inline (start ++ rest) := hstart.append hrest
  intro line hmem
  rw [lines, List.splitOn_eq_singleton hline.1, List.mem_singleton] at hmem
  subst hmem
  refine ⟨?_, hline.noSlot⟩
  rw [startsApart] at h
  split at h
  · next c cs hdrop =>
    rw [String.toList_append, List.dropWhile_append, hdrop]
    simpa using h
  · simp at h

namespace Accessor

/-! ## The plain parts of members -/

theorem plain_commentLine {line : String} (h : IsCommentLine line) : Plain ("    " ++ line).toList := by
  obtain ⟨start, rest, hstart, hrest, rfl⟩ := h
  rw [← String.append_assoc]
  simp only [List.mem_cons, List.not_mem_nil, or_false] at hstart
  rcases hstart with rfl | rfl
  · exact plain_append (by decide) (by decide) hrest
  · exact plain_append (by decide) (by decide) hrest

theorem plain_doc {s : Signature} (h : s.Tame) : Plain ("    " ++ "\n    ".intercalate s.doc).toList :=
  of_intercalate Plain.append_newline "    " h.doc_ne fun line hline => plain_commentLine (h.doc line hline)

theorem plain_getterBody {p : Property} (h : p.Spelled) : Plain ("        " ++ indentBody (getterBody p)).toList := by
  rw [indentBody_getterBody, ← String.append_assoc]
  exact plain_append (by decide) (by decide) ((inline_of_isNameChar h.fieldName).append (by decide))

theorem plain_setterBody {p : Property} (h : p.Spelled) : Plain ("        " ++ indentBody (setterBody p)).toList := by
  have hfield := inline_of_isNameChar h.fieldName
  have hassignment : Plain ("        $this->" ++ (p.fieldName ++ " = $" ++ p.fieldName ++ ";")).toList :=
    plain_append (by decide) (by decide) (((hfield.append (by decide)).append hfield).append (by decide))
  have hreturn : Plain "\n        return $this;".toList := Text.holds_toList_ofList (P := Plain) (by decide)
  have hstart : "        $this->".toList = "        ".toList ++ "$this->".toList := by decide
  have hend : "\n\n        return $this;".toList = '\n' :: "\n        return $this;".toList := by decide
  have htext : ("        " ++ indentBody (setterBody p)).toList =
      ("        $this->" ++ (p.fieldName ++ " = $" ++ p.fieldName ++ ";")).toList ++
        '\n' :: "\n        return $this;".toList := by
    rw [indentBody_setterBody]
    simp only [String.toList_append, hstart, hend, List.append_assoc]
  rw [htext]
  exact hassignment.append_newline hreturn

/-- The line that declares the field of a property. -/
def fieldLine (p : Property) : String :=
  "    protected $" ++ p.fieldName ++ ";"

theorem inline_fieldLine {p : Property} (h : p.Spelled) : Inline (fieldLine p) :=
  (Inline.append (by decide) (inline_of_isNameChar h.fieldName)).append (by decide)

theorem plain_fieldComment {p : Property} (h : p.Spelled) :
    Plain ("    /** @var " ++ (p.typeHint ++ " $" ++ p.fieldName ++ " */")).toList := by
  refine plain_append (by decide) (by decide) (Inline.append (Inline.append (Inline.append ?_ ?_) ?_) ?_)
  · exact inline_of_isTypeChar h.typeHint
  · decide
  · exact inline_of_isNameChar h.fieldName
  · decide

end Accessor

/-! ## Lines that are not plain -/

section

variable {β : Type} {read : List Char → Option β} (hread : ∀ line, IsPlainLine line → read line = none)

include hread

theorem readLines_of_plain {cs : List Char} (h : Plain cs) : readLines read cs = [] :=
  List.filterMap_eq_nil_iff.2 fun line hline => hread line (h line hline)

theorem readLines_newline_cons (cs : List Char) : readLines read ('\n' :: cs) = readLines read cs := by
  rw [← List.nil_append ('\n' :: cs), readLines_append_newline, readLines_of_plain hread (by decide), List.nil_append]

/-- The lines of members are those of the one after those of the other. -/
theorem readLines_joinMembers (members : List String) :
    readLines read (Document.joinMembers members).toList = members.flatMap fun m => readLines read m.toList := by
  induction members with
  | nil => exact readLines_of_plain hread (by decide)
  | cons member members ih =>
    cases members with
    | nil =>
      rw [Document.joinMembers, String.intercalate_singleton, List.flatMap_singleton]
    | cons next members =>
      have htext : (Document.joinMembers (member :: next :: members)).toList =
          member.toList ++ '\n' :: '\n' :: (Document.joinMembers (next :: members)).toList := by
        rw [Document.joinMembers, String.intercalate_cons_cons]
        simp [Document.joinMembers]
      rw [htext, readLines_append_newline, readLines_newline_cons hread, ih]
      rfl

namespace Accessor

theorem readLines_declaration (kind : Kind) {s : Signature} (h : s.Tame) :
    readLines read (declaration TemplateSet.builtinInterfaceMethod kind s).text.toList =
      (read (s.line .interface ++ ";").toList).toList := by
  have hline : Inline (s.line .interface ++ ";") := (h.line .interface).append (by decide)
  rw [toList_declaration, readLines_append_newline, readLines_of_plain hread (plain_doc h),
    readLines_of_notMem hline.1, List.nil_append]

theorem readLines_implementation (kind : Kind) {s : Signature} (h : s.Tame) {body : List String}
    (hbody : Plain ("        " ++ indentBody body).toList) :
    readLines read (implementation TemplateSet.builtinClassMethod kind s body).text.toList =
      (read (s.line .skeleton).toList).toList := by
  have hrest : Plain ("    \x7b".toList ++
      '\n' :: (("        " ++ indentBody body).toList ++ '\n' :: "    \x7d".toList)) :=
    Plain.append_newline (by decide) (hbody.append_newline (by decide))
  rw [toList_implementation, readLines_append_newline, readLines_append_newline,
    readLines_of_plain hread (plain_doc h), readLines_of_notMem (h.line .skeleton).1, readLines_of_plain hread hrest,
    List.nil_append, List.append_nil]

theorem readLines_fieldDeclaration {p : Property} (h : p.Spelled) :
    readLines read p.fieldDeclaration.toList = (read (fieldLine p).toList).toList := by
  have hline : readLines read (fieldLine p).toList = (read (fieldLine p).toList).toList :=
    readLines_of_notMem (inline_fieldLine h).1
  by_cases hexplicit : p.hasExplicitType = true
  · have htext : p.fieldDeclaration.toList =
        ("    /** @var " ++ (p.typeHint ++ " $" ++ p.fieldName ++ " */")).toList ++ '\n' :: (fieldLine p).toList := by
      have hend : " */\n".toList = " */".toList ++ ['\n'] := by decide
      rw [Property.fieldDeclaration, if_pos hexplicit]
      show (_ ++ fieldLine p).toList = _
      simp only [String.toList_append, hend, List.append_assoc, List.singleton_append]
    rw [htext, readLines_append_newline, readLines_of_plain hread (plain_fieldComment h), hline, List.nil_append]
  · rw [Property.fieldDeclaration, if_neg hexplicit]
    exact hline

end Accessor

namespace Document

theorem readLines_interface {className : String} (hname : Declaration.IsIdentifier className.toList)
    (extension : String) (methods : List String) :
    readLines read (interface TemplateSet.builtinInterfaceDocument extension className methods).body.toList =
      methods.flatMap fun m => readLines read m.toList := by
  have hheader : Plain interfaceHeader.toList := Text.holds_toList_ofList (P := Plain) (by decide)
  have hdeclaration : Plain ("interface " ++ interfaceName className).toList :=
    plain_append (by decide) (by decide) ((inline_of_isIdentifier hname).append (by decide))
  have hmethods : ("\n" ++ joinMembers methods).toList = '\n' :: (joinMembers methods).toList := by simp
  rw [toList_interface, hmethods]
  simp only [readLines_append_newline, readLines_newline_cons hread, readLines_joinMembers hread,
    readLines_of_plain hread hheader, readLines_of_plain hread hdeclaration,
    readLines_of_plain hread (show Plain "\x7b".toList by decide),
    readLines_of_plain hread (show Plain "\n\x7d\n".toList by decide), List.nil_append, List.append_nil]

theorem readLines_skeleton {className : String} (hname : Declaration.IsIdentifier className.toList)
    (extension : String) (methods fields : List String) :
    readLines read (skeleton TemplateSet.builtinClassDocument extension className methods fields).body.toList =
      (fields.flatMap fun f => readLines read f.toList) ++ methods.flatMap fun m => readLines read m.toList := by
  have hheader : Plain skeletonHeader.toList := Text.holds_toList_ofList (P := Plain) (by decide)
  have hdeclaration : Plain ("class " ++ className ++ " implements " ++ interfaceName className).toList := by
    have hclass := inline_of_isIdentifier hname
    rw [String.append_assoc, String.append_assoc]
    exact plain_append (by decide) (by decide) (hclass.append (Inline.append (by decide) (hclass.append (by decide))))
  have hmethods : ("\n" ++ joinMembers methods).toList = '\n' :: (joinMembers methods).toList := by simp
  have hfields : ("\n" ++ joinMembers fields).toList = '\n' :: (joinMembers fields).toList := by simp
  rw [toList_skeleton, hmethods, hfields]
  simp only [readLines_append_newline, readLines_newline_cons hread, readLines_joinMembers hread,
    readLines_of_plain hread hheader, readLines_of_plain hread hdeclaration,
    readLines_of_plain hread (show Plain "\x7b".toList by decide),
    readLines_of_plain hread (show Plain "\n\x7d\n".toList by decide), List.nil_append, List.append_nil]

end Document

namespace SourceUnit

open Accessor

/-! ## The lines of a unit's documents -/

variable {text : String} {path : Path} {unit : SourceUnit}

/-- The lines of an interface that are not plain declare the accessors, property by property. -/
theorem readLines_interface_generate (h : parse? text path = some unit) (options : Options) :
    readLines read (unit.generate options .builtin).interface.body.toList =
      unit.properties.flatMap fun p =>
        (read ((getter options p).line .interface ++ ";").toList).toList ++
          (read ((setter options p unit.name).line .interface ++ ";").toList).toList := by
  have hname := isIdentifier_of_parse? h
  rw [generate, TemplateSet.builtin, Document.readLines_interface hread hname, accessors, List.flatMap_map,
    List.flatMap_assoc]
  refine List.flatMap_congr fun p hp => ?_
  have hspelled := spelled_of_mem_properties h hp
  simp only [interface_synthesize, List.map_cons, List.map_nil, List.flatMap_cons, List.flatMap_nil, List.append_nil,
    readLines_declaration hread _ (tame_getter options hspelled),
    readLines_declaration hread _ (tame_setter options hspelled hname)]

/-- The lines of a skeleton class that are not plain declare the fields and then the accessors, property by
property. -/
theorem readLines_skeleton_generate (h : parse? text path = some unit) {options : Options} {d : Document}
    (hd : (unit.generate options .builtin).skeleton = some d) :
    readLines read d.body.toList =
      (unit.properties.flatMap fun p => (read (fieldLine p).toList).toList) ++
        unit.properties.flatMap fun p =>
          (read ((getter options p).line .skeleton).toList).toList ++
            (read ((setter options p unit.name).line .skeleton).toList).toList := by
  have hname := isIdentifier_of_parse? h
  obtain ⟨templates, htemplates, rfl⟩ := exists_of_skeleton_generate hd
  obtain rfl := eq_of_skeletonTemplates?_builtin htemplates
  rw [Document.readLines_skeleton hread hname, accessors, List.flatMap_map, List.flatMap_assoc, List.filterMap_map,
    List.filterMap_eq_flatMap_toList, List.flatMap_assoc]
  refine congrArg₂ _ (List.flatMap_congr fun p hp => ?_) (List.flatMap_congr fun p hp => ?_)
  · have hspelled := spelled_of_mem_properties h hp
    simp only [Function.comp_apply, (skeleton_synthesize htemplates p unit.name).2, Option.toList_some,
      List.flatMap_singleton, readLines_fieldDeclaration hread hspelled]
  · have hspelled := spelled_of_mem_properties h hp
    simp only [(skeleton_synthesize htemplates p unit.name).1, List.map_cons, List.map_nil, List.flatMap_cons,
      List.flatMap_nil, List.append_nil,
      readLines_implementation hread _ (tame_getter options hspelled) (plain_getterBody hspelled),
      readLines_implementation hread _ (tame_setter options hspelled hname) (plain_setterBody hspelled)]

end SourceUnit

end

namespace Document

/-! ## Methods -/

/-- The name of the method that a line declares: what follows the keywords, up to the opening parenthesis. -/
def methodName? (line : List Char) : Option String :=
  ("public function ".toList.isPrefixOf? (trimBlanks line)).map fun rest => .ofList (rest.takeWhile (· != '('))

/-- The names of the methods that a text declares. -/
def methodNames (text : String) : List String :=
  readLines methodName? text.toList

/-- A line declares no method if something else comes first in it. -/
theorem methodName?_eq_none {line : List Char}
    (h : "public function ".toList.isPrefixOf (line.dropWhile isBlank) = false) : methodName? line = none := by
  rw [methodName?, Option.map_eq_none_iff, Option.eq_none_iff_forall_ne_some]
  intro rest hrest
  have htrim : trimBlanks line <+: line.dropWhile isBlank := List.rdropWhile_prefix isBlank _
  have hfront : "public function ".toList <+: trimBlanks line := ⟨rest, List.isPrefixOf?_eq_some_iff_append_eq.1 hrest⟩
  rw [List.isPrefixOf_iff_prefix.2 (hfront.trans htrim)] at h
  simp at h

theorem methodName?_of_isPlainLine {line : List Char} (h : IsPlainLine line) : methodName? line = none := by
  refine methodName?_eq_none (Bool.eq_false_iff.2 fun hfront => h.start ?_)
  obtain ⟨rest, hrest⟩ := List.isPrefixOf_iff_prefix.1 hfront
  rw [← hrest]
  rfl

/-- Cutting blanks off the end leaves everything up to a character that is none. -/
theorem exists_rdropWhile_append_cons {c : Char} (h : isBlank c = false) (cs ds : List Char) :
    ∃ ds', (cs ++ c :: ds).rdropWhile isBlank = cs ++ c :: ds' := by
  have hreverse : (cs ++ c :: ds).reverse = ds.reverse ++ c :: cs.reverse := by simp
  rw [List.rdropWhile, hreverse, List.dropWhile_append]
  split
  · refine ⟨[], ?_⟩
    simp [List.dropWhile_cons_of_neg (Bool.not_eq_true _ ▸ h)]
  · exact ⟨(ds.reverse.dropWhile isBlank).reverse, by simp⟩

theorem methodName?_append {name : List Char} (h : '(' ∉ name) (rest : List Char) :
    methodName? ("    public function ".toList ++ (name ++ '(' :: rest)) = some (.ofList name) := by
  have hdrop : ("    public function ".toList ++ (name ++ '(' :: rest)).dropWhile isBlank =
      ("public function ".toList ++ name) ++ '(' :: rest := by
    rw [List.append_assoc]
    rfl
  have hparen : isBlank '(' = false := by decide
  obtain ⟨rest', hrest⟩ := exists_rdropWhile_append_cons hparen ("public function ".toList ++ name) rest
  have htrim : trimBlanks ("    public function ".toList ++ (name ++ '(' :: rest)) =
      "public function ".toList ++ (name ++ '(' :: rest') := by
    show (List.dropWhile isBlank _).rdropWhile isBlank = _
    rw [hdrop, hrest, List.append_assoc]
  have hrun : IsRun (· != '(') (name ++ '(' :: rest') name ('(' :: rest') :=
    ⟨rfl, fun c hc => bne_iff_ne.2 (ne_of_mem_of_not_mem hc h), by simp⟩
  rw [methodName?, htrim, List.isPrefixOf?_eq_some_iff_append_eq.2 rfl, Option.map_some, hrun.takeWhile_eq]

/-- The line of a signature declares the method of its name. -/
theorem methodName?_line {s : Accessor.Signature} (h : s.Tame) (form : Form) (rest : List Char) :
    methodName? ((s.line form).toList ++ rest) = some s.name := by
  have htext : (s.line form).toList ++ rest = "    public function ".toList ++
      (s.name.toList ++ '(' :: (s.arguments.toList ++ ")".toList ++ (s.returnType form).toList ++ rest)) := by
    rw [Accessor.Signature.toList_line, Accessor.Signature.toList_tail]
    simp only [List.append_assoc]
    rfl
  rw [htext, methodName?_append h.name_ends, String.ofList_toList]

/-! ## Fields -/

/-- The line, if it declares a field. -/
def field? (line : List Char) : Option String :=
  if "    protected".toList.isPrefixOf line then some (.ofList line) else none

/-- The lines of a text that declare fields. -/
def fieldLines (text : String) : List String :=
  readLines field? text.toList

theorem field?_of_isPlainLine {line : List Char} (h : IsPlainLine line) : field? line = none := by
  rw [field?, if_neg]
  intro hfront
  obtain ⟨rest, rfl⟩ := List.isPrefixOf_iff_prefix.1 hfront
  exact h.start rfl

theorem field?_line (s : Accessor.Signature) (form : Form) (rest : List Char) :
    field? ((s.line form).toList ++ rest) = none := by
  rw [field?, Accessor.Signature.toList_line, List.append_assoc, if_neg]
  exact Bool.eq_false_iff.1 rfl

theorem field?_fieldLine (p : Property) : field? (Accessor.fieldLine p).toList = some (Accessor.fieldLine p) := by
  have htext : (Accessor.fieldLine p).toList = "    protected".toList ++ (" $" ++ p.fieldName ++ ";").toList := by
    show ("    protected $" ++ p.fieldName ++ ";").toList = _
    simp only [String.toList_append, List.append_assoc]
    rfl
  rw [field?, if_pos, String.ofList_toList]
  rw [htext]
  exact List.isPrefixOf_iff_prefix.2 (List.prefix_append _ _)

theorem methodName?_fieldLine (p : Property) : methodName? (Accessor.fieldLine p).toList = none := by
  have htext : (Accessor.fieldLine p).toList = "    protected $".toList ++ (p.fieldName ++ ";").toList := by
    show ("    protected $" ++ p.fieldName ++ ";").toList = _
    simp only [String.toList_append, List.append_assoc]
  rw [htext]
  exact methodName?_eq_none rfl

/-! ## Slots -/

/-- What stands in two texts on lines of their own stands in one of them, if it takes one line only. -/
theorem infix_of_append_newline {part cs ds : List Char} (hpart : '\n' ∉ part) (h : part <:+: cs ++ '\n' :: ds) :
    part <:+: cs ∨ part <:+: ds := by
  rcases List.infix_append_iff.1 h with hcs | hds | ⟨front, rest, rfl, hfront, hrest⟩
  · exact .inl hcs
  · rcases List.infix_cons_iff.1 hds with hstart | hds
    · cases part with
      | nil => exact .inr List.nil_infix
      | cons c part => exact absurd (by simp [(List.cons_prefix_cons.1 hstart).1]) hpart
    · exact .inr hds
  · cases rest with
    | nil => exact .inl (by simpa using hfront.isInfix)
    | cons c rest => exact absurd (by simp [(List.cons_prefix_cons.1 hrest).1]) hpart

/-- What takes one line only stands in a line of the text. -/
theorem exists_line_of_infix {part cs : List Char} (hne : part ≠ []) (hpart : '\n' ∉ part) (h : part <:+: cs) :
    ∃ line ∈ lines cs, part <:+: line := by
  rw [← intercalate_lines cs] at h
  generalize lines cs = ls at h ⊢
  induction ls with
  | nil => exact absurd (List.infix_nil.1 h) hne
  | cons line rest ih =>
    cases rest with
    | nil => exact ⟨line, List.mem_cons_self, by simpa using h⟩
    | cons next rest =>
      rw [List.intercalate_cons_cons, List.append_assoc, List.singleton_append] at h
      rcases infix_of_append_newline hpart h with hline | hrest
      · exact ⟨line, List.mem_cons_self, hline⟩
      · obtain ⟨line', hmem, hline'⟩ := ih hrest
        exact ⟨line', List.mem_cons_of_mem line hmem, hline'⟩

/-- The line, if two opening braces stand in it side by side. -/
def slotLine? (line : List Char) : Option (List Char) :=
  if ['\x7b', '\x7b'] <:+: line then some line else none

theorem slotLine?_of_isPlainLine {line : List Char} (h : IsPlainLine line) : slotLine? line = none :=
  if_neg h.noSlot

theorem slotLine?_of_inline {s : String} (h : Inline s) : slotLine? s.toList = none :=
  if_neg h.noSlot

/-- No slot is in a text if none is in a line. -/
theorem noSlot_of_readLines {cs : List Char} (h : readLines slotLine? cs = []) : ¬ ['\x7b', '\x7b'] <:+: cs := by
  intro hslot
  obtain ⟨line, hline, hslot⟩ := exists_line_of_infix (by simp) (by decide) hslot
  have hnone : slotLine? line = none := List.filterMap_eq_nil_iff.1 h line hline
  rw [slotLine?, if_pos hslot] at hnone
  simp at hnone

end Document

namespace SourceUnit

open Accessor
open Document (methodNames fieldLines)

/-! ## The members of a unit's documents -/

/-- The names of the getters and setters of the properties, in order. -/
def accessorNames (unit : SourceUnit) : List String :=
  unit.properties.flatMap fun p => ["get" ++ p.pascalName, "set" ++ p.pascalName]

variable {text : String} {path : Path} {unit : SourceUnit}

theorem methodNames_interface (h : parse? text path = some unit) (options : Options) :
    methodNames (unit.generate options .builtin).interface.body = unit.accessorNames := by
  rw [methodNames, readLines_interface_generate (fun _ => Document.methodName?_of_isPlainLine) h, accessorNames]
  refine List.flatMap_congr fun p hp => ?_
  have hspelled := spelled_of_mem_properties h hp
  rw [String.toList_append, String.toList_append, Document.methodName?_line (tame_getter options hspelled),
    Document.methodName?_line (tame_setter options hspelled (isIdentifier_of_parse? h))]
  rfl

theorem methodNames_skeleton (h : parse? text path = some unit) {options : Options} {d : Document}
    (hd : (unit.generate options .builtin).skeleton = some d) : methodNames d.body = unit.accessorNames := by
  have hfields : (unit.properties.flatMap fun p => (Document.methodName? (fieldLine p).toList).toList) = [] :=
    List.flatMap_eq_nil_iff.2 fun p _ => by rw [Document.methodName?_fieldLine]; rfl
  rw [methodNames, readLines_skeleton_generate (fun _ => Document.methodName?_of_isPlainLine) h hd, hfields,
    List.nil_append, accessorNames]
  refine List.flatMap_congr fun p hp => ?_
  have hspelled := spelled_of_mem_properties h hp
  have hget := Document.methodName?_line (tame_getter options hspelled) .skeleton []
  have hset := Document.methodName?_line (tame_setter options hspelled (isIdentifier_of_parse? h)) .skeleton []
  rw [List.append_nil] at hget hset
  rw [hget, hset]
  rfl

theorem fieldLines_skeleton (h : parse? text path = some unit) {options : Options} {d : Document}
    (hd : (unit.generate options .builtin).skeleton = some d) :
    fieldLines d.body = unit.properties.map fieldLine := by
  have hmethods : (unit.properties.flatMap fun p =>
      (Document.field? ((getter options p).line .skeleton).toList).toList ++
        (Document.field? ((setter options p unit.name).line .skeleton).toList).toList) = [] := by
    refine List.flatMap_eq_nil_iff.2 fun p _ => ?_
    have hget := Document.field?_line (getter options p) .skeleton []
    have hset := Document.field?_line (setter options p unit.name) .skeleton []
    rw [List.append_nil] at hget hset
    rw [hget, hset]
    rfl
  rw [fieldLines, readLines_skeleton_generate (fun _ => Document.field?_of_isPlainLine) h hd, hmethods,
    List.append_nil, ← List.flatMap_pure_eq_map]
  refine List.flatMap_congr fun p _ => ?_
  rw [Document.field?_fieldLine]
  rfl

/-- No slot is left in a document of a unit. -/
theorem noSlot_generate (h : parse? text path = some unit) {options : Options} {d : Document}
    (hd : d ∈ (unit.generate options .builtin).documents) : ¬ ['\x7b', '\x7b'] <:+: d.body.toList := by
  refine Document.noSlot_of_readLines ?_
  have hname := isIdentifier_of_parse? h
  have hinline : ∀ p ∈ unit.properties, ∀ form, ∀ rest : String, Inline rest →
      Document.slotLine? ((getter options p).line form ++ rest).toList = none ∧
        Document.slotLine? ((setter options p unit.name).line form ++ rest).toList = none := by
    intro p hp form rest hrest
    have hspelled := spelled_of_mem_properties h hp
    exact ⟨Document.slotLine?_of_inline (((tame_getter options hspelled).line form).append hrest),
      Document.slotLine?_of_inline (((tame_setter options hspelled hname).line form).append hrest)⟩
  rcases List.mem_cons.1 hd with rfl | hd
  · rw [readLines_interface_generate (fun _ => Document.slotLine?_of_isPlainLine) h]
    refine List.flatMap_eq_nil_iff.2 fun p hp => ?_
    obtain ⟨hget, hset⟩ := hinline p hp .interface ";" (by decide)
    rw [hget, hset]
    rfl
  · rw [readLines_skeleton_generate (fun _ => Document.slotLine?_of_isPlainLine) h (Option.mem_toList.1 hd),
      List.append_eq_nil_iff]
    refine ⟨List.flatMap_eq_nil_iff.2 fun p hp => ?_, List.flatMap_eq_nil_iff.2 fun p hp => ?_⟩
    · rw [Document.slotLine?_of_inline (inline_fieldLine (spelled_of_mem_properties h hp))]
      rfl
    · obtain ⟨hget, hset⟩ := hinline p hp .skeleton "" (by decide)
      rw [String.append_empty] at hget hset
      rw [hget, hset]
      rfl

/-- The documents that the built-in templates give declare the accessors of the properties in order, and no other
methods. The class, which is there if it is wanted, declares their fields, and no other ones. No slot is left in any
document. -/
theorem members_generate (h : parse? text path = some unit) (options : Options) :
    methodNames (unit.generate options .builtin).interface.body = unit.accessorNames ∧
      ((unit.generate options .builtin).skeleton.isSome = true ↔ options.generateClasses = true) ∧
      (∀ d, (unit.generate options .builtin).skeleton = some d →
        methodNames d.body = unit.accessorNames ∧
          fieldLines d.body = unit.properties.map fun p => "    protected $" ++ p.fieldName ++ ";") ∧
      ∀ d ∈ (unit.generate options .builtin).documents, ¬ ['\x7b', '\x7b'] <:+: d.body.toList := by
  refine ⟨methodNames_interface h options, ?_, fun d hd => ⟨methodNames_skeleton h hd, fieldLines_skeleton h hd⟩,
    fun d hd => noSlot_generate h hd⟩
  rw [skeleton_generate_eq_map]
  cases hclasses : options.generateClasses with
  | true => simp [skeletonTemplates?, hclasses, TemplateSet.builtin]
  | false => simp [skeletonTemplates?, hclasses]

/-- A class with two properties of one name, which spells the keywords of a method. -/
def repeatedCard : SourceUnit where
  path := ⟨"Card.php"⟩
  name := "Card"
  properties :=
    [⟨"", "public_function", "PublicFunction", "publicFunction"⟩,
      ⟨"public", "public_function", "PublicFunction", "publicFunction"⟩]
  droppedProperties := 0

/-- Neither the type nor the name of a property makes a line of a comment or of a body declare a method. -/
theorem members_generate_card :
    parse? "class Card\n * @property $public_function\n * @property public $public_function" ⟨"Card.php"⟩ =
        some repeatedCard ∧
      methodNames (repeatedCard.generate { argumentTypes := true } .builtin).interface.body =
        ["getPublicFunction", "setPublicFunction", "getPublicFunction", "setPublicFunction"] ∧
      ∃ d, (repeatedCard.generate { generateClasses := true } .builtin).skeleton = some d ∧
        fieldLines d.body = ["    protected $publicFunction;", "    protected $publicFunction;"] := by
  have hparse : parse? "class Card\n * @property $public_function\n * @property public $public_function" ⟨"Card.php"⟩ =
      some repeatedCard := by decide +kernel
  obtain ⟨hinterface, -, -, -⟩ := members_generate hparse { argumentTypes := true }
  obtain ⟨-, hwanted, hskeleton, -⟩ := members_generate hparse { generateClasses := true }
  obtain ⟨d, hd⟩ := Option.isSome_iff_exists.1 (hwanted.2 rfl)
  exact ⟨hparse, hinterface, d, hd, (hskeleton d hd).2⟩

end SourceUnit

end GetSet
