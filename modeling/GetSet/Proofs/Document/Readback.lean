import Mathlib.Data.List.TakeWhile
import GetSet.Config
import GetSet.Proofs.Document.Shape
import GetSet.Proofs.Source.Silent

/-!
# Generated documents read back

A document that the built-in templates give may be read again as an input. An interface is silent, so that no unit is
read from it (`parse?_interface`), and from the class that is generated for a unit a unit of the same name is read
(`exists_parse?_skeleton`). Neither is of use as a configuration file (`ofToml?_of_mem_documents`).
-/

namespace GetSet

open Declaration (Silent startsPlainly)

/-- A line that starts plainly is silent. -/
theorem silent_toList_append {start : String} {rest : String} (h : startsPlainly start.toList = true)
    (hstart : Inline start) (hrest : Inline rest) : Silent (start ++ rest).toList := by
  rw [String.toList_append]
  exact Declaration.silent_append h hstart.oneLine hrest.oneLine

namespace Accessor

/-! ## Methods of an interface -/

theorem silent_commentLine {line : String} (h : IsCommentLine line) : Silent ("    " ++ line).toList := by
  obtain ⟨start, rest, hstart, hrest, rfl⟩ := h
  rw [← String.append_assoc]
  simp only [List.mem_cons, List.not_mem_nil, or_false] at hstart
  rcases hstart with rfl | rfl
  · exact silent_toList_append (by decide) (by decide) hrest
  · exact silent_toList_append (by decide) (by decide) hrest

theorem silent_declaration (kind : Kind) {s : Signature} (h : s.Tame) :
    Silent (declaration TemplateSet.builtinInterfaceMethod kind s).text.toList := by
  have hdoc : Silent ("    " ++ "\n    ".intercalate s.doc).toList :=
    of_intercalate Silent.append_newline "    " h.doc_ne fun line hline => silent_commentLine (h.doc line hline)
  have hline : Silent (s.line .interface ++ ";").toList := by
    rw [Signature.line_append]
    exact silent_toList_append (by decide) (by decide) ((h.name.append (h.tail .interface)).append (by decide))
  rw [toList_declaration]
  exact hdoc.append_newline hline

end Accessor

namespace Document

/-! ## Interfaces -/

theorem silent_interface {className : String} (hname : Declaration.IsIdentifier className.toList) (extension : String)
    {methods : List String} (hmethods : ∀ method ∈ methods, Silent method.toList) :
    Silent (interface TemplateSet.builtinInterfaceDocument extension className methods).body.toList := by
  have hheader : Silent interfaceHeader.toList := Text.holds_toList_ofList (P := Silent) (by decide)
  have hdeclaration : Silent ("interface " ++ interfaceName className).toList :=
    silent_toList_append (by decide) (by decide) ((inline_of_isIdentifier hname).append (by decide))
  have hopening : Silent "\x7b".toList := by decide
  have hclosing : Silent "\n\x7d\n".toList := by decide
  rw [toList_interface]
  exact hheader.append_newline (hdeclaration.append_newline (hopening.append_newline
    ((of_joinMembers Silent.append_newline (by decide) hmethods).append_newline hclosing)))

end Document

namespace Declaration

open Text

theorem words_append_space (cs ds : List Char) : words (cs ++ ' ' :: ds) = words cs ++ words ds := by
  rw [words, List.splitOnP_append_cons cs ds (by decide), List.filter_append]
  rfl

theorem words_of_isIdentifier {name : List Char} (h : IsIdentifier name) : words name = [name] := by
  obtain ⟨c, cs, rfl, -⟩ := h.start
  have hspacing : ∀ d ∈ c :: cs, isSpacing d = false := by
    intro d hd
    have hchar := h.char d hd
    rw [isSpacing, Bool.or_eq_false_iff, beq_eq_false_iff_ne, beq_eq_false_iff_ne]
    refine ⟨?_, ?_⟩ <;>
      rintro rfl <;>
      exact absurd hchar (by decide)
  rw [words, List.splitOnP_eq_singleton hspacing]
  rfl

theorem identifier?_of_isIdentifier {name : List Char} (h : IsIdentifier name) : identifier? name = some name := by
  obtain ⟨c, cs, rfl, hstart⟩ := h.start
  have hchars : ∀ d ∈ cs, isIdentifierChar d = true := fun d hd => h.char d (List.mem_cons_of_mem c hd)
  rw [identifier?, if_pos hstart, List.takeWhile_eq_self_iff.2 hchars]

/-- The line that declares a skeleton class declares the class. -/
theorem ofLine?_declaration {name : String} (h : IsIdentifier name.toList) (rest : String) :
    ofLine? ("class " ++ name ++ " implements " ++ rest).toList = some name.toList := by
  have htext : ("class " ++ name ++ " implements " ++ rest).toList =
      "class".toList ++ ' ' :: (name.toList ++ ' ' :: ("implements ".toList ++ rest.toList)) := by
    simp
  have hclass : words "class".toList = ["class".toList] := by decide
  rw [ofLine?, htext, words_append_space, words_append_space, words_of_isIdentifier h, hclass, List.singleton_append,
    List.singleton_append, ofWords?, if_pos (by decide)]
  exact identifier?_of_isIdentifier h

/-- Carriage returns are only changed where there are some. -/
theorem unifyLineEnds_append {cs : List Char} (h : '\r' ∉ cs) (ds : List Char) :
    unifyLineEnds (cs ++ ds) = cs ++ unifyLineEnds ds := by
  induction cs with
  | nil => rfl
  | cons c cs ih =>
    rw [List.mem_cons, not_or] at h
    have hc : unifyLineEnds (c :: (cs ++ ds)) = c :: unifyLineEnds (cs ++ ds) := by
      rw [unifyLineEnds]
      rintro _ rfl -
      exact h.1 rfl
    rw [List.cons_append, hc, ih h.2, List.cons_append]

/-- The first class of a text is the one that its first line declares which is not silent. -/
theorem className?_eq_some {text name : String} {header line rest : List Char} (hheader : Silent header)
    (hline : '\n' ∉ line ∧ '\r' ∉ line) (hname : ofLine? line = some name.toList)
    (htext : text.toList = header ++ '\n' :: (line ++ '\n' :: rest)) :
    className? (withUnixLineEnds text) = some name := by
  have hpre : '\r' ∉ header ++ '\n' :: line := by simp [hheader.noReturn, hline.2]
  have hunix : unifyLineEnds text.toList = header ++ '\n' :: (line ++ '\n' :: unifyLineEnds rest) := by
    rw [htext, show header ++ '\n' :: (line ++ '\n' :: rest) = (header ++ '\n' :: line) ++ '\n' :: rest by simp,
      unifyLineEnds_append hpre, show '\n' :: rest = ['\n'] ++ rest from rfl, unifyLineEnds_append (by decide)]
    simp
  have hfirst : lines line = [line] := List.splitOn_eq_singleton hline.1
  rw [className?, withUnixLineEnds, String.toList_ofList, hunix, lines_append, lines_append, hfirst,
    List.findSome?_append, List.findSome?_eq_none_iff.2 hheader.line, List.singleton_append, List.findSome?_cons, hname]
  simp

end Declaration

namespace SourceUnit

/-! ## Units -/

variable {text : String} {path : Path} {unit : SourceUnit}

/-- No unit is read from the interface that is generated for a unit. -/
theorem parse?_interface (h : parse? text path = some unit) (options : Options) (path' : Path) :
    parse? (unit.generate options .builtin).interface.body path' = none := by
  refine parse?_of_silent (Document.silent_interface (isIdentifier_of_parse? h) _ ?_) path'
  intro method hmethod
  obtain ⟨accessors, haccessors, hmethod⟩ := List.mem_flatMap.1 hmethod
  obtain ⟨p, hp, rfl⟩ := List.mem_map.1 haccessors
  obtain ⟨fragment, hfragment, rfl⟩ := List.mem_map.1 hmethod
  have hspelled := spelled_of_mem_properties h hp
  rw [Accessor.interface_synthesize, List.mem_cons, List.mem_singleton] at hfragment
  rcases hfragment with rfl | rfl
  · exact Accessor.silent_declaration _ (Accessor.tame_getter options hspelled)
  · exact Accessor.silent_declaration _ (Accessor.tame_setter options hspelled (isIdentifier_of_parse? h))

/-- From the class that is generated for a unit a unit of the same name is read. -/
theorem exists_parse?_skeleton (h : parse? text path = some unit) {options : Options} {d : Document}
    (hd : (unit.generate options .builtin).skeleton = some d) (path' : Path) :
    ∃ unit', parse? d.body path' = some unit' ∧ unit'.name = unit.name := by
  have hname := isIdentifier_of_parse? h
  obtain ⟨templates, htemplates, rfl⟩ := exists_of_skeleton_generate hd
  rw [Accessor.eq_of_skeletonTemplates?_builtin htemplates]
  have hheader : Silent Document.skeletonHeader.toList := Text.holds_toList_ofList (P := Silent) (by decide)
  have hline : Inline ("class " ++ unit.name ++ " implements " ++ interfaceName unit.name) :=
    ((Inline.append (by decide) (inline_of_isIdentifier hname)).append (by decide)).append
      ((inline_of_isIdentifier hname).append (by decide))
  have hclass := Declaration.className?_eq_some hheader hline.oneLine
    (Declaration.ofLine?_declaration hname (interfaceName unit.name))
    (Document.toList_skeleton options.extension unit.name
      ((unit.accessors options .builtin).flatMap fun a => a.skeleton.map (·.text))
      ((unit.accessors options .builtin).filterMap (·.field)))
  rw [parse?, ofText?, hclass]
  exact ⟨_, rfl, rfl⟩

/-- A unit that is read from a document of a unit has the name of that unit. -/
theorem name_of_parse?_document (h : parse? text path = some unit) {options : Options} {d : Document}
    (hd : d ∈ (unit.generate options .builtin).documents) {path' : Path} {unit' : SourceUnit}
    (h' : parse? d.body path' = some unit') : unit'.name = unit.name := by
  rcases List.mem_cons.1 hd with rfl | hd
  · rw [parse?_interface h] at h'
    simp at h'
  · obtain ⟨unit'', hparse, hname⟩ := exists_parse?_skeleton h (Option.mem_toList.1 hd) path'
    rw [h'] at hparse
    rw [Option.some.inj hparse]
    exact hname

end SourceUnit

/-! ## Options -/

/-- A text that begins with an angle bracket is no TOML document. -/
theorem Toml.parse?_eq_none {text : String} {cs : List Char} (h : text.toList = '<' :: cs) : parse? text = none := by
  have hpart : keyPart? (skipSpacing ('<' :: cs)) = none := by
    rw [skipSpacing, List.dropWhile_cons_of_neg (by decide)]
    rfl
  have hstatement : statement? {} [] ('<' :: cs) = none := by
    show (assignment? (value? (depthLimit - 1)) ('<' :: cs)).bind _ = none
    rw [assignment?, key?, keyParts?, hpart]
    rfl
  rw [parse?, h]
  show statements? {} [] ('<' :: cs) = none
  rw [statements?, if_neg (by decide)]
  simp [hstatement]

/-- No options are read from a document of a unit. -/
theorem SourceUnit.ofToml?_of_mem_documents (unit : SourceUnit) (options : Options) {d : Document}
    (hd : d ∈ (unit.generate options .builtin).documents) : Options.ofToml? d.body = none := by
  have hbody : ∃ cs, d.body.toList = '<' :: cs := by
    rcases List.mem_cons.1 hd with rfl | hd
    · exact ⟨_, Document.toList_interface _ _ _⟩
    · obtain ⟨templates, htemplates, rfl⟩ := exists_of_skeleton_generate (Option.mem_toList.1 hd)
      rw [Accessor.eq_of_skeletonTemplates?_builtin htemplates]
      exact ⟨_, Document.toList_skeleton _ _ _ _⟩
  obtain ⟨cs, hcs⟩ := hbody
  rw [Options.ofToml?, Toml.parse?_eq_none hcs]
  rfl

end GetSet
