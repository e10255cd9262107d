import GetSet.Proofs.Template.Substitution
import GetSet.Template.Set

/-!
# The built-in templates rendered

A text is split at its slots from left to right (`split_append`, `split_slot`). So it is seen what the built-in
templates of documents and methods become, and nothing later has to look into a template.
-/

namespace GetSet

namespace Template

/-! ## Splitting from left to right -/

/-- The characters of a text, each as a piece. -/
def chars (s : String) : List Piece :=
  s.toList.map .char

theorem chars_append (s s' : String) : chars (s ++ s') = chars s ++ chars s' := by
  rw [chars, String.toList_append, List.map_append]
  rfl

/-- One opening brace alone begins no slot. -/
theorem split_brace {c : Char} (h : c ≠ '\x7b') (rest : List Char) :
    split ('\x7b' :: c :: rest) = .char '\x7b' :: split (c :: rest) := by
  refine split_cons ?_
  unfold slot?
  split
  · next heq =>
    simp only [List.cons.injEq] at heq
    exact absurd heq.2.1 h
  · rfl

/-- A character other than an opening brace begins no slot. -/
theorem split_cons_of_ne {c : Char} (h : c ≠ '\x7b') (rest : List Char) :
    split (c :: rest) = .char c :: split rest := by
  refine split_cons ?_
  unfold slot?
  split
  · next heq => exact absurd (List.cons.inj heq).1 h
  · rfl

/-- Whether every opening brace is followed by another character. -/
def opensNoSlot : List Char → Bool
  | [] => true
  | '\x7b' :: c :: cs => c != '\x7b' && opensNoSlot (c :: cs)
  | c :: cs => c != '\x7b' && opensNoSlot cs

/-- Text in which opening braces stand alone has no slot. -/
theorem split_append {s : String} (h : opensNoSlot s.toList = true) (rest : List Char) :
    split (s.toList ++ rest) = chars s ++ split rest := by
  rw [chars]
  generalize s.toList = cs at h ⊢
  fun_induction opensNoSlot cs with
  | case1 => rfl
  | case2 c cs ih =>
    rw [Bool.and_eq_true, bne_iff_ne] at h
    rw [List.cons_append, List.cons_append, split_brace h.1, ← List.cons_append, ih h.2]
    rfl
  | case3 c cs _ ih =>
    rw [Bool.and_eq_true, bne_iff_ne] at h
    rw [List.cons_append, split_cons_of_ne h.1, ih h.2]
    rfl

theorem split_text {s : String} (h : opensNoSlot s.toList = true) : split s.toList = chars s := by
  have hsplit := split_append h []
  have hnil : split [] = [] := by
    rw [split]
    rfl
  rw [hnil, List.append_nil, List.append_nil] at hsplit
  exact hsplit

/-! ## Rendering piece by piece -/

theorem flatMap_render_chars (b : Bindings) (s : String) : (chars s).flatMap (Piece.render b) = s.toList := by
  rw [chars, List.flatMap_map]
  exact List.flatMap_singleton' s.toList

/-- What stands in the slot of a key. -/
def filling (b : Bindings) (key : String) : List Char :=
  ((b.get? key).getD (slotText key)).toList

@[simp]
theorem filling_bind_self (b : Bindings) (key value : String) : filling (b.bind key value) key = value.toList := by
  simp [filling]

theorem filling_bind_of_ne {b : Bindings} {key other : String} {value : String} (h : other ≠ key) :
    filling (b.bind key value) other = filling b other := by
  simp [filling, h]

/-- A template is rendered piece by piece. -/
theorem toList_render (t : Template) (b : Bindings) : (t.render b).toList = t.pieces.flatMap (Piece.render b) :=
  String.toList_ofList

end Template

namespace TemplateSet

open Template

theorem pieces_builtinInterfaceMethod :
    builtinInterfaceMethod.pieces =
      chars "    " ++ .slot "PHPDOC" :: chars "\n    public function " ++ .slot "FUNCTION_NAME" :: chars "(" ++
        .slot "ARGUMENTS" :: chars ")" ++ .slot "RETURN_TYPE" :: chars ";" := by
  unfold pieces builtinInterfaceMethod
  simp only [String.toList_append, List.append_assoc, List.cons_append]
  rw [split_append (by decide), split_slot (by decide), split_append (by decide),
    split_slot (by decide), split_append (by decide), split_slot (by decide),
    split_append (by decide), split_slot (by decide), split_text (by decide)]

theorem pieces_builtinClassMethod :
    builtinClassMethod.pieces =
      chars "    " ++ .slot "PHPDOC" :: chars "\n    public function " ++ .slot "FUNCTION_NAME" :: chars "(" ++
        .slot "ARGUMENTS" :: chars ")" ++ .slot "RETURN_TYPE" :: chars "\n    \x7b\n        " ++
        .slot "FUNCTION" :: chars "\n    \x7d" := by
  unfold pieces builtinClassMethod
  simp only [String.toList_append, List.append_assoc, List.cons_append]
  rw [split_append (by decide), split_slot (by decide), split_append (by decide),
    split_slot (by decide), split_append (by decide), split_slot (by decide),
    split_append (by decide), split_slot (by decide), split_append (by decide),
    split_slot (by decide), split_text (by decide)]

theorem pieces_builtinInterfaceDocument :
    builtinInterfaceDocument.pieces =
      chars ("<?php\n\n// Interface generated by interface-gen\n// Do not use without reviewing first!\n\n" ++
        "interface ") ++ .slot "INTERFACE_NAME" :: chars "\n\x7b\n\n" ++ .slot "FUNCTIONS" :: chars "\n\n\x7d\n" := by
  have hheader : opensNoSlot
      "<?php\n\n// Interface generated by interface-gen\n// Do not use without reviewing first!\n\n".toList = true :=
    Text.holds_toList_ofList (P := (opensNoSlot · = true)) (by decide)
  unfold pieces builtinInterfaceDocument
  simp only [String.toList_append, List.append_assoc, List.cons_append, chars_append]
  rw [split_append hheader, split_append (by decide), split_slot (by decide), split_append (by decide),
    split_slot (by decide), split_text (by decide)]

theorem pieces_builtinClassDocument :
    builtinClassDocument.pieces =
      chars ("<?php\n\n// Class generated by interface-gen\n// Do not use without reviewing first!\n\n" ++ "class ") ++
        .slot "CLASS_NAME" :: chars " implements " ++ .slot "INTERFACE_NAME" :: chars "\n\x7b\n\n" ++
        .slot "PROPERTIES" :: chars "\n\n" ++ .slot "FUNCTIONS" :: chars "\n\n\x7d\n" := by
  have hheader : opensNoSlot
      "<?php\n\n// Class generated by interface-gen\n// Do not use without reviewing first!\n\n".toList = true :=
    Text.holds_toList_ofList (P := (opensNoSlot · = true)) (by decide)
  unfold pieces builtinClassDocument
  simp only [String.toList_append, List.append_assoc, List.cons_append, chars_append]
  rw [split_append hheader, split_append (by decide), split_slot (by decide),
    split_append (by decide), split_slot (by decide), split_append (by decide),
    split_slot (by decide), split_append (by decide), split_slot (by decide),
    split_text (by decide)]

/-- The declaration of a method: two lines, if the documentation is one. -/
theorem render_builtinInterfaceMethod (b : Bindings) :
    (builtinInterfaceMethod.render b).toList =
      "    ".toList ++ filling b "PHPDOC" ++ "\n    public function ".toList ++ filling b "FUNCTION_NAME" ++
        "(".toList ++ filling b "ARGUMENTS" ++ ")".toList ++ filling b "RETURN_TYPE" ++ ";".toList := by
  rw [toList_render, pieces_builtinInterfaceMethod]
  simp only [List.flatMap_append, List.flatMap_cons, flatMap_render_chars, List.append_assoc]
  rfl

/-- The implementation of a method: its declaration, and its body in braces. -/
theorem render_builtinClassMethod (b : Bindings) :
    (builtinClassMethod.render b).toList =
      "    ".toList ++ filling b "PHPDOC" ++ "\n    public function ".toList ++ filling b "FUNCTION_NAME" ++
        "(".toList ++ filling b "ARGUMENTS" ++ ")".toList ++ filling b "RETURN_TYPE" ++
        "\n    \x7b\n        ".toList ++ filling b "FUNCTION" ++ "\n    \x7d".toList := by
  rw [toList_render, pieces_builtinClassMethod]
  simp only [List.flatMap_append, List.flatMap_cons, flatMap_render_chars, List.append_assoc]
  rfl

theorem render_builtinInterfaceDocument (b : Bindings) :
    (builtinInterfaceDocument.render b).toList =
      ("<?php\n\n// Interface generated by interface-gen\n// Do not use without reviewing first!\n\n" ++
        "interface ").toList ++ filling b "INTERFACE_NAME" ++ "\n\x7b\n\n".toList ++ filling b "FUNCTIONS" ++
        "\n\n\x7d\n".toList := by
  rw [toList_render, pieces_builtinInterfaceDocument]
  simp only [List.flatMap_append, List.flatMap_cons, flatMap_render_chars, List.append_assoc]
  rfl

theorem render_builtinClassDocument (b : Bindings) :
    (builtinClassDocument.render b).toList =
      ("<?php\n\n// Class generated by interface-gen\n// Do not use without reviewing first!\n\n" ++
        "class ").toList ++ filling b "CLASS_NAME" ++ " implements ".toList ++ filling b "INTERFACE_NAME" ++
        "\n\x7b\n\n".toList ++ filling b "PROPERTIES" ++ "\n\n".toList ++ filling b "FUNCTIONS" ++
        "\n\n\x7d\n".toList := by
  rw [toList_render, pieces_builtinClassDocument]
  simp only [List.flatMap_append, List.flatMap_cons, flatMap_render_chars, List.append_assoc]
  rfl

end TemplateSet

end GetSet
