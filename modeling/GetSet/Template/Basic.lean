/-!
# Templates

A template is text with slots such as {{KEY}}. A slot is two opening braces, a key without braces, and two closing
braces. `Template.pieces` splits a text into slots and single characters; `Template.render` puts the values of the
bound keys in and leaves everything else as it is. A value is never searched for slots again, because it is put in
after the text was split.

The split recurses on the length of the text: a slot and a character are both shorter than what they are cut from.
-/

namespace GetSet

/-! ## Bindings -/

/-- Values bound to keys; of two values for one key the one that was bound last counts. -/
structure Bindings where
  /-- The pairs, the one bound last in front. -/
  entries : List (String × String) := []
deriving Repr

namespace Bindings

/-- Binds one more key. -/
def bind (b : Bindings) (key value : String) : Bindings :=
  ⟨(key, value) :: b.entries⟩

/-- The value of a key. -/
def get? (b : Bindings) (key : String) : Option String :=
  b.entries.lookup key

@[simp]
theorem get?_bind_self (b : Bindings) (key value : String) : (b.bind key value).get? key = some value := by
  simp [bind, get?]

@[simp]
theorem get?_bind_of_ne (b : Bindings) {key other : String} (value : String) (h : other ≠ key) :
    (b.bind key value).get? other = b.get? other := by
  simp [bind, get?, List.lookup_cons, beq_eq_false_iff_ne.2 h]

/-- Binds the pairs of a list from left to right. -/
def ofList (pairs : List (String × String)) : Bindings :=
  pairs.foldl (fun b pair => b.bind pair.1 pair.2) {}

end Bindings

/-! ## Splitting a text at its slots -/

/-- A text with slots. -/
structure Template where
  text : String
deriving DecidableEq, Repr

namespace Template

/-- A slot, or a character that belongs to none. -/
inductive Piece where
  | slot (key : String)
  | char (c : Char)
deriving DecidableEq, Repr

/-- The braces mark slots and cannot stand in keys. -/
def isBrace (c : Char) : Bool :=
  c == '{' || c == '}'

/-- The slot of a key as it is written. -/
def slotText (key : String) : String :=
  "\x7b\x7b" ++ key ++ "\x7d\x7d"

/-- The key of the slot at the front of a text, and the text after the slot. -/
def slot? : List Char → Option (List Char × List Char)
  | '{' :: '{' :: cs =>
    match cs.takeWhile (!isBrace ·), cs.dropWhile (!isBrace ·) with
    | c :: key, '}' :: '}' :: rest => some (c :: key, rest)
    | _, _ => none
  | _ => none

/-- A slot is what its key says, written in braces. -/
theorem eq_of_slot? {cs key rest : List Char} (h : slot? cs = some (key, rest)) :
    cs = '{' :: '{' :: (key ++ '}' :: '}' :: rest) := by
  unfold slot? at h
  split at h
  · next cs =>
    split at h
    · next c key' rest' htake hdrop =>
      obtain ⟨rfl, rfl⟩ := Prod.mk.inj (Option.some.inj h)
      rw [← hdrop, ← htake, List.takeWhile_append_dropWhile]
    · simp at h
  · simp at h

theorem length_of_slot? {cs key rest : List Char} (h : slot? cs = some (key, rest)) :
    rest.length < cs.length := by
  rw [eq_of_slot? h]
  simp only [List.length_cons, List.length_append]
  omega

/-- The slots and the other characters of a text. -/
def split (cs : List Char) : List Piece :=
  match _h : slot? cs with
  | some (key, rest) => .slot (.ofList key) :: split rest
  | none =>
    match cs with
    | [] => []
    | c :: rest => .char c :: split rest
termination_by cs.length
decreasing_by
  · exact length_of_slot? _h
  · simp

/-- The pieces of a template. -/
def pieces (t : Template) : List Piece :=
  split t.text.toList

/-! ## Rendering -/

/-- What is written for a piece. -/
def Piece.render (b : Bindings) : Piece → List Char
  | .slot key => ((b.get? key).getD (slotText key)).toList
  | .char c => [c]

/-- The text with the value of every bound key in its slots; the slots of other keys stay as they are. -/
def render (t : Template) (b : Bindings) : String :=
  .ofList (t.pieces.flatMap (Piece.render b))

/-- The pieces of a text, written one after the other, are the text. -/
theorem flatMap_render_split (cs : List Char) : (split cs).flatMap (Piece.render {}) = cs := by
  fun_induction split cs with
  | case1 cs key rest h ih =>
    rw [List.flatMap_cons, ih, eq_of_slot? h]
    simp [Piece.render, Bindings.get?, slotText]
  | case2 h => rfl
  | case3 c rest h ih => simp [Piece.render, ih]

/-- Nothing is replaced if nothing is bound. -/
theorem render_empty (t : Template) : t.render {} = t.text := by
  rw [render, pieces, flatMap_render_split, String.ofList_toList]

end Template

end GetSet
