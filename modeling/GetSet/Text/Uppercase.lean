/-!
# Uppercase forms

The uppercase form of a character can be longer than the character: `ß` becomes `SS`. Of the characters beyond ASCII
only those matter here whose uppercase form has ASCII letters in it, because a name keeps nothing else: `é` may stay
`é`, since `É` would be dropped just the same.
-/

namespace GetSet.Text

/-- The characters beyond ASCII whose uppercase form has ASCII letters in it, with that form. -/
def uppercaseTable : List (Char × List Char) :=
  [('ß', ['S', 'S']), ('ı', ['I']), ('ŉ', ['ʼ', 'N']), ('ſ', ['S']), ('ǰ', ['J', '\u030c']),
   ('ẖ', ['H', '\u0331']), ('ẗ', ['T', '\u0308']), ('ẘ', ['W', '\u030a']), ('ẙ', ['Y', '\u030a']),
   ('ẚ', ['A', 'ʾ']), ('ﬀ', ['F', 'F']), ('ﬁ', ['F', 'I']), ('ﬂ', ['F', 'L']), ('ﬃ', ['F', 'F', 'I']),
   ('ﬄ', ['F', 'F', 'L']), ('ﬅ', ['S', 'T']), ('ﬆ', ['S', 'T'])]

/-- The uppercase form of a character, exact in its ASCII letters. -/
def uppercase (c : Char) : List Char :=
  (uppercaseTable.lookup c).getD [c.toUpper]

example : uppercase 'ß' = ['S', 'S'] := by decide
example : uppercase 'q' = ['Q'] := by decide
example : uppercase '7' = ['7'] := by decide

/-- An ASCII character has one uppercase character. -/
theorem uppercase_of_ascii {c : Char} (h : c.toNat < 128) : uppercase c = [c.toUpper] := by
  have table : ∀ p ∈ uppercaseTable, 128 ≤ p.1.toNat := by decide
  have absent : uppercaseTable.lookup c = none := by
    rw [List.lookup_eq_none_iff]
    intro p hp
    have := table p hp
    simp only [ne_eq, bne_iff_ne]
    rintro rfl
    omega
  simp [uppercase, absent]

end GetSet.Text
