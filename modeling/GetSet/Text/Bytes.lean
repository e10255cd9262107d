/-!
# Bytes and texts

To the operating system names, paths and arguments are bytes. Most of them are the UTF-8 encoding of a text, but they
need not be.
-/

namespace GetSet

/-- What the operating system takes for a name, a path or an argument. -/
abbrev Bytes := List UInt8

namespace Text

/-- The bytes of a text in UTF-8. -/
def bytes (s : String) : Bytes :=
  s.toUTF8.data.toList

/-- The text of which bytes are the encoding, if there is one. -/
def ofBytes? (bs : Bytes) : Option String :=
  String.fromUTF8? ⟨bs.toArray⟩

/-- Only the encoding of a text is read as that text. -/
theorem ofBytes?_eq_some_iff {bs : Bytes} {s : String} : ofBytes? bs = some s ↔ bs = bytes s := by
  unfold ofBytes? String.fromUTF8? bytes
  constructor
  · intro h
    split at h
    · obtain rfl := Option.some.inj h
      rfl
    · exact nomatch h
  · rintro rfl
    exact dif_pos s.isValidUTF8

@[simp]
theorem ofBytes?_bytes (s : String) : ofBytes? (bytes s) = some s :=
  ofBytes?_eq_some_iff.2 rfl

@[simp]
theorem bytes_inj {s s' : String} : bytes s = bytes s' ↔ s = s' := by
  refine ⟨fun h => ?_, congrArg bytes⟩
  rw [← Option.some.injEq, ← ofBytes?_bytes s, h, ofBytes?_bytes]

@[simp]
theorem bytes_append (s s' : String) : bytes (s ++ s') = bytes s ++ bytes s' := by
  simp [bytes]

@[simp]
theorem bytes_empty : bytes "" = [] := rfl

@[simp]
theorem bytes_eq_nil_iff {s : String} : bytes s = [] ↔ s = "" := by
  rw [← bytes_empty, bytes_inj]

end Text

/-- Where bytes are needed a text stands for its encoding. -/
instance : Coe String Bytes where
  coe := Text.bytes

end GetSet
