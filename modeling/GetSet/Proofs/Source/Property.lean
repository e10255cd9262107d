import GetSet.Proofs.Text.Ascii
import GetSet.SourceUnit

/-!
# How properties are spelled

The type of a property has the characters of a type, and the names that generated code uses for it have the characters
of a name. So nothing that is put into a document for a property can end a line.
-/

namespace GetSet

namespace Tag

/-- The texts of a tag have no other characters than a type and a name may have. -/
structure Spelling (tag : Tag) : Prop where
  typeHint : ∀ c ∈ tag.typeHint.toList, isTypeChar c = true
  rawName : ∀ c ∈ tag.rawName.toList, Name.isNameChar c = true

theorem isNameChar_of_rawName? {cs name : List Char} (h : rawName? cs = some name) :
    ∀ c ∈ name, Name.isNameChar c = true := by
  unfold rawName? at h
  split at h
  · split at h
    · simp at h
    · obtain rfl := Option.some.inj h
      exact List.all_eq_true.1 List.all_takeWhile
  · simp at h

theorem spelling_of_typeAndName? {cs : List Char} {tag : Tag} (h : typeAndName? cs = some tag) : tag.Spelling := by
  unfold typeAndName? at h
  split at h
  · obtain ⟨name, hname, rfl⟩ := Option.map_eq_some_iff.1 h
    exact ⟨by simp, by simpa using isNameChar_of_rawName? hname⟩
  · obtain ⟨rest, -, h⟩ := Option.bind_eq_some_iff.1 h
    obtain ⟨name, hname, h⟩ := Option.bind_eq_some_iff.1 h
    obtain rfl := Option.some.inj h
    refine ⟨fun c hc => ?_, by simpa using isNameChar_of_rawName? hname⟩
    rw [String.toList_ofList] at hc
    exact List.all_eq_true.1 List.all_takeWhile c hc

theorem spelling_of_read? {cs : List Char} {tag : Tag} (h : read? cs = some tag) : tag.Spelling := by
  obtain ⟨rest, -, h⟩ := Option.bind_eq_some_iff.1 h
  obtain ⟨rest', -, h⟩ := Option.bind_eq_some_iff.1 h
  exact spelling_of_typeAndName? h

theorem spelling_of_mem_scanFrom {atBoundary : Bool} {cs : List Char} {tag : Tag}
    (h : tag ∈ scanFrom atBoundary cs) : tag.Spelling := by
  induction cs generalizing atBoundary with
  | nil => simp [scanFrom] at h
  | cons c cs ih =>
    rw [scanFrom, List.mem_append] at h
    rcases h with h | h
    · split at h
      · exact spelling_of_read? (Option.mem_toList.1 h)
      · simp at h
    · exact ih h

end Tag

namespace Name

theorem toNat_lt_of_isNameChar {c : Char} (h : isNameChar c = true) : c.toNat < 128 := by
  rw [isNameChar, Bool.or_eq_true, Text.isAlphanum_iff, beq_iff_eq] at h
  rcases h with (h | h | h) | rfl
  · exact Nat.lt_of_le_of_lt (Text.le_iff_toNat_le.1 h.2) (by decide)
  · exact Nat.lt_of_le_of_lt (Text.le_iff_toNat_le.1 h.2) (by decide)
  · exact Nat.lt_of_le_of_lt (Text.le_iff_toNat_le.1 h.2) (by decide)
  · decide

theorem isNameChar_toLower {c : Char} (h : isNameChar c = true) : isNameChar c.toLower = true := by
  have ascii : ∀ n < 128, isNameChar (Char.ofNat n) = true → isNameChar (Char.ofNat n).toLower = true := by decide
  have hchar := ascii c.toNat (toNat_lt_of_isNameChar h)
  rw [Char.ofNat_toNat] at hchar
  exact hchar h

/-- Both forms of a name have the characters of a name. -/
theorem isNameChar_of_normalize? {raw : String} {name : Name} (h : normalize? raw = some name) :
    (∀ c ∈ name.pascal.toList, isNameChar c = true) ∧ ∀ c ∈ name.camel.toList, isNameChar c = true := by
  have hpascal : ∀ c ∈ name.pascal.toList, isNameChar c = true := by
    simp only [normalize?] at h
    split at h
    · obtain rfl := Option.some.inj h
      intro c hc
      rw [String.toList_ofList] at hc
      exact isNameChar_of_mem_pascalChars hc
    · simp at h
  refine ⟨hpascal, ?_⟩
  rw [camel_eq_lowerFirst h]
  rcases hlist : name.pascal.toList with _ | ⟨c, cs⟩
  · simp [lowerFirst]
  · rw [hlist] at hpascal
    intro d hd
    rcases List.mem_cons.1 hd with rfl | hd
    · exact isNameChar_toLower (hpascal c List.mem_cons_self)
    · exact hpascal d (List.mem_cons_of_mem c hd)

end Name

/-- The texts of a property have no other characters than a type and a name may have. -/
structure Property.Spelled (p : Property) : Prop where
  typeHint : ∀ c ∈ p.typeHint.toList, Tag.isTypeChar c = true
  pascalName : ∀ c ∈ p.pascalName.toList, Name.isNameChar c = true
  fieldName : ∀ c ∈ p.fieldName.toList, Name.isNameChar c = true

theorem Property.spelled_of_ofTag? {tag : Tag} {p : Property} (htag : tag.Spelling) (h : ofTag? tag = some p) :
    p.Spelled := by
  obtain ⟨name, hname, rfl⟩ := Option.map_eq_some_iff.1 h
  obtain ⟨hpascal, hcamel⟩ := Name.isNameChar_of_normalize? hname
  exact ⟨htag.typeHint, hpascal, hcamel⟩

/-- The properties of a unit are spelled like this. -/
theorem SourceUnit.spelled_of_mem_properties {text : String} {path : Path} {unit : SourceUnit}
    (h : parse? text path = some unit) {p : Property} (hp : p ∈ unit.properties) : p.Spelled := by
  rw [parse?, ofText?, Option.map_eq_some_iff] at h
  obtain ⟨name, -, rfl⟩ := h
  obtain ⟨⟨tag, reading⟩, hreading, hp⟩ := List.mem_filterMap.1 hp
  obtain ⟨tag', htag, heq⟩ := List.mem_map.1 hreading
  obtain ⟨rfl, rfl⟩ := Prod.mk.inj heq
  exact Property.spelled_of_ofTag? (Tag.spelling_of_mem_scanFrom htag) hp

end GetSet
