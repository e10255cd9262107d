import GetSet.Proofs.Name.Forms
import GetSet.Proofs.Name.Rule
import GetSet.Proofs.Source.LineEnds
import GetSet.Proofs.Source.Property
import GetSet.Proofs.Tag.Grammar

/-!
# Every tag is kept or dropped

The unit of a text has one property for each tag whose name has a letter or a digit in it, in the order of the tags. All
other tags are counted: since a name has no other characters than letters, digits and underscores, these are the tags
that are named by underscores alone. `parse?_exact` says this of the whole unit, whatever is reported while it is read.
-/

namespace GetSet

/-! ## Usable names -/

namespace Tag

variable {tag : Tag}

/-- Whether there is a letter or a digit in the name. -/
def hasLetterOrDigit (tag : Tag) : Bool :=
  tag.rawName.toList.any Char.isAlphanum

/-- Whether there are only underscores in the name. -/
def hasUnderscoresOnly (tag : Tag) : Bool :=
  tag.rawName.toList.all (· == '_')

theorem Spelling.hasUnderscoresOnly_eq (h : tag.Spelling) : tag.hasUnderscoresOnly = !tag.hasLetterOrDigit := by
  rw [Bool.eq_iff_iff, Bool.not_eq_true', hasUnderscoresOnly, List.all_eq_true, hasLetterOrDigit, List.any_eq_false]
  refine forall₂_congr fun c hc => ?_
  have hname := h.rawName c hc
  rw [Name.isNameChar, Bool.or_eq_true] at hname
  constructor
  · intro hunderscore
    rw [beq_iff_eq.1 hunderscore]
    decide
  · exact hname.resolve_left

end Tag

/-! ## Properties and their tags -/

namespace Name

variable {raw : String} {name : Name}

/-- A raw name of ASCII characters has a name exactly if there is a letter or a digit in it. -/
theorem isSome_normalize? (h : ∀ c ∈ raw.toList, c.toNat < 128) :
    (normalize? raw).isSome = raw.toList.any Char.isAlphanum := by
  rw [← any_isAlphanum_pascalChars h, normalize?]
  split
  · next hany => rw [hany, Option.isSome_some]
  · next hany => rw [Bool.eq_false_of_not_eq_true hany, Option.isSome_none]

/-- Both forms of a name are names as they stand. -/
theorem isName_of_normalize? (h : normalize? raw = some name) :
    Tag.IsName name.pascal.toList [] ∧ Tag.IsName name.camel.toList [] := by
  obtain ⟨hpascal, hcamel⟩ := isNameChar_of_normalize? h
  have hne : name.pascal.toList ≠ [] := by
    obtain ⟨c, hc, -⟩ := (isPascal_of_normalize? h).isAlphanum
    exact List.ne_nil_of_mem hc
  refine ⟨⟨hne, fun c hc => Tag.isNameChar_iff.1 (hpascal c hc), by simp⟩, ?_, fun c hc => ?_, by simp⟩
  · rw [camel_eq_lowerFirst h]
    obtain ⟨c, cs, hcs⟩ := List.exists_cons_of_ne_nil hne
    simp [hcs, lowerFirst]
  · exact Tag.isNameChar_iff.1 (hcamel c hc)

end Name

namespace Property

variable {tag : Tag} {p : Property}

/-- What a property has from its tag: the type and the name as they are written, and the names that are made of it. -/
structure DeclaredBy (p : Property) (tag : Tag) : Prop where
  typeHint : p.typeHint = tag.typeHint
  rawName : p.rawName = tag.rawName
  names : Name.normalize? tag.rawName = some ⟨p.pascalName, p.fieldName⟩

/-- The texts of a property, as generated code takes them. -/
structure WellFormed (p : Property) : Prop where
  fieldName : Tag.IsName p.fieldName.toList []
  pascalName : Tag.IsName p.pascalName.toList []
  typeHint : p.typeHint = "" ∨ Tag.IsType p.typeHint.toList

theorem declaredBy_of_ofTag? (h : ofTag? tag = some p) : p.DeclaredBy tag := by
  obtain ⟨name, hname, rfl⟩ := Option.map_eq_some_iff.1 h
  exact ⟨rfl, rfl, hname⟩

theorem isSome_ofTag? (h : tag.Spelling) : (ofTag? tag).isSome = tag.hasLetterOrDigit := by
  rw [ofTag?, Option.isSome_map, Name.isSome_normalize? fun c hc => Name.toNat_lt_of_isNameChar (h.rawName c hc)]
  rfl

theorem DeclaredBy.wellFormed (h : p.DeclaredBy tag) (htag : tag.Spelling) : p.WellFormed := by
  obtain ⟨hpascal, hcamel⟩ := Name.isName_of_normalize? h.names
  refine ⟨hcamel, hpascal, ?_⟩
  rw [h.typeHint, or_iff_not_imp_left, ← String.toList_eq_nil_iff]
  exact fun hne => ⟨hne, fun c hc => Tag.isTypeChar_iff.1 (htag.typeHint c hc)⟩

/-- The properties of some tags, tag by tag. -/
theorem forall₂_declaredBy {tags : List Tag} (h : ∀ tag ∈ tags, tag.Spelling) :
    List.Forall₂ DeclaredBy (tags.filterMap ofTag?) (tags.filter Tag.hasLetterOrDigit) := by
  induction tags with
  | nil => exact .nil
  | cons tag tags ih =>
    rw [List.forall_mem_cons] at h
    rw [List.filterMap_cons, List.filter_cons, ← isSome_ofTag? h.1]
    cases hp : ofTag? tag with
    | none => exact ih h.2
    | some p => exact .cons (declaredBy_of_ofTag? hp) (ih h.2)

end Property

/-! ## Units -/

namespace Declaration

theorem ofLine?_eq_none_iff {line : List Char} : ofLine? line = none ↔ ¬ ∃ name, LineDeclares line name := by
  rw [Option.eq_none_iff_forall_ne_some, not_exists]
  exact forall_congr' fun name => not_congr ofLine?_eq_some_iff

end Declaration

namespace SourceUnit

open Declaration (LineDeclares)

variable {text : String} {path : Path} {unit : SourceUnit}

theorem spelling_of_mem_scan {tag : Tag} (h : tag ∈ Tag.scan text) : tag.Spelling :=
  Tag.spelling_of_mem_scanFrom h

/-- The unit of a text, from its tags as they are. -/
theorem eq_of_parse? (h : parse? text path = some unit) :
    unit.properties = (Tag.scan text).filterMap Property.ofTag? ∧
      unit.droppedProperties = (Tag.scan text).countP fun tag => (Property.ofTag? tag).isNone := by
  rw [parse?_eq, Option.map_eq_some_iff] at h
  obtain ⟨name, -, rfl⟩ := h
  rw [declaredProperties, unusableTags, Tag.scan_withUnixLineEnds]
  exact ⟨rfl, rfl⟩

/-- A text has no unit exactly if no line of it declares a class. -/
theorem parse?_eq_none_iff :
    parse? text path = none ↔ ∀ line ∈ Text.lines text.toList, ¬ ∃ name, LineDeclares line name := by
  rw [parse?_eq_ofText?, ofText?, Option.map_eq_none_iff, Declaration.className?, Option.map_eq_none_iff,
    List.findSome?_eq_none_iff]
  exact forall₂_congr fun line _ => Declaration.ofLine?_eq_none_iff

/-- The tags that declare no property are those named by underscores. -/
theorem droppedProperties_eq (h : parse? text path = some unit) :
    unit.droppedProperties = (Tag.scan text).countP Tag.hasUnderscoresOnly := by
  rw [(eq_of_parse? h).2]
  refine List.countP_congr fun tag htag => ?_
  have hspelling := spelling_of_mem_scan htag
  rw [hspelling.hasUnderscoresOnly_eq, ← Property.isSome_ofTag? hspelling, Option.not_isSome]

theorem wellFormed_of_mem_properties (h : parse? text path = some unit) {p : Property} (hp : p ∈ unit.properties) :
    p.WellFormed := by
  rw [(eq_of_parse? h).1] at hp
  obtain ⟨tag, htag, hdeclares⟩ := List.mem_filterMap.1 hp
  exact (Property.declaredBy_of_ofTag? hdeclares).wellFormed (spelling_of_mem_scan htag)

/-- What is read from a text does not depend on what is reported. It is nothing exactly if no line declares a class.
Else it has a well-formed property for each tag with a letter or a digit in its name, in the order of the tags, and the
number of all others, whose names are underscores. -/
theorem parse?_exact (text : String) (path : Path) :
    (∀ verbose w, ((read verbose text path).exec w).1 = .ok (parse? text path)) ∧
      (parse? text path = none ↔ ∀ line ∈ Text.lines text.toList, ¬ ∃ name, LineDeclares line name) ∧
      ∀ unit, parse? text path = some unit →
        List.Forall₂ Property.DeclaredBy unit.properties ((Tag.scan text).filter Tag.hasLetterOrDigit) ∧
          unit.droppedProperties = (Tag.scan text).countP Tag.hasUnderscoresOnly ∧
          unit.properties.length + unit.droppedProperties = (Tag.scan text).length ∧
          ∀ p ∈ unit.properties, p.WellFormed := by
  refine ⟨fun verbose w => by rw [exec_read], parse?_eq_none_iff, fun unit h => ?_⟩
  have htext : ofText? text path = some unit := by rwa [parse?_eq_ofText?] at h
  refine ⟨?_, droppedProperties_eq h, length_properties_add_droppedProperties htext,
    fun p => wellFormed_of_mem_properties h⟩
  rw [(eq_of_parse? h).1]
  exact Property.forall₂_declaredBy fun tag => spelling_of_mem_scan

/-- Two tags are kept, the same name in two spellings, and one is dropped. -/
theorem parse?_exact_card :
    parse? "class Card\n@property int $no_2 @property $__ @property $NO_2\n" ⟨"Card.php"⟩ =
        some ⟨⟨"Card.php"⟩, "Card", [⟨"int", "no_2", "No_2", "no_2"⟩, ⟨"", "NO_2", "No_2", "no_2"⟩], 1⟩ ∧
      List.Forall₂ Property.DeclaredBy [⟨"int", "no_2", "No_2", "no_2"⟩, ⟨"", "NO_2", "No_2", "no_2"⟩]
        [⟨"int", "no_2"⟩, ⟨"", "NO_2"⟩] ∧
      ∀ p ∈ [(⟨"int", "no_2", "No_2", "no_2"⟩ : Property), ⟨"", "NO_2", "No_2", "no_2"⟩], p.WellFormed := by
  have hunit : parse? "class Card\n@property int $no_2 @property $__ @property $NO_2\n" ⟨"Card.php"⟩ =
      some ⟨⟨"Card.php"⟩, "Card", [⟨"int", "no_2", "No_2", "no_2"⟩, ⟨"", "NO_2", "No_2", "no_2"⟩], 1⟩ := by decide
  have htags :
      (Tag.scan "class Card\n@property int $no_2 @property $__ @property $NO_2\n").filter Tag.hasLetterOrDigit =
        [⟨"int", "no_2"⟩, ⟨"", "NO_2"⟩] := by decide
  obtain ⟨hkept, -, -, hformed⟩ := (parse?_exact _ _).2.2 _ hunit
  rw [htags] at hkept
  exact ⟨hunit, hkept, hformed⟩

end SourceUnit

end GetSet
