import GetSet.Proofs.Declaration.Grammar
import GetSet.SourceUnit

/-!
# Sources read one after the other

What a file declares is read line by line. If a second text is put behind the first one on lines of its own, then the
unit of the first one goes on with the properties of the second (`parse?_append_newline`). The line feed between the two
may complete a line end of the first text, so that a carriage return at its end gets lost; no tag and no declaration
has one.
-/

namespace GetSet

/-! ## Line ends -/

namespace Text

/-- A line feed between two texts takes at most a carriage return from the end of the first. -/
theorem exists_unifyLineEnds_append (cs ds : List Char) :
    ∃ us, unifyLineEnds (cs ++ '\n' :: ds) = us ++ '\n' :: unifyLineEnds ds ∧
      (unifyLineEnds cs = us ∨ unifyLineEnds cs = us ++ ['\r']) := by
  fun_induction unifyLineEnds cs with
  | case1 cs ih =>
    obtain ⟨us, heq, hus⟩ := ih
    refine ⟨'\n' :: us, ?_, ?_⟩
    · rw [List.cons_append, List.cons_append, unifyLineEnds, heq, List.cons_append]
    · rcases hus with rfl | hus
      · exact Or.inl rfl
      · exact Or.inr (by rw [hus, List.cons_append])
  | case2 c cs hpair ih =>
    by_cases hlast : c = '\r' ∧ cs = []
    · obtain ⟨rfl, rfl⟩ := hlast
      exact ⟨[], by simp [unifyLineEnds], Or.inr rfl⟩
    · obtain ⟨us, heq, hus⟩ := ih
      -- the character still begins no line end
      have hkept : unifyLineEnds (c :: (cs ++ '\n' :: ds)) = c :: unifyLineEnds (cs ++ '\n' :: ds) := by
        rw [unifyLineEnds]
        rintro rest rfl hrest
        cases cs with
        | nil => exact hlast ⟨rfl, rfl⟩
        | cons d cs =>
          obtain ⟨rfl, -⟩ := List.cons.inj hrest
          exact hpair cs rfl rfl
      refine ⟨c :: us, by rw [List.cons_append, hkept, heq, List.cons_append], ?_⟩
      rcases hus with rfl | hus
      · exact Or.inl rfl
      · exact Or.inr (by rw [hus, List.cons_append])
  | case3 => exact ⟨[], by simp [unifyLineEnds], Or.inl rfl⟩

/-- A character at the end of a text stands at the end of its last line. -/
theorem exists_lines_append_singleton {c : Char} (hc : c ≠ '\n') (cs : List Char) :
    ∃ before last, lines cs = before ++ [last] ∧ lines (cs ++ [c]) = before ++ [last ++ [c]] := by
  have hne : (c == '\n') = false := beq_eq_false_iff_ne.2 hc
  induction cs with
  | nil =>
    exact ⟨[], [], by simp [lines],
      by simp [lines, List.splitOn_eq_splitOnP, List.splitOnP_cons_eq_if_modifyHead, hne]⟩
  | cons d cs ih =>
    obtain ⟨before, last, hlines, hlines'⟩ := ih
    rw [lines, List.splitOn_eq_splitOnP] at hlines hlines'
    rw [lines, lines, List.cons_append, List.splitOn_eq_splitOnP, List.splitOnP_cons_eq_if_modifyHead,
      List.splitOn_eq_splitOnP, List.splitOnP_cons_eq_if_modifyHead, hlines, hlines']
    by_cases hd : (d == '\n') = true
    · exact ⟨[] :: before, last, by rw [if_pos hd, List.cons_append], by rw [if_pos hd, List.cons_append]⟩
    · cases before with
      | nil => exact ⟨[], d :: last, by rw [if_neg hd]; rfl, by rw [if_neg hd]; rfl⟩
      | cons line before => exact ⟨(d :: line) :: before, last, by rw [if_neg hd]; rfl, by rw [if_neg hd]; rfl⟩

end Text

/-! ## Declarations -/

namespace Declaration

open Text

/-- A character that no part of a declaration has. -/
structure IsForeign (c : Char) : Prop where
  ne_newline : c ≠ '\n'
  not_spacing : ¬ (c = ' ' ∨ c = '\t')
  not_goesOn : ¬ MayGoOn c

theorem isForeign_return : IsForeign '\r' where
  ne_newline := by decide
  not_spacing := by decide
  not_goesOn h := absurd (isIdentifierChar_iff.2 h) (by decide)

theorem Declares.ne_nil {cs name : List Char} (h : Declares cs name) : cs ≠ [] := by
  cases h with
  | modifier _ _ hgap _ => simp [hgap.ne_nil]
  | name _ hgap _ => simp [hgap.ne_nil]

theorem IsClassName.append_singleton {name rest : List Char} {c : Char} (h : IsClassName name rest)
    (hc : IsForeign c) : IsClassName name (rest ++ [c]) where
  begin := h.begin
  char := h.char
  ends d hd := by
    cases rest with
    | nil =>
      obtain rfl : c = d := by simpa using hd
      exact hc.not_goesOn
    | cons e rest => exact h.ends d (by simpa using hd)

theorem Declares.append_singleton {cs name : List Char} {c : Char} (h : Declares cs name) (hc : IsForeign c) :
    Declares (cs ++ [c]) name := by
  induction h with
  | modifier hkeyword hword hgap _ ih =>
    rw [List.append_assoc, List.append_assoc]
    exact .modifier hkeyword hword hgap ih
  | name hword hgap hname =>
    rw [List.append_assoc, List.append_assoc, List.append_assoc]
    exact .name hword hgap (hname.append_singleton hc)

/-- Where two texts are cut, the second of which is not empty, the last character belongs to the second. -/
theorem exists_of_append_eq_append_singleton {front back cs : List Char} {c : Char} (hne : back ≠ [])
    (h : front ++ back = cs ++ [c]) : ∃ back', back = back' ++ [c] ∧ cs = front ++ back' := by
  rw [← List.dropLast_concat_getLast hne, ← List.append_assoc] at h
  obtain ⟨hfront, hlast⟩ := List.append_inj' h rfl
  refine ⟨back.dropLast, ?_, hfront.symm⟩
  rw [← hlast, List.dropLast_concat_getLast hne]

theorem Declares.of_append_singleton {cs name : List Char} {c : Char} (h : Declares (cs ++ [c]) name)
    (hc : IsForeign c) : Declares cs name := by
  generalize htext : cs ++ [c] = text at h
  induction h generalizing cs with
  | @modifier keyword word gap rest name hkeyword hword hgap hrest ih =>
    rw [← List.append_assoc] at htext
    obtain ⟨rest', hback, rfl⟩ := exists_of_append_eq_append_singleton hrest.ne_nil htext.symm
    rw [List.append_assoc]
    exact .modifier hkeyword hword hgap (ih hback.symm)
  | @name word gap name rest hword hgap hname =>
    -- the last character is none of the name
    have hne : rest ≠ [] := by
      rintro rfl
      have hlast : c ∈ name := by
        obtain ⟨d, name', rfl, -⟩ := hname.begin
        have hgl := congrArg List.getLast? htext
        simp only [List.append_nil, List.getLast?_append, List.getLast?_singleton, Option.some_or] at hgl
        rw [List.getLast?_eq_some_getLast (List.cons_ne_nil d name'), Option.some_or] at hgl
        rw [Option.some.inj hgl]
        exact List.getLast_mem _
      exact hc.not_goesOn (hname.char c hlast)
    rw [← List.append_assoc, ← List.append_assoc] at htext
    obtain ⟨rest', rfl, rfl⟩ := exists_of_append_eq_append_singleton hne htext.symm
    rw [List.append_assoc, List.append_assoc]
    refine .name hword hgap ⟨hname.begin, hname.char, fun d hd => hname.ends d ?_⟩
    rw [List.head?_append, Option.mem_def.1 hd]
    rfl

/-- A line declares the same class with such a character at its end. -/
theorem ofLine?_append_singleton {c : Char} (hc : IsForeign c) (line : List Char) :
    ofLine? (line ++ [c]) = ofLine? line := by
  refine Option.ext fun name => ?_
  rw [ofLine?_eq_some_iff, ofLine?_eq_some_iff]
  constructor
  · rintro ⟨indent, cs, hline, hindent, hdeclares⟩
    obtain ⟨cs', rfl, rfl⟩ := exists_of_append_eq_append_singleton hdeclares.ne_nil hline.symm
    exact ⟨indent, cs', rfl, hindent, hdeclares.of_append_singleton hc⟩
  · rintro ⟨indent, cs, rfl, hindent, hdeclares⟩
    exact ⟨indent, cs ++ [c], List.append_assoc _ _ _, hindent, hdeclares.append_singleton hc⟩

theorem findSome?_lines_append_singleton {c : Char} (hc : IsForeign c) (cs : List Char) :
    (lines (cs ++ [c])).findSome? ofLine? = (lines cs).findSome? ofLine? := by
  obtain ⟨before, last, hlines, hlines'⟩ := exists_lines_append_singleton hc.ne_newline cs
  rw [hlines, hlines', List.findSome?_append, List.findSome?_append, List.findSome?_singleton,
    List.findSome?_singleton, ofLine?_append_singleton hc]

end Declaration

/-! ## Units -/

namespace SourceUnit

open Text

/-- The properties that the tags of a file declare, whether or not the file declares a class. -/
def declaredProperties (content : String) : List Property :=
  (Tag.scan (withUnixLineEnds content)).filterMap Property.ofTag?

/-- The number of tags of a file that declare no property. -/
def unusableTags (content : String) : Nat :=
  (Tag.scan (withUnixLineEnds content)).countP fun tag => (Property.ofTag? tag).isNone

theorem parse?_eq (content : String) (path : Path) :
    parse? content path = (Declaration.className? (withUnixLineEnds content)).map fun name =>
      { path, name, properties := declaredProperties content, droppedProperties := unusableTags content } := by
  have hproperties : (readings (withUnixLineEnds content)).filterMap (·.2) = declaredProperties content := by
    rw [readings, List.filterMap_map]
    rfl
  have hdropped : (readings (withUnixLineEnds content)).countP (·.2.isNone) = unusableTags content := by
    rw [readings, List.countP_map]
    rfl
  rw [parse?, ofText?, hproperties, hdropped]

/-- The tags of two texts, the second on lines of its own. -/
theorem scan_append_newline (first second : String) :
    Tag.scan (withUnixLineEnds (first ++ "\n" ++ second)) =
      Tag.scan (withUnixLineEnds first) ++ Tag.scan (withUnixLineEnds second) := by
  obtain ⟨us, hboth, hfirst⟩ := exists_unifyLineEnds_append first.toList second.toList
  have htext : (first ++ "\n" ++ second).toList = first.toList ++ '\n' :: second.toList := by simp
  simp only [Tag.scan, withUnixLineEnds, String.toList_ofList, htext, hboth]
  rw [Tag.scanFrom_append_stop Tag.isForeign_newline]
  rcases hfirst with hfirst | hfirst
  · rw [hfirst]
    rfl
  · rw [hfirst, Tag.scanFrom_append_stop Tag.isForeign_return]
    simp only [Tag.scanFrom, List.append_nil]
    rfl

/-- The first class of two texts, the second on lines of its own. -/
theorem className?_append_newline {first name : String} (second : String)
    (h : Declaration.className? (withUnixLineEnds first) = some name) :
    Declaration.className? (withUnixLineEnds (first ++ "\n" ++ second)) = some name := by
  obtain ⟨us, hboth, hfirst⟩ := exists_unifyLineEnds_append first.toList second.toList
  have htext : (first ++ "\n" ++ second).toList = first.toList ++ '\n' :: second.toList := by simp
  have hus : (lines (unifyLineEnds first.toList)).findSome? Declaration.ofLine? =
      (lines us).findSome? Declaration.ofLine? := by
    rcases hfirst with hfirst | hfirst
    · rw [hfirst]
    · rw [hfirst, Declaration.findSome?_lines_append_singleton Declaration.isForeign_return]
  rw [Declaration.className?, withUnixLineEnds, String.toList_ofList, hus] at h
  obtain ⟨chars, hchars, rfl⟩ := Option.map_eq_some_iff.1 h
  rw [Declaration.className?, withUnixLineEnds, String.toList_ofList, htext, hboth, lines_append,
    List.findSome?_append, hchars]
  rfl

/-- A unit that goes on with the tags of a second text. -/
def extended (unit : SourceUnit) (second : String) : SourceUnit :=
  { unit with
    properties := unit.properties ++ declaredProperties second
    droppedProperties := unit.droppedProperties + unusableTags second }

/-- A unit goes on with the tags of a text that is put behind its own on new lines. -/
theorem parse?_append_newline {first : String} {path : Path} {unit : SourceUnit} (h : parse? first path = some unit)
    (second : String) : parse? (first ++ "\n" ++ second) path = some (unit.extended second) := by
  rw [parse?_eq] at h
  obtain ⟨name, hname, rfl⟩ := Option.map_eq_some_iff.1 h
  rw [parse?_eq, className?_append_newline second hname]
  simp only [extended, declaredProperties, unusableTags, scan_append_newline, List.filterMap_append, List.countP_append,
    Option.map_some]

end SourceUnit

end GetSet
