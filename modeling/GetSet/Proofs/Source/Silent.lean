import GetSet.SourceUnit

/-!
# Texts that declare no class

A line that starts with a letter with which neither `class` nor a modifier starts declares no class, whatever follows.
A text of such lines is silent: no unit is read from it. Silent texts stay silent when they are put together line by
line (`Silent.append_newline`).
-/

namespace GetSet

namespace Declaration

open Text

/-! ## Lines -/

/-- Whether the first character that is no blank is there and begins neither `class` nor a modifier. -/
def startsPlainly (line : List Char) : Bool :=
  match line.dropWhile isSpacing with
  | c :: _ => !(['c', 'a', 'f', 'r'].contains (fold c))
  | [] => false

theorem words_cons_of_isSpacing {c : Char} (h : isSpacing c = true) (cs : List Char) :
    words (c :: cs) = words cs := by
  simp [words, List.splitOnP_cons_eq_if_modifyHead, h]

/-- The first character of a line that is no blank begins its first word. -/
theorem exists_words_cons_eq {c : Char} (h : isSpacing c = false) (cs : List Char) :
    ∃ word rest, words (c :: cs) = (c :: word) :: rest := by
  obtain ⟨piece, pieces, hpieces⟩ := List.exists_cons_of_ne_nil (List.splitOnP_ne_nil isSpacing cs)
  refine ⟨piece, pieces.filter (!·.isEmpty), ?_⟩
  rw [words, List.splitOnP_cons_eq_if_modifyHead, h, hpieces]
  rfl

/-- A word does not spell a keyword that starts with another letter. -/
theorem spells_eq_false {keyword : String} {c : Char} {word : List Char} (h : keyword.toList.head? ≠ some (fold c)) :
    spells keyword (c :: word) = false := by
  rw [spells, beq_eq_false_iff_ne]
  intro heq
  rw [← heq] at h
  simp at h

theorem ofWords?_eq_none {c : Char} (h : ['c', 'a', 'f', 'r'].contains (fold c) = false) (word : List Char)
    (rest : List (List Char)) : ofWords? ((c :: word) :: rest) = none := by
  simp only [List.contains_eq_mem, List.mem_cons, List.not_mem_nil, or_false, decide_eq_false_iff_not, not_or] at h
  obtain ⟨hc, ha, hf, hr⟩ := h
  have hclass : spells "class" (c :: word) = false := spells_eq_false (by simpa using Ne.symm hc)
  have habstract : spells "abstract" (c :: word) = false := spells_eq_false (by simpa using Ne.symm ha)
  have hfinal : spells "final" (c :: word) = false := spells_eq_false (by simpa using Ne.symm hf)
  have hreadonly : spells "readonly" (c :: word) = false := spells_eq_false (by simpa using Ne.symm hr)
  have hmodifier : isModifier (c :: word) = false := by
    simp [isModifier, habstract, hfinal, hreadonly]
  rw [ofWords?, hclass, hmodifier]
  rfl

/-- A line that starts like this declares no class. -/
theorem ofLine?_append {start : List Char} (h : startsPlainly start = true) (rest : List Char) :
    ofLine? (start ++ rest) = none := by
  induction start with
  | nil => simp [startsPlainly] at h
  | cons c cs ih =>
    rw [ofLine?, List.cons_append]
    by_cases hspacing : isSpacing c = true
    · rw [words_cons_of_isSpacing hspacing]
      rw [startsPlainly, List.dropWhile_cons_of_pos hspacing] at h
      exact ih h
    · rw [startsPlainly, List.dropWhile_cons_of_neg hspacing] at h
      obtain ⟨word, words, hwords⟩ := exists_words_cons_eq (Bool.not_eq_true _ ▸ hspacing) (cs ++ rest)
      rw [hwords]
      exact ofWords?_eq_none (by simpa using h) word words

/-! ## Texts -/

/-- No line of a text declares a class, and no carriage return stands in it. -/
structure Silent (cs : List Char) : Prop where
  line : ∀ line ∈ lines cs, ofLine? line = none
  noReturn : '\r' ∉ cs

instance (cs : List Char) : Decidable (Silent cs) :=
  decidable_of_iff ((∀ line ∈ lines cs, ofLine? line = none) ∧ '\r' ∉ cs)
    ⟨fun h => ⟨h.1, h.2⟩, fun h => ⟨h.line, h.noReturn⟩⟩

theorem Silent.append_newline {cs ds : List Char} (h : Silent cs) (h' : Silent ds) : Silent (cs ++ '\n' :: ds) where
  line line hline := by
    rw [lines_append, List.mem_append] at hline
    rcases hline with hline | hline
    · exact h.line line hline
    · exact h'.line line hline
  noReturn hmem := by
    rcases List.mem_append.1 hmem with hmem | hmem
    · exact h.noReturn hmem
    · exact h'.noReturn (List.mem_of_ne_of_mem (by decide) hmem)

/-- A single line. -/
theorem silent_append {start rest : List Char} (h : startsPlainly start = true)
    (hstart : '\n' ∉ start ∧ '\r' ∉ start) (hrest : '\n' ∉ rest ∧ '\r' ∉ rest) : Silent (start ++ rest) where
  line line hline := by
    have hsingle : lines (start ++ rest) = [start ++ rest] :=
      List.splitOn_eq_singleton (by simp [hstart.1, hrest.1])
    rw [hsingle, List.mem_singleton] at hline
    rw [hline]
    exact ofLine?_append h rest
  noReturn := by simp [hstart.2, hrest.2]

/-- No class is read from a silent text. -/
theorem className?_of_silent {text : String} (h : Silent text.toList) :
    className? (withUnixLineEnds text) = none := by
  rw [className?, withUnixLineEnds, String.toList_ofList, unifyLineEnds_eq_self h.noReturn,
    List.findSome?_eq_none_iff.2 h.line]
  rfl

end Declaration

/-- No unit is read from a silent text. -/
theorem SourceUnit.parse?_of_silent {text : String} (h : Declaration.Silent text.toList) (path : Path) :
    parse? text path = none := by
  rw [parse?, ofText?, Declaration.className?_of_silent h]
  rfl

end GetSet
