import Mathlib.Data.List.Forall2
import GetSet.Declaration
import GetSet.Proofs.Source.Silent
import GetSet.Proofs.Text.Ascii
import GetSet.Proofs.Text.Run

/-!
# The grammar of class declarations

A line declares a class if it begins, behind an indent, with modifiers, the word `class` and a name, each behind a gap
(`Declares`). `className?_exact` says that the class of a text is the one that the first such line declares. The
line is read as a list of words, so the theorem is proved word by word: a keyword is a whole word because a gap follows
it, while the name is the longest identifier at the front of its word.
-/

namespace GetSet.Declaration

open Text

/-! ## Spelling -/

/-- Simple case folding takes a character to a lowercase ASCII letter. -/
def FoldsTo (c letter : Char) : Prop :=
  c = letter ∨ c = letter.toUpper ∨ (c = '\u017f' ∧ letter = 's') ∨ (c = '\u212a' ∧ letter = 'k')

/-- A word spells a keyword, letter by letter. -/
def IsKeyword (keyword : String) (word : List Char) : Prop :=
  List.Forall₂ FoldsTo word keyword.toList

/-- The letters of a name: the ASCII letters and the two other characters that fold to one. -/
def IsLetter (c : Char) : Prop :=
  ('A' ≤ c ∧ c ≤ 'Z') ∨ ('a' ≤ c ∧ c ≤ 'z') ∨ c = '\u017f' ∨ c = '\u212a'

/-- The characters that a name may begin with. -/
def MayBegin (c : Char) : Prop :=
  IsLetter c ∨ c = '_'

/-- The characters that a name may go on with. -/
def MayGoOn (c : Char) : Prop :=
  MayBegin c ∨ ('0' ≤ c ∧ c ≤ '9')

/-- A class name is as long as the characters allow. -/
structure IsClassName (name rest : List Char) : Prop where
  begin : ∃ c cs, name = c :: cs ∧ MayBegin c
  char : ∀ c ∈ name, MayGoOn c
  ends : ∀ c ∈ rest.head?, ¬ MayGoOn c

/-- A text begins with modifiers, each with a gap behind it, `class` and a gap, and the name of a class. -/
inductive Declares : List Char → List Char → Prop where
  | modifier {keyword : String} {word gap cs name : List Char} (hkeyword : keyword ∈ ["abstract", "final", "readonly"])
      (hword : IsKeyword keyword word) (hgap : IsGap gap) (hrest : Declares cs name) :
      Declares (word ++ (gap ++ cs)) name
  | name {word gap name rest : List Char} (hword : IsKeyword "class" word) (hgap : IsGap gap)
      (hname : IsClassName name rest) : Declares (word ++ (gap ++ (name ++ rest))) name

/-- A line declares a class behind an indent. -/
def LineDeclares (line name : List Char) : Prop :=
  ∃ indent cs, line = indent ++ cs ∧ (∀ c ∈ indent, c = ' ' ∨ c = '\t') ∧ Declares cs name

/-! ## Letters -/

theorem toLower_eq_iff {c letter : Char} (h : letter.isLower = true) :
    c.toLower = letter ↔ c = letter ∨ c = letter.toUpper := by
  have hletter := isLower_iff.1 h
  have hbounds : 97 ≤ letter.toNat ∧ letter.toNat ≤ 122 :=
    ⟨le_iff_toNat_le.1 hletter.1, le_iff_toNat_le.1 hletter.2⟩
  have hA : 'A'.toNat = 65 := rfl
  have hZ : 'Z'.toNat = 90 := rfl
  rw [← Char.toNat_inj, ← Char.toNat_inj, ← Char.toNat_inj, toNat_toLower, toNat_toUpper, if_pos hletter]
  simp only [le_iff_toNat_le]
  split <;> omega

theorem isAlpha_toLower_iff {c : Char} :
    c.toLower.isAlpha = true ↔ ('A' ≤ c ∧ c ≤ 'Z') ∨ ('a' ≤ c ∧ c ≤ 'z') := by
  have hA : 'A'.toNat = 65 := rfl
  have hZ : 'Z'.toNat = 90 := rfl
  have ha : 'a'.toNat = 97 := rfl
  have hz : 'z'.toNat = 122 := rfl
  simp only [isAlpha_iff, le_iff_toNat_le, toNat_toLower]
  split <;> omega

theorem fold_eq_iff {c letter : Char} (h : letter.isLower = true) : fold c = letter ↔ FoldsTo c letter := by
  -- the two characters that folding adds are no ASCII letters
  have hother : c.toLower.isLower = false → ¬ (c = letter ∨ c = letter.toUpper) := by
    intro hlower hletter
    rw [(toLower_eq_iff h).2 hletter, h] at hlower
    exact nomatch hlower
  rw [FoldsTo, ← or_assoc, fold]
  by_cases hs : c = '\u017f'
  · subst hs
    rw [or_iff_right (hother (by decide))]
    simp [eq_comm]
  · by_cases hk : c = '\u212a'
    · subst hk
      rw [or_iff_right (hother (by decide))]
      simp [eq_comm]
    · simp [hs, hk, toLower_eq_iff h]

theorem isIdentifierStart_iff {c : Char} : isIdentifierStart c = true ↔ MayBegin c := by
  rw [isIdentifierStart, Bool.or_eq_true, beq_iff_eq, MayBegin, IsLetter, fold, ← or_assoc (c := _ ∨ _)]
  refine or_congr_left ?_
  by_cases hs : c = '\u017f'
  · subst hs
    simp
  · by_cases hk : c = '\u212a'
    · subst hk
      simp
    · simp only [beq_iff_eq, hs, hk, if_false, or_false, isAlpha_toLower_iff]

theorem isIdentifierChar_iff {c : Char} : isIdentifierChar c = true ↔ MayGoOn c := by
  rw [isIdentifierChar, Bool.or_eq_true, isIdentifierStart_iff, isDigit_iff, MayGoOn]

/-! ## Words -/

/-- The keywords are words of lowercase letters. -/
theorem isLower_of_mem_keywords {keyword : String} (h : keyword ∈ ["class", "abstract", "final", "readonly"]) :
    keyword ≠ "" ∧ ∀ letter ∈ keyword.toList, letter.isLower = true := by
  have hall : ∀ keyword ∈ ["class", "abstract", "final", "readonly"],
      keyword ≠ "" ∧ keyword.toList.all Char.isLower = true := by decide
  exact ⟨(hall keyword h).1, List.all_eq_true.1 (hall keyword h).2⟩

theorem spells_iff {keyword : String} (h : ∀ letter ∈ keyword.toList, letter.isLower = true) {word : List Char} :
    spells keyword word = true ↔ IsKeyword keyword word := by
  rw [spells, beq_iff_eq, IsKeyword]
  generalize keyword.toList = letters at h
  induction word generalizing letters with
  | nil => simp [eq_comm]
  | cons c word ih =>
    cases letters with
    | nil => simp
    | cons letter letters =>
      rw [List.forall_mem_cons] at h
      rw [List.map_cons, List.cons.injEq, List.forall₂_cons, fold_eq_iff h.1, ih letters h.2]

theorem isModifier_iff {word : List Char} :
    isModifier word = true ↔ ∃ keyword ∈ ["abstract", "final", "readonly"], IsKeyword keyword word := by
  rw [isModifier, List.any_eq_true]
  refine exists_congr fun keyword => and_congr_right fun hkeyword => ?_
  exact spells_iff (isLower_of_mem_keywords (List.mem_cons_of_mem "class" hkeyword)).2

theorem spells_class_iff {word : List Char} : spells "class" word = true ↔ IsKeyword "class" word :=
  spells_iff (isLower_of_mem_keywords List.mem_cons_self).2

theorem spells_class_of_isModifier {word : List Char} (h : isModifier word = true) : spells "class" word = false := by
  obtain ⟨keyword, hkeyword, hspells⟩ := List.any_eq_true.1 h
  rw [spells, beq_iff_eq] at hspells
  rw [spells, hspells]
  revert hkeyword
  exact (by decide : ∀ keyword ∈ ["abstract", "final", "readonly"], (keyword.toList == "class".toList) = false) keyword

/-- The letters of a keyword are no spaces and tabs. -/
theorem isSpacing_of_isKeyword {keyword : String} {word : List Char}
    (h : ∀ letter ∈ keyword.toList, letter.isLower = true) (hword : IsKeyword keyword word) :
    ∀ c ∈ word, isSpacing c = false := by
  intro c hc
  have hspells := (spells_iff h).2 hword
  rw [spells, beq_iff_eq] at hspells
  have hlower := h (fold c) (hspells ▸ List.mem_map_of_mem hc)
  rw [Bool.eq_false_iff]
  intro hspacing
  rcases isSpacing_iff.1 hspacing with rfl | rfl <;>
    exact absurd hlower (by decide)

theorem words_append_of_isSpacing {gap : List Char} (h : ∀ c ∈ gap, isSpacing c = true) (cs : List Char) :
    words (gap ++ cs) = words cs := by
  induction gap with
  | nil => rfl
  | cons c gap ih =>
    rw [List.forall_mem_cons] at h
    rw [List.cons_append, words_cons_of_isSpacing h.1, ih h.2]

/-- The first word of a text that does not begin with a space or a tab. -/
theorem words_of_isRun {cs word rest : List Char} (h : IsRun (!isSpacing ·) cs word rest) (hne : word ≠ []) :
    words cs = word :: words rest := by
  have hword : ∀ c ∈ word, isSpacing c = false := fun c hc => by simpa using h.char c hc
  rw [← h.append_eq]
  cases hrest : rest with
  | nil =>
    rw [List.append_nil, words, List.splitOnP_eq_singleton hword]
    simp [words, hne]
  | cons c rest' =>
    have hc : isSpacing c = true := by simpa using h.ends c (by simp [hrest])
    rw [words_cons_of_isSpacing hc, words, List.splitOnP_append_cons word rest' hc, List.splitOnP_eq_singleton hword]
    simp [words, hne]

/-- A keyword ends at a gap. -/
theorem words_append_gap {keyword : String} (hne : keyword ≠ "") (h : ∀ letter ∈ keyword.toList, letter.isLower = true)
    {word gap : List Char} (hword : IsKeyword keyword word) (hgap : IsGap gap) (cs : List Char) :
    words (word ++ (gap ++ cs)) = word :: words cs := by
  have hspacing : ∀ c ∈ gap, isSpacing c = true := fun c hc => isSpacing_iff.2 (hgap.char c hc)
  have hrun : IsRun (!isSpacing ·) (word ++ (gap ++ cs)) word (gap ++ cs) := by
    refine ⟨rfl, fun c hc => by simp [isSpacing_of_isKeyword h hword c hc], ?_⟩
    obtain ⟨c, gap', rfl⟩ := List.exists_cons_of_ne_nil hgap.ne_nil
    rintro _ ⟨⟩
    simp [hspacing c List.mem_cons_self]
  have hword_ne : word ≠ [] := by
    rintro rfl
    exact hne (String.toList_eq_nil_iff.1 (List.forall₂_nil_left_iff.1 hword))
  rw [words_of_isRun hrun hword_ne, words_append_of_isSpacing hspacing]

/-! ## Names -/

theorem identifier?_eq_some_iff {cs name : List Char} :
    identifier? cs = some name ↔ ∃ rest, cs = name ++ rest ∧ IsClassName name rest := by
  constructor
  · intro h
    cases cs with
    | nil => simp [identifier?] at h
    | cons c cs =>
      rw [identifier?] at h
      split at h
      · next hbegin =>
        have hrun := isRun_takeWhile isIdentifierChar cs
        obtain rfl := Option.some.inj h
        refine ⟨cs.dropWhile isIdentifierChar, by rw [List.cons_append, hrun.append_eq], ?_, ?_, ?_⟩
        · exact ⟨c, _, rfl, isIdentifierStart_iff.1 hbegin⟩
        · intro d hd
          rcases List.mem_cons.1 hd with rfl | hd
          · exact Or.inl (isIdentifierStart_iff.1 hbegin)
          · exact isIdentifierChar_iff.1 (hrun.char d hd)
        · intro d hd hgoes
          simpa [hrun.ends d hd] using isIdentifierChar_iff.2 hgoes
      · simp at h
  · rintro ⟨rest, rfl, hname⟩
    obtain ⟨c, cs, rfl, hbegin⟩ := hname.begin
    have hrun : IsRun isIdentifierChar (cs ++ rest) cs rest := by
      refine ⟨rfl, fun d hd => isIdentifierChar_iff.2 (hname.char d (List.mem_cons_of_mem c hd)), fun d hd => ?_⟩
      rw [Bool.eq_false_iff]
      exact fun hchar => hname.ends d hd (isIdentifierChar_iff.1 hchar)
    rw [List.cons_append, identifier?, if_pos (isIdentifierStart_iff.2 hbegin), hrun.takeWhile_eq]

/-- The identifier at the front of a text is that at the front of its first word. -/
theorem identifier?_head?_words {cs : List Char} (h : ∀ c ∈ cs.head?, isSpacing c = false) :
    (words cs).head?.bind identifier? = identifier? cs := by
  cases cs with
  | nil => rfl
  | cons c cs =>
    have hc : isSpacing c = false := h c rfl
    have hrun := isRun_takeWhile (!isSpacing ·) (c :: cs)
    rw [List.takeWhile_cons_of_pos (by simp [hc]), List.dropWhile_cons_of_pos (by simp [hc])] at hrun
    rw [words_of_isRun hrun (by simp), List.head?_cons, Option.bind_some, identifier?, identifier?]
    -- an identifier ends before a space or a tab at the latest
    have hends : ∀ d, isIdentifierChar d = true → (!isSpacing d) = true := by
      intro d hd
      by_contra hspacing
      rcases isSpacing_iff.1 (by simpa using hspacing) with rfl | rfl <;>
        exact absurd hd (by decide)
    have htake : (cs.takeWhile (!isSpacing ·)).takeWhile isIdentifierChar = cs.takeWhile isIdentifierChar := by
      rw [List.takeWhile_takeWhile]
      congr 1
      funext d
      cases hd : isIdentifierChar d with
      | false => simp
      | true => simpa using hends d hd
    rw [htake]

/-! ## Lines -/

theorem ofWords?_of_declares {cs name : List Char} (h : Declares cs name) : ofWords? (words cs) = some name := by
  induction h with
  | @modifier keyword word gap cs name hkeyword hword hgap _ ih =>
    have hmodifier := isModifier_iff.2 ⟨keyword, hkeyword, hword⟩
    obtain ⟨hne, hlower⟩ := isLower_of_mem_keywords (List.mem_cons_of_mem "class" hkeyword)
    rw [words_append_gap hne hlower hword hgap, ofWords?, spells_class_of_isModifier hmodifier, hmodifier]
    exact ih
  | @name word gap name rest hword hgap hname =>
    have hrest : ∀ c ∈ (name ++ rest).head?, isSpacing c = false := by
      obtain ⟨c, cs, rfl, hbegin⟩ := hname.begin
      rintro _ ⟨⟩
      rw [Bool.eq_false_iff]
      intro hspacing
      rcases isSpacing_iff.1 hspacing with rfl | rfl <;>
        exact absurd (isIdentifierStart_iff.2 hbegin) (by decide)
    obtain ⟨hne, hlower⟩ := isLower_of_mem_keywords List.mem_cons_self
    rw [words_append_gap hne hlower hword hgap, ofWords?, if_pos (spells_class_iff.2 hword),
      identifier?_head?_words hrest]
    exact identifier?_eq_some_iff.2 ⟨rest, rfl, hname⟩

/-- A text that does not begin with a space or a tab is a word, and a gap and such a text behind it unless it ends. -/
theorem exists_words_eq {cs : List Char} (h : ∀ c ∈ cs.head?, isSpacing c = false) {word : List Char}
    {rest : List (List Char)} (hwords : words cs = word :: rest) :
    ∃ gap cs', cs = word ++ (gap ++ cs') ∧ (∀ c ∈ cs'.head?, isSpacing c = false) ∧ words cs' = rest ∧
      (rest ≠ [] → IsGap gap) := by
  have hrun := isRun_takeWhile (!isSpacing ·) cs
  have hgap := isRun_takeWhile isSpacing (cs.dropWhile (!isSpacing ·))
  have hne : cs.takeWhile (!isSpacing ·) ≠ [] := by
    cases cs with
    | nil => exact nomatch hwords
    | cons c cs => simp [h c rfl]
  obtain ⟨rfl, rfl⟩ := List.cons.inj ((words_of_isRun hrun hne).symm.trans hwords)
  generalize cs.takeWhile (!isSpacing ·) = word at hrun
  generalize cs.dropWhile (!isSpacing ·) = tail at hrun hgap
  generalize tail.takeWhile isSpacing = gap at hgap
  generalize tail.dropWhile isSpacing = cs' at hgap
  obtain rfl := hgap.append_eq
  refine ⟨gap, cs', hrun.append_eq.symm, hgap.ends, (words_append_of_isSpacing hgap.char cs').symm, fun hmore => ?_⟩
  refine ⟨?_, fun c hc => isSpacing_iff.1 (hgap.char c hc)⟩
  rintro rfl
  -- nothing can follow the word then
  cases cs' with
  | nil => exact hmore rfl
  | cons c cs' => simpa [hgap.ends c rfl] using hrun.ends c rfl

theorem declares_of_ofWords? {cs name : List Char} (hcs : ∀ c ∈ cs.head?, isSpacing c = false)
    (h : ofWords? (words cs) = some name) : Declares cs name := by
  induction hwords : words cs generalizing cs with
  | nil => simp [hwords, ofWords?] at h
  | cons word rest ih =>
    obtain ⟨gap, cs', rfl, hcs', hrest, hgap⟩ := exists_words_eq hcs hwords
    -- a name can only be found in the words behind this one
    have hmore : rest ≠ [] := by
      rintro rfl
      simp [hwords, ofWords?] at h
    rw [hwords, ofWords?] at h
    split at h
    · next hclass =>
      rw [← hrest, identifier?_head?_words hcs'] at h
      obtain ⟨rest', rfl, hname⟩ := identifier?_eq_some_iff.1 h
      exact .name (spells_class_iff.1 hclass) (hgap hmore) hname
    · split at h
      · next hmodifier =>
        obtain ⟨keyword, hkeyword, hword⟩ := isModifier_iff.1 hmodifier
        exact .modifier hkeyword hword (hgap hmore) (ih hcs' (hrest.symm ▸ h) hrest)
      · simp at h

/-- A class is read from a line that declares it. -/
theorem ofLine?_eq_some_iff {line name : List Char} : ofLine? line = some name ↔ LineDeclares line name := by
  rw [ofLine?]
  constructor
  · intro h
    have hrun := isRun_takeWhile isSpacing line
    rw [← hrun.append_eq, words_append_of_isSpacing hrun.char] at h
    exact ⟨_, _, hrun.append_eq.symm, fun c hc => isSpacing_iff.1 (hrun.char c hc), declares_of_ofWords? hrun.ends h⟩
  · rintro ⟨indent, cs, rfl, hindent, hdeclares⟩
    rw [words_append_of_isSpacing fun c hc => isSpacing_iff.2 (hindent c hc)]
    exact ofWords?_of_declares hdeclares

/-! ## The class of a text -/

/-- The class of a text is the one that its first line declares that declares one, and a text has no class only if no
line declares one. -/
theorem className?_exact (text : String) :
    (∀ name, className? text = some name ↔ ∃ before line after, lines text.toList = before ++ line :: after ∧
      (∀ l ∈ before, ¬ ∃ n, LineDeclares l n) ∧ LineDeclares line name.toList) ∧
    (className? text = none ↔ ∀ line ∈ lines text.toList, ¬ ∃ n, LineDeclares line n) := by
  have hnone : ∀ line, ofLine? line = none ↔ ¬ ∃ n, LineDeclares line n := by
    intro line
    rw [Option.eq_none_iff_forall_ne_some, not_exists]
    exact forall_congr' fun n => not_congr ofLine?_eq_some_iff
  constructor
  · intro name
    rw [className?, Option.map_eq_some_iff]
    constructor
    · rintro ⟨chars, hfind, rfl⟩
      obtain ⟨before, line, after, hlines, hline, hbefore⟩ := List.findSome?_eq_some_iff.1 hfind
      refine ⟨before, line, after, hlines, fun l hl => (hnone l).1 (hbefore l hl), ?_⟩
      rw [String.toList_ofList]
      exact ofLine?_eq_some_iff.1 hline
    · rintro ⟨before, line, after, hlines, hbefore, hline⟩
      refine ⟨name.toList, List.findSome?_eq_some_iff.2 ?_, String.ofList_toList⟩
      exact ⟨before, line, after, hlines, ofLine?_eq_some_iff.2 hline, fun l hl => (hnone l).2 (hbefore l hl)⟩
  · rw [className?, Option.map_eq_none_iff, List.findSome?_eq_none_iff]
    exact forall₂_congr fun line _ => hnone line

end GetSet.Declaration
