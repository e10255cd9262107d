import GetSet.Proofs.Name.Fixpoint

/-!
# Styles of names

The words of a name may be separated by any characters that are no letters, as in `expiry_month`, or set off by
capitals, as in `expiryMonth` and `ExpiryMonth`. All these styles are normalized to the same name (`normalize?_style`):
joining words turns the first style into one of the others, which the other passes only raise at the front. Words have
two letters at least, because capitals that stand side by side would be a run.
-/

namespace GetSet.Name

/-! ## Words -/

/-- A word of a name, in lowercase. -/
structure Word where
  letters : List Char
  isLower : ∀ c ∈ letters, c.isLower = true
  two_le_length : 2 ≤ letters.length

/-- A character that stands between words. -/
abbrev Separator :=
  { c : Char // c.isAlpha = false }

namespace Word

/-- The word with its first letter in uppercase. -/
def capitalized (word : Word) : List Char :=
  raiseFirst word.letters

/-- The word in uppercase. -/
def capitals (word : Word) : List Char :=
  word.letters.map Char.toUpper

end Word

/-! ## Styles -/

/-- Words that all begin with a capital, `ExpiryMonth`. -/
def pascalStyle (words : List Word) : List Char :=
  words.flatMap Word.capitalized

/-- Words of which all but the first begin with a capital, `expiryMonth`. -/
def camelStyle : List Word → List Char
  | [] => []
  | word :: words => word.letters ++ pascalStyle words

/-- Words each behind a separator, `_expiry_month`. -/
def separated (words : List (Separator × Word)) : List Char :=
  words.flatMap fun (separator, word) => separator.val :: word.letters

/-- Words with a separator in each gap, and perhaps one in front, `expiry_month`. -/
def separatedStyle (front : Option Separator) (first : Word) (rest : List (Separator × Word)) : List Char :=
  (front.map Subtype.val).toList ++ (first.letters ++ separated rest)

variable {c : Char} {cs ds : List Char} {words : List Word}

/-! ## Letters -/

theorem isUpper_of_isLower (h : c.isLower = true) : c.isUpper = false := by
  rw [← Bool.not_eq_true]
  exact fun hupper => Char.not_isLower_of_isUpper hupper h

theorem toLower_toUpper_of_isLower (h : c.isLower = true) : c.toUpper.toLower = c := by
  rw [Char.toLower_toUpper_eq_toLower, toLower_of_not_isUpper (isUpper_of_isLower h)]

namespace Word

theorem exists_letters_eq (word : Word) :
    ∃ c cs, word.letters = c :: cs ∧ c.isLower = true ∧ cs ≠ [] ∧ ∀ d ∈ cs, d.isLower = true := by
  have hlower := word.isLower
  have hlength := word.two_le_length
  match hletters : word.letters with
  | [] => simp [hletters] at hlength
  | [_] => simp [hletters] at hlength
  | c :: d :: cs =>
    rw [hletters, List.forall_mem_cons] at hlower
    exact ⟨c, d :: cs, rfl, hlower.1, by simp, hlower.2⟩

theorem isAlpha_of_mem_letters {word : Word} (h : c ∈ word.letters) : c.isAlpha = true :=
  isAlpha_of_isLower (word.isLower c h)

theorem isAlpha_of_mem_capitalized {word : Word} (h : c ∈ word.capitalized) : c.isAlpha = true := by
  obtain ⟨d, ds, hletters, hd, -, hds⟩ := word.exists_letters_eq
  rw [capitalized, hletters, raiseFirst, List.mem_cons] at h
  rcases h with rfl | h
  · simpa using isAlpha_of_isLower hd
  · exact isAlpha_of_isLower (hds c h)

/-- A capitalized word ends with a lowercase letter, and so no run of capitals goes beyond it. -/
theorem isLower_of_mem_getLast?_capitalized {word : Word} (h : c ∈ word.capitalized.getLast?) : c.isLower = true := by
  obtain ⟨d, ds, hletters, -, hne, hds⟩ := word.exists_letters_eq
  rw [capitalized, hletters, raiseFirst, List.getLast?_cons_of_ne_nil hne] at h
  exact hds c (List.mem_of_getLast? h)

theorem isChain_capitalized (word : Word) : word.capitalized.IsChain Apart := by
  obtain ⟨c, cs, hletters, -, -, hcs⟩ := word.exists_letters_eq
  rw [capitalized, hletters, raiseFirst]
  clear hletters
  generalize c.toUpper = c
  induction cs generalizing c with
  | nil => exact .singleton c
  | cons d cs ih =>
    rw [List.forall_mem_cons] at hcs
    exact List.isChain_cons_cons.2 ⟨fun _ => isUpper_of_isLower hcs.1, ih hcs.2 d⟩

end Word

theorem isAlpha_of_mem_pascalStyle (h : c ∈ pascalStyle words) : c.isAlpha = true := by
  obtain ⟨word, -, hc⟩ := List.mem_flatMap.1 h
  exact Word.isAlpha_of_mem_capitalized hc

/-! ## Joining words gives the styles with capitals -/

/-- Letters at the front stay as they are. -/
theorem joinWords_append (h : ∀ c ∈ cs, c.isAlpha = true) : joinWords (cs ++ ds) = cs ++ joinWords ds := by
  induction cs with
  | nil => rfl
  | cons c cs ih =>
    rw [List.forall_mem_cons] at h
    rw [List.cons_append, List.cons_append, ← ih h.2]
    cases hrest : cs ++ ds with
    | nil => rfl
    | cons d rest => simp [joinWords, h.1]

theorem joinWords_of_isAlpha (h : ∀ c ∈ cs, c.isAlpha = true) : joinWords cs = cs := by
  simpa [joinWords] using @joinWords_append cs [] h

theorem joinWords_separator (separator : Separator) (word : Word) (cs : List Char) :
    joinWords (separator.val :: (word.letters ++ cs)) = word.capitalized ++ joinWords cs := by
  obtain ⟨d, ds, hletters, hd, -, hds⟩ := word.exists_letters_eq
  -- the separator goes, and the letter behind it becomes the capital
  have hgap : joinWords (separator.val :: d :: (ds ++ cs)) = d.toUpper :: joinWords (ds ++ cs) := by
    simp [joinWords, separator.property, hd]
  rw [Word.capitalized, hletters, List.cons_append, hgap,
    joinWords_append fun e he => isAlpha_of_isLower (hds e he)]
  rfl

theorem joinWords_separated (words : List (Separator × Word)) :
    joinWords (separated words) = pascalStyle (words.map Prod.snd) := by
  induction words with
  | nil => rfl
  | cons pair words ih =>
    obtain ⟨separator, word⟩ := pair
    rw [separated, List.flatMap_cons, List.cons_append, joinWords_separator, ← separated, ih]
    rfl

theorem joinWords_separatedStyle (front : Option Separator) (first : Word) (rest : List (Separator × Word)) :
    joinWords (separatedStyle front first rest) =
      if front.isSome then pascalStyle (first :: rest.map Prod.snd) else camelStyle (first :: rest.map Prod.snd) := by
  cases front with
  | none =>
    show joinWords (first.letters ++ separated rest) = _
    rw [joinWords_append fun _ => Word.isAlpha_of_mem_letters, joinWords_separated]
    rfl
  | some separator =>
    show joinWords (separator.val :: (first.letters ++ separated rest)) = _
    rw [joinWords_separator, joinWords_separated]
    rfl

/-- Words are joined only once. -/
theorem pascalChars_joinWords (cs : List Char) : pascalChars (joinWords cs) = pascalChars cs := by
  rw [pascalChars, joinWords_of_isChain (isChain_joinWords cs), pascalChars]

/-! ## The name of some words -/

/-- The name that words have in every style: the words capitalized, and for the camel form the first letter lowered. -/
def ofWords (words : List Word) : Name where
  pascal := .ofList (pascalStyle words)
  camel := .ofList (lowerFirst (pascalStyle words))

theorem isTidy_pascalStyle (words : List Word) : IsTidy (pascalStyle words) where
  isNameChar _ hc := isNameChar_of_isAlpha (isAlpha_of_mem_pascalStyle hc)
  joined := by
    have halpha : ∀ c ∈ pascalStyle words, c.isAlpha = true := fun _ => isAlpha_of_mem_pascalStyle
    rw [← joinWords_of_isAlpha halpha]
    exact isChain_joinWords _
  apart := by
    induction words with
    | nil => exact .nil
    | cons word words ih =>
      -- the words behind begin with a capital, but this one does not end with one
      refine List.isChain_append.2 ⟨word.isChain_capitalized, ih, fun c hc d _ hupper => ?_⟩
      exact absurd (Word.isLower_of_mem_getLast?_capitalized hc) (Char.not_isLower_of_isUpper hupper)

theorem raiseFirst_pascalStyle (words : List Word) : raiseFirst (pascalStyle words) = pascalStyle words := by
  cases words with
  | nil => rfl
  | cons word words =>
    obtain ⟨c, cs, hletters, -⟩ := word.exists_letters_eq
    rw [pascalStyle, List.flatMap_cons, Word.capitalized, hletters, raiseFirst, List.cons_append, raiseFirst,
      Char.toUpper_toUpper_eq_toUpper]

theorem lowerFirst_pascalStyle (words : List Word) : lowerFirst (pascalStyle words) = camelStyle words := by
  cases words with
  | nil => rfl
  | cons word words =>
    obtain ⟨c, cs, hletters, hc, -⟩ := word.exists_letters_eq
    rw [pascalStyle, List.flatMap_cons, Word.capitalized, hletters, raiseFirst, List.cons_append, lowerFirst,
      toLower_toUpper_of_isLower hc, camelStyle, hletters]
    rfl

theorem pascalChars_camelStyle (words : List Word) : pascalChars (camelStyle words) = pascalStyle words := by
  rw [← lowerFirst_pascalStyle, (isTidy_pascalStyle words).pascalChars_lowerFirst, raiseFirst_pascalStyle]

theorem pascalChars_pascalStyle (words : List Word) : pascalChars (pascalStyle words) = pascalStyle words := by
  have htidy := isTidy_pascalStyle words
  rw [pascalChars_of_isNameChar htidy.isNameChar, joinWords_of_isChain htidy.joined,
    lowerRuns_of_isChain false htidy.apart, if_neg (by simp), raiseFirst_pascalStyle]

theorem pascalChars_separatedStyle (front : Option Separator) (first : Word) (rest : List (Separator × Word)) :
    pascalChars (separatedStyle front first rest) = pascalStyle (first :: rest.map Prod.snd) := by
  rw [← pascalChars_joinWords, joinWords_separatedStyle]
  split
  · exact pascalChars_pascalStyle _
  · exact pascalChars_camelStyle _

/-- Of a run of capitals only the first stays one. -/
theorem lowerRuns_map_toUpper (h : ∀ c ∈ cs, c.isLower = true) : lowerRuns true (cs.map Char.toUpper) = cs := by
  induction cs with
  | nil => rfl
  | cons c cs ih =>
    rw [List.forall_mem_cons] at h
    rw [List.map_cons, lowerRuns_cons, if_pos rfl, toLower_toUpper_of_isLower h.1, Char.isUpper_toUpper_eq_isAlpha,
      isAlpha_of_isLower h.1, ih h.2]

theorem pascalChars_capitals (word : Word) : pascalChars word.capitals = word.capitalized := by
  have halpha : ∀ c ∈ word.capitals, c.isAlpha = true := by
    intro c hc
    obtain ⟨d, hd, rfl⟩ := List.mem_map.1 hc
    simpa using Word.isAlpha_of_mem_letters hd
  rw [pascalChars_of_isNameChar fun c hc => isNameChar_of_isAlpha (halpha c hc), joinWords_of_isAlpha halpha]
  obtain ⟨c, cs, hletters, hc, -, hcs⟩ := word.exists_letters_eq
  rw [Word.capitals, Word.capitalized, hletters, List.map_cons, lowerRuns_cons, if_neg (by simp),
    Char.isUpper_toUpper_eq_isAlpha, isAlpha_of_isLower hc, lowerRuns_map_toUpper hcs, raiseFirst,
    Char.toUpper_toUpper_eq_toUpper, raiseFirst]

theorem any_isAlphanum_pascalStyle (h : words ≠ []) : (pascalStyle words).any Char.isAlphanum = true := by
  obtain ⟨word, words, rfl⟩ := List.exists_cons_of_ne_nil h
  obtain ⟨c, cs, hletters, hc, -⟩ := word.exists_letters_eq
  simp [pascalStyle, Word.capitalized, hletters, raiseFirst, Char.isAlphanum, isAlpha_of_isLower hc]

theorem normalize?_eq_ofWords (hne : words ≠ []) (h : pascalChars cs = pascalStyle words) :
    normalize? (.ofList cs) = some (ofWords words) := by
  rw [normalize?_eq_some_iff, String.toList_ofList, h]
  exact ⟨any_isAlphanum_pascalStyle hne, rfl⟩

/-- Words have one name in all styles, whatever separates them, and a word in capitals has the name of the word. -/
theorem normalize?_style (front : Option Separator) (first : Word) (rest : List (Separator × Word)) :
    let words := first :: rest.map Prod.snd
    normalize? (.ofList (separatedStyle front first rest)) = some (ofWords words) ∧
      normalize? (.ofList (camelStyle words)) = some (ofWords words) ∧
      normalize? (.ofList (pascalStyle words)) = some (ofWords words) ∧
      normalize? (.ofList first.capitals) = normalize? (.ofList first.letters) := by
  intro words
  have hne : words ≠ [] := List.cons_ne_nil _ _
  have hletters : pascalChars first.letters = pascalStyle [first] := by
    simpa [camelStyle, pascalStyle] using pascalChars_camelStyle [first]
  have hcapitals : pascalChars first.capitals = pascalStyle [first] := by
    simpa [pascalStyle] using pascalChars_capitals first
  refine ⟨?_, ?_, ?_, ?_⟩
  · exact normalize?_eq_ofWords hne (pascalChars_separatedStyle front first rest)
  · exact normalize?_eq_ofWords hne (pascalChars_camelStyle words)
  · exact normalize?_eq_ofWords hne (pascalChars_pascalStyle words)
  · rw [normalize?_eq_ofWords (by simp) hcapitals, normalize?_eq_ofWords (by simp) hletters]

/-- No separator needs to be ASCII, and one in front changes nothing. -/
theorem normalize?_style_expiry :
    normalize? "ßexpiry\nmonth" = some ⟨"ExpiryMonth", "expiryMonth"⟩ ∧
      normalize? "expiryMonth" = some ⟨"ExpiryMonth", "expiryMonth"⟩ ∧
      normalize? "ExpiryMonth" = some ⟨"ExpiryMonth", "expiryMonth"⟩ ∧ normalize? "EXPIRY" = normalize? "expiry" :=
  normalize?_style (some ⟨'ß', by decide⟩) ⟨"expiry".toList, by simp, by simp⟩
    [(⟨'\n', by decide⟩, ⟨"month".toList, by simp, by simp⟩)]

end GetSet.Name
