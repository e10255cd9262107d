import GetSet.Proofs.Name.Passes
import GetSet.Proofs.Source.Property

/-!
# The forms of a name

The Pascal form of any text has letters, digits and underscores only, and a lowercase letter stands in it directly after
a letter (`IsPascal`). So its first character is never lowercase, and lowering that loses nothing: two names have the
same camel form exactly if they have the same Pascal form (`normalize?_sound`).
-/

namespace GetSet.Name

open Text

variable {c d : Char} {cs ds : List Char}

/-! ## Characters that are raised -/

/-- No character of an uppercase form is a lowercase letter. -/
theorem isLower_of_mem_uppercase (h : d ∈ uppercase c) : d.isLower = false := by
  have table : (uppercaseTable.all fun e => e.2.all fun d => !d.isLower) = true := by decide
  rw [uppercase] at h
  cases hlookup : uppercaseTable.lookup c with
  | none =>
    obtain rfl : d = c.toUpper := by simpa [hlookup] using h
    simp
  | some upper =>
    obtain ⟨before, after, heq, -⟩ := List.lookup_eq_some_iff.1 hlookup
    have hd : d ∈ upper := by simpa [hlookup] using h
    have hmem : (c, upper) ∈ uppercaseTable := by simp [heq]
    simpa using List.all_eq_true.1 (List.all_eq_true.1 table _ hmem) d hd

theorem isNameChar_of_isAlphanum (h : c.isAlphanum = true) : isNameChar c = true := by
  rw [isNameChar, h, Bool.true_or]

/-- A letter or digit is raised to one letter or digit. -/
theorem uppercase_of_isAlphanum (h : c.isAlphanum = true) : uppercase c = [c.toUpper] :=
  uppercase_of_ascii (toNat_lt_of_isNameChar (isNameChar_of_isAlphanum h))

/-! ## What title case makes of any text -/

/-- Characters that are not lowercase may stand anywhere. -/
theorem isChain_append {before : List Char} (hbefore : ∀ e ∈ before, e.isLower = false)
    (h : (c :: cs).IsChain Joined) (hc : c.isAlpha = false) : (d :: (before ++ cs)).IsChain Joined := by
  induction before generalizing d with
  | nil =>
    obtain ⟨hhead, hcs⟩ := List.isChain_cons.1 h
    refine List.isChain_cons.2 ⟨fun e he hlower => ?_, hcs⟩
    have halpha := hhead e he hlower
    rw [hc] at halpha
    simp at halpha
  | cons e before ih =>
    rw [List.forall_mem_cons] at hbefore
    refine List.isChain_cons_cons.2 ⟨fun hlower => ?_, ih hbefore.2⟩
    rw [hbefore.1] at hlower
    simp at hlower

/-- In title case a lowercase letter stands directly after a letter, also once all else is dropped; `c` is the character
before the text. -/
theorem isChain_filter_titleCase (c : Char) (cs : List Char) :
    (c :: (titleCase (!c.isAlpha) cs).filter isNameChar).IsChain Joined := by
  induction cs generalizing c with
  | nil => exact .singleton c
  | cons d ds ih =>
    rw [titleCase, List.filter_append]
    cases hd : d.isAlpha with
    | true =>
      -- a letter is kept, in whatever case
      have hletter : ∀ e : Char, e.isAlpha = true → (e :: (titleCase false ds).filter isNameChar).IsChain Joined := by
        intro e he
        have hchain := ih e
        rw [he] at hchain
        exact hchain
      cases hc : c.isAlpha with
      | true =>
        rw [Bool.not_true, if_neg (by simp), List.filter_cons_of_pos (isNameChar_of_isAlpha hd)]
        exact List.isChain_cons_cons.2 ⟨joined_of_isAlpha hc d, hletter d hd⟩
      | false =>
        have hupper : d.toUpper.isAlpha = true := by simpa using hd
        rw [Bool.not_false, if_pos rfl, uppercase_of_isAlphanum (by rw [Char.isAlphanum, hd, Bool.true_or]),
          List.filter_cons_of_pos (isNameChar_of_isAlpha hupper)]
        exact List.isChain_cons_cons.2 ⟨fun hlower => by simp at hlower, hletter _ hupper⟩
    | false =>
      -- no letter at all, or one that was raised
      have hchain := ih d
      rw [hd] at hchain
      refine isChain_append (fun e he => ?_) hchain hd
      have hmem := (List.mem_filter.1 he).1
      split at hmem
      · exact isLower_of_mem_uppercase hmem
      · obtain rfl : e = d := by simpa using hmem
        rw [← Bool.not_eq_true]
        intro hlower
        simp [isAlpha_of_isLower hlower] at hd

/-- Title case keeps letters and digits. -/
theorem any_isAlphanum_titleCase (atStart : Bool) (h : cs.any Char.isAlphanum = true) :
    (titleCase atStart cs).any Char.isAlphanum = true := by
  induction cs generalizing atStart with
  | nil => simp at h
  | cons c cs ih =>
    rw [titleCase, List.any_append, Bool.or_eq_true]
    rw [List.any_cons, Bool.or_eq_true] at h
    rcases h with hc | hcs
    · left
      cases atStart with
      | true => simp [uppercase_of_isAlphanum hc, isAlphanum_toUpper, hc]
      | false => simp [hc]
    · exact Or.inr (ih _ hcs)

/-! ## The Pascal form -/

/-- What the Pascal form of a name looks like. -/
structure IsPascal (cs : List Char) : Prop where
  isNameChar : ∀ c ∈ cs, isNameChar c = true
  isAlphanum : ∃ c ∈ cs, c.isAlphanum = true
  /-- A lowercase letter stands directly after a letter. -/
  isLower : ∀ before c after, cs = before ++ c :: after → c.isLower = true → ∃ d ∈ before.getLast?, d.isAlpha = true

theorem normalize?_eq_some_iff {raw : String} {name : Name} :
    normalize? raw = some name ↔ (pascalChars raw.toList).any Char.isAlphanum = true ∧
      name = ⟨.ofList (pascalChars raw.toList), .ofList (lowerFirst (pascalChars raw.toList))⟩ := by
  simp only [normalize?]
  split
  · next h => simp [h, eq_comm]
  · next h => simp [h]

theorem any_isAlphanum_of_raw (h : cs.any Char.isAlphanum = true) : (pascalChars cs).any Char.isAlphanum = true := by
  rw [pascalChars, any_isAlphanum_filter_isNameChar]
  refine any_isAlphanum_titleCase true ?_
  rwa [any_isAlphanum_lowerRuns, any_isAlphanum_joinWords]

theorem isPascal_pascalChars (h : (pascalChars cs).any Char.isAlphanum = true) : IsPascal (pascalChars cs) where
  isNameChar _ := isNameChar_of_mem_pascalChars
  isAlphanum := List.any_eq_true.1 h
  isLower before c after heq hlower := by
    -- what stands before the text counts as a non-letter
    have hchain : ('_' :: pascalChars cs).IsChain Joined :=
      isChain_filter_titleCase '_' (lowerRuns false (joinWords cs))
    rw [heq, ← List.cons_append, List.isChain_append, List.getLast?_cons] at hchain
    have halpha := hchain.2.2 _ rfl c rfl hlower
    cases hlast : before.getLast? with
    | none => simp [hlast] at halpha
    | some d => exact ⟨d, rfl, by simpa [hlast] using halpha⟩

/-- The Pascal form does not begin with a lowercase letter. -/
theorem IsPascal.head (h : IsPascal cs) : ∀ c ∈ cs.head?, c.isLower = false := by
  intro c hc
  rw [← Bool.not_eq_true]
  intro hlower
  obtain ⟨rest, rfl⟩ := List.head?_eq_some_iff.1 hc
  obtain ⟨d, hd, -⟩ := h.isLower [] c rest rfl hlower
  simp at hd

/-! ## The camel form -/

/-- Only a lowercase letter becomes the same as another character when both are lowered. -/
theorem toLower_inj (hc : c.isLower = false) (hd : d.isLower = false) (h : c.toLower = d.toLower) : c = d :=
  calc c = c.toLower.toUpper := by rw [Char.toUpper_toLower_eq_toUpper, toUpper_of_not_isLower hc]
    _ = d.toLower.toUpper := by rw [h]
    _ = d := by rw [Char.toUpper_toLower_eq_toUpper, toUpper_of_not_isLower hd]

theorem lowerFirst_inj (hcs : ∀ c ∈ cs.head?, c.isLower = false) (hds : ∀ d ∈ ds.head?, d.isLower = false) :
    lowerFirst cs = lowerFirst ds ↔ cs = ds := by
  refine ⟨fun h => ?_, fun h => by rw [h]⟩
  match cs, ds with
  | [], [] => rfl
  | [], d :: ds => simp [lowerFirst] at h
  | c :: cs, [] => simp [lowerFirst] at h
  | c :: cs, d :: ds =>
    obtain ⟨hfirst, hrest⟩ := List.cons.inj h
    rw [toLower_inj (hcs c rfl) (hds d rfl) hfirst, hrest]

theorem isPascal_of_normalize? {raw : String} {name : Name} (h : normalize? raw = some name) :
    IsPascal name.pascal.toList := by
  obtain ⟨hany, rfl⟩ := normalize?_eq_some_iff.1 h
  rw [String.toList_ofList]
  exact isPascal_pascalChars hany

/-- A text with a letter or a digit has a name. The Pascal form of a name has letters, digits and underscores only, at
least one letter or digit among them, and every lowercase letter directly after a letter. Two names have the same camel
form exactly if they have the same Pascal form. -/
theorem normalize?_sound (raw raw' : String) :
    (raw.toList.any Char.isAlphanum = true → (normalize? raw).isSome = true) ∧
      ∀ name, normalize? raw = some name →
        IsPascal name.pascal.toList ∧
          ∀ name', normalize? raw' = some name' → (name.camel = name'.camel ↔ name.pascal = name'.pascal) := by
  constructor
  · intro h
    rw [Option.isSome_iff_exists]
    exact ⟨_, normalize?_eq_some_iff.2 ⟨any_isAlphanum_of_raw h, rfl⟩⟩
  · intro name hname
    have hpascal := isPascal_of_normalize? hname
    refine ⟨hpascal, fun name' hname' => ?_⟩
    have hpascal' := isPascal_of_normalize? hname'
    rw [← String.toList_inj, ← String.toList_inj, camel_eq_lowerFirst hname, camel_eq_lowerFirst hname',
      lowerFirst_inj hpascal.head hpascal'.head]

/-- A sharp s is raised to two letters; the names of two spellings that differ have both forms different. -/
theorem normalize?_sound_sharp :
    normalize? "ß" = some ⟨"SS", "sS"⟩ ∧ normalize? "s-t" = some ⟨"ST", "sT"⟩ ∧ (normalize? "s-t").isSome = true ∧
      IsPascal "SS".toList ∧ ("sS" = "sT" ↔ "SS" = "ST") := by
  have hname : normalize? "ß" = some ⟨"SS", "sS"⟩ := by decide
  have hname' : normalize? "s-t" = some ⟨"ST", "sT"⟩ := by decide
  obtain ⟨hpascal, hcamel⟩ := (normalize?_sound "ß" "s-t").2 _ hname
  exact ⟨hname, hname', (normalize?_sound "s-t" "ß").1 (by decide), hpascal, hcamel _ hname'⟩

end GetSet.Name
