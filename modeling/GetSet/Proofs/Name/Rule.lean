import GetSet.Proofs.Name.Passes

/-!
# One rule for all passes

On ASCII text the passes over a name amount to one walk from left to right. A non-letter is dropped exactly if a
lowercase letter comes next. A kept letter is raised if it is uppercase or stands directly after a non-letter, dropped
or not; it is written in uppercase if it is the first kept character, or if it is raised and the kept character before
it is not a raised letter. `normalize?_eq_rule` says that this is what `normalize?` does.
-/

namespace GetSet.Name

open Text

/-! ## The rule -/

/-- A character that a name keeps, and whether it is a raised letter. -/
structure Kept where
  char : Char
  raised : Bool
deriving DecidableEq, Repr

/-- The characters that are kept; `afterSeparator` tells whether a non-letter stands before the first one. -/
def keep (afterSeparator : Bool) : List Char → List Kept
  | [] => []
  | c :: cs =>
    if !c.isAlpha && cs.head?.any Char.isLower then keep true cs
    else ⟨c, c.isAlpha && (c.isUpper || afterSeparator)⟩ :: keep (!c.isAlpha) cs

/-- How kept characters are written; `first` tells whether the first one comes first of all, and `afterRaised` whether a
raised letter stands before it. -/
def spell (first afterRaised : Bool) : List Kept → List Char
  | [] => []
  | k :: ks =>
    (if k.char.isAlpha then
      if first || (k.raised && !afterRaised) then k.char.toUpper else k.char.toLower
    else k.char) :: spell false k.raised ks

/-- The Pascal form of an ASCII text. -/
def pascalOf (raw : List Char) : List Char :=
  (spell true false (keep false raw)).filter isNameChar

example : pascalOf "-expiry MONTH_2".toList = "ExpiryMonth_2".toList := by decide

/-! ## Joining words keeps these characters -/

variable {cs : List Char}

namespace Kept

/-- What a kept character becomes when words are joined. -/
def joined (k : Kept) : Char :=
  if k.raised then k.char.toUpper else k.char

/-- Raised characters are letters, and uppercase letters are raised. -/
structure IsSound (k : Kept) : Prop where
  isAlpha : k.raised = true → k.char.isAlpha = true
  raised : k.char.isUpper = true → k.raised = true

theorem IsSound.isUpper_joined {k : Kept} (h : k.IsSound) : k.joined.isUpper = k.raised := by
  rw [joined]
  cases hraised : k.raised with
  | true => simp [h.isAlpha hraised]
  | false =>
    cases hupper : k.char.isUpper with
    | true => simp [h.raised hupper] at hraised
    | false => simpa using hupper

end Kept

theorem isSound_of_mem_keep {afterSeparator : Bool} {k : Kept} (hk : k ∈ keep afterSeparator cs) : k.IsSound := by
  induction cs generalizing afterSeparator with
  | nil => simp [keep] at hk
  | cons c cs ih =>
    rw [keep] at hk
    split at hk
    · exact ih hk
    · rcases List.mem_cons.1 hk with rfl | hk
      · constructor
        · intro hraised
          exact (Bool.and_eq_true_iff.1 hraised).1
        · intro hupper
          simp only at hupper
          simp [hupper, isAlpha_of_isUpper hupper]
      · exact ih hk

/-- A character stays as it is unless it is a lowercase letter after a non-letter. -/
theorem Kept.joined_eq {c : Char} {afterSeparator : Bool} (h : afterSeparator = true → c.isLower = false) :
    Kept.joined ⟨c, c.isAlpha && (c.isUpper || afterSeparator)⟩ = c := by
  rw [joined]
  split
  · next hraised =>
    refine toUpper_of_not_isLower ?_
    cases hupper : c.isUpper with
    | true => simpa using Char.not_isLower_of_isUpper hupper
    | false => exact h (by simpa [hupper] using (Bool.and_eq_true_iff.1 hraised).2)
  · rfl

/-- Joining words keeps these characters and raises letters after non-letters. What stands before the text matters only
to a lowercase letter. -/
theorem map_joined_keep {afterSeparator : Bool} (h : afterSeparator = true → ∀ c ∈ cs.head?, c.isLower = false) :
    (keep afterSeparator cs).map Kept.joined = joinWords cs := by
  fun_induction joinWords cs generalizing afterSeparator with
  | case1 c d cs hword ih =>
    obtain ⟨hc, hd⟩ : c.isAlpha = false ∧ d.isLower = true := by simpa using hword
    have hdalpha := isAlpha_of_isLower hd
    -- the non-letter is dropped, and the letter after it is raised
    rw [keep, if_pos (by simp [hc, hd]), keep, if_neg (by simp [hdalpha]), hdalpha, List.map_cons, Kept.joined,
      Bool.or_true, Bool.and_true, if_pos rfl, Bool.not_true, ih (by simp)]
  | case2 c d cs hword ih =>
    rw [keep, if_neg (by simpa using hword), List.map_cons, Kept.joined_eq fun hafter => h hafter c rfl, ih]
    intro hc e he
    obtain rfl : d = e := by simpa using he
    simpa [show c.isAlpha = false by simpa using hc] using hword
  | case3 cs hshort =>
    rcases cs with _ | ⟨c, _ | ⟨d, cs⟩⟩
    · rfl
    · rw [keep, if_neg (by simp), List.map_cons, Kept.joined_eq fun hafter => h hafter c rfl]
      rfl
    · exact absurd rfl (hshort c d cs)

/-! ## Lowering runs and raising the first character spell them -/

theorem lowerRuns_map_joined {ks : List Kept} (h : ∀ k ∈ ks, k.IsSound) (afterRaised : Bool) :
    lowerRuns afterRaised (ks.map Kept.joined) = spell false afterRaised ks := by
  induction ks generalizing afterRaised with
  | nil => rfl
  | cons k ks ih =>
    rw [List.forall_mem_cons] at h
    rw [List.map_cons, lowerRuns_cons, h.1.isUpper_joined, ih h.2, spell]
    congr 1
    rw [Kept.joined]
    cases hraised : k.raised with
    | true => cases afterRaised <;> simp [h.1.isAlpha hraised]
    | false =>
      have hlower : k.char.toLower = k.char := by
        refine toLower_of_not_isUpper ?_
        rw [← Bool.not_eq_true]
        intro hupper
        simp [h.1.raised hupper] at hraised
      simp [hlower]

theorem raiseFirst_spell (afterRaised : Bool) (ks : List Kept) :
    raiseFirst (spell false afterRaised ks) = spell true afterRaised ks := by
  cases ks with
  | nil => rfl
  | cons k ks =>
    rw [spell, spell, raiseFirst]
    congr 1
    cases halpha : k.char.isAlpha with
    | true =>
      rw [if_pos rfl, if_pos rfl, Bool.true_or, if_pos rfl]
      split <;> simp
    | false =>
      have hlower : k.char.isLower = false := by
        rw [← Bool.not_eq_true]
        intro hlower
        simp [isAlpha_of_isLower hlower] at halpha
      simp [toUpper_of_not_isLower hlower]

/-- ASCII characters have ASCII characters for case forms. -/
theorem toNat_toUpper_lt {c : Char} (h : c.toNat < 128) : c.toUpper.toNat < 128 := by
  rw [toNat_toUpper]
  split <;> omega

theorem toNat_toLower_lt {c : Char} (h : c.toNat < 128) : c.toLower.toNat < 128 := by
  rw [toNat_toLower]
  split
  · next hupper =>
    have := le_iff_toNat_le.1 hupper.2
    have : 'Z'.toNat = 90 := rfl
    omega
  · exact h

/-- On ASCII text the passes are: join words, lower runs, raise the first character, and drop what is no name
character. -/
theorem pascalChars_of_ascii (h : ∀ c ∈ cs, c.toNat < 128) :
    pascalChars cs = (raiseFirst (lowerRuns false (joinWords cs))).filter isNameChar := by
  have hascii : ∀ c ∈ lowerRuns false (joinWords cs), c.toNat < 128 :=
    forall_mem_lowerRuns (P := (·.toNat < 128)) (fun _ => toNat_toLower_lt) false
      (forall_mem_joinWords (fun _ => toNat_toUpper_lt) h)
  rw [pascalChars, titleCase_eq_raiseFirst hascii (joined_lowerRuns (isChain_joinWords cs))]

theorem pascalChars_eq_pascalOf (h : ∀ c ∈ cs, c.toNat < 128) : pascalChars cs = pascalOf cs := by
  have hsound : ∀ k ∈ keep false cs, k.IsSound := fun k => isSound_of_mem_keep
  have hjoined : (keep false cs).map Kept.joined = joinWords cs := map_joined_keep (by simp)
  rw [pascalChars_of_ascii h, pascalOf, ← hjoined, lowerRuns_map_joined hsound, raiseFirst_spell]

theorem any_isAlphanum_pascalChars (h : ∀ c ∈ cs, c.toNat < 128) :
    (pascalChars cs).any Char.isAlphanum = cs.any Char.isAlphanum := by
  rw [pascalChars_of_ascii h, any_isAlphanum_filter_isNameChar, any_isAlphanum_raiseFirst, any_isAlphanum_lowerRuns,
    any_isAlphanum_joinWords]

theorem letters_pascalChars (h : ∀ c ∈ cs, c.toNat < 128) : letters (pascalChars cs) = letters cs := by
  rw [pascalChars_of_ascii h, letters_filter_isNameChar, letters_raiseFirst, letters_lowerRuns, letters_joinWords]

/-- On ASCII text a name is found exactly if there is a letter or a digit, its Pascal form is what the rule says, and
its camel form is that with the first character lowered. The rule loses, doubles and moves no letter. -/
theorem normalize?_eq_rule {raw : String} (hascii : ∀ c ∈ raw.toList, c.toNat < 128) :
    normalize? raw =
        (if raw.toList.any Char.isAlphanum then
          some { pascal := .ofList (pascalOf raw.toList), camel := .ofList (lowerFirst (pascalOf raw.toList)) }
        else
          none) ∧
      letters (pascalOf raw.toList) = letters raw.toList := by
  rw [← pascalChars_eq_pascalOf hascii]
  refine ⟨?_, letters_pascalChars hascii⟩
  rw [normalize?, any_isAlphanum_pascalChars hascii]

/-- A hyphen is no name character but still keeps two runs apart. -/
theorem normalize?_eq_rule_runs :
    (∀ c ∈ "AB-CD _x_".toList, c.toNat < 128) ∧ normalize? "AB-CD _x_" = some ⟨"AbCdX_", "abCdX_"⟩ := by
  have hascii : ∀ c ∈ "AB-CD _x_".toList, c.toNat < 128 := by simp
  refine ⟨hascii, ?_⟩
  rw [(normalize?_eq_rule hascii).1]
  decide

end GetSet.Name
