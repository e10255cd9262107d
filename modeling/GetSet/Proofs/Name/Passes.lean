import Mathlib
import GetSet.Name
import GetSet.Proofs.Text.Ascii

/-!
# The passes over a name

What each pass of `Name.pascalChars` leaves behind. Joining words leaves no lowercase letter after a non-letter
(`Joined`), and lowering runs leaves no two uppercase letters side by side (`Apart`); a pass leaves a text alone that is
like this already. No pass loses, doubles or moves a letter (`letters`).
-/

namespace GetSet.Name

open Text

/-! ## Texts that are tidy -/

/-- A lowercase letter may only stand after a letter. -/
def Joined (c d : Char) : Prop :=
  d.isLower = true → c.isAlpha = true

/-- Two uppercase letters may not stand side by side. -/
def Apart (c d : Char) : Prop :=
  c.isUpper = true → d.isUpper = false

/-- Raises the first character. -/
def raiseFirst : List Char → List Char
  | [] => []
  | c :: cs => c.toUpper :: cs

/-- The letters of a text in order, all in lowercase. -/
def letters (cs : List Char) : List Char :=
  (cs.filter Char.isAlpha).map Char.toLower

variable {c d : Char} {cs : List Char}

theorem joined_of_isAlpha (h : c.isAlpha = true) (d : Char) : Joined c d :=
  fun _ => h

theorem isAlpha_of_isUpper (h : c.isUpper = true) : c.isAlpha = true := by
  rw [Char.isAlpha, h, Bool.true_or]

theorem isAlpha_of_isLower (h : c.isLower = true) : c.isAlpha = true := by
  rw [Char.isAlpha, h, Bool.or_true]

theorem toUpper_of_not_isLower (h : c.isLower = false) : c.toUpper = c :=
  Char.toUpper_eq_of_not_isLower (by simp [h])

theorem toLower_of_not_isUpper (h : c.isUpper = false) : c.toLower = c :=
  Char.toLower_eq_of_not_isUpper (by simp [h])

theorem isAlphanum_toUpper (c : Char) : c.toUpper.isAlphanum = c.isAlphanum := by
  cases hlower : c.isLower with
  | true => simp [Char.isAlphanum, isAlpha_of_isLower hlower]
  | false => rw [toUpper_of_not_isLower hlower]

theorem isAlphanum_toLower (c : Char) : c.toLower.isAlphanum = c.isAlphanum := by
  cases hupper : c.isUpper with
  | true => simp [Char.isAlphanum, isAlpha_of_isUpper hupper]
  | false => rw [toLower_of_not_isUpper hupper]

theorem isNameChar_of_isAlpha (h : c.isAlpha = true) : isNameChar c = true := by
  simp [isNameChar, Char.isAlphanum, h]

theorem letters_cons (c : Char) (cs : List Char) :
    letters (c :: cs) = if c.isAlpha then c.toLower :: letters cs else letters cs := by
  rw [letters, List.filter_cons]
  split <;> rfl

theorem letters_filter_isNameChar (cs : List Char) : letters (cs.filter isNameChar) = letters cs := by
  rw [letters, List.filter_filter, letters]
  congr 2
  funext c
  by_cases h : c.isAlpha = true
  · simp [h, isNameChar_of_isAlpha h]
  · simp [h]

theorem any_isAlphanum_filter_isNameChar (cs : List Char) :
    (cs.filter isNameChar).any Char.isAlphanum = cs.any Char.isAlphanum := by
  rw [List.any_filter]
  congr 1
  funext c
  cases h : c.isAlphanum <;> simp [isNameChar, h]

/-! ## Joining words -/

/-- What is true of all characters and stays so when one is raised is still true when words are joined. -/
theorem forall_mem_joinWords {P : Char → Prop} (hP : ∀ c, P c → P c.toUpper) (h : ∀ c ∈ cs, P c) :
    ∀ c ∈ joinWords cs, P c := by
  fun_induction joinWords cs with
  | case1 c d cs _ ih =>
    simp only [List.forall_mem_cons] at h ⊢
    exact ⟨hP d h.2.1, ih h.2.2⟩
  | case2 c d cs _ ih =>
    rw [List.forall_mem_cons] at h ⊢
    exact ⟨h.1, ih h.2⟩
  | case3 => exact h

/-- Only the first letter of the first word can be lowercase at the front. -/
theorem eq_of_mem_head?_joinWords (h : d ∈ (joinWords (c :: cs)).head?) (hlower : d.isLower = true) : d = c := by
  cases cs with
  | nil =>
    simpa [joinWords, eq_comm] using h
  | cons e es =>
    rw [joinWords] at h
    split at h
    · obtain rfl : e.toUpper = d := by simpa using h
      simp at hlower
    · simpa [eq_comm] using h

theorem isChain_joinWords (cs : List Char) : (joinWords cs).IsChain Joined := by
  fun_induction joinWords cs with
  | case1 c d cs hword ih =>
    rw [Bool.and_eq_true] at hword
    exact List.isChain_cons.2 ⟨fun e _ => joined_of_isAlpha (by simp [isAlpha_of_isLower hword.2]) e, ih⟩
  | case2 c d cs hword ih =>
    refine List.isChain_cons.2 ⟨fun e he hlower => ?_, ih⟩
    obtain rfl := eq_of_mem_head?_joinWords he hlower
    simpa [hlower] using hword
  | case3 cs hshort =>
    match cs, hshort with
    | [], _ => exact .nil
    | [c], _ => exact .singleton c
    | c :: d :: cs, hshort => exact absurd rfl (hshort c d cs)

theorem joinWords_of_isChain (h : cs.IsChain Joined) : joinWords cs = cs := by
  fun_induction joinWords cs with
  | case1 c d cs hword ih =>
    rw [Bool.and_eq_true] at hword
    have halpha := (List.isChain_cons_cons.1 h).1 hword.2
    simp [halpha] at hword
  | case2 c d cs _ ih => rw [ih (List.isChain_cons_cons.1 h).2]
  | case3 => rfl

theorem letters_joinWords (cs : List Char) : letters (joinWords cs) = letters cs := by
  fun_induction joinWords cs with
  | case1 c d cs hword ih =>
    obtain ⟨hc, hd⟩ : c.isAlpha = false ∧ d.isLower = true := by simpa using hword
    simp [letters_cons, hc, isAlpha_of_isLower hd, ih]
  | case2 c d cs _ ih => rw [letters_cons, letters_cons, ih]
  | case3 => rfl

/-- A digit is only dropped before a letter. -/
theorem any_isAlphanum_joinWords (cs : List Char) : (joinWords cs).any Char.isAlphanum = cs.any Char.isAlphanum := by
  fun_induction joinWords cs with
  | case1 c d cs hword ih =>
    have hd : d.isAlpha = true := isAlpha_of_isLower (Bool.and_eq_true_iff.1 hword).2
    simp [Char.isAlphanum, hd]
  | case2 c d cs _ ih => rw [List.any_cons, List.any_cons, ih]
  | case3 => rfl

/-! ## Lowering runs -/

theorem forall_mem_lowerRuns {P : Char → Prop} (hP : ∀ c, P c → P c.toLower) (inRun : Bool) (h : ∀ c ∈ cs, P c) :
    ∀ c ∈ lowerRuns inRun cs, P c := by
  fun_induction lowerRuns inRun cs with
  | case1 => exact h
  | case2 inRun c cs _ ih =>
    rw [List.forall_mem_cons] at h ⊢
    refine ⟨?_, ih h.2⟩
    split
    · exact hP c h.1
    · exact h.1
  | case3 inRun c cs _ ih =>
    rw [List.forall_mem_cons] at h ⊢
    exact ⟨h.1, ih h.2⟩

theorem lowerRuns_cons (inRun : Bool) (c : Char) (cs : List Char) :
    lowerRuns inRun (c :: cs) = (if inRun then c.toLower else c) :: lowerRuns c.isUpper cs := by
  rw [lowerRuns]
  cases hupper : c.isUpper with
  | true => rfl
  | false => simp [toLower_of_not_isUpper hupper]

/-- After an uppercase letter stands no other one. -/
theorem isUpper_of_mem_head?_lowerRuns (h : d ∈ (lowerRuns true cs).head?) : d.isUpper = false := by
  cases cs with
  | nil => simp [lowerRuns] at h
  | cons c cs =>
    obtain rfl : c.toLower = d := by simpa [lowerRuns_cons] using h
    simp

theorem isChain_lowerRuns (inRun : Bool) (cs : List Char) : (lowerRuns inRun cs).IsChain Apart := by
  induction cs generalizing inRun with
  | nil => exact .nil
  | cons c cs ih =>
    rw [lowerRuns_cons]
    refine List.isChain_cons.2 ⟨fun d hd hupper => ?_, ih _⟩
    have hrun : c.isUpper = true := by
      split at hupper
      · simp at hupper
      · exact hupper
    rw [hrun] at hd
    exact isUpper_of_mem_head?_lowerRuns hd

/-- Lowering runs joins no words and separates none; `e` stands where `c` stood. -/
theorem isChain_cons_lowerRuns {e : Char} (he : e.isAlpha = c.isAlpha) (h : (c :: cs).IsChain Joined) :
    (e :: lowerRuns c.isUpper cs).IsChain Joined := by
  induction cs generalizing c e with
  | nil => exact .singleton e
  | cons d ds ih =>
    obtain ⟨hcd, hds⟩ := List.isChain_cons_cons.1 h
    rw [lowerRuns_cons]
    refine List.isChain_cons_cons.2 ⟨fun hlower => ?_, ih ?_ hds⟩
    · rw [he]
      cases hupper : c.isUpper with
      | true => exact isAlpha_of_isUpper hupper
      | false =>
        rw [hupper] at hlower
        exact hcd hlower
    · split <;> simp

theorem joined_lowerRuns (h : cs.IsChain Joined) : (lowerRuns false cs).IsChain Joined := by
  cases cs with
  | nil => exact .nil
  | cons c cs =>
    rw [lowerRuns_cons]
    exact isChain_cons_lowerRuns rfl h

/-- Where no two uppercase letters stand side by side at most the first character can belong to a run. -/
theorem lowerRuns_of_isChain (inRun : Bool) (h : cs.IsChain Apart) :
    lowerRuns inRun cs = if inRun then lowerFirst cs else cs := by
  induction cs generalizing inRun with
  | nil => cases inRun <;> rfl
  | cons c cs ih =>
    have hrest : lowerRuns c.isUpper cs = cs := by
      rw [ih _ (List.isChain_cons.1 h).2]
      split
      · next hupper =>
        cases cs with
        | nil => rfl
        | cons d ds => rw [lowerFirst, toLower_of_not_isUpper ((List.isChain_cons_cons.1 h).1 hupper)]
      · rfl
    rw [lowerRuns_cons, hrest]
    cases inRun <;> rfl

theorem letters_lowerRuns (inRun : Bool) (cs : List Char) : letters (lowerRuns inRun cs) = letters cs := by
  induction cs generalizing inRun with
  | nil => rfl
  | cons c cs ih =>
    rw [lowerRuns_cons, letters_cons, letters_cons, ih]
    split <;> simp

theorem any_isAlphanum_lowerRuns (inRun : Bool) (cs : List Char) :
    (lowerRuns inRun cs).any Char.isAlphanum = cs.any Char.isAlphanum := by
  induction cs generalizing inRun with
  | nil => rfl
  | cons c cs ih =>
    rw [lowerRuns_cons, List.any_cons, List.any_cons, ih]
    split
    · rw [isAlphanum_toLower]
    · rfl

/-! ## Title case -/

/-- Where words are joined only the first character is raised. -/
theorem titleCase_of_isChain (hascii : ∀ d ∈ cs, d.toNat < 128) (h : (c :: cs).IsChain Joined) :
    titleCase (!c.isAlpha) cs = cs := by
  induction cs generalizing c with
  | nil => rfl
  | cons d ds ih =>
    obtain ⟨hcd, hds⟩ := List.isChain_cons_cons.1 h
    rw [List.forall_mem_cons] at hascii
    rw [titleCase, ih hascii.2 hds]
    cases halpha : c.isAlpha with
    | true => rfl
    | false =>
      have hlower : d.isLower = false := by
        rw [← Bool.not_eq_true]
        intro hd
        simp [hcd hd] at halpha
      simp [uppercase_of_ascii hascii.1, toUpper_of_not_isLower hlower]

theorem titleCase_eq_raiseFirst (hascii : ∀ c ∈ cs, c.toNat < 128) (h : cs.IsChain Joined) :
    titleCase true cs = raiseFirst cs := by
  cases cs with
  | nil => rfl
  | cons c cs =>
    rw [List.forall_mem_cons] at hascii
    rw [titleCase, titleCase_of_isChain hascii.2 h, if_pos rfl, uppercase_of_ascii hascii.1]
    rfl

theorem letters_raiseFirst (cs : List Char) : letters (raiseFirst cs) = letters cs := by
  cases cs with
  | nil => rfl
  | cons c cs => simp [raiseFirst, letters_cons]

theorem any_isAlphanum_raiseFirst (cs : List Char) : (raiseFirst cs).any Char.isAlphanum = cs.any Char.isAlphanum := by
  cases cs with
  | nil => rfl
  | cons c cs => rw [raiseFirst, List.any_cons, List.any_cons, isAlphanum_toUpper]

end GetSet.Name
