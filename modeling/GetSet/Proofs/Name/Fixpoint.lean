import GetSet.Proofs.Name.Forms
import GetSet.Proofs.Name.Rule

/-!
# Names that are normalized again

A raw name of letters, digits and underscores, as a tag has one, gives a field name that is normalized to itself. The
accessor suffix is normalized to itself unless it begins with two uppercase letters, the second of which is lowered
then (`normalize?_camel`).
-/

namespace GetSet.Name

variable {c : Char} {cs : List Char}

theorem isNameChar_toUpper (h : isNameChar c = true) : isNameChar c.toUpper = true := by
  rw [isNameChar, Bool.or_eq_true] at h
  rcases h with h | h
  · rw [isNameChar, isAlphanum_toUpper, h, Bool.true_or]
  · obtain rfl := beq_iff_eq.1 h
    decide

/-! ## Tidy texts -/

/-- What the first two passes leave of a text: no lowercase letter after a non-letter, and no two uppercase letters side
by side. -/
structure IsTidy (cs : List Char) : Prop where
  isNameChar : ∀ c ∈ cs, isNameChar c = true
  joined : cs.IsChain Joined
  apart : cs.IsChain Apart

theorem isTidy_lowerRuns (hname : ∀ c ∈ cs, isNameChar c = true) : IsTidy (lowerRuns false (joinWords cs)) where
  isNameChar :=
    forall_mem_lowerRuns (P := (isNameChar · = true)) (fun _ => isNameChar_toLower) false
      (forall_mem_joinWords (fun _ => isNameChar_toUpper) hname)
  joined := joined_lowerRuns (isChain_joinWords cs)
  apart := isChain_lowerRuns false (joinWords cs)

/-- Name characters all stay. -/
theorem pascalChars_of_isNameChar (hname : ∀ c ∈ cs, isNameChar c = true) :
    pascalChars cs = raiseFirst (lowerRuns false (joinWords cs)) := by
  have hraised : ∀ c ∈ raiseFirst (lowerRuns false (joinWords cs)), isNameChar c = true := by
    have htidy := (isTidy_lowerRuns hname).isNameChar
    cases hcs : lowerRuns false (joinWords cs) with
    | nil => simp [raiseFirst]
    | cons c cs =>
      rw [hcs, List.forall_mem_cons] at htidy
      rw [raiseFirst, List.forall_mem_cons]
      exact ⟨isNameChar_toUpper htidy.1, htidy.2⟩
  rw [pascalChars_of_ascii fun c hc => toNat_lt_of_isNameChar (hname c hc), List.filter_eq_self.2 hraised]

namespace IsTidy

/-- A change of the case of the first character separates no words. -/
theorem joined_cons {d : Char} (h : IsTidy (c :: cs)) (hd : d.isAlpha = c.isAlpha) : (d :: cs).IsChain Joined := by
  obtain ⟨hhead, hcs⟩ := List.isChain_cons.1 h.joined
  refine List.isChain_cons.2 ⟨fun e he hlower => ?_, hcs⟩
  rw [hd]
  exact hhead e he hlower

/-- With its first character lowered a tidy text is normalized as it is. -/
theorem pascalChars_lowerFirst (h : IsTidy cs) : pascalChars (lowerFirst cs) = raiseFirst cs := by
  cases cs with
  | nil => rfl
  | cons c cs =>
    have hname := h.isNameChar
    rw [List.forall_mem_cons] at hname
    have hapart : (c.toLower :: cs).IsChain Apart :=
      List.isChain_cons.2 ⟨fun e _ hupper => by simp at hupper, (List.isChain_cons.1 h.apart).2⟩
    rw [lowerFirst, pascalChars_of_isNameChar (List.forall_mem_cons.2 ⟨isNameChar_toLower hname.1, hname.2⟩),
      joinWords_of_isChain (h.joined_cons (by simp)), lowerRuns_of_isChain false hapart, if_neg (by simp), raiseFirst,
      raiseFirst, Char.toUpper_toLower_eq_toUpper]

/-- With its first letter raised a tidy text is normalized as it is, but for a second uppercase letter. -/
theorem pascalChars_raise (h : IsTidy (c :: cs)) :
    pascalChars (c.toUpper :: cs) = c.toUpper :: if c.isAlpha then lowerFirst cs else cs := by
  have hname := h.isNameChar
  rw [List.forall_mem_cons] at hname
  rw [pascalChars_of_isNameChar (List.forall_mem_cons.2 ⟨isNameChar_toUpper hname.1, hname.2⟩),
    joinWords_of_isChain (h.joined_cons (by simp)), lowerRuns_cons, if_neg (by simp), raiseFirst,
    lowerRuns_of_isChain _ (List.isChain_cons.1 h.apart).2, Char.toUpper_toUpper_eq_toUpper,
    Char.isUpper_toUpper_eq_isAlpha]

end IsTidy

/-! ## Fixed points -/

/-- The text begins with two uppercase letters. -/
def BeginsWithRun (cs : List Char) : Prop :=
  ∃ c d rest, cs = c :: d :: rest ∧ c.isUpper = true ∧ d.isUpper = true

theorem lowerFirst_eq_self_iff : lowerFirst cs = cs ↔ ∀ c ∈ cs.head?, c.isUpper = false := by
  cases cs with
  | nil => simp [lowerFirst]
  | cons c cs =>
    simp only [lowerFirst, List.cons.injEq, and_true, List.head?_cons, Option.mem_some_iff, forall_eq']
    refine ⟨fun h => ?_, toLower_of_not_isUpper⟩
    rw [← h]
    simp

/-- A Pascal form that comes from name characters is normalized to itself unless it begins with two uppercase
letters. -/
theorem IsTidy.pascalChars_raiseFirst_iff (h : IsTidy cs) :
    pascalChars (raiseFirst cs) = raiseFirst cs ↔ ¬ BeginsWithRun (raiseFirst cs) := by
  match cs, h with
  | [], _ => exact iff_of_true rfl (by rintro ⟨c, d, rest, heq, -⟩; simp [raiseFirst] at heq)
  | c :: cs, h =>
    have hrun : BeginsWithRun (c.toUpper :: cs) ↔ c.isAlpha = true ∧ ∃ d ∈ cs.head?, d.isUpper = true := by
      constructor
      · rintro ⟨_, d, rest, heq, hc, hd⟩
        obtain ⟨rfl, rfl⟩ := List.cons.inj heq
        exact ⟨by simpa using hc, d, rfl, hd⟩
      · rintro ⟨hc, d, hd, hupper⟩
        obtain ⟨rest, rfl⟩ := List.head?_eq_some_iff.1 hd
        exact ⟨_, d, rest, rfl, by simpa using hc, hupper⟩
    rw [raiseFirst, h.pascalChars_raise, hrun, List.cons.injEq, and_iff_right rfl]
    cases hc : c.isAlpha with
    | true => simp [lowerFirst_eq_self_iff]
    | false => simp

/-- The camel form of a raw name of letters, digits and underscores is normalized to the same name. Its Pascal form is
too, unless that begins with two uppercase letters. -/
theorem normalize?_camel {raw : String} {name : Name} (hraw : ∀ c ∈ raw.toList, isNameChar c = true)
    (h : normalize? raw = some name) :
    normalize? name.camel = some name ∧
      (normalize? name.pascal = some name ↔ ¬ BeginsWithRun name.pascal.toList) := by
  obtain ⟨hany, rfl⟩ := normalize?_eq_some_iff.1 h
  have htidy := isTidy_lowerRuns hraw
  have hpascal := pascalChars_of_isNameChar hraw
  have hcamel : lowerFirst (pascalChars raw.toList) = lowerFirst (lowerRuns false (joinWords raw.toList)) := by
    rw [hpascal]
    cases lowerRuns false (joinWords raw.toList) with
    | nil => rfl
    | cons c cs => simp [raiseFirst, lowerFirst]
  constructor
  · have hagain : pascalChars (lowerFirst (pascalChars raw.toList)) = pascalChars raw.toList := by
      rw [hcamel, htidy.pascalChars_lowerFirst, hpascal]
    rw [normalize?_eq_some_iff, String.toList_ofList, hagain]
    exact ⟨hany, rfl⟩
  · rw [normalize?_eq_some_iff, String.toList_ofList]
    have hiff := htidy.pascalChars_raiseFirst_iff
    rw [← hpascal] at hiff
    rw [← hiff]
    constructor
    · rintro ⟨-, hname⟩
      exact (String.ofList_injective (Name.mk.inj hname).1).symm
    · intro hagain
      rw [hagain]
      exact ⟨hany, rfl⟩

/-- Both cases: the Pascal form `ABtest` begins with two uppercase letters, and `CardNo` does not. -/
theorem normalize?_camel_cases :
    (normalize? "a_bTest" = some ⟨"ABtest", "aBtest"⟩ ∧ normalize? "aBtest" = some ⟨"ABtest", "aBtest"⟩ ∧
      normalize? "ABtest" ≠ some ⟨"ABtest", "aBtest"⟩) ∧
    normalize? "card_no" = some ⟨"CardNo", "cardNo"⟩ ∧ normalize? "cardNo" = some ⟨"CardNo", "cardNo"⟩ ∧
      normalize? "CardNo" = some ⟨"CardNo", "cardNo"⟩ := by
  have htest : normalize? "a_bTest" = some ⟨"ABtest", "aBtest"⟩ := by decide
  have hcard : normalize? "card_no" = some ⟨"CardNo", "cardNo"⟩ := by decide
  obtain ⟨hcamel, hpascal⟩ := normalize?_camel (by simp [isNameChar]) htest
  obtain ⟨hcamel', hpascal'⟩ := normalize?_camel (by simp [isNameChar]) hcard
  refine ⟨⟨htest, hcamel, fun hsame => hpascal.1 hsame ?_⟩, hcard, hcamel', hpascal'.2 ?_⟩
  · exact ⟨'A', 'B', "test".toList, by decide, by decide, by decide⟩
  · rintro ⟨c, d, rest, heq, -, hd⟩
    have hsecond : "CardNo".toList = 'C' :: 'a' :: "rdNo".toList := by decide
    rw [hsecond] at heq
    obtain ⟨-, hrest⟩ := List.cons.inj heq
    obtain ⟨rfl, -⟩ := List.cons.inj hrest
    exact absurd hd (by decide)

end GetSet.Name
