import Mathlib.Data.List.Infix
import GetSet.Proofs.Text.Ascii
import GetSet.Proofs.Text.Run
import GetSet.Tag

/-!
# The grammar of tags

A tag is spelled as its keyword, a gap, a type and another gap if it has a type, and a name behind a `$`. `scan_exact`
says that a scan finds exactly the tags that stand in a text (`At`), one for each position and in their order. It
finds no other tags than a search that never looks back: one that takes the first match that it comes to and goes on
where that match ends (`Search`). Nothing is lost to an earlier match because the only `@` of a tag is its first
character.
-/

namespace GetSet.Tag

open Text

/-! ## Spelling -/

/-- The characters of a name: ASCII letters, digits and the underscore. -/
def InName (c : Char) : Prop :=
  ('A' ≤ c ∧ c ≤ 'Z') ∨ ('a' ≤ c ∧ c ≤ 'z') ∨ ('0' ≤ c ∧ c ≤ '9') ∨ c = '_'

/-- A name is as long as the characters allow. -/
structure IsName (name rest : List Char) : Prop where
  ne_nil : name ≠ []
  char : ∀ c ∈ name, InName c
  ends : ∀ c ∈ rest.head?, ¬ InName c

/-- A type. -/
structure IsType (type : List Char) : Prop where
  ne_nil : type ≠ []
  char : ∀ c ∈ type, InName c ∨ c = '\\'

/-- How the type of a tag, if it has one, and its name are spelled at the front of a text, and what follows them. -/
inductive TypeAndName : List Char → Tag → List Char → Prop where
  | untyped {name rest : List Char} (hname : IsName name rest) :
      TypeAndName ('$' :: (name ++ rest)) ⟨"", .ofList name⟩ rest
  | typed {type gap name rest : List Char} (htype : IsType type) (hgap : IsGap gap) (hname : IsName name rest) :
      TypeAndName (type ++ (gap ++ '$' :: (name ++ rest))) ⟨.ofList type, .ofList name⟩ rest

/-- How a tag is spelled at the front of a text, and what follows it. -/
inductive Spelled : List Char → Tag → List Char → Prop where
  | intro {gap cs rest : List Char} {tag : Tag} (hgap : IsGap gap) (htag : TypeAndName cs tag rest) :
      Spelled ("@property".toList ++ (gap ++ cs)) tag rest

/-- A tag stands at a position of a text: at its start or behind a line feed, a space or a tab. -/
structure At (text : List Char) (i : Nat) (tag : Tag) : Prop where
  boundary : ∀ c ∈ (text.take i).getLast?, c = '\n' ∨ c = ' ' ∨ c = '\t'
  spelled : ∃ rest, Spelled (text.drop i) tag rest

/-! ## Reading what is spelled -/

theorem isNameChar_iff {c : Char} : Name.isNameChar c = true ↔ InName c := by
  rw [Name.isNameChar, Bool.or_eq_true, isAlphanum_iff, beq_iff_eq, InName, or_assoc, or_assoc]

theorem isTypeChar_iff {c : Char} : isTypeChar c = true ↔ InName c ∨ c = '\\' := by
  simp only [isTypeChar, Bool.or_eq_true, isNameChar_iff, beq_iff_eq]

/-- What separates words is no part of a type or a name. -/
theorem isSpacing_of_isTypeChar {c : Char} (h : isTypeChar c = true) : isSpacing c = false := by
  rw [Bool.eq_false_iff]
  intro hspacing
  rcases isSpacing_iff.1 hspacing with rfl | rfl <;>
    exact absurd h (by decide)

theorem isRun_of_isName {name rest : List Char} (h : IsName name rest) :
    IsRun Name.isNameChar (name ++ rest) name rest where
  append_eq := rfl
  char c hc := isNameChar_iff.2 (h.char c hc)
  ends c hc := by
    rw [Bool.eq_false_iff]
    exact fun hchar => h.ends c hc (isNameChar_iff.1 hchar)

theorem isName_of_isRun {cs name rest : List Char} (h : IsRun Name.isNameChar cs name rest) (hne : name ≠ []) :
    IsName name rest where
  ne_nil := hne
  char c hc := isNameChar_iff.1 (h.char c hc)
  ends c hc hin := by simpa [h.ends c hc] using isNameChar_iff.2 hin

theorem afterSpacing?_eq_some_iff {cs rest : List Char} :
    afterSpacing? cs = some rest ↔ ∃ gap, IsGap gap ∧ IsRun isSpacing cs gap rest := by
  constructor
  · intro h
    cases cs with
    | nil => simp [afterSpacing?] at h
    | cons c cs =>
      rw [afterSpacing?] at h
      split at h
      · next hspacing =>
        obtain rfl := Option.some.inj h
        have hrun := isRun_takeWhile isSpacing (c :: cs)
        rw [List.takeWhile_cons_of_pos hspacing, List.dropWhile_cons_of_pos hspacing] at hrun
        exact ⟨_, ⟨by simp, fun d hd => isSpacing_iff.1 (hrun.char d hd)⟩, hrun⟩
      · simp at h
  · rintro ⟨gap, hgap, hrun⟩
    obtain ⟨c, gap', rfl⟩ := List.exists_cons_of_ne_nil hgap.ne_nil
    have hspacing : isSpacing c = true := hrun.char c List.mem_cons_self
    have hdrop := hrun.dropWhile_eq
    obtain rfl := hrun.append_eq
    rw [List.cons_append, List.dropWhile_cons_of_pos hspacing] at hdrop
    rw [List.cons_append, afterSpacing?, if_pos hspacing, hdrop]

theorem rawName?_eq_some_iff {cs name : List Char} :
    rawName? cs = some name ↔ ∃ rest, IsName name rest ∧ cs = '$' :: (name ++ rest) := by
  constructor
  · intro h
    unfold rawName? at h
    split at h
    · next cs' =>
      have hrun := isRun_takeWhile Name.isNameChar cs'
      split at h
      · simp at h
      · next hne =>
        obtain rfl := Option.some.inj h
        exact ⟨_, isName_of_isRun hrun hne, by rw [hrun.append_eq]⟩
    · simp at h
  · rintro ⟨rest, hname, rfl⟩
    have htake := (isRun_of_isName hname).takeWhile_eq
    rw [rawName?, htake]
    split
    · exact absurd rfl hname.ne_nil
    · rfl

theorem isSpacing_head_of_typeAndName {cs rest : List Char} {tag : Tag} (h : TypeAndName cs tag rest) :
    ∀ c ∈ cs.head?, isSpacing c = false := by
  cases h with
  | untyped hname =>
    rintro c ⟨⟩
    rfl
  | @typed type gap name rest htype hgap hname =>
    obtain ⟨c, type', rfl⟩ := List.exists_cons_of_ne_nil htype.ne_nil
    rintro _ ⟨⟩
    exact isSpacing_of_isTypeChar (isTypeChar_iff.2 (htype.char c List.mem_cons_self))

/-- A type ends where the gap behind it begins. -/
theorem isRun_of_isType {type gap : List Char} (htype : IsType type) (hgap : IsGap gap) (cs : List Char) :
    IsRun isTypeChar (type ++ (gap ++ cs)) type (gap ++ cs) where
  append_eq := rfl
  char c hc := isTypeChar_iff.2 (htype.char c hc)
  ends := by
    obtain ⟨c, gap', rfl⟩ := List.exists_cons_of_ne_nil hgap.ne_nil
    rintro _ ⟨⟩
    rcases hgap.char c List.mem_cons_self with rfl | rfl <;> rfl

theorem exists_of_typeAndName? {cs : List Char} {tag : Tag} (h : typeAndName? cs = some tag) :
    ∃ rest, TypeAndName cs tag rest := by
  have hrun := isRun_takeWhile isTypeChar cs
  unfold typeAndName? at h
  generalize cs.takeWhile isTypeChar = type at h hrun
  split at h
  · obtain ⟨name, hraw, rfl⟩ := Option.map_eq_some_iff.1 h
    obtain ⟨rest, hname, rfl⟩ := rawName?_eq_some_iff.1 hraw
    exact ⟨rest, .untyped hname⟩
  · next hne =>
    obtain ⟨behind, hspacing, h'⟩ := Option.bind_eq_some_iff.1 h
    obtain ⟨name, hraw, htag⟩ := Option.bind_eq_some_iff.1 h'
    obtain ⟨gap, hgap, hrun'⟩ := afterSpacing?_eq_some_iff.1 hspacing
    obtain ⟨rest, hname, rfl⟩ := rawName?_eq_some_iff.1 hraw
    obtain rfl := Option.some.inj htag
    refine ⟨rest, ?_⟩
    rw [← hrun.append_eq, ← hrun'.append_eq]
    exact .typed ⟨hne, fun c hc => isTypeChar_iff.1 (hrun.char c hc)⟩ hgap hname

theorem typeAndName?_of_typeAndName {cs rest : List Char} {tag : Tag} (h : TypeAndName cs tag rest) :
    typeAndName? cs = some tag := by
  cases h with
  | @untyped name _ hname =>
    have htake : ('$' :: (name ++ rest)).takeWhile isTypeChar = [] := rfl
    rw [typeAndName?, htake]
    exact Option.map_eq_some_iff.2 ⟨name, rawName?_eq_some_iff.2 ⟨rest, hname, rfl⟩, rfl⟩
  | @typed type gap name _ htype hgap hname =>
    have hrun := isRun_of_isType htype hgap ('$' :: (name ++ rest))
    have hends : ∀ c ∈ ('$' :: (name ++ rest)).head?, isSpacing c = false := by
      rintro _ ⟨⟩
      rfl
    have hspacing := afterSpacing?_eq_some_iff.2 ⟨gap, hgap, hgap.isRun hends⟩
    have hraw := rawName?_eq_some_iff.2 ⟨rest, hname, rfl⟩
    rw [typeAndName?, hrun.takeWhile_eq]
    split
    · exact absurd rfl htype.ne_nil
    · rw [hrun.dropWhile_eq, hspacing]
      exact Option.bind_eq_some_iff.2 ⟨_, rfl, Option.bind_eq_some_iff.2 ⟨name, hraw, rfl⟩⟩

/-- A tag is read where it is spelled. -/
theorem read?_eq_some_iff {cs : List Char} {tag : Tag} : read? cs = some tag ↔ ∃ rest, Spelled cs tag rest := by
  constructor
  · intro h
    obtain ⟨cs₁, hkeyword, h₁⟩ := Option.bind_eq_some_iff.1 h
    obtain ⟨cs₂, hspacing, h₂⟩ := Option.bind_eq_some_iff.1 h₁
    obtain rfl := List.isPrefixOf?_eq_some_iff_append_eq.1 hkeyword
    obtain ⟨gap, hgap, hrun⟩ := afterSpacing?_eq_some_iff.1 hspacing
    obtain rfl := hrun.append_eq
    obtain ⟨rest, htag⟩ := exists_of_typeAndName? h₂
    exact ⟨rest, .intro hgap htag⟩
  · rintro ⟨rest, @⟨gap, cs, rest, tag, hgap, htag⟩⟩
    have hkeyword := List.isPrefixOf?_eq_some_iff_append_eq.2 (rfl : keyword ++ (gap ++ cs) = keyword ++ (gap ++ cs))
    have hspacing := afterSpacing?_eq_some_iff.2 ⟨gap, hgap, hgap.isRun (isSpacing_head_of_typeAndName htag)⟩
    have htag' := typeAndName?_of_typeAndName htag
    show (keyword.isPrefixOf? (keyword ++ (gap ++ cs))).bind (fun cs₁ => (afterSpacing? cs₁).bind typeAndName?) =
      some tag
    rw [hkeyword, Option.bind_some, hspacing, Option.bind_some, htag']

/-! ## Positions -/

theorem isBoundary_iff {c : Char} : isBoundary c = true ↔ c = '\n' ∨ c = ' ' ∨ c = '\t' := by
  rw [isBoundary, Bool.or_eq_true, beq_iff_eq, isSpacing_iff]

/-- The tag at the front of a text, if one may stand there. -/
def readAt (atBoundary : Bool) (cs : List Char) : Option Tag :=
  if atBoundary then read? cs else none

theorem scanFrom_cons (atBoundary : Bool) (c : Char) (cs : List Char) :
    scanFrom atBoundary (c :: cs) = (readAt atBoundary (c :: cs)).toList ++ scanFrom (isBoundary c) cs := by
  cases atBoundary <;> rfl

/-- Whether a tag may stand behind a text. -/
def endsAtBoundary (before : List Char) : Bool :=
  before.getLast?.all isBoundary

theorem endsAtBoundary_append_singleton (before : List Char) (c : Char) :
    endsAtBoundary (before ++ [c]) = isBoundary c := by
  simp [endsAtBoundary]

/-- The tag that stands between two parts of a text is the one that is read there. -/
theorem at_length_iff {before cs : List Char} {tag : Tag} :
    At (before ++ cs) before.length tag ↔ readAt (endsAtBoundary before) cs = some tag := by
  have htake : (before ++ cs).take before.length = before := List.take_left
  have hdrop : (before ++ cs).drop before.length = cs := List.drop_left
  have hboundary : endsAtBoundary before = true ↔ ∀ c ∈ before.getLast?, c = '\n' ∨ c = ' ' ∨ c = '\t' := by
    rw [endsAtBoundary]
    cases before.getLast? with
    | none => simp
    | some c => simp [isBoundary_iff]
  rw [readAt, Option.ite_none_right_eq_some, hboundary, read?_eq_some_iff]
  constructor
  · rintro ⟨h, h'⟩
    rw [htake] at h
    rw [hdrop] at h'
    exact ⟨h, h'⟩
  · rintro ⟨h, h'⟩
    refine ⟨?_, ?_⟩
    · rwa [htake]
    · rwa [hdrop]

/-- No tag stands behind the end of a text. -/
theorem At.lt_length {text : List Char} {i : Nat} {tag : Tag} (h : At text i tag) : i < text.length := by
  obtain ⟨rest, hspelled⟩ := h.spelled
  by_contra hi
  rw [List.drop_eq_nil_of_le (Nat.not_lt.1 hi)] at hspelled
  exact nomatch read?_eq_some_iff.2 ⟨rest, hspelled⟩

/-- A tag that stands in a text at a position or behind it stands there or behind the next character. -/
theorem le_and_at_iff {before cs : List Char} {c : Char} {i : Nat} {tag : Tag} :
    before.length ≤ i ∧ At (before ++ c :: cs) i tag ↔
      (i = before.length ∧ readAt (endsAtBoundary before) (c :: cs) = some tag) ∨
        (before ++ [c]).length ≤ i ∧ At ((before ++ [c]) ++ cs) i tag := by
  rw [List.append_assoc, List.singleton_append, List.length_append, List.length_singleton, ← at_length_iff]
  constructor
  · rintro ⟨hi, hat⟩
    rcases Nat.eq_or_lt_of_le hi with rfl | hlt
    · exact Or.inl ⟨rfl, hat⟩
    · exact Or.inr ⟨hlt, hat⟩
  · rintro (⟨rfl, hat⟩ | ⟨hi, hat⟩)
    · exact ⟨Nat.le_refl _, hat⟩
    · exact ⟨by omega, hat⟩

/-- A scan of the rest of a text finds the tags that stand in the rest, position by position. -/
theorem exists_places (before cs : List Char) :
    ∃ places : List (Nat × Tag), places.map (·.2) = scanFrom (endsAtBoundary before) cs ∧
      (places.map (·.1)).Pairwise (· < ·) ∧
        ∀ i tag, (i, tag) ∈ places ↔ before.length ≤ i ∧ At (before ++ cs) i tag := by
  induction cs generalizing before with
  | nil =>
    refine ⟨[], rfl, .nil, fun i tag => ?_⟩
    simp only [List.not_mem_nil, List.append_nil, false_iff, not_and]
    exact fun hi hat => absurd hat.lt_length (Nat.not_lt.2 hi)
  | cons c cs ih =>
    obtain ⟨places, hscan, hsorted, hmem⟩ := ih (before ++ [c])
    rw [endsAtBoundary_append_singleton] at hscan
    rw [scanFrom_cons, ← hscan]
    cases hread : readAt (endsAtBoundary before) (c :: cs) with
    | none =>
      refine ⟨places, rfl, hsorted, fun i tag => ?_⟩
      rw [hmem, le_and_at_iff, hread]
      simp
    | some tag =>
      refine ⟨(before.length, tag) :: places, rfl, List.pairwise_cons.2 ⟨?_, hsorted⟩, fun i tag' => ?_⟩
      · intro i hi
        obtain ⟨⟨_, tag'⟩, hplace, rfl⟩ := List.mem_map.1 hi
        have hle := ((hmem _ _).1 hplace).1
        rw [List.length_append, List.length_singleton] at hle
        exact hle
      · rw [List.mem_cons, hmem, le_and_at_iff, hread, Prod.mk.injEq, Option.some.injEq, eq_comm (a := tag')]

/-! ## A search that does not look back -/

/-- A match at the front of a text: a tag at the start of a line, or a space or a tab and a tag behind it. -/
inductive Matches : Bool → List Char → Tag → List Char → Prop where
  | lineStart {cs rest : List Char} {tag : Tag} (h : Spelled cs tag rest) : Matches true cs tag rest
  | spacing {atStart : Bool} {c : Char} {cs rest : List Char} {tag : Tag} (hc : c = ' ' ∨ c = '\t')
      (h : Spelled cs tag rest) : Matches atStart (c :: cs) tag rest

/-- What a search finds that takes the first match that it comes to and goes on where that match ends; it starts at the
start of a line or within one. -/
inductive Search : Bool → List Char → List Tag → Prop where
  | done (atStart : Bool) : Search atStart [] []
  | pass {atStart : Bool} {c : Char} {cs : List Char} {tags : List Tag}
      (hnone : ∀ tag rest, ¬ Matches atStart (c :: cs) tag rest) (hrest : Search (c == '\n') cs tags) :
      Search atStart (c :: cs) tags
  | found {atStart : Bool} {cs rest : List Char} {tag : Tag} {tags : List Tag} (h : Matches atStart cs tag rest)
      (hrest : Search false rest tags) : Search atStart cs (tag :: tags)

theorem not_mem_of_isGap {gap : List Char} (h : IsGap gap) : '@' ∉ gap := by
  intro hmem
  rcases h.char _ hmem with h | h <;> exact absurd h (by decide)

theorem not_mem_of_isType {type : List Char} (h : IsType type) : '@' ∉ type := by
  intro hmem
  exact absurd (isTypeChar_iff.2 (h.char _ hmem)) (by decide)

theorem not_mem_of_isName {name rest : List Char} (h : IsName name rest) : '@' ∉ name := by
  intro hmem
  exact absurd (isNameChar_iff.2 (h.char _ hmem)) (by decide)

/-- The only `@` of a tag is its first character, and its name comes last. -/
theorem Spelled.exists_eq {cs rest : List Char} {tag : Tag} (h : Spelled cs tag rest) :
    ∃ front name, cs = '@' :: (front ++ (name ++ rest)) ∧ '@' ∉ front ∧ IsName name rest := by
  have hword : '@' ∉ "property".toList := by decide
  obtain @⟨gap, _, _, _, hgap, htag⟩ := h
  cases htag with
  | @untyped name _ hname =>
    refine ⟨"property".toList ++ (gap ++ ['$']), name, by simp, ?_, hname⟩
    simp only [List.mem_append, not_or]
    exact ⟨hword, not_mem_of_isGap hgap, by decide⟩
  | @typed type gap' name _ htype hgap' hname =>
    refine ⟨"property".toList ++ (gap ++ (type ++ (gap' ++ ['$']))), name, by simp, ?_, hname⟩
    simp only [List.mem_append, not_or]
    exact ⟨hword, not_mem_of_isGap hgap, not_mem_of_isType htype, not_mem_of_isGap hgap', by decide⟩

theorem Spelled.length_lt {cs rest : List Char} {tag : Tag} (h : Spelled cs tag rest) : rest.length < cs.length := by
  obtain ⟨front, name, rfl, -⟩ := h.exists_eq
  simp only [List.length_cons, List.length_append]
  omega

theorem read?_cons_of_ne {c : Char} (h : c ≠ '@') (cs : List Char) : read? (c :: cs) = none := by
  rw [Option.eq_none_iff_forall_ne_some]
  intro tag hread
  obtain ⟨rest, hspelled⟩ := read?_eq_some_iff.1 hread
  obtain ⟨front, name, heq, -⟩ := hspelled.exists_eq
  exact h (List.cons.inj heq).1

theorem scanFrom_cons_of_ne {c : Char} (h : c ≠ '@') (atBoundary : Bool) (cs : List Char) :
    scanFrom atBoundary (c :: cs) = scanFrom (isBoundary c) cs := by
  rw [scanFrom_cons, readAt, read?_cons_of_ne h]
  cases atBoundary <;> rfl

/-- A scan goes on where no tag begins. -/
theorem exists_scanFrom_append {front : List Char} (h : '@' ∉ front) (atBoundary : Bool) (cs : List Char) :
    ∃ atBoundary', scanFrom atBoundary (front ++ cs) = scanFrom atBoundary' cs := by
  induction front generalizing atBoundary with
  | nil => exact ⟨atBoundary, rfl⟩
  | cons c front ih =>
    rw [List.mem_cons, not_or] at h
    rw [List.cons_append, scanFrom_cons_of_ne (Ne.symm h.1)]
    exact ih h.2 (isBoundary c)

/-- No tag can stand directly behind a name. -/
theorem scanFrom_append_name {name rest : List Char} (h : IsName name rest) (atBoundary : Bool) :
    scanFrom atBoundary (name ++ rest) = scanFrom false rest := by
  have hboundary : ∀ c ∈ name, isBoundary c = false := by
    intro c hc
    rw [Bool.eq_false_iff]
    intro hboundary
    rcases isBoundary_iff.1 hboundary with rfl | rfl | rfl <;>
      exact absurd (isNameChar_iff.2 (h.char _ hc)) (by decide)
  have hne := h.ne_nil
  have hat := not_mem_of_isName h
  clear h
  induction name generalizing atBoundary with
  | nil => exact absurd rfl hne
  | cons c name ih =>
    rw [List.mem_cons, not_or] at hat
    rw [List.cons_append, scanFrom_cons_of_ne (Ne.symm hat.1), hboundary c List.mem_cons_self]
    cases name with
    | nil => rfl
    | cons d name =>
      exact ih false (fun e he => hboundary e (List.mem_cons_of_mem c he)) (by simp) hat.2

/-- A scan that comes to a tag goes on behind it. -/
theorem scanFrom_of_spelled {cs rest : List Char} {tag : Tag} (h : Spelled cs tag rest) :
    scanFrom true cs = tag :: scanFrom false rest := by
  have hread := read?_eq_some_iff.2 ⟨rest, h⟩
  obtain ⟨front, name, rfl, hfront, hname⟩ := h.exists_eq
  obtain ⟨atBoundary, hscan⟩ := exists_scanFrom_append hfront (isBoundary '@') (name ++ rest)
  rw [scanFrom_cons, readAt, if_pos rfl, hread, hscan, scanFrom_append_name hname]
  rfl

theorem scanFrom_of_matches {atStart : Bool} {cs rest : List Char} {tag : Tag} (h : Matches atStart cs tag rest) :
    scanFrom atStart cs = tag :: scanFrom false rest := by
  cases h with
  | lineStart h => exact scanFrom_of_spelled h
  | @spacing _ c cs _ _ hc h =>
    have hne : c ≠ '@' := by rcases hc with rfl | rfl <;> decide
    rw [scanFrom_cons_of_ne hne, isBoundary_iff.2 (Or.inr hc)]
    exact scanFrom_of_spelled h

/-- Where nothing matches a scan finds nothing, and it makes no difference whether a tag may stand behind a space. -/
theorem scanFrom_of_not_matches {atStart : Bool} {c : Char} {cs : List Char}
    (h : ∀ tag rest, ¬ Matches atStart (c :: cs) tag rest) : scanFrom atStart (c :: cs) = scanFrom (c == '\n') cs := by
  have hhere : readAt atStart (c :: cs) = none := by
    rw [Option.eq_none_iff_forall_ne_some]
    intro tag hread
    obtain ⟨rfl, hread⟩ := Option.ite_none_right_eq_some.1 hread
    obtain ⟨rest, hspelled⟩ := read?_eq_some_iff.1 hread
    exact h tag rest (.lineStart hspelled)
  rw [scanFrom_cons, hhere, Option.toList_none, List.nil_append]
  by_cases hc : c = ' ' ∨ c = '\t'
  · have hread : read? cs = none := by
      rw [Option.eq_none_iff_forall_ne_some]
      intro tag hread
      obtain ⟨rest, hspelled⟩ := read?_eq_some_iff.1 hread
      exact h tag rest (.spacing hc hspelled)
    have hnewline : (c == '\n') = false := by rcases hc with rfl | rfl <;> rfl
    rw [isBoundary_iff.2 (Or.inr hc), hnewline]
    cases cs with
    | nil => rfl
    | cons d cs => rw [scanFrom_cons, scanFrom_cons, readAt, hread]; rfl
  · have hspacing : isSpacing c = false := by
      rw [Bool.eq_false_iff]
      exact fun hspacing => hc (isSpacing_iff.1 hspacing)
    rw [isBoundary, hspacing, Bool.or_false]

theorem Matches.length_lt {atStart : Bool} {cs rest : List Char} {tag : Tag} (h : Matches atStart cs tag rest) :
    rest.length < cs.length := by
  cases h with
  | lineStart h => exact h.length_lt
  | spacing _ h => exact Nat.lt_succ_of_lt h.length_lt

theorem search_scanFrom (atStart : Bool) (cs : List Char) : Search atStart cs (scanFrom atStart cs) := by
  induction hlength : cs.length using Nat.strongRecOn generalizing atStart cs with
  | ind n ih =>
    subst hlength
    by_cases hmatch : ∃ tag rest, Matches atStart cs tag rest
    · obtain ⟨tag, rest, hmatch⟩ := hmatch
      rw [scanFrom_of_matches hmatch]
      exact .found hmatch (ih rest.length hmatch.length_lt false rest rfl)
    · simp only [not_exists] at hmatch
      cases cs with
      | nil => exact .done atStart
      | cons c cs =>
        rw [scanFrom_of_not_matches hmatch]
        exact .pass hmatch (ih cs.length (Nat.lt_succ_self _) _ cs rfl)

/-- A search finds what a scan finds. -/
theorem search_iff {atStart : Bool} {cs : List Char} {tags : List Tag} :
    Search atStart cs tags ↔ tags = scanFrom atStart cs := by
  constructor
  · intro h
    induction h with
    | done => rfl
    | pass hnone _ ih => rw [ih, scanFrom_of_not_matches hnone]
    | found hmatch _ ih => rw [ih, scanFrom_of_matches hmatch]
  · rintro rfl
    exact search_scanFrom atStart cs

/-! ## The tags of a text -/

/-- A scan lists the tags that stand in a text, one for each position where one stands and in the order of the
positions. A search that does not look back finds the same tags. -/
theorem scan_exact (text : String) :
    (∃ places : List (Nat × Tag), places.map (·.2) = scan text ∧ (places.map (·.1)).Pairwise (· < ·) ∧
      ∀ i tag, (i, tag) ∈ places ↔ At text.toList i tag) ∧
    ∀ tags, Search true text.toList tags ↔ tags = scan text := by
  refine ⟨?_, fun tags => search_iff⟩
  obtain ⟨places, hscan, hsorted, hmem⟩ := exists_places [] text.toList
  exact ⟨places, hscan, hsorted, fun i tag => by simpa using hmem i tag⟩

example : scan "@property@property $a\t@property int|null $b @property \\A\t $c-1" = [⟨"\\A", "c"⟩] := by decide

end GetSet.Tag
