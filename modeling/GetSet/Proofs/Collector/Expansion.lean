import Mathlib.Data.List.Flatten
import GetSet.Proofs.Collector.Files
import GetSet.Proofs.Command.Setup

/-!
# Inputs and what they stand for

Inputs are taken one by one: a directory stands for what is collected below it and everything else for itself, so that
expanding inputs cannot fail, although collecting can. With one more extension a collector finds what it found before,
in the same order, and between it the files with that extension (`expand_exact`).
-/

namespace GetSet

open Text

namespace Path

/-- Only the case of letters is disregarded: what is the same as one of two such texts is the same as the other one. -/
theorem sameLetters_trans {a b c : String} (hab : sameLetters a b = true) (hbc : sameLetters b c = true) :
    sameLetters a c = true := by
  simp only [sameLetters, beq_iff_eq] at hab hbc ⊢
  exact hab.trans hbc

theorem matchesExtension_append (p : Path) (extensions extensions' : List String) :
    p.matchesExtension (extensions ++ extensions') =
      (p.matchesExtension extensions || p.matchesExtension extensions') := by
  unfold matchesExtension
  cases p.extension?.bind Text.ofBytes? with
  | none => rfl
  | some extension => exact List.any_append

/-- An extension that is there in some case already makes no difference. -/
theorem matchesExtension_of_sameLetters {p : Path} {extension e : String} {extensions : List String}
    (he : e ∈ extensions) (hsame : sameLetters extension e = true) (hp : p.matchesExtension [extension] = true) :
    p.matchesExtension extensions = true := by
  unfold matchesExtension at hp ⊢
  cases hextension : p.extension?.bind Text.ofBytes? with
  | none =>
    rw [hextension] at hp
    exact nomatch hp
  | some own =>
    simp only [hextension, List.any_cons, List.any_nil, Bool.or_false] at hp
    exact List.any_eq_true.2 ⟨e, he, sameLetters_trans hp hsame⟩

end Path

namespace Collector

variable {c : Collector} {t : Tree} {inputs : List Path} {extension : String}

/-! ## One more extension -/

/-- With one more extension a collector matches what it matched before and the files with that extension. -/
theorem matchesExtension_addExtension (c : Collector) (extension : String) (p : Path) :
    p.matchesExtension (c.addExtension extension).extensions =
      (p.matchesExtension c.extensions || p.matchesExtension [extension]) := by
  unfold addExtension
  split
  · next hthere =>
    obtain ⟨e, he, hsame⟩ := List.any_eq_true.1 hthere
    refine Bool.eq_iff_iff.2 ⟨fun hp => by rw [hp, Bool.true_or], fun hp => ?_⟩
    exact (Bool.or_eq_true_iff.1 hp).elim id (Path.matchesExtension_of_sameLetters he hsame)
  · exact p.matchesExtension_append c.extensions [extension]

/-- An extension is not added if it is there in some case. -/
theorem addExtension_of_forall₂ {e : String} (he : e ∈ c.extensions)
    (hsame : List.Forall₂ SameButCase extension.toList e.toList) : c.addExtension extension = c := by
  unfold addExtension
  exact if_pos (List.any_eq_true.2 ⟨e, he, Path.sameLetters_iff.2 hsame⟩)

theorem filesBelow_sublist_addExtension (c : Collector) (extension : String) (t : Tree) (dir : Path) :
    (c.filesBelow t dir).Sublist ((c.addExtension extension).filesBelow t dir) := by
  unfold filesBelow
  refine List.monotone_filter_right _ fun p hp => ?_
  rw [matchesExtension_addExtension, hp, Bool.true_or]

/-- With one more extension there are more files at most, and those that were there stay in order. -/
theorem filesAt_sublist_addExtension (c : Collector) (extension : String) (t : Tree) (inputs : List Path) :
    (c.filesAt t inputs).Sublist ((c.addExtension extension).filesAt t inputs) := by
  unfold filesAt
  refine List.Sublist.flatMap_right inputs fun input _ => ?_
  unfold filesOf
  split
  · exact c.filesBelow_sublist_addExtension extension t input
  · exact List.Sublist.refl _

/-- The files that are found with one more extension. -/
theorem mem_filesAt_addExtension_iff {p : Path} :
    p ∈ (c.addExtension extension).filesAt t inputs ↔
      p ∈ c.filesAt t inputs ∨
        ∃ dir ∈ inputs, t.isDirectory dir = true ∧ p ∈ t.filesBelow dir ∧ p.matchesExtension [extension] = true := by
  constructor
  · intro hp
    obtain ⟨input, hinput, hp⟩ := List.mem_flatMap.1 hp
    unfold filesOf at hp
    split at hp
    · next hdir =>
      obtain ⟨hbelow, hmatches⟩ := List.mem_filter.1 hp
      rw [matchesExtension_addExtension, Bool.or_eq_true] at hmatches
      rcases hmatches with hold | hnew
      · refine Or.inl (List.mem_flatMap.2 ⟨input, hinput, ?_⟩)
        rw [filesOf, if_pos hdir]
        exact List.mem_filter.2 ⟨hbelow, hold⟩
      · exact Or.inr ⟨input, hinput, hdir, hbelow, hnew⟩
    · next hdir =>
      refine Or.inl (List.mem_flatMap.2 ⟨input, hinput, ?_⟩)
      rw [filesOf, if_neg hdir]
      exact hp
  · rintro (hp | ⟨dir, hinput, hdir, hbelow, hnew⟩)
    · exact (c.filesAt_sublist_addExtension extension t inputs).subset hp
    · refine List.mem_flatMap.2 ⟨dir, hinput, ?_⟩
      rw [filesOf, if_pos hdir]
      exact List.mem_filter.2 ⟨hbelow, by rw [matchesExtension_addExtension, hnew, Bool.or_true]⟩

/-! ## Expanding -/

theorem filesAt_append (c : Collector) (t : Tree) (inputs inputs' : List Path) :
    c.filesAt t (inputs ++ inputs') = c.filesAt t inputs ++ c.filesAt t inputs' :=
  List.flatMap_append

theorem filesAt_singleton (c : Collector) (t : Tree) (input : Path) : c.filesAt t [input] = c.filesOf t input :=
  List.flatMap_singleton _ _

/-- Expanding inputs never fails. It takes them one by one: what is not a directory is kept as it is, and a directory
stands for what collecting finds below it, which fails for what is not a directory only. One more extension inserts the
files that have it and leaves the others in order, and it makes no difference at all if it is there in some case. -/
theorem expand_exact (c : Collector) :
    (∀ inputs, (c.expand inputs).Finds fun t => .ok (c.filesAt t inputs)) ∧
      (∀ t inputs inputs', c.filesAt t (inputs ++ inputs') = c.filesAt t inputs ++ c.filesAt t inputs') ∧
      (∀ t input, t.isDirectory input = false → c.filesAt t [input] = [input]) ∧
      (∀ dir, (c.collect dir).Finds fun t =>
        if t.isDirectory dir then .ok (c.filesAt t [dir]) else .error (.notADirectory dir)) ∧
      (∀ extension t inputs, (c.filesAt t inputs).Sublist ((c.addExtension extension).filesAt t inputs) ∧
        ∀ p, p ∈ (c.addExtension extension).filesAt t inputs ↔ p ∈ c.filesAt t inputs ∨
          ∃ dir ∈ inputs, t.isDirectory dir = true ∧ p ∈ t.filesBelow dir ∧ p.matchesExtension [extension] = true) ∧
      ∀ extension, ∀ e ∈ c.extensions, List.Forall₂ SameButCase extension.toList e.toList →
        c.addExtension extension = c := by
  refine ⟨c.finds_expand, c.filesAt_append, ?_, ?_, ?_, ?_⟩
  · intro t input hfile
    rw [filesAt_singleton, filesOf, if_neg (by simp [hfile])]
  · intro dir w
    refine (c.finds_collect dir w).trans ?_
    by_cases hdir : w.tree.isDirectory dir = true
    · simp only [filesAt_singleton, filesOf, if_pos hdir]
    · simp only [if_neg hdir]
  · exact fun extension t inputs =>
      ⟨c.filesAt_sublist_addExtension extension t inputs, fun _ => mem_filesAt_addExtension_iff⟩
  · exact fun extension e he hsame => addExtension_of_forall₂ he hsame

/-- A file is kept although its extension is another one, so is what does not exist, and a link to a directory stands
for what is found there. -/
theorem expand_exact_linked :
    (({} : Collector).expand [⟨"src/notes.txt"⟩, ⟨"src/elsewhere"⟩, ⟨"missing"⟩]).effect linkedTree =
        (.ok [⟨"src/notes.txt"⟩, ⟨"src/elsewhere/Card.PHP"⟩, ⟨"missing"⟩], linkedTree) ∧
      ({} : Collector).addExtension "PHP" = {} ∧
      (⟨"src/notes.txt"⟩ : Path) ∈ (({} : Collector).addExtension "TXT").filesAt linkedTree [⟨"src"⟩] := by
  obtain ⟨hfinds, happend, hfile, -, hextension, hsame⟩ := expand_exact {}
  refine ⟨?_, hsame "PHP" "php" List.mem_cons_self (Path.sameLetters_iff.1 (by decide)), ?_⟩
  · have hlinked : ({} : Collector).filesAt linkedTree [⟨"src/elsewhere"⟩] = [⟨"src/elsewhere/Card.PHP"⟩] := by
      decide +kernel
    have hinputs : ({} : Collector).filesAt linkedTree ([⟨"src/notes.txt"⟩] ++ ([⟨"src/elsewhere"⟩] ++ [⟨"missing"⟩])) =
        [⟨"src/notes.txt"⟩, ⟨"src/elsewhere/Card.PHP"⟩, ⟨"missing"⟩] := by
      rw [happend, happend, hfile linkedTree ⟨"src/notes.txt"⟩ (by decide +kernel), hlinked,
        hfile linkedTree ⟨"missing"⟩ (by decide +kernel)]
      rfl
    exact ((hfinds _).effect_eq linkedTree).trans (congrArg (fun files => (Except.ok files, linkedTree)) hinputs)
  · refine ((hextension "TXT" linkedTree [⟨"src"⟩]).2 _).2 (Or.inr ⟨⟨"src"⟩, List.mem_cons_self, ?_, ?_, ?_⟩)
    · decide +kernel
    · decide +kernel
    · decide

end Collector

end GetSet
