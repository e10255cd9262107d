import Mathlib.Data.List.Forall2
import GetSet.Proofs.Text.Ascii
import GetSet.Proofs.Text.Bytes
import GetSet.Proofs.Text.Run
import GetSet.Proofs.Tree.Descent

/-!
# Extensions

What follows the last dot of the last name of a path, unless the dot is the first character of the name, is compared
with the extensions that are looked for. The directory does not matter, and of the case of letters only that of ASCII
letters is disregarded (`matchesExtension_exact`).
-/

namespace GetSet

open Text

/-! ## Case -/

namespace Text

/-- Two characters are the same, or one of them is an ASCII letter and the other one that letter in the other case. -/
def SameButCase (c d : Char) : Prop :=
  c = d ∨ ('A' ≤ c ∧ c ≤ 'Z' ∧ d.toNat = c.toNat + 32) ∨ ('A' ≤ d ∧ d ≤ 'Z' ∧ c.toNat = d.toNat + 32)

theorem sameButCase_iff {c d : Char} : SameButCase c d ↔ c.toLower = d.toLower := by
  have hA : 'A'.toNat = 65 := rfl
  have hZ : 'Z'.toNat = 90 := rfl
  rw [SameButCase, ← Char.toNat_inj, ← Char.toNat_inj, toNat_toLower, toNat_toLower]
  simp only [le_iff_toNat_le]
  split <;> split <;> omega

/-- Only a dot is the same as a dot. -/
theorem SameButCase.eq_dot {c : Char} (h : SameButCase c '.') : c = '.' := by
  have hA : 'A'.toNat = 65 := rfl
  have hdot : '.'.toNat = 46 := rfl
  simp only [SameButCase, le_iff_toNat_le] at h
  rcases h with heq | hupper | hlower
  · exact heq
  · omega
  · omega

/-- A text that is the same as one with a dot, but for the case of letters, has a dot too. -/
theorem dot_mem_of_forall₂ {cs ds : List Char} (h : List.Forall₂ SameButCase cs ds) (hdot : '.' ∈ ds) : '.' ∈ cs := by
  induction h with
  | nil => exact hdot
  | @cons c d cs ds hsame _ ih =>
    rcases List.mem_cons.1 hdot with rfl | hdot
    · rw [hsame.eq_dot]
      exact List.mem_cons_self
    · exact List.mem_cons_of_mem c (ih hdot)

end Text

/-- A name ends in a dot and one of some extensions, whatever the case of their ASCII letters. -/
def HasExtension (extensions : List String) (name : Bytes) : Prop :=
  ∃ (stem : Bytes) (extension : String), stem ≠ [] ∧ '.' ∉ extension.toList ∧
    name = stem ++ Text.bytes ("." ++ extension) ∧ ∃ e ∈ extensions, Path.sameLetters extension e = true

namespace Path

/-- Texts differ at most in the case of their ASCII letters exactly if their characters do, one by one. -/
theorem sameLetters_iff {a b : String} : sameLetters a b = true ↔ List.Forall₂ SameButCase a.toList b.toList := by
  have hpointwise : List.Forall₂ SameButCase = List.Forall₂ fun c d : Char => c.toLower = d.toLower :=
    congrArg _ (funext₂ fun c d => propext sameButCase_iff)
  rw [sameLetters, beq_iff_eq, hpointwise, ← List.forall₂_map_right_iff, ← List.forall₂_map_left_iff,
    List.forall₂_eq_eq_eq]

/-! ## The last dot -/

theorem extensionOf?_eq_some_iff {name extension : Bytes} :
    extensionOf? name = some extension ↔
      ∃ stem, stem ≠ [] ∧ dot ∉ extension ∧ name = stem ++ dot :: extension := by
  constructor
  · intro h
    have hrun := isRun_takeWhile (· != dot) name.reverse
    rw [extensionOf?] at h
    split at h
    · next c d stem hdrop =>
      obtain rfl := Option.some.inj h
      obtain rfl : c = dot := by simpa using hrun.ends c (by simp [hdrop])
      refine ⟨(d :: stem).reverse, by simp, fun hmem => ?_, ?_⟩
      · have hchar := hrun.char dot (List.mem_reverse.1 hmem)
        simp at hchar
      · have hbytes := hrun.append_eq
        rw [hdrop] at hbytes
        calc name = name.reverse.reverse := (List.reverse_reverse name).symm
          _ = (name.reverse.takeWhile (· != dot) ++ dot :: d :: stem).reverse := by rw [hbytes]
          _ = _ := by simp
    · simp at h
  · rintro ⟨stem, hne, hmem, rfl⟩
    have hrun : IsRun (· != dot) (stem ++ dot :: extension).reverse extension.reverse (dot :: stem.reverse) := by
      refine ⟨by simp, fun c hc => bne_iff_ne.2 (ne_of_mem_of_not_mem (List.mem_reverse.1 hc) hmem), by simp⟩
    obtain ⟨c, cs, hcs⟩ := List.exists_cons_of_ne_nil (List.reverse_ne_nil_iff.2 hne)
    rw [extensionOf?, hrun.dropWhile_eq, hrun.takeWhile_eq, hcs, List.reverse_reverse]

theorem bytes_dot_append (extension : String) : Text.bytes ("." ++ extension) = dot :: Text.bytes extension :=
  bytes_append "." extension

/-- The last name of a path decides whether the path has an extension. -/
theorem matchesExtension_iff_of_fileName? {p : Path} {name : Bytes} (h : p.fileName? = some name)
    {extensions : List String} : p.matchesExtension extensions = true ↔ HasExtension extensions name := by
  rw [matchesExtension, extension?, h, Option.bind_some]
  constructor
  · intro hmatches
    rcases hextension : (extensionOf? name).bind ofBytes? with _ | extension
    · simp [hextension] at hmatches
    · obtain ⟨own, hown, htext⟩ := Option.bind_eq_some_iff.1 hextension
      obtain rfl := ofBytes?_eq_some_iff.1 htext
      obtain ⟨stem, hne, hmem, rfl⟩ := extensionOf?_eq_some_iff.1 hown
      rw [hextension] at hmatches
      exact ⟨stem, extension, hne, by simpa using hmem, by rw [bytes_dot_append], List.any_eq_true.1 hmatches⟩
  · rintro ⟨stem, extension, hne, hmem, rfl, hany⟩
    have hextension : extensionOf? (stem ++ Text.bytes ("." ++ extension)) = some (Text.bytes extension) :=
      extensionOf?_eq_some_iff.2 ⟨stem, hne, by simpa using hmem, by rw [bytes_dot_append]⟩
    rw [hextension, Option.bind_some, ofBytes?_bytes]
    exact List.any_eq_true.2 hany

/-- A path has the extensions of its last name. -/
theorem matchesExtension_join_iff {p : Path} {name : Bytes} (h : Tree.isEntryName name = true)
    {extensions : List String} : (p.join ⟨name⟩).matchesExtension extensions = true ↔ HasExtension extensions name :=
  matchesExtension_iff_of_fileName? ((isPiece_of_isEntryName h).fileName?_join (notDots_of_isEntryName h))

/-! ## Names alone -/

/-- A name alone is the last name of its path, unless it is a dot or two. -/
theorem IsPiece.fileName?_eq {name : Bytes} (h : IsPiece name) (hdots : name ≠ "." ∧ name ≠ "..") :
    fileName? ⟨name⟩ = some name := by
  rw [fileName?, h.names_eq]
  simp [hdots.1, hdots.2]

end Path

namespace HasExtension

variable {extensions extensions' : List String} {name : Bytes}

/-- The case of letters is disregarded character by character. -/
theorem iff_forall₂ :
    HasExtension extensions name ↔
      ∃ (stem : Bytes) (extension : String), stem ≠ [] ∧ '.' ∉ extension.toList ∧
        name = stem ++ Text.bytes ("." ++ extension) ∧
        ∃ e ∈ extensions, List.Forall₂ SameButCase extension.toList e.toList := by
  simp only [HasExtension, Path.sameLetters_iff]

/-- Of the extensions only those without a dot matter. -/
theorem mono (h : ∀ e ∈ extensions, '.' ∉ e.toList → e ∈ extensions') (hname : HasExtension extensions name) :
    HasExtension extensions' name := by
  obtain ⟨stem, extension, hne, hdot, hname, e, he, hsame⟩ := hname
  refine ⟨stem, extension, hne, hdot, hname, e, ?_, hsame⟩
  exact h e he fun hmem => hdot (dot_mem_of_forall₂ (Path.sameLetters_iff.1 hsame) hmem)

/-- A name that begins with its only dot has no extension. -/
theorem not_of_hidden {rest : Bytes} (h : Path.dot ∉ rest) : ¬ HasExtension extensions (Path.dot :: rest) := by
  rintro ⟨stem, extension, hne, -, hname, -⟩
  obtain ⟨b, bs, rfl⟩ := List.exists_cons_of_ne_nil hne
  have hrest : rest = bs ++ Path.dot :: Text.bytes extension := by
    rw [← Path.bytes_dot_append]
    exact (List.cons.inj hname).2
  exact h (by rw [hrest]; simp)

end HasExtension

namespace Path

/-- Whether a path with a name behind it has one of some extensions is a matter of the name alone: it has one if it is
made of a stem that is not empty, a dot, and an extension without a dot that is one of those, whatever the case of the
ASCII letters. So the name of a hidden file has none if it has no other dot, and neither the order of the extensions nor
their number nor those that have a dot in them make a difference. -/
theorem matchesExtension_exact {name : Bytes} (hname : IsPiece name) (hdots : name ≠ "." ∧ name ≠ "..")
    (dir : Path) (extensions : List String) :
    (dir.join ⟨name⟩).matchesExtension extensions = matchesExtension ⟨name⟩ extensions ∧
      (matchesExtension ⟨name⟩ extensions = true ↔
        ∃ (stem : Bytes) (extension : String), stem ≠ [] ∧ '.' ∉ extension.toList ∧
          name = stem ++ Text.bytes ("." ++ extension) ∧
          ∃ e ∈ extensions, List.Forall₂ SameButCase extension.toList e.toList) ∧
      (∀ rest : Bytes, dot ∉ rest → name = dot :: rest → matchesExtension ⟨name⟩ extensions = false) ∧
      ∀ extensions' : List String, (∀ e : String, '.' ∉ e.toList → (e ∈ extensions ↔ e ∈ extensions')) →
        matchesExtension ⟨name⟩ extensions = matchesExtension ⟨name⟩ extensions' := by
  have halone : ∀ {es}, matchesExtension ⟨name⟩ es = true ↔ HasExtension es name :=
    matchesExtension_iff_of_fileName? (hname.fileName?_eq hdots)
  refine ⟨?_, halone.trans HasExtension.iff_forall₂, ?_, ?_⟩
  · exact Bool.eq_iff_iff.2 ((matchesExtension_iff_of_fileName? (hname.fileName?_join hdots)).trans halone.symm)
  · rintro rest hdot rfl
    exact Bool.eq_false_iff.2 fun h => HasExtension.not_of_hidden hdot (halone.1 h)
  · intro extensions' hsame
    refine Bool.eq_iff_iff.2 (halone.trans (Iff.trans ⟨?_, ?_⟩ halone.symm))
    · exact .mono fun e he hdot => (hsame e hdot).1 he
    · exact .mono fun e he hdot => (hsame e hdot).2 he

/-- Only what follows the last dot counts, and in this only the case of ASCII letters does not. -/
theorem matchesExtension_exact_card :
    IsPiece "Card.inc.PHP" ∧ (Text.bytes "Card.inc.PHP" ≠ "." ∧ Text.bytes "Card.inc.PHP" ≠ "..") ∧
      (join ⟨"src.inc"⟩ ⟨"Card.inc.PHP"⟩).matchesExtension ["inc", "php"] = true ∧
      (join ⟨"src.inc"⟩ ⟨"Card.inc.PHP"⟩).matchesExtension ["inc", "inc.php"] = false := by
  have hname : IsPiece "Card.inc.PHP" := ⟨by decide, by decide⟩
  have hdots : Text.bytes "Card.inc.PHP" ≠ "." ∧ Text.bytes "Card.inc.PHP" ≠ ".." := by decide
  obtain ⟨hjoin, hmatches, -, -⟩ := matchesExtension_exact hname hdots ⟨"src.inc"⟩ ["inc", "php"]
  obtain ⟨hjoin', -, -, hsame⟩ := matchesExtension_exact hname hdots ⟨"src.inc"⟩ ["inc", "inc.php"]
  refine ⟨hname, hdots, ?_, ?_⟩
  · rw [hjoin, hmatches]
    exact ⟨"Card.inc", "PHP", by decide, by decide, by decide, "php", by decide, sameLetters_iff.1 (by decide)⟩
  · have hmembers : ∀ e : String, '.' ∉ e.toList → (e ∈ ["inc", "inc.php"] ↔ e ∈ ["inc"]) := by
      intro e hdot
      have hne : e ≠ "inc.php" := by
        rintro rfl
        exact hdot (by decide)
      simp [hne]
    rw [hjoin', hsame ["inc"] hmembers]
    decide

end Path

end GetSet
