import GetSet.Proofs.Run.Course
import GetSet.Proofs.Writer.Targets

/-!
# What a run changes

A run that writes changes the files of the documents that it generates and makes directories for them; nothing else in
the tree changes, whether the run succeeds or fails. A run that does not overwrite leaves every file as it was, unless
its output directory is reached through a directory that it makes itself.
-/

namespace GetSet

/-! ## The documents of a run -/

namespace Generator

/-- The documents of a run are those of units that it reads from texts. -/
theorem exists_parse?_of_mem_documents {g : Generator} {writer : Option Writer} {t : Tree} {d : Document}
    (hd : d ∈ g.documents writer t) :
    ∃ text path unit, SourceUnit.parse? text path = some unit ∧ d ∈ (g.output unit).documents := by
  obtain ⟨unit, hunit, hd⟩ := List.mem_flatMap.1 hd
  obtain ⟨t', path, -, hread⟩ := g.exists_unitAt_of_mem_sources hunit
  obtain ⟨text, -, hparse⟩ := Tree.unitAt_eq_ok_iff.1 hread
  exact ⟨text, path, unit, hparse, hd⟩

/-- The documents of a run have names that lead on from the output directory. -/
theorem isRelative_of_mem_documents (g : Generator) (writer : Option Writer) (t : Tree) {d : Document}
    (hd : d ∈ g.documents writer t) : d.IsRelative := by
  obtain ⟨text, path, unit, hparse, hd⟩ := exists_parse?_of_mem_documents hd
  exact SourceUnit.isRelative_of_mem_documents (SourceUnit.isIdentifier_of_parse? hparse) hd

/-! ## The frame -/

/-- A run that writes, whether it succeeds or fails, changes nothing but the files of its documents and the directories
for them. -/
theorem confined_generate (g : Generator) (t : Tree) :
    g.writer.Confined (g.documents (some g.writer) t) t (g.generate.effect t).2 := by
  rw [generate, tree_of_run]
  exact g.writer.confined_mapM _ t

/-- A run that does not overwrite leaves a file as it was unless it comes upon it with its first document. -/
theorem generate_keeps_iff {g : Generator} (hkeep : g.options.overwriteFiles = false) {t : Tree} {l : Location}
    {content : ByteArray} (hl : t.get? l = some (.file content)) :
    (g.generate.effect t).2.get? l = some (.file content) ↔
      ∀ d ∈ (g.documents (some g.writer) t).head?, g.writer.Reopens d t l → content = d.body.toUTF8 := by
  rw [generate, tree_of_run]
  have hrelative : ∀ d ∈ g.documents (some g.writer) t, d.IsRelative := fun d =>
    g.isRelative_of_mem_documents (some g.writer) t
  exact Writer.mapM_keeps_iff hkeep hrelative hl

/-- A run that writes, whether it succeeds or fails, deletes nothing; the only files that differ from before are those
that the paths of its documents lead to, and the only new directories are its output directory and those above it. If
it does not overwrite, then all files have the content that they had, except for one that the first document is written
to because the document's path leads there once the output directory is made. -/
theorem generate_confined (g : Generator) (t : Tree) :
    g.writer.Confined (g.documents (some g.writer) t) t (g.generate.effect t).2 ∧
      (g.options.overwriteFiles = false →
        ((∀ l content, t.get? l = some (.file content) → (g.generate.effect t).2.get? l = some (.file content)) ↔
          ∀ d ∈ (g.documents (some g.writer) t).head?, ∀ l content, t.get? l = some (.file content) →
            g.writer.Reopens d t l → content = d.body.toUTF8)) := by
  refine ⟨g.confined_generate t, fun hkeep => ?_⟩
  constructor
  · intro hall d hd l content hl
    exact (generate_keeps_iff hkeep hl).1 (hall l content hl) d hd
  · intro hall l content hl
    exact (generate_keeps_iff hkeep hl).2 fun d hd => hall d hd l content hl

/-- A class `Card.php`, and in the directory `b` an interface for it that was edited by hand. There is no directory
`a`. -/
def editedTree : Tree :=
  ((Tree.empty.insert ["work"] "Card.php" (.file "<?php\nclass Card\n".toUTF8)).insert ["work"] "b" .directory).insert
    ["b", "work"] "CardInterface.php" (.file "edited by hand".toUTF8)

/-- Generates for `Card.php` into some directory. -/
def forCard (outputDir : Path) : Generator where
  options := { outputDir }
  classFiles := [⟨"Card.php"⟩]

/-- The edited interface stays as it is if `b` is the output directory. -/
theorem generate_keeps_edited_interface :
    (forCard ⟨"b"⟩).options.overwriteFiles = false ∧
      ∀ l content, editedTree.get? l = some (.file content) →
        ((forCard ⟨"b"⟩).generate.effect editedTree).2.get? l = some (.file content) := by
  refine ⟨rfl, (((forCard ⟨"b"⟩).generate_confined editedTree).2 rfl).2 ?_⟩
  intro d _ l content _ hreopens
  have hready : (forCard ⟨"b"⟩).writer.Ready editedTree := Or.inr (by decide)
  exact absurd hreopens (hready.not_reopens d l)

/-- The edited interface is lost if `b` is reached through the missing directory `a`. -/
theorem generate_changes_edited_interface :
    (forCard ⟨"a/../b"⟩).options.overwriteFiles = false ∧
      ¬ ∀ l content, editedTree.get? l = some (.file content) →
        ((forCard ⟨"a/../b"⟩).generate.effect editedTree).2.get? l = some (.file content) := by
  refine ⟨rfl, fun h => ?_⟩
  have hkept := h ["CardInterface.php", "b", "work"] "edited by hand".toUTF8 (by decide)
  have hlost : ((forCard ⟨"a/../b"⟩).generate.effect editedTree).2.get? ["CardInterface.php", "b", "work"] ≠
      some (.file "edited by hand".toUTF8) := by decide +kernel
  exact hlost hkept

end Generator

end GetSet
