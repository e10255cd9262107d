import GetSet.Proofs.Run.Accounting
import GetSet.Proofs.Run.Again
import GetSet.Proofs.Run.Opening

/-!
# Repeating a run

A run that does not overwrite, done once more on the tree that it left, generates the same documents and skips them
all, whatever the templates are (`generate_repeats_iff`). For every file reads again as it was read, although files and
directories came into being since, and every document is there. The one exception is a run that writes its first
document to a file that it has read by then, so that it does not read it again.
-/

namespace GetSet

namespace Interleaving

variable {α : Type} {ys zs : List α}

theorem eq_of_nil_left (h : Interleaving [] ys zs) : ys = zs := by
  induction zs generalizing ys with
  | nil =>
    cases h
    rfl
  | cons z zs ih =>
    cases h with
    | right h => rw [ih h]

end Interleaving

/-- The result of a run that generates what another one did and skips everything. -/
def RunResult.repeated (r : RunResult) (w : Writer) : RunResult :=
  { r with
    stats := { r.stats with
      filesWritten := 0
      writtenPaths := []
      filesSkipped := r.stats.totalFiles
      skippedPaths := (r.units.flatMap (·.documents)).map w.targetPath } }

/-- What can be read from a tree can still be read, though it may be a document by then. -/
theorem Writer.Confined.exists_unitAt {w : Writer} {ds : List Document} {t t' : Tree} (h : w.Confined ds t t')
    {path : Path} {unit : Option SourceUnit} (hunit : t.unitAt path = .ok unit) :
    ∃ unit', t'.unitAt path = .ok unit' := by
  obtain ⟨l, content, text, hleads, hl, htext, -⟩ := Tree.unitAt_eq_ok_iff_file.1 hunit
  obtain ⟨content', hl'⟩ := h.grows.file hl
  rcases h.file hl' with hold | ⟨d, -, rfl, -⟩
  · exact ⟨_, Tree.unitAt_eq_ok_iff_file.2
      ⟨l, content, text, hleads.grows h.grows, by rw [hl', ← hold, hl], htext, rfl⟩⟩
  · exact ⟨_, Tree.unitAt_of_text (hleads.grows h.grows) hl'⟩

namespace Generator

variable {g : Generator} {t t' : Tree} {result again : RunResult}

theorem delivers_of_generate (h : g.generate.effect t = (.ok result, t')) : Delivers g.writer result := by
  obtain ⟨reports, hcourse, rfl⟩ := course_of_run h
  exact hcourse.delivers

/-- A run that writes nothing and yields the same as another one up to writing repeats it. -/
theorem eq_repeated {s : Tree} (h : g.generate.effect t = (.ok result, t'))
    (hagain : g.generate.effect s = (.ok again, s)) (heq : again.withoutWrites = result.withoutWrites)
    (hnothing : again.stats.filesWritten = 0) : again = result.repeated g.writer := by
  have haccounts := accounts_of_run h
  have haccounts' := accounts_of_run hagain
  have hunits : again.units = result.units := by
    show again.withoutWrites.units = _
    rw [heq]
    rfl
  have hwritten : again.stats.writtenPaths = [] :=
    List.length_eq_zero_iff.1 (haccounts'.filesWritten_eq.symm.trans hnothing)
  have hskipped : again.stats.skippedPaths = (result.units.flatMap (·.documents)).map g.writer.targetPath := by
    have hdelivers := (delivers_of_generate hagain).interleaving
    rw [hwritten, hunits] at hdelivers
    exact hdelivers.eq_of_nil_left
  have htotal : again.stats.filesSkipped = result.stats.totalFiles := by
    rw [haccounts'.filesSkipped_eq, hskipped, (delivers_of_generate h).interleaving.length_eq, Stats.totalFiles,
      haccounts.filesWritten_eq, haccounts.filesSkipped_eq]
  calc again
    _ = { again.withoutWrites with
          stats := { again.withoutWrites.stats with
            filesWritten := again.stats.filesWritten
            writtenPaths := again.stats.writtenPaths
            filesSkipped := again.stats.filesSkipped
            skippedPaths := again.stats.skippedPaths } } := rfl
    _ = result.repeated g.writer := by
        rw [heq, hnothing, hwritten, htotal, hskipped]
        rfl

/-- A run that does not overwrite can be repeated if it can be previewed on the tree that it left. -/
theorem generate_of_previewAll_eq (hkeep : g.options.overwriteFiles = false)
    (h : g.generate.effect t = (.ok result, t')) (heq : result.withoutWrites = g.previewAll t'.unit? g.classFiles) :
    ∃ again, g.generate.effect t' = (.ok again, t') ∧ again.stats.filesWritten = 0 := by
  have hlacks := (run_eq_ok_iff.1 h).1
  obtain ⟨reports, hcourse, rfl⟩ := course_of_run h
  refine (generate_of_settled hlacks hkeep fun path hpath => ?_).1
  obtain ⟨t₁, _, hunit, -, hconfined⟩ := hcourse.exists_unitAt hpath
  obtain ⟨unit, hunit'⟩ := hconfined.exists_unitAt hunit
  refine ⟨unit, hunit', fun u hu => ?_⟩
  -- the documents of this unit are among those of the run
  have hmem := mem_units_previewAll (g := g) hpath ((Tree.unit?_of_unitAt hunit').trans hu)
  rw [← heq] at hmem
  have hmem' : g.output u ∈ reports.filterMap (·.output?) := hmem
  rw [hcourse.filterMap_output?] at hmem'
  obtain ⟨u', hu', houtput⟩ := List.mem_map.1 hmem'
  have hdelivered := hcourse.delivered u' hu'
  rw [Delivered, houtput] at hdelivered
  exact hdelivered

/-- A run that does not overwrite and succeeds, done once more on the tree that it left, generates the same documents,
skips all of them and leaves the tree as it is, unless the interface of its first unit took the place of a file that it
had read by then and declares something else. -/
theorem generate_repeats_iff (hkeep : g.options.overwriteFiles = false)
    (h : g.generate.effect t = (.ok result, t')) :
    g.generate.effect t' = (.ok (result.repeated g.writer), t') ↔
      ∀ before unit after, t.Opens g.classFiles before unit after → g.Spares t unit (before ++ [unit.path]) := by
  obtain ⟨reports, hcourse, rfl⟩ := course_of_run h
  -- the second run reads what can be read from the tree that the first one left
  have hagain : ∀ {again}, g.writer.Ready t' → g.generate.effect t' = (.ok again, t') →
      again.withoutWrites = g.previewAll t'.unit? g.classFiles := by
    intro again hready heffect
    obtain ⟨_, hcourse', rfl⟩ := course_of_run heffect
    exact (hcourse'.of_ready hkeep hready).2.2
  constructor
  · intro heffect before unit after hopens
    obtain ⟨hready, -, -⟩ := hcourse.of_opens hkeep hopens
    have hpreview := hagain hready heffect
    exact (hcourse.eq_preview_after_iff hkeep hopens).1 hpreview
  · intro hspares
    rcases hcourse.silent_or_opens with ⟨hsilent, rfl, -⟩ | ⟨before, unit, after, hopens⟩
    · -- without a unit the second run is the first one
      obtain ⟨⟨again, heffect, hnothing⟩, -⟩ := generate_of_settled (run_eq_ok_iff.1 h).1 hkeep fun path hpath =>
        ⟨none, hsilent path hpath, by simp⟩
      obtain rfl := Except.ok.inj (Prod.mk.inj (h.symm.trans heffect)).1
      rw [h, ← eq_repeated h heffect rfl hnothing]
    · obtain ⟨hready, -, -⟩ := hcourse.of_opens hkeep hopens
      have hpreview := (hcourse.eq_preview_after_iff hkeep hopens).2 (hspares before unit after hopens)
      obtain ⟨again, heffect, hnothing⟩ := generate_of_previewAll_eq hkeep h hpreview
      rw [heffect, eq_repeated h heffect ((hagain hready heffect).trans hpreview.symm) hnothing]

/-- A run that replaces the interface that was edited by hand is repeated all the same, because it reads another
file. -/
theorem generate_repeats_edited :
    (forCard ⟨"a/../b"⟩).options.overwriteFiles = false ∧
      ∃ result t', (forCard ⟨"a/../b"⟩).generate.effect editedTree = (.ok result, t') ∧
        result.stats.filesWritten = 1 ∧
        (forCard ⟨"a/../b"⟩).generate.effect t' = (.ok (result.repeated (forCard ⟨"a/../b"⟩).writer), t') := by
  have hwritten : ((forCard ⟨"a/../b"⟩).generate.effect editedTree).1.map (·.stats.filesWritten) = .ok 1 := by
    decide +kernel
  obtain ⟨result, t', h, hone⟩ := Action.exists_of_map_eq_ok hwritten
  refine ⟨rfl, result, t', h, hone, (generate_repeats_iff rfl h).2 ?_⟩
  intro before unit after hopens l hreopens path hpath hleads
  have hcard : ∀ p ∈ before ++ [unit.path], p = ⟨"Card.php"⟩ := by
    intro p hp
    have hp' : p ∈ (forCard ⟨"a/../b"⟩).classFiles := by
      rw [hopens.eq_append]
      exact List.mem_append_left after hp
    exact List.mem_singleton.1 hp'
  have hread : editedTree.unitAt ⟨"Card.php"⟩ = .ok (some ⟨⟨"Card.php"⟩, "Card", [], 0⟩) := by decide +kernel
  have hunit := hopens.unitAt_eq
  rw [hcard unit.path (by simp), hread] at hunit
  obtain rfl := Option.some.inj (Except.ok.inj hunit)
  rw [hcard path hpath] at hleads
  -- the class and the interface are different files
  have hclass : editedTree.LeadsTo ⟨"Card.php"⟩ ["Card.php", "work"] :=
    ⟨.file "<?php\nclass Card\n".toUTF8, by decide +kernel⟩
  have hinterface : ((forCard ⟨"a/../b"⟩).writer.prepare editedTree).2.LeadsTo ⟨"a/../b/CardInterface.php"⟩
      ["CardInterface.php", "b", "work"] := ⟨.file "edited by hand".toUTF8, by decide +kernel⟩
  have hl := hreopens.2.2.unique hinterface
  rw [hleads.unique hclass] at hl
  exact absurd hl (by decide)

/-- The class `Card` in a file with the name of its interface. There is no directory `a`. -/
def misnamedTree : Tree :=
  (Tree.empty.insert ["work"] "b" .directory).insert ["b", "work"] "CardInterface.php"
    (.file "<?php\nclass Card\n".toUTF8)

/-- Generates for the misnamed file. -/
def forMisnamed : Generator where
  options := { outputDir := ⟨"a/../b"⟩ }
  classFiles := [⟨"b/CardInterface.php"⟩]

/-- The run on the misnamed file is not repeated: it writes the interface to the file that it read the class from. -/
theorem generate_not_repeated_misnamed :
    forMisnamed.options.overwriteFiles = false ∧
      ¬ ∀ result t', forMisnamed.generate.effect misnamedTree = (.ok result, t') →
        forMisnamed.generate.effect t' = (.ok (result.repeated forMisnamed.writer), t') := by
  refine ⟨rfl, fun hall => ?_⟩
  have hfirst : (forMisnamed.generate.effect misnamedTree).1.map (·.units.length) = .ok 1 := by decide +kernel
  have hsecond : (forMisnamed.generate.effect (forMisnamed.generate.effect misnamedTree).2).1.map (·.units.length) =
      .ok 0 := by decide +kernel
  obtain ⟨result, t', h, hone⟩ := Action.exists_of_map_eq_ok hfirst
  rw [h, hall result t' h] at hsecond
  have hnone : result.units.length = 0 := Except.ok.inj hsecond
  omega

end Generator

end GetSet
