import Mathlib.Data.List.Basic
import GetSet.Proofs.Run.Frame
import GetSet.Proofs.Run.Tally

/-!
# Runs whose documents have the same target

Several files can declare a class of one name, and the class document of one unit can have the name of the interface of
another one. `generate_resolves` says which document is found at a target after a run.
-/

namespace GetSet

/-! ## The names of documents -/

namespace Generator

theorem isPlain_of_mem_documents {g : Generator} (hextension : '/' ∉ g.options.extension.toList)
    {writer : Option Writer} {t : Tree} {d : Document} (hd : d ∈ g.documents writer t) : d.IsPlain := by
  obtain ⟨text, path, unit, hparse, hd⟩ := exists_parse?_of_mem_documents hd
  exact SourceUnit.isPlain_of_mem_documents hextension (SourceUnit.isIdentifier_of_parse? hparse) hd

end Generator

/-! ## One target -/

namespace RunResult

/-- The number of documents with a target. -/
def countAt (result : RunResult) (w : Writer) (p : Path) : Nat :=
  ((result.units.flatMap (·.documents)).map w.targetPath).count p

/-- What was at a target is still there, and all documents with this target are counted as skipped. -/
structure LeavesAlone (result : RunResult) (w : Writer) (p : Path) (t t' : Tree) : Prop where
  status?_eq : t'.status? p = t.status? p
  written : result.stats.writtenPaths.count p = 0
  skipped : result.stats.skippedPaths.count p = result.countAt w p

/-- A document is at its target. It is counted as written, and all other documents with this target as skipped. -/
structure Places (result : RunResult) (w : Writer) (d : Document) (t' : Tree) : Prop where
  status?_eq : t'.status? (w.targetPath d) = some (.file d.body.toUTF8)
  written : result.stats.writtenPaths.count (w.targetPath d) = 1
  skipped : result.stats.skippedPaths.count (w.targetPath d) + 1 = result.countAt w (w.targetPath d)

end RunResult

/-! ## All targets -/

namespace Generator

/-- What a run has done that succeeded. -/
theorem exists_deliveries {g : Generator} {t t' : Tree} {result : RunResult}
    (h : g.generate.effect t = (.ok result, t')) :
    ∃ written skipped, g.writer.Deliveries t (result.units.flatMap (·.documents)) written skipped t' ∧
      result.stats.writtenPaths = written.map g.writer.targetPath ∧
      result.stats.skippedPaths = skipped.map g.writer.targetPath := by
  obtain ⟨written, skipped, hrecorded⟩ := (g.writes_run g.writer t).recorded h
  have htells := tells_run (g := g) (w := g.writer) h
  rw [documents_of_run h] at hrecorded
  exact ⟨written, skipped, hrecorded.deliveries, htells.writtenPaths_eq.trans hrecorded.written_eq,
    htells.skippedPaths_eq.trans hrecorded.skipped_eq⟩

/-- Which document is found at a target after a run that succeeds. If the run overwrites it is the last one with this
target. If it does not then what was there before is left alone, and so is what is there as soon as the output
directory is made, unless the target is that of the very first document; everywhere else it is the first document with
this target, and all others are skipped. -/
theorem generate_resolves {g : Generator} {t t' : Tree} {result : RunResult}
    (hextension : '/' ∉ g.options.extension.toList) (hrun : g.generate.effect t = (.ok result, t'))
    (hlinks : ∀ d ∈ result.units.flatMap (·.documents), t'.isLink (g.writer.targetPath d) = false)
    {before after : List Document} {d : Document}
    (hdocuments : result.units.flatMap (·.documents) = before ++ d :: after) :
    (g.options.overwriteFiles = true → (∀ d' ∈ after, g.writer.targetPath d' ≠ g.writer.targetPath d) →
        t'.status? (g.writer.targetPath d) = some (.file d.body.toUTF8)) ∧
      (g.options.overwriteFiles = false → (∀ d' ∈ before, g.writer.targetPath d' ≠ g.writer.targetPath d) →
        (t.pathExists (g.writer.targetPath d) = true →
          result.LeavesAlone g.writer (g.writer.targetPath d) t t') ∧
        (t.pathExists (g.writer.targetPath d) = false → before ≠ [] →
          (g.writer.prepare t).2.pathExists (g.writer.targetPath d) = true →
          result.LeavesAlone g.writer (g.writer.targetPath d) (g.writer.prepare t).2 t') ∧
        (t.pathExists (g.writer.targetPath d) = false →
          (before = [] ∨ (g.writer.prepare t).2.pathExists (g.writer.targetPath d) = false) →
          result.Places g.writer d t')) ∧
      t.AddsDirectories (g.writer.prepare t).2 := by
  obtain ⟨written, skipped, hdeliveries, hwritten, hskipped⟩ := exists_deliveries hrun
  have hplain : ∀ d ∈ result.units.flatMap (·.documents), d.IsPlain := fun d hd =>
    isPlain_of_mem_documents hextension (documents_of_run hrun ▸ hd)
  have hcount : result.countAt g.writer (g.writer.targetPath d) = _ :=
    (hdeliveries.perm.map g.writer.targetPath).count_eq (g.writer.targetPath d)
  rw [List.map_append, List.count_append, ← hwritten, ← hskipped] at hcount
  refine ⟨fun hover hafter => hdeliveries.status?_of_last hplain hlinks hover hdocuments hafter,
    fun hkeep hbefore => ?_, g.writer.addsDirectories_prepare t⟩
  have hcases := hdeliveries.cases_of_first hplain hlinks hkeep hdocuments hbefore
  rw [← hwritten] at hcases
  refine ⟨fun hexists => ?_, fun hmissing hne hexists => ?_, fun hmissing hfree => ?_⟩
  · have hready := (hplain d (by simp [hdocuments])).ready_of_pathExists hexists
    rw [if_pos (Or.inl hexists), hready.prepare_eq] at hcases
    exact ⟨hcases.1, hcases.2, by rw [hcount, hcases.2, Nat.zero_add]⟩
  · rw [if_pos (Or.inr ⟨hne, hexists⟩)] at hcases
    exact ⟨hcases.1, hcases.2, by rw [hcount, hcases.2, Nat.zero_add]⟩
  · rw [if_neg] at hcases
    · exact ⟨hcases.1, hcases.2, by rw [hcount, hcases.2, Nat.add_comm]⟩
    · rintro (hexists | ⟨hne, hexists⟩)
      · rw [hmissing] at hexists
        simp at hexists
      · rw [hfree.resolve_left hne] at hexists
        simp at hexists

/-- Two files that declare a class of the same name. -/
def twinsTree : Tree :=
  (Tree.empty.insert ["work"] "One.php" (.file "/** @property int $amount */\nclass Card\n".toUTF8)).insert ["work"]
    "Two.php" (.file "class Card\n".toUTF8)

/-- Generates for both files, with short templates. -/
def forTwins (overwrite : Bool) : Generator where
  options := { overwriteFiles := overwrite }
  templates :=
    { interfaceMethod := ⟨"f"⟩, interfaceDocument := ⟨Template.slotText "FUNCTIONS"⟩, skeleton := none }
  classFiles := [⟨"One.php"⟩, ⟨"Two.php"⟩]

/-- Both runs succeed with two interfaces that have the same target. -/
theorem exists_twins (overwrite : Bool) :
    ∃ result t' d d', (forTwins overwrite).generate.effect twinsTree = (.ok result, t') ∧
      result.units.flatMap (·.documents) = [d, d'] ∧ d.body ≠ d'.body ∧
      (forTwins overwrite).writer.targetPath d = ⟨"output/CardInterface.php"⟩ ∧
      (forTwins overwrite).writer.targetPath d' = ⟨"output/CardInterface.php"⟩ ∧
      t'.isLink ⟨"output/CardInterface.php"⟩ = false := by
  have hresult : ((forTwins overwrite).generate.effect twinsTree).1.map (fun result =>
      ((result.units.flatMap (·.documents)).map (forTwins overwrite).writer.targetPath,
        decide ((result.units.flatMap (·.documents)).map (·.body)).Nodup)) =
      .ok ([⟨"output/CardInterface.php"⟩, ⟨"output/CardInterface.php"⟩], true) := by
    cases overwrite <;> decide +kernel
  have hlink : ((forTwins overwrite).generate.effect twinsTree).2.isLink ⟨"output/CardInterface.php"⟩ = false := by
    cases overwrite <;> decide +kernel
  obtain ⟨result, t', hrun, hpair⟩ := Action.exists_of_map_eq_ok hresult
  obtain ⟨htargets, hbodies⟩ := Prod.mk.inj hpair
  obtain ⟨d, ds, hds, hd, hrest⟩ := List.map_eq_cons_iff.1 htargets
  obtain ⟨d', ds', rfl, hd', hnil⟩ := List.map_eq_cons_iff.1 hrest
  obtain rfl := List.map_eq_nil_iff.1 hnil
  rw [hrun] at hlink
  rw [hds] at hbodies
  exact ⟨result, t', d, d', hrun, hds, by simpa using hbodies, hd, hd', hlink⟩

/-- Of two interfaces with the same target the last one is found there if the run overwrites, else the first one. -/
theorem generate_resolves_twins :
    (∃ result t' d d', (forTwins true).generate.effect twinsTree = (.ok result, t') ∧
      result.units.flatMap (·.documents) = [d, d'] ∧ d.body ≠ d'.body ∧
      t'.status? ⟨"output/CardInterface.php"⟩ = some (.file d'.body.toUTF8)) ∧
    ∃ result t' d d', (forTwins false).generate.effect twinsTree = (.ok result, t') ∧
      result.units.flatMap (·.documents) = [d, d'] ∧ d.body ≠ d'.body ∧
      t'.status? ⟨"output/CardInterface.php"⟩ = some (.file d.body.toUTF8) ∧
      result.stats.skippedPaths.count ⟨"output/CardInterface.php"⟩ + 1 = 2 := by
  constructor
  · obtain ⟨result, t', d, d', hrun, hds, hbodies, hd, hd', hlink⟩ := exists_twins true
    have hlinks : ∀ d ∈ result.units.flatMap (·.documents),
        t'.isLink ((forTwins true).writer.targetPath d) = false := by
      simp [hds, hd, hd', hlink]
    have hsecond : result.units.flatMap (·.documents) = [d] ++ d' :: [] := hds
    obtain ⟨hover, -⟩ := generate_resolves (by decide) hrun hlinks hsecond
    have hlast := hover rfl (by simp)
    rw [hd'] at hlast
    exact ⟨result, t', d, d', hrun, hds, hbodies, hlast⟩
  · obtain ⟨result, t', d, d', hrun, hds, hbodies, hd, hd', hlink⟩ := exists_twins false
    have hlinks : ∀ d ∈ result.units.flatMap (·.documents),
        t'.isLink ((forTwins false).writer.targetPath d) = false := by
      simp [hds, hd, hd', hlink]
    have hfirst : result.units.flatMap (·.documents) = [] ++ d :: [d'] := hds
    obtain ⟨-, hkeep, -⟩ := generate_resolves (by decide) hrun hlinks hfirst
    obtain ⟨-, -, hplaces⟩ := hkeep rfl (by simp)
    obtain ⟨hstatus, -, hskipped⟩ := hplaces (by rw [hd]; decide +kernel) (Or.inl rfl)
    rw [hd] at hstatus hskipped
    rw [RunResult.countAt, hds] at hskipped
    exact ⟨result, t', d, d', hrun, hds, hbodies, hstatus, by simpa [hd, hd'] using hskipped⟩

/-- Two classes, and a file with the name of the interface for the second one. There is no directory `a`. -/
def openedTree : Tree :=
  (((Tree.empty.insert ["work"] "Card.php" (.file "<?php\nclass Card\n".toUTF8)).insert ["work"] "Other.php"
    (.file "<?php\nclass Other\n".toUTF8)).insert ["work"] "b" .directory).insert ["b", "work"] "OtherInterface.php"
    (.file "hand edited".toUTF8)

/-- Generates for both classes. -/
def forOpened : Generator where
  options := { outputDir := ⟨"a/../b"⟩ }
  classFiles := [⟨"Card.php"⟩, ⟨"Other.php"⟩]

/-- A target that led nowhere before the run does not hold its first document if a file is there as soon as the output
directory is made. -/
theorem not_generate_places_opened :
    '/' ∉ forOpened.options.extension.toList ∧ forOpened.options.overwriteFiles = false ∧
      ¬ ∀ result t', forOpened.generate.effect openedTree = (.ok result, t') →
        (∀ d ∈ result.units.flatMap (·.documents), t'.isLink (forOpened.writer.targetPath d) = false) →
        ∀ before d after, result.units.flatMap (·.documents) = before ++ d :: after →
          (∀ d' ∈ before, forOpened.writer.targetPath d' ≠ forOpened.writer.targetPath d) →
          openedTree.pathExists (forOpened.writer.targetPath d) = false →
          t'.status? (forOpened.writer.targetPath d) = some (.file d.body.toUTF8) := by
  refine ⟨by decide, rfl, fun hall => ?_⟩
  have hresult : (forOpened.generate.effect openedTree).1.map (fun result =>
      (result.units.flatMap (·.documents)).map fun d => (forOpened.writer.targetPath d, d.body == "hand edited")) =
      .ok [(⟨"a/../b/CardInterface.php"⟩, false), (⟨"a/../b/OtherInterface.php"⟩, false)] := by
    decide +kernel
  have hlink : (forOpened.generate.effect openedTree).2.isLink ⟨"a/../b/CardInterface.php"⟩ = false ∧
      (forOpened.generate.effect openedTree).2.isLink ⟨"a/../b/OtherInterface.php"⟩ = false := by
    decide +kernel
  have hedited : (forOpened.generate.effect openedTree).2.status? ⟨"a/../b/OtherInterface.php"⟩ =
      some (.file "hand edited".toUTF8) := by
    decide +kernel
  obtain ⟨result, t', hrun, hpairs⟩ := Action.exists_of_map_eq_ok hresult
  obtain ⟨d, ds, hds, hd, hrest⟩ := List.map_eq_cons_iff.1 hpairs
  obtain ⟨d', ds', rfl, hd', hnil⟩ := List.map_eq_cons_iff.1 hrest
  obtain rfl := List.map_eq_nil_iff.1 hnil
  obtain ⟨hcard, -⟩ := Prod.mk.inj hd
  obtain ⟨hother, hbody⟩ := Prod.mk.inj hd'
  rw [hrun] at hlink hedited
  have hplaced := hall result t' hrun (by simp [hds, hcard, hother, hlink]) [d] d' [] hds
    (by simp only [List.mem_singleton, forall_eq, hcard, hother]; decide) (by rw [hother]; decide +kernel)
  rw [hother, hedited] at hplaced
  have hbytes : "hand edited".toUTF8 = d'.body.toUTF8 := Node.file.inj (Option.some.inj hplaced)
  have htext := congrArg String.fromUTF8? hbytes
  rw [Tree.fromUTF8?_toUTF8, Tree.fromUTF8?_toUTF8] at htext
  rw [← Option.some.inj htext] at hbody
  simp at hbody

end Generator

end GetSet
