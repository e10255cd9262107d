import Mathlib.Algebra.GroupWithZero.Nat
import GetSet.Proofs.Run.Course
import GetSet.Proofs.Stats.Sum

/-!
# What the statistics account for

The statistics of a run that succeeds account for every file and every document once: each file is one that documents
were generated for or one that declares no class, in the order of the files, and each document was written or skipped,
in the order of the documents. What is claimed of a whole run is claimed of one file and is kept when results are put
together (`Accounts.append`), so that it holds along the course of a run.
-/

namespace GetSet

/-- A list is put together from two lists whose elements keep their order. -/
inductive Interleaving {α : Type} : List α → List α → List α → Prop where
  | nil : Interleaving [] [] []
  | left {x : α} {xs ys zs : List α} (h : Interleaving xs ys zs) : Interleaving (x :: xs) ys (x :: zs)
  | right {y : α} {xs ys zs : List α} (h : Interleaving xs ys zs) : Interleaving xs (y :: ys) (y :: zs)

namespace Interleaving

variable {α β : Type} {xs ys zs xs' ys' zs' : List α}

theorem append (h : Interleaving xs ys zs) (h' : Interleaving xs' ys' zs') :
    Interleaving (xs ++ xs') (ys ++ ys') (zs ++ zs') := by
  induction h with
  | nil => exact h'
  | left _ ih => exact .left ih
  | right _ ih => exact .right ih

theorem mem_iff (h : Interleaving xs ys zs) {x : α} : x ∈ zs ↔ x ∈ xs ∨ x ∈ ys := by
  induction h with
  | nil => simp
  | left _ ih => rw [List.mem_cons, List.mem_cons, ih, or_assoc]
  | right _ ih => rw [List.mem_cons, List.mem_cons, ih, or_left_comm]

theorem length_eq (h : Interleaving xs ys zs) : zs.length = xs.length + ys.length := by
  induction h with
  | nil => rfl
  | left _ ih =>
    simp only [List.length_cons, ih]
    omega
  | right _ ih =>
    simp only [List.length_cons, ih]
    omega

end Interleaving

/-- The paths of some outcomes are those that were written and those that were skipped. -/
theorem WriteOutcome.interleaving (outcomes : List WriteOutcome) :
    Interleaving (outcomes.filterMap (·.written?)) (outcomes.filterMap (·.skipped?)) (outcomes.map (·.path)) := by
  induction outcomes with
  | nil => exact .nil
  | cons outcome outcomes ih =>
    cases outcome with
    | written path => exact .left ih
    | skipped path => exact .right ih

namespace Writer

/-! ## What is reported about documents -/

/-- What is reported about a document is about its path, and if a writer overwrites then the document was written. -/
theorem outcome_of_deliver {w : Writer} {d : Document} {t t' : Tree} {outcome : WriteOutcome}
    (h : w.deliver d t = (.ok outcome, t')) :
    outcome.path = w.targetPath d ∧ (w.overwrite = true → outcome.skipped? = none) := by
  rcases deliver_ok_cases h with ⟨hkeep, -, rfl, -⟩ | ⟨t₁, -, -, -, rfl⟩
  · exact ⟨rfl, fun hover => absurd (hkeep.symm.trans hover) (by simp)⟩
  · exact ⟨rfl, fun _ => rfl⟩

/-- Every document has an outcome with its path, and a writer that overwrites skips none. -/
theorem outcomes_of_mapM (w : Writer) {ds : List Document} {t t' : Tree} {outcomes : List WriteOutcome}
    (h : (ds.mapM w.write).effect t = (.ok outcomes, t')) :
    outcomes.map (·.path) = ds.map w.targetPath ∧
      (w.overwrite = true → outcomes.filterMap (·.skipped?) = []) := by
  induction ds generalizing t t' outcomes with
  | nil =>
    obtain rfl := Except.ok.inj (Prod.mk.inj h).1
    exact ⟨rfl, fun _ => rfl⟩
  | cons d ds ih =>
    obtain ⟨outcome, t₁, rest, hfirst, hrest, rfl⟩ := (Action.effect_mapM_cons_eq_ok_iff w.oblivious_write).1 h
    rw [effect_write] at hfirst
    obtain ⟨hpath, hskipped⟩ := outcome_of_deliver hfirst
    obtain ⟨hpaths, hnone⟩ := ih hrest
    refine ⟨by rw [List.map_cons, hpath, hpaths, List.map_cons], fun hover => ?_⟩
    rw [List.filterMap_cons, hskipped hover]
    exact hnone hover

end Writer

namespace Generator

/-! ## Files -/

/-- A result accounts for some files, with the units that were read from them: each file is counted once and shows up
once, among the units or among the files without a class, and the properties are counted that the units have. -/
structure Accounts (g : Generator) (paths : List Path) (sources : List SourceUnit) (r : RunResult) : Prop where
  units_eq : r.units = sources.map g.output
  totalUnits_eq : r.stats.totalUnits = paths.length
  totalUnits_eq_add : r.stats.totalUnits = r.stats.generatedUnits + r.stats.unitsWithoutClass
  generatedUnits_eq : r.stats.generatedUnits = r.units.length
  unitsWithoutClass_eq : r.stats.unitsWithoutClass = r.stats.unitsWithoutClassPaths.length
  interleaving : Interleaving (r.units.map (·.sourcePath)) r.stats.unitsWithoutClassPaths paths
  properties_eq : r.stats.properties = (r.units.map (·.accessorPairs)).sum
  propertiesDropped_eq : r.stats.propertiesDropped = (sources.map (·.droppedProperties)).sum
  filesWritten_eq : r.stats.filesWritten = r.stats.writtenPaths.length
  filesSkipped_eq : r.stats.filesSkipped = r.stats.skippedPaths.length

theorem Accounts.append {g : Generator} {paths paths' : List Path} {sources sources' : List SourceUnit}
    {r r' : RunResult} (h : g.Accounts paths sources r) (h' : g.Accounts paths' sources' r') :
    g.Accounts (paths ++ paths') (sources ++ sources') (r ++ r') := by
  rw [RunResult.append_def, Stats.append_def]
  constructor
  · rw [h.units_eq, h'.units_eq, List.map_append]
  · rw [h.totalUnits_eq, h'.totalUnits_eq, List.length_append]
  · have hsum := h.totalUnits_eq_add
    have hsum' := h'.totalUnits_eq_add
    dsimp only
    omega
  · rw [h.generatedUnits_eq, h'.generatedUnits_eq, List.length_append]
  · rw [h.unitsWithoutClass_eq, h'.unitsWithoutClass_eq, List.length_append]
  · rw [List.map_append]
    exact h.interleaving.append h'.interleaving
  · rw [h.properties_eq, h'.properties_eq, List.map_append, List.sum_append]
  · rw [h.propertiesDropped_eq, h'.propertiesDropped_eq, List.map_append, List.sum_append]
  · rw [h.filesWritten_eq, h'.filesWritten_eq, List.length_append]
  · rw [h.filesSkipped_eq, h'.filesSkipped_eq, List.length_append]

theorem accounts_withoutClass (g : Generator) (path : Path) : g.Accounts [path] [] (.ofReports [.withoutClass path]) :=
  ⟨rfl, rfl, rfl, rfl, rfl, .right .nil, rfl, rfl, rfl, rfl⟩

theorem accounts_generated (g : Generator) (unit : SourceUnit) (outcomes : List WriteOutcome) :
    g.Accounts [unit.path] [unit] (.ofReports [.generated (g.output unit) unit.droppedProperties outcomes]) := by
  have hresult : RunResult.ofReports [.generated (g.output unit) unit.droppedProperties outcomes] =
      { units := [g.output unit]
        stats := Stats.ofReports [.generated (g.output unit) unit.droppedProperties outcomes] } := rfl
  rw [hresult, Stats.ofReports_generated]
  exact ⟨rfl, rfl, rfl, rfl, rfl, .left .nil, rfl, rfl, rfl, rfl⟩

/-- What is reported on the way accounts for all files. -/
theorem Course.accounts {g : Generator} {writer : Option Writer} {t t' : Tree} {paths : List Path}
    {reports : List FileReport} (h : g.Course writer t paths reports t') :
    g.Accounts paths (g.sourcesFrom writer t paths) (.ofReports reports) := by
  induction h with
  | done t => exact ⟨rfl, rfl, rfl, rfl, rfl, .nil, rfl, rfl, rfl, rfl⟩
  | @withoutClass t _ path paths reports hunit _ ih =>
    rw [sourcesFrom, hunit, RunResult.ofReports_cons]
    exact (g.accounts_withoutClass path).append ih
  | @generated t t₁ _ path paths reports unit outcomes hunit hwrite _ ih =>
    obtain ⟨text, -, hparse⟩ := Tree.unitAt_eq_ok_iff.1 hunit
    have hpath := SourceUnit.path_of_parse? hparse
    rw [sourcesFrom, hunit]
    dsimp only
    rw [hwrite, RunResult.ofReports_cons, ← hpath]
    exact (g.accounts_generated unit outcomes).append ih

/-! ## Documents -/

/-- A result accounts for the documents of its units that a writer was given: each was written or skipped. -/
structure Delivers (w : Writer) (r : RunResult) : Prop where
  interleaving : Interleaving r.stats.writtenPaths r.stats.skippedPaths
    ((r.units.flatMap (·.documents)).map w.targetPath)
  skippedPaths_eq : w.overwrite = true → r.stats.skippedPaths = []

theorem Delivers.append {w : Writer} {r r' : RunResult} (h : Delivers w r) (h' : Delivers w r') :
    Delivers w (r ++ r') := by
  rw [RunResult.append_def, Stats.append_def]
  constructor
  · rw [List.flatMap_append, List.map_append]
    exact h.interleaving.append h'.interleaving
  · intro hover
    rw [h.skippedPaths_eq hover, h'.skippedPaths_eq hover]
    rfl

/-- What is reported on the way accounts for all documents. -/
theorem Course.delivers {g : Generator} {w : Writer} {t t' : Tree} {paths : List Path} {reports : List FileReport}
    (h : g.Course (some w) t paths reports t') : Delivers w (.ofReports reports) := by
  induction h with
  | done t => exact ⟨.nil, fun _ => rfl⟩
  | withoutClass _ _ ih =>
    rw [RunResult.ofReports_cons]
    refine Delivers.append ?_ ih
    exact ⟨.nil, fun _ => rfl⟩
  | @generated t _ _ _ _ reports unit outcomes _ hwrite _ ih =>
    obtain ⟨hpaths, hskipped⟩ := w.outcomes_of_mapM hwrite
    rw [RunResult.ofReports_cons]
    refine Delivers.append ?_ ih
    have hresult : RunResult.ofReports [.generated (g.output unit) unit.droppedProperties outcomes] =
        { units := [g.output unit]
          stats := Stats.ofReports [.generated (g.output unit) unit.droppedProperties outcomes] } := rfl
    rw [hresult, Stats.ofReports_generated]
    constructor
    · rw [List.flatMap_singleton, ← hpaths]
      exact WriteOutcome.interleaving outcomes
    · exact hskipped

/-- Without a writer nothing is written and nothing is skipped. -/
theorem Course.nothing_written {g : Generator} {t t' : Tree} {paths : List Path} {reports : List FileReport}
    (h : g.Course none t paths reports t') :
    (Stats.ofReports reports).writtenPaths = [] ∧ (Stats.ofReports reports).skippedPaths = [] := by
  induction h with
  | done t => exact ⟨rfl, rfl⟩
  | withoutClass _ _ ih =>
    rw [← List.singleton_append, Stats.ofReports_append]
    exact ih
  | generated _ hwrite _ ih =>
    obtain rfl := Except.ok.inj (Prod.mk.inj hwrite).1
    rw [← List.singleton_append, Stats.ofReports_append, Stats.ofReports_generated]
    exact ih

/-! ## Whole runs -/

theorem accounts_of_run {g : Generator} {writer : Option Writer} {t t' : Tree} {result : RunResult}
    (h : (g.run writer).effect t = (.ok result, t')) : g.Accounts g.classFiles (g.sources writer t) result := by
  have hlacks := (run_eq_ok_iff.1 h).1
  obtain ⟨reports, hcourse, rfl⟩ := course_of_run h
  rw [sources_eq hlacks]
  exact hcourse.accounts

/-- The paths that a run reports to be written or skipped are the targets of its documents. -/
theorem mem_written_or_skipped_iff {g : Generator} {t t' : Tree} {result : RunResult}
    (h : g.generate.effect t = (.ok result, t')) {p : Path} :
    p ∈ result.stats.writtenPaths ∨ p ∈ result.stats.skippedPaths ↔
      ∃ d ∈ g.documents (some g.writer) t, g.writer.targetPath d = p := by
  have hdocuments := documents_of_run h
  obtain ⟨reports, hcourse, rfl⟩ := course_of_run h
  rw [← hcourse.delivers.interleaving.mem_iff, ← hdocuments, List.mem_map]

/-- The statistics of a run that succeeds account for all files. If the run writes, they account for all documents too,
none of which is skipped by a run that overwrites; otherwise nothing was written and nothing was skipped. -/
theorem stats_account (g : Generator) (t : Tree) :
    (∀ result t', g.generate.effect t = (.ok result, t') →
      g.Accounts g.classFiles (g.sources (some g.writer) t) result ∧
        Interleaving result.stats.writtenPaths result.stats.skippedPaths
          ((result.units.flatMap (·.documents)).map g.writer.targetPath) ∧
        result.stats.totalFiles = (result.units.flatMap (·.documents)).length ∧
        (g.options.overwriteFiles = true → result.stats.filesSkipped = 0 ∧ result.stats.skippedPaths = [])) ∧
    ∀ result t', g.render.effect t = (.ok result, t') →
      g.Accounts g.classFiles (g.sources none t) result ∧
        result.stats.filesWritten = 0 ∧ result.stats.writtenPaths = [] ∧
        result.stats.filesSkipped = 0 ∧ result.stats.skippedPaths = [] := by
  constructor
  · intro result t' h
    have haccounts := accounts_of_run h
    obtain ⟨reports, hcourse, rfl⟩ := course_of_run h
    have hdelivers := hcourse.delivers
    refine ⟨haccounts, hdelivers.interleaving, ?_, fun hover => ?_⟩
    · rw [Stats.totalFiles, haccounts.filesWritten_eq, haccounts.filesSkipped_eq, ← hdelivers.interleaving.length_eq,
        List.length_map]
    · have hskipped := hdelivers.skippedPaths_eq hover
      exact ⟨by rw [haccounts.filesSkipped_eq, hskipped]; rfl, hskipped⟩
  · intro result t' h
    have haccounts := accounts_of_run h
    obtain ⟨reports, hcourse, rfl⟩ := course_of_run h
    obtain ⟨hwritten, hskipped⟩ := hcourse.nothing_written
    have hwritten' : (RunResult.ofReports reports).stats.writtenPaths = [] := hwritten
    have hskipped' : (RunResult.ofReports reports).stats.skippedPaths = [] := hskipped
    refine ⟨haccounts, ?_, hwritten', ?_, hskipped'⟩
    · rw [haccounts.filesWritten_eq, hwritten']
      rfl
    · rw [haccounts.filesSkipped_eq, hskipped']
      rfl

/-- A class with a property, and a file that declares no class. -/
def cardTree : Tree :=
  (Tree.empty.insert ["work"] "Card.php" (.file "/**\n * @property int $amount\n */\nclass Card\n".toUTF8)).insert
    ["work"] "notes.php" (.file "<?php\n".toUTF8)

/-- Generates for the files of `cardTree`. -/
def forCards : Generator where
  classFiles := [⟨"Card.php"⟩, ⟨"notes.php"⟩]

/-- Both kinds of run succeed on `cardTree`. -/
theorem stats_account_cards :
    (∃ result t', forCards.generate.effect cardTree = (.ok result, t') ∧
      forCards.Accounts forCards.classFiles (forCards.sources (some forCards.writer) cardTree) result ∧
      result.stats.totalFiles = (result.units.flatMap (·.documents)).length) ∧
    ∃ result t', forCards.render.effect cardTree = (.ok result, t') ∧ result.stats.filesWritten = 0 := by
  obtain ⟨hgenerate, hrender⟩ := forCards.stats_account cardTree
  constructor
  · have hok : (forCards.generate.effect cardTree).1.isOk = true := by decide +kernel
    rcases h : forCards.generate.effect cardTree with ⟨fault | result, t'⟩
    · rw [h] at hok
      exact absurd hok (by simp [Except.isOk, Except.toBool])
    · obtain ⟨haccounts, -, htotal, -⟩ := hgenerate result t' h
      exact ⟨result, t', rfl, haccounts, htotal⟩
  · have hok : (forCards.render.effect cardTree).1.isOk = true := by decide +kernel
    rcases h : forCards.render.effect cardTree with ⟨fault | result, t'⟩
    · rw [h] at hok
      exact absurd hok (by simp [Except.isOk, Except.toBool])
    · exact ⟨result, t', rfl, (hrender result t' h).2.1⟩

end Generator

end GetSet
