import GetSet.Generator
import GetSet.Proofs.Source.Unit
import GetSet.Proofs.Writer.Confined

/-!
# The course of a run

A run turns to one file after the other: it reads the unit that the file declares from the tree as it is by then,
generates the documents of the unit and writes them. `Generator.sources` are the units that it turns to until it ends,
and `Course` is the course of a run that does not fail, with what it reports about every file.
-/

namespace GetSet

namespace Generator

/-! ## One file -/

/-- The documents of a unit. -/
def output (g : Generator) (unit : SourceUnit) : UnitOutput :=
  unit.generate g.options g.templates

/-- Writes documents if there is a writer. -/
def writeAll (writer : Option Writer) (ds : List Document) : Action (List WriteOutcome) :=
  match writer with
  | some w => ds.mapM w.write
  | none => pure []

theorem additive_writeAll (writer : Option Writer) (ds : List Document) : (writeAll writer ds).Additive := by
  cases writer with
  | none => exact Action.additive_pure []
  | some w => exact Action.Additive.mapM w.additive_write ds

theorem oblivious_writeAll (writer : Option Writer) (ds : List Document) : (writeAll writer ds).Oblivious :=
  (additive_writeAll writer ds).oblivious

/-- A run goes on with a unit that was read. -/
def proceed (g : Generator) (writer : Option Writer) (path : Path) : Option SourceUnit → Action FileReport
  | none => do
    Action.report (.noClass path)
    return .withoutClass path
  | some unit => do
    Action.reportAll (unit.properties.map fun p => .synthesizing unit.name p.pascalName)
    let outcomes ← writeAll writer (g.output unit).documents
    return .generated (g.output unit) unit.droppedProperties outcomes

theorem process_eq (g : Generator) (writer : Option Writer) (path : Path) :
    g.process writer path = SourceUnit.load g.verbose path >>= g.proceed writer path := by
  unfold process
  congr 1
  funext unit
  cases unit with
  | none =>
    rfl
  | some unit =>
    cases writer <;> rfl

theorem additive_proceed (g : Generator) (writer : Option Writer) (path : Path) (unit : Option SourceUnit) :
    (g.proceed writer path unit).Additive := by
  cases unit with
  | none => exact (Action.additive_report _).bind fun _ => Action.additive_pure _
  | some unit =>
    exact (Action.additive_reportAll _).bind fun _ =>
      (additive_writeAll writer _).bind fun _ => Action.additive_pure _

theorem oblivious_proceed (g : Generator) (writer : Option Writer) (path : Path) (unit : Option SourceUnit) :
    (g.proceed writer path unit).Oblivious :=
  (g.additive_proceed writer path unit).oblivious

theorem additive_process (g : Generator) (writer : Option Writer) (path : Path) :
    (g.process writer path).Additive := by
  rw [process_eq]
  exact (SourceUnit.additive_load g.verbose path).bind (g.additive_proceed writer path)

theorem oblivious_process (g : Generator) (writer : Option Writer) (path : Path) :
    (g.process writer path).Oblivious :=
  (g.additive_process writer path).oblivious

/-- What is done with a file: the unit is read from the tree as it is, and its documents are written. -/
theorem effect_process (g : Generator) (writer : Option Writer) (path : Path) (t : Tree) :
    (g.process writer path).effect t =
      match t.unitAt path with
      | .error fault => (.error fault, t)
      | .ok none => (.ok (.withoutClass path), t)
      | .ok (some unit) =>
        match (writeAll writer (g.output unit).documents).effect t with
        | (.ok outcomes, t') => (.ok (.generated (g.output unit) unit.droppedProperties outcomes), t')
        | (.error fault, t') => (.error fault, t') := by
  rw [process_eq, Action.effect_bind _ (g.oblivious_proceed writer path), SourceUnit.effect_load]
  rcases t.unitAt path with fault | _ | unit
  · rfl
  · rfl
  · dsimp only
    rw [proceed, Action.effect_bind _ fun _ => (oblivious_writeAll writer _).bind fun _ => Action.oblivious_pure _,
      Action.effect_reportAll]
    dsimp only
    rw [Action.effect_bind _ fun _ => Action.oblivious_pure _]
    rcases (writeAll writer (g.output unit).documents).effect t with ⟨_ | outcomes, t'⟩ <;> rfl

/-- What is done with a file if nothing fails. -/
theorem process_eq_ok_iff {g : Generator} {writer : Option Writer} {path : Path} {t t' : Tree} {report : FileReport} :
    (g.process writer path).effect t = (.ok report, t') ↔
      (t.unitAt path = .ok none ∧ report = .withoutClass path ∧ t' = t) ∨
        ∃ unit outcomes, t.unitAt path = .ok (some unit) ∧
          (writeAll writer (g.output unit).documents).effect t = (.ok outcomes, t') ∧
          report = .generated (g.output unit) unit.droppedProperties outcomes := by
  rw [effect_process]
  rcases t.unitAt path with fault | _ | unit
  · simp
  · constructor
    · intro h
      obtain ⟨hreport, rfl⟩ := Prod.mk.inj h
      exact Or.inl ⟨rfl, (Except.ok.inj hreport).symm, rfl⟩
    · rintro (⟨-, rfl, rfl⟩ | ⟨unit, -, hunit, -⟩)
      · rfl
      · simp at hunit
  · dsimp only
    constructor
    · intro h
      rcases hwrite : (writeAll writer (g.output unit).documents).effect t with ⟨fault | outcomes, t₁⟩
      · rw [hwrite] at h
        exact nomatch (Prod.mk.inj h).1
      · rw [hwrite] at h
        obtain ⟨hreport, rfl⟩ := Prod.mk.inj h
        exact Or.inr ⟨unit, outcomes, rfl, hwrite, (Except.ok.inj hreport).symm⟩
    · rintro (⟨hunit, -⟩ | ⟨unit', outcomes, hunit, hwrite, rfl⟩)
      · simp at hunit
      · obtain rfl := Option.some.inj (Except.ok.inj hunit)
        rw [hwrite]

/-! ## All files -/

/-- The units that a run over some files turns to. It ends with the first file that has none to be read or whose
documents cannot be written. -/
def sourcesFrom (g : Generator) (writer : Option Writer) : Tree → List Path → List SourceUnit
  | _, [] => []
  | t, path :: paths =>
    match t.unitAt path with
    | .error _ => []
    | .ok none => sourcesFrom g writer t paths
    | .ok (some unit) =>
      unit ::
        match (writeAll writer (g.output unit).documents).effect t with
        | (.ok _, t') => sourcesFrom g writer t' paths
        | (.error _, _) => []

/-- The units that a run turns to, in order. -/
def sources (g : Generator) (writer : Option Writer) (t : Tree) : List SourceUnit :=
  if g.lacksTemplates then [] else g.sourcesFrom writer t g.classFiles

/-- The units of a run that has the templates that it needs. -/
theorem sources_eq {g : Generator} (hlacks : g.lacksTemplates = false) (writer : Option Writer) (t : Tree) :
    g.sources writer t = g.sourcesFrom writer t g.classFiles := by
  rw [sources, if_neg (by simp [hlacks])]

theorem exists_unitAt_of_mem_sourcesFrom (g : Generator) {writer : Option Writer} {t : Tree} {paths : List Path}
    {unit : SourceUnit} (h : unit ∈ g.sourcesFrom writer t paths) :
    ∃ (t' : Tree) (path : Path), path ∈ paths ∧ t'.unitAt path = .ok (some unit) := by
  induction paths generalizing t with
  | nil => simp [sourcesFrom] at h
  | cons path paths ih =>
    have later : ∀ {t'}, unit ∈ g.sourcesFrom writer t' paths →
        ∃ (t' : Tree) (p : Path), p ∈ path :: paths ∧ t'.unitAt p = .ok (some unit) := by
      intro t' h'
      obtain ⟨t'', p, hp, hread⟩ := ih h'
      exact ⟨t'', p, List.mem_cons_of_mem path hp, hread⟩
    rw [sourcesFrom] at h
    split at h
    · simp at h
    · exact later h
    · next first hfirst =>
      rcases List.mem_cons.1 h with rfl | h
      · exact ⟨t, path, List.mem_cons_self, hfirst⟩
      · split at h
        · exact later h
        · simp at h

/-- A unit that a run turns to was read from one of its files. -/
theorem exists_unitAt_of_mem_sources (g : Generator) {writer : Option Writer} {t : Tree} {unit : SourceUnit}
    (h : unit ∈ g.sources writer t) :
    ∃ (t' : Tree) (path : Path), path ∈ g.classFiles ∧ t'.unitAt path = .ok (some unit) := by
  rw [sources] at h
  split at h
  · simp at h
  · exact g.exists_unitAt_of_mem_sourcesFrom h

/-- The documents that a run generates, in order. -/
def documents (g : Generator) (writer : Option Writer) (t : Tree) : List Document :=
  (g.sources writer t).flatMap fun unit => (g.output unit).documents

theorem processAll_eq (g : Generator) (writer : Option Writer) :
    g.processAll writer = g.classFiles.mapM (g.process writer) :=
  g.progress.track_silent (g.process writer) g.classFiles

/-- Puts the reports of a run together. -/
def summarize (reports : List FileReport) : Action RunResult := do
  Action.report (.finished (RunResult.ofReports reports).stats)
  return .ofReports reports

theorem additive_summarize (reports : List FileReport) : (summarize reports).Additive :=
  (Action.additive_report _).bind fun _ => Action.additive_pure _

theorem oblivious_summarize (reports : List FileReport) : (summarize reports).Oblivious :=
  (additive_summarize reports).oblivious

theorem run_eq (g : Generator) (writer : Option Writer) :
    g.run writer =
      if g.lacksTemplates then throw (.missingTemplate TemplateSet.classDocumentFile)
      else
        Action.report (.generating g.classFiles.length) >>= fun _ =>
          g.classFiles.mapM (g.process writer) >>= summarize := by
  unfold run
  by_cases hlacks : g.lacksTemplates = true
  · rw [if_pos hlacks, if_pos hlacks]
    rfl
  · rw [if_neg hlacks, if_neg hlacks, processAll_eq]
    rfl

theorem additive_run (g : Generator) (writer : Option Writer) : (g.run writer).Additive := by
  rw [run_eq]
  refine Action.Additive.ite (Action.additive_throw _) ((Action.additive_report _).bind fun _ => ?_)
  exact (Action.Additive.mapM (g.additive_process writer) _).bind additive_summarize

theorem oblivious_run (g : Generator) (writer : Option Writer) : (g.run writer).Oblivious :=
  (g.additive_run writer).oblivious

/-- A run processes its files one after the other and puts the reports together. -/
theorem effect_run (g : Generator) (writer : Option Writer) (t : Tree) :
    (g.run writer).effect t =
      if g.lacksTemplates then (.error (.missingTemplate TemplateSet.classDocumentFile), t)
      else
        match (g.classFiles.mapM (g.process writer)).effect t with
        | (.ok reports, t') => (.ok (.ofReports reports), t')
        | (.error fault, t') => (.error fault, t') := by
  rw [run_eq]
  split
  · rfl
  · rw [Action.effect_bind _ fun _ => (Action.Oblivious.mapM (g.oblivious_process writer) _).bind oblivious_summarize,
      Action.effect_report]
    dsimp only
    rw [Action.effect_bind _ oblivious_summarize]
    rcases (g.classFiles.mapM (g.process writer)).effect t with ⟨_ | reports, t'⟩ <;> rfl

/-- The generator with other files registered. -/
def withFiles (g : Generator) (paths : List Path) : Generator :=
  { g with classFiles := paths }

/-- A run over some files, in terms of the generator that they are registered with. -/
theorem effect_run_withFiles (g : Generator) (writer : Option Writer) (paths : List Path) (t : Tree) :
    ((g.withFiles paths).run writer).effect t =
      if g.lacksTemplates then (.error (.missingTemplate TemplateSet.classDocumentFile), t)
      else
        match (paths.mapM (g.process writer)).effect t with
        | (.ok reports, t') => (.ok (.ofReports reports), t')
        | (.error fault, t') => (.error fault, t') :=
  effect_run (g.withFiles paths) writer t

/-- A run that succeeds has the templates that it needs and processes every file. -/
theorem run_eq_ok_iff {g : Generator} {writer : Option Writer} {t t' : Tree} {result : RunResult} :
    (g.run writer).effect t = (.ok result, t') ↔
      g.lacksTemplates = false ∧ ∃ reports, (g.classFiles.mapM (g.process writer)).effect t = (.ok reports, t') ∧
        result = .ofReports reports := by
  rw [effect_run]
  by_cases hlacks : g.lacksTemplates = true
  · rw [if_pos hlacks, hlacks]
    simp
  · rw [if_neg hlacks]
    simp only [Bool.not_eq_true] at hlacks
    rcases (g.classFiles.mapM (g.process writer)).effect t with ⟨_ | reports, t''⟩
    · simp
    · simp only [Prod.mk.injEq, Except.ok.injEq, hlacks, true_and]
      constructor
      · rintro ⟨rfl, rfl⟩
        exact ⟨reports, ⟨rfl, rfl⟩, rfl⟩
      · rintro ⟨reports', ⟨rfl, rfl⟩, rfl⟩
        exact ⟨rfl, rfl⟩

/-! ## The tree that is left -/

theorem tree_of_processes (g : Generator) (w : Writer) (t : Tree) (paths : List Path) :
    ((paths.mapM (g.process (some w))).effect t).2 =
      ((((g.sourcesFrom (some w) t paths).flatMap fun unit => (g.output unit).documents).mapM w.write).effect t).2 := by
  induction paths generalizing t with
  | nil => rfl
  | cons path paths ih =>
    rw [Action.tree_mapM_cons (g.oblivious_process (some w)), effect_process, sourcesFrom]
    rcases t.unitAt path with fault | _ | unit
    · rfl
    · exact ih t
    · dsimp only
      rw [List.flatMap_cons, Action.tree_mapM_append w.oblivious_write]
      -- the documents of this file come first, and a fault among them ends both sides
      rw [show (g.output unit).documents.mapM w.write = writeAll (some w) (g.output unit).documents from rfl]
      rcases (writeAll (some w) (g.output unit).documents).effect t with ⟨fault | outcomes, t'⟩
      · rfl
      · exact ih t'

/-- A run with a writer leaves the tree that the writer leaves when it is given all documents. -/
theorem tree_of_run (g : Generator) (w : Writer) (t : Tree) :
    ((g.run (some w)).effect t).2 = (((g.documents (some w) t).mapM w.write).effect t).2 := by
  rw [effect_run, documents, sources]
  split
  · rfl
  · rw [← tree_of_processes]
    rcases (g.classFiles.mapM (g.process (some w))).effect t with ⟨_ | reports, t'⟩ <;> rfl

/-! ## Runs that succeed -/

/-- The course of a run over some files that does not fail: what it reports about each of them, and the tree that it
leaves. -/
inductive Course (g : Generator) (writer : Option Writer) : Tree → List Path → List FileReport → Tree → Prop where
  | done (t : Tree) : Course g writer t [] [] t
  | withoutClass {t t' : Tree} {path : Path} {paths : List Path} {reports : List FileReport}
      (hunit : t.unitAt path = .ok none) (hrest : Course g writer t paths reports t') :
      Course g writer t (path :: paths) (.withoutClass path :: reports) t'
  | generated {t t' t'' : Tree} {path : Path} {paths : List Path} {reports : List FileReport} {unit : SourceUnit}
      {outcomes : List WriteOutcome} (hunit : t.unitAt path = .ok (some unit))
      (hwrite : (writeAll writer (g.output unit).documents).effect t = (.ok outcomes, t'))
      (hrest : Course g writer t' paths reports t'') :
      Course g writer t (path :: paths) (.generated (g.output unit) unit.droppedProperties outcomes :: reports) t''

theorem course_of_processes {g : Generator} {writer : Option Writer} {t t' : Tree} {paths : List Path}
    {reports : List FileReport} (h : (paths.mapM (g.process writer)).effect t = (.ok reports, t')) :
    g.Course writer t paths reports t' := by
  induction paths generalizing t reports with
  | nil =>
    obtain ⟨hreports, rfl⟩ := Prod.mk.inj h
    obtain rfl := Except.ok.inj hreports
    exact .done t
  | cons path paths ih =>
    obtain ⟨report, t₁, rest, hfirst, hrest, rfl⟩ :=
      (Action.effect_mapM_cons_eq_ok_iff (g.oblivious_process writer)).1 h
    rcases process_eq_ok_iff.1 hfirst with ⟨hunit, rfl, rfl⟩ | ⟨unit, outcomes, hunit, hwrite, rfl⟩
    · exact .withoutClass hunit (ih hrest)
    · exact .generated hunit hwrite (ih hrest)

/-- A run that succeeds has a course over its files, and its result puts together what is reported on the way. -/
theorem course_of_run {g : Generator} {writer : Option Writer} {t t' : Tree} {result : RunResult}
    (h : (g.run writer).effect t = (.ok result, t')) :
    ∃ reports, g.Course writer t g.classFiles reports t' ∧ result = .ofReports reports := by
  obtain ⟨-, reports, hreports, rfl⟩ := run_eq_ok_iff.1 h
  exact ⟨reports, course_of_processes hreports, rfl⟩

/-- The units that a run over some files turns to are those that it reports documents of. -/
theorem Course.filterMap_output? {g : Generator} {writer : Option Writer} {t t' : Tree} {paths : List Path}
    {reports : List FileReport} (h : g.Course writer t paths reports t') :
    reports.filterMap (·.output?) = (g.sourcesFrom writer t paths).map g.output := by
  induction h with
  | done t => rfl
  | withoutClass hunit _ ih =>
    rw [sourcesFrom, hunit]
    exact ih
  | generated hunit hwrite _ ih =>
    rw [sourcesFrom, hunit]
    dsimp only
    rw [hwrite, List.map_cons, ← ih]
    rfl

/-- The documents of these units are those that are reported. -/
theorem Course.flatMap_documents {g : Generator} {writer : Option Writer} {t t' : Tree} {paths : List Path}
    {reports : List FileReport} (h : g.Course writer t paths reports t') :
    ((g.sourcesFrom writer t paths).flatMap fun unit => (g.output unit).documents) =
      (RunResult.ofReports reports).units.flatMap (·.documents) := by
  show _ = (reports.filterMap (·.output?)).flatMap _
  rw [h.filterMap_output?, List.flatMap_map]

/-- The documents that a successful run generates are those of its result. -/
theorem documents_of_run {g : Generator} {writer : Option Writer} {t t' : Tree} {result : RunResult}
    (h : (g.run writer).effect t = (.ok result, t')) :
    g.documents writer t = result.units.flatMap (·.documents) := by
  have hlacks := (run_eq_ok_iff.1 h).1
  obtain ⟨reports, hcourse, rfl⟩ := course_of_run h
  rw [documents, sources_eq hlacks]
  exact hcourse.flatMap_documents

end Generator

end GetSet
