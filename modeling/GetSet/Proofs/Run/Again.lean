import GetSet.Proofs.Document.Readback
import GetSet.Proofs.Run.Accounting
import GetSet.Proofs.Tree.Reach

/-!
# Running again

A file is settled in a tree if it can be read there and all documents of the unit that it declares exist. A run over
settled files that does not overwrite writes nothing (`generate_of_settled`). After a run with the built-in templates
all files are settled that it turned to or wrote (`settled_of_generate`): those that it wrote declare no class or one of
the same name as the class that they were generated for.
-/

namespace GetSet

namespace Writer

variable {w : Writer}

/-! ## Documents that exist -/

/-- A document that was written or skipped exists. -/
theorem pathExists_of_deliver {d : Document} {t t' : Tree} {outcome : WriteOutcome}
    (h : w.deliver d t = (.ok outcome, t')) : t'.pathExists (w.targetPath d) = true := by
  rcases deliver_ok_cases h with ⟨-, hexists, -, rfl⟩ | ⟨t₁, -, -, hwrite, -⟩
  · exact hexists
  · obtain ⟨place, -, hlook, -⟩ := Tree.locate_of_write hwrite
    exact Tree.pathExists_iff.2 ⟨_, _, hlook⟩

theorem pathExists_of_mapM {ds : List Document} {t t' : Tree} {outcomes : List WriteOutcome}
    (h : (ds.mapM w.write).effect t = (.ok outcomes, t')) :
    ∀ d ∈ ds, t'.pathExists (w.targetPath d) = true := by
  induction ds generalizing t outcomes with
  | nil => simp
  | cons d ds ih =>
    obtain ⟨outcome, t₁, rest, hfirst, hrest, -⟩ := (Action.effect_mapM_cons_eq_ok_iff w.oblivious_write).1 h
    rw [effect_write] at hfirst
    have hgrows := (w.confined_mapM ds t₁).grows
    rw [hrest] at hgrows
    intro d' hd'
    rcases List.mem_cons.1 hd' with rfl | hd'
    · exact hgrows.pathExists (pathExists_of_deliver hfirst)
    · exact ih hrest d' hd'

/-- A writer that does not overwrite skips documents that exist. -/
theorem mapM_skips (hkeep : w.overwrite = false) {ds : List Document} {t : Tree}
    (h : ∀ d ∈ ds, t.pathExists (w.targetPath d) = true) :
    (ds.mapM w.write).effect t = (.ok (ds.map fun d => .skipped (w.targetPath d)), t) := by
  induction ds with
  | nil => rfl
  | cons d ds ih =>
    have hd : w.deliver d t = (.ok (.skipped (w.targetPath d)), t) := by
      rw [deliver, if_pos ⟨hkeep, h d List.mem_cons_self⟩]
    rw [Action.effect_mapM_cons w.oblivious_write, effect_write, hd]
    dsimp only
    rw [ih fun d' hd' => h d' (List.mem_cons_of_mem d hd'), List.map_cons]

end Writer

/-! ## Classes of known names -/

namespace Tree

variable {t t' : Tree} {names : List String} {path : Path}

/-- A file can be read, and if it declares a class then one of these. -/
def Declares (t : Tree) (names : List String) (path : Path) : Prop :=
  ∃ unit, t.unitAt path = .ok unit ∧ ∀ u ∈ unit, u.name ∈ names

theorem declares_of_text {l : Location} {text : String} (hleads : t.LeadsTo path l)
    (hl : t.get? l = some (.file text.toUTF8))
    (htext : ∀ unit, SourceUnit.parse? text path = some unit → unit.name ∈ names) : t.Declares names path :=
  ⟨_, unitAt_of_text hleads hl, htext⟩

/-- A file still declares one of these classes if the documents that were written do so. -/
theorem Declares.of_confined {w : Writer} {ds : List Document} (h : t.Declares names path)
    (hconfined : w.Confined ds t t')
    (hds : ∀ d ∈ ds, ∀ path unit, SourceUnit.parse? d.body path = some unit → unit.name ∈ names) :
    t'.Declares names path := by
  obtain ⟨unit, hunit, hnames⟩ := h
  obtain ⟨l, content, text, hleads, hl, htext, hparse⟩ := unitAt_eq_ok_iff_file.1 hunit
  have hleads' := hleads.grows hconfined.grows
  obtain ⟨content', hl'⟩ := hconfined.grows.file hl
  rcases hconfined.file hl' with hsame | ⟨d, hd, rfl, -⟩
  · rw [hl, Option.some.injEq, Node.file.injEq] at hsame
    subst hsame
    exact ⟨unit, unitAt_eq_ok_iff_file.2 ⟨l, content, text, hleads', hl', htext, hparse⟩, hnames⟩
  · exact declares_of_text hleads' hl' fun unit => hds d hd path unit

end Tree

namespace Generator

/-! ## Settled files -/

/-- All documents of a unit exist. -/
def Delivered (g : Generator) (t : Tree) (unit : SourceUnit) : Prop :=
  ∀ d ∈ (g.output unit).documents, t.pathExists (g.writer.targetPath d) = true

/-- A file can be read, and if it declares a class then all documents of its unit exist. -/
def Settled (g : Generator) (t : Tree) (path : Path) : Prop :=
  ∃ unit, t.unitAt path = .ok unit ∧ ∀ u ∈ unit, g.Delivered t u

theorem processes_of_settled {g : Generator} (hkeep : g.options.overwriteFiles = false) {t : Tree} {paths : List Path}
    (h : ∀ path ∈ paths, g.Settled t path) :
    (∃ reports, (paths.mapM (g.process (some g.writer))).effect t = (.ok reports, t) ∧
      (Stats.ofReports reports).filesWritten = 0) ∧
    ∀ unit ∈ g.sourcesFrom (some g.writer) t paths, ∃ path ∈ paths, t.unitAt path = .ok (some unit) := by
  induction paths with
  | nil => exact ⟨⟨[], rfl, rfl⟩, by simp [sourcesFrom]⟩
  | cons path paths ih =>
    obtain ⟨⟨reports, hreports, hwritten⟩, hsources⟩ := ih fun p hp => h p (List.mem_cons_of_mem path hp)
    have hlater : ∀ unit ∈ g.sourcesFrom (some g.writer) t paths,
        ∃ p ∈ path :: paths, t.unitAt p = .ok (some unit) := by
      intro unit hunit
      obtain ⟨p, hp, hread⟩ := hsources unit hunit
      exact ⟨p, List.mem_cons_of_mem path hp, hread⟩
    obtain ⟨unit, hunit, hdelivered⟩ := h path List.mem_cons_self
    rw [Action.effect_mapM_cons (g.oblivious_process (some g.writer)), effect_process, sourcesFrom, hunit]
    cases unit with
    | none =>
      refine ⟨⟨.withoutClass path :: reports, by dsimp only; rw [hreports], ?_⟩, hlater⟩
      rw [← List.singleton_append, Stats.ofReports_append]
      exact (Nat.zero_add _).trans hwritten
    | some unit =>
      have hskips := Writer.mapM_skips (w := g.writer) hkeep (hdelivered unit rfl)
      dsimp only
      rw [writeAll, hskips]
      refine ⟨⟨_, by dsimp only; rw [hreports], ?_⟩, List.forall_mem_cons.2 ⟨⟨path, List.mem_cons_self, hunit⟩, hlater⟩⟩
      rw [← List.singleton_append, Stats.ofReports_append, Stats.ofReports_generated, List.filterMap_map]
      show List.length _ + (Stats.ofReports reports).filesWritten = 0
      rw [hwritten]
      simp [WriteOutcome.written?]

/-- A run over settled files that does not overwrite succeeds, writes nothing and leaves the tree as it is. Its units
are those that the files declare. -/
theorem generate_of_settled {g : Generator} (hlacks : g.lacksTemplates = false)
    (hkeep : g.options.overwriteFiles = false) {t : Tree} (h : ∀ path ∈ g.classFiles, g.Settled t path) :
    (∃ result, g.generate.effect t = (.ok result, t) ∧ result.stats.filesWritten = 0) ∧
      ∀ unit ∈ g.sources (some g.writer) t, ∃ path ∈ g.classFiles, t.unitAt path = .ok (some unit) := by
  obtain ⟨⟨reports, hreports, hwritten⟩, hsources⟩ := processes_of_settled hkeep h
  rw [sources_eq hlacks]
  exact ⟨⟨.ofReports reports, run_eq_ok_iff.2 ⟨hlacks, reports, hreports, rfl⟩, hwritten⟩, hsources⟩

/-! ## After a run -/

/-- The documents of the units that a run over some files turns to are all that it writes. -/
theorem Course.confined {g : Generator} {w : Writer} {t t' : Tree} {paths : List Path} {reports : List FileReport}
    (h : g.Course (some w) t paths reports t') :
    w.Confined ((g.sourcesFrom (some w) t paths).flatMap fun unit => (g.output unit).documents) t t' := by
  induction h with
  | done t => exact .refl w _ t
  | withoutClass hunit _ ih =>
    rw [sourcesFrom, hunit]
    exact ih
  | @generated t t₁ _ _ _ _ unit _ hunit hwrite _ ih =>
    have hfirst := w.confined_mapM (g.output unit).documents t
    rw [show ((g.output unit).documents.mapM w.write).effect t = _ from hwrite] at hfirst
    rw [sourcesFrom, hunit]
    dsimp only
    rw [hwrite, List.flatMap_cons]
    exact hfirst.trans ih

/-- After a run all documents of its units exist. -/
theorem Course.delivered {g : Generator} {t t' : Tree} {paths : List Path} {reports : List FileReport}
    (h : g.Course (some g.writer) t paths reports t') :
    ∀ unit ∈ g.sourcesFrom (some g.writer) t paths, g.Delivered t' unit := by
  induction h with
  | done t => simp [sourcesFrom]
  | withoutClass hunit _ ih =>
    rw [sourcesFrom, hunit]
    exact ih
  | generated hunit hwrite hrest ih =>
    rw [sourcesFrom, hunit]
    dsimp only
    rw [hwrite]
    intro unit' hunit'
    rcases List.mem_cons.1 hunit' with rfl | hunit'
    · intro d hd
      exact hrest.confined.grows.pathExists (Writer.pathExists_of_mapM hwrite d hd)
    · exact ih unit' hunit'

/-- A run turns to each of its files: it reads the file from the tree as it is by then. -/
theorem Course.exists_unitAt {g : Generator} {w : Writer} {t t' : Tree} {paths : List Path}
    {reports : List FileReport} (h : g.Course (some w) t paths reports t') {path : Path} (hpath : path ∈ paths) :
    ∃ t₁ unit, t₁.unitAt path = .ok unit ∧ (∀ u ∈ unit, u ∈ g.sourcesFrom (some w) t paths) ∧
      w.Confined ((g.sourcesFrom (some w) t paths).flatMap fun unit => (g.output unit).documents) t₁ t' := by
  induction h with
  | done t => simp at hpath
  | @withoutClass t _ path' _ _ hunit hrest ih =>
    have hconfined := (Course.withoutClass hunit hrest).confined
    rw [sourcesFrom, hunit] at hconfined ⊢
    rcases List.mem_cons.1 hpath with rfl | hpath
    · exact ⟨t, none, hunit, by simp, hconfined⟩
    · exact ih hpath
  | @generated t t₁ _ path' _ _ unit _ hunit hwrite hrest ih =>
    have hconfined := (Course.generated hunit hwrite hrest).confined
    rw [sourcesFrom, hunit] at hconfined ⊢
    dsimp only at hconfined ⊢
    rw [hwrite] at hconfined ⊢
    rcases List.mem_cons.1 hpath with rfl | hpath
    · exact ⟨t, some unit, hunit, by simp, hconfined⟩
    · obtain ⟨t₂, unit', hunit', hmem, hlater⟩ := ih hpath
      refine ⟨t₂, unit', hunit', fun u hu => List.mem_cons_of_mem unit (hmem u hu), hlater.mono ?_⟩
      rw [List.flatMap_cons]
      exact List.subset_append_right _ _

/-- The documents of a unit are named for its class. -/
theorem fileNames_output (g : Generator) (unit : SourceUnit) :
    (g.output unit).documents.map (·.fileName) =
      (interfaceName unit.name ++ "." ++ g.options.extension) ::
        ((Accessor.skeletonTemplates? g.options g.templates).map fun _ =>
          unit.name ++ "." ++ g.options.extension).toList := by
  rw [UnitOutput.documents, output, SourceUnit.skeleton_generate_eq_map]
  rcases Accessor.skeletonTemplates? g.options g.templates with _ | templates <;> rfl

theorem delivered_iff {g : Generator} {t : Tree} {unit : SourceUnit} :
    g.Delivered t unit ↔
      ∀ name ∈ (g.output unit).documents.map (·.fileName),
        t.pathExists (g.writer.outputDir.join (.mk name)) = true := by
  rw [List.forall_mem_map]
  rfl

/-- A unit that is read from a document of a run with the built-in templates has the name of one of its units. -/
theorem exists_name_eq_of_parse? {g : Generator} (hbuiltin : g.templates = .builtin) {writer : Option Writer}
    {t : Tree} {paths : List Path} {d : Document}
    (hd : d ∈ (g.sourcesFrom writer t paths).flatMap fun unit => (g.output unit).documents) {path : Path}
    {unit : SourceUnit} (hparse : SourceUnit.parse? d.body path = some unit) :
    ∃ u ∈ g.sourcesFrom writer t paths, unit.name = u.name := by
  obtain ⟨u, hu, hd⟩ := List.mem_flatMap.1 hd
  obtain ⟨_, source, -, hsource⟩ := g.exists_unitAt_of_mem_sourcesFrom hu
  obtain ⟨_, -, hparse'⟩ := Tree.unitAt_eq_ok_iff.1 hsource
  rw [output, hbuiltin] at hd
  exact ⟨u, hu, SourceUnit.name_of_parse?_document hparse' hd hparse⟩

/-- After a run that succeeds, with the built-in templates, its files can be read, and so can the files that are new.
What they declare has the name of a unit of the run. -/
theorem declares_of_generate {g : Generator} (hbuiltin : g.templates = .builtin) {t t' : Tree} {result : RunResult}
    (h : g.generate.effect t = (.ok result, t')) {path : Path}
    (hpath : path ∈ g.classFiles ∨ t.LeadsToNew t' path) :
    t'.Declares ((g.sourcesFrom (some g.writer) t g.classFiles).map (·.name)) path := by
  obtain ⟨reports, hcourse, -⟩ := course_of_run h
  have hbody : ∀ d ∈ (g.sourcesFrom (some g.writer) t g.classFiles).flatMap fun unit => (g.output unit).documents,
      ∀ path unit, SourceUnit.parse? d.body path = some unit →
        unit.name ∈ (g.sourcesFrom (some g.writer) t g.classFiles).map (·.name) := by
    intro d hd path unit hparse
    obtain ⟨u, hu, hname⟩ := exists_name_eq_of_parse? hbuiltin hd hparse
    exact hname ▸ List.mem_map_of_mem hu
  rcases hpath with hpath | ⟨l, content, hleads, hl, hnew⟩
  · obtain ⟨t₁, unit, hunit, hmem, hconfined⟩ := hcourse.exists_unitAt hpath
    have hread : t₁.Declares ((g.sourcesFrom (some g.writer) t g.classFiles).map (·.name)) path :=
      ⟨unit, hunit, fun u hu => List.mem_map_of_mem (hmem u hu)⟩
    exact hread.of_confined hconfined hbody
  · rcases hcourse.confined.file hl with hold | ⟨d, hd, rfl, -⟩
    · exact absurd hold (hnew content)
    · exact Tree.declares_of_text hleads hl fun unit => hbody d hd path unit

/-- After a run that succeeds, with the built-in templates, its files are settled, and so are the files that are new. -/
theorem settled_of_generate {g : Generator} (hbuiltin : g.templates = .builtin) {t t' : Tree} {result : RunResult}
    (h : g.generate.effect t = (.ok result, t')) {path : Path}
    (hpath : path ∈ g.classFiles ∨ t.LeadsToNew t' path) : g.Settled t' path := by
  obtain ⟨reports, hcourse, -⟩ := course_of_run h
  obtain ⟨unit, hunit, hnames⟩ := declares_of_generate hbuiltin h hpath
  refine ⟨unit, hunit, fun u hu => ?_⟩
  -- there are documents of the same names
  obtain ⟨u', hu', hname⟩ := List.mem_map.1 (hnames u hu)
  have hdelivered := hcourse.delivered u' hu'
  rw [delivered_iff, fileNames_output] at hdelivered ⊢
  rw [← hname]
  exact hdelivered

/-- The documents of a unit have the targets of those of a unit with the same name. -/
theorem exists_targetPath_eq {g : Generator} {t : Tree} {unit : SourceUnit}
    (hname : unit.name ∈ (g.sources (some g.writer) t).map (·.name)) {d : Document}
    (hd : d ∈ (g.output unit).documents) :
    ∃ d' ∈ g.documents (some g.writer) t, g.writer.targetPath d' = g.writer.targetPath d := by
  obtain ⟨unit', hunit', hsame⟩ := List.mem_map.1 hname
  have hfile : d.fileName ∈ (g.output unit').documents.map (·.fileName) := by
    rw [fileNames_output, hsame, ← fileNames_output]
    exact List.mem_map_of_mem hd
  obtain ⟨d', hd', hfileName⟩ := List.mem_map.1 hfile
  exact ⟨d', List.mem_flatMap.2 ⟨unit', hunit', hd'⟩, by rw [Writer.targetPath, Writer.targetPath, hfileName]⟩

/-- A run that comes only to classes of names that another run has come to writes and skips only what the other one has
written or skipped. -/
theorem mem_written_or_skipped_of_again {g : Generator} {t t' t'' : Tree} {result again : RunResult} {paths : List Path}
    (h : g.generate.effect t = (.ok result, t')) (hagain : (g.withFiles paths).generate.effect t' = (.ok again, t''))
    (hnames : ∀ unit ∈ (g.withFiles paths).sources (some g.writer) t',
      unit.name ∈ (g.sources (some g.writer) t).map (·.name)) {p : Path}
    (hp : p ∈ again.stats.writtenPaths ∨ p ∈ again.stats.skippedPaths) :
    p ∈ result.stats.writtenPaths ∨ p ∈ result.stats.skippedPaths := by
  obtain ⟨d, hd, rfl⟩ := (mem_written_or_skipped_iff hagain).1 hp
  obtain ⟨unit, hunit, hd⟩ := List.mem_flatMap.1 hd
  exact (mem_written_or_skipped_iff h).2 (exists_targetPath_eq (g := g) (hnames unit hunit) hd)

/-- After a run that succeeds, with the built-in templates, a run over the same files and new ones that does not
overwrite succeeds, writes nothing and leaves the tree as it is. It comes only to classes of names that the first one
has come to. -/
theorem generate_again {g : Generator} (hbuiltin : g.templates = .builtin) (hkeep : g.options.overwriteFiles = false)
    {t t' : Tree} {result : RunResult} (h : g.generate.effect t = (.ok result, t')) {paths : List Path}
    (hpaths : ∀ path ∈ paths, path ∈ g.classFiles ∨ t.LeadsToNew t' path) :
    (∃ again, (g.withFiles paths).generate.effect t' = (.ok again, t') ∧ again.stats.filesWritten = 0) ∧
      ∀ unit ∈ (g.withFiles paths).sources (some g.writer) t',
        unit.name ∈ (g.sources (some g.writer) t).map (·.name) := by
  have hlacks := (run_eq_ok_iff.1 h).1
  obtain ⟨hagain, hsources⟩ := generate_of_settled (g := g.withFiles paths) hlacks hkeep fun path hpath =>
    settled_of_generate hbuiltin h (hpaths path hpath)
  refine ⟨hagain, fun unit hunit => ?_⟩
  obtain ⟨path, hpath, hread⟩ := hsources unit hunit
  obtain ⟨unit', hread', hnames⟩ := declares_of_generate hbuiltin h (hpaths path hpath)
  obtain rfl := Except.ok.inj (hread.symm.trans hread')
  rw [sources_eq hlacks]
  exact hnames unit rfl

end Generator

end GetSet
