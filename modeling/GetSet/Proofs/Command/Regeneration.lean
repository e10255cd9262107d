import GetSet.Proofs.Command.Convergence
import GetSet.Proofs.Run.Regeneration
import GetSet.Proofs.Tree.Detour

/-!
# Regenerating with a command

A command that overwrites and has succeeded is run again with the same arguments. It succeeds exactly if the first run
has written no document to its configuration file, the second one comes upon no path that is too long and it can print
the paths that it has to print; files keep their content unless they are fed by files that the first run has written
(`run_regenerates`). So a command may undo what it did: a class that it generated into one of its own inputs declares no
properties, and takes the place of the class that it was generated for (`not_repeats`).
-/

namespace GetSet

namespace Collector

/-! ## The order of the files -/

theorem filter_filesOf_of_grows (c : Collector) {t t' : Tree} (hgrows : t.Grows t') (hlinks : t.LinksResolve)
    {input : Path} (hinput : t.isDirectory input = false → t.pathExists input = true) {keep : Path → Bool}
    (hnew : ∀ p, t.LeadsToNew t' p → keep p = false) (hexist : ∀ p ∈ c.filesOf t' input, t'.pathExists p = true) :
    (c.filesOf t' input).filter keep = (c.filesOf t input).filter keep := by
  rw [filesOf, filesOf]
  by_cases hdir : t.isDirectory input = true
  · rw [filesOf, if_pos (hgrows.isDirectory hdir)] at hexist
    rw [if_pos (hgrows.isDirectory hdir), if_pos hdir, filesBelow, filesBelow, List.filter_filter, List.filter_filter]
    -- the files that match and are kept are among those that exist
    refine Tree.filter_filesBelow_of_grows hgrows hlinks hdir (fun p hp => by simp [hnew p hp]) fun p hp hkept => ?_
    exact hexist p (List.mem_filter.2 ⟨hp, (Bool.and_eq_true_iff.1 hkept).2⟩)
  · rw [Bool.not_eq_true] at hdir
    rw [hgrows.isDirectory_eq (hinput hdir), hdir]
    rfl

/-- What inputs stand for in a tree that has grown comes in the same order, new files left out. -/
theorem filter_filesAt_of_grows (c : Collector) {t t' : Tree} (hgrows : t.Grows t') (hlinks : t.LinksResolve)
    {inputs : List Path} (hexist : ∀ path ∈ c.filesAt t inputs, t.pathExists path = true)
    (hexist' : ∀ path ∈ c.filesAt t' inputs, t'.pathExists path = true) {keep : Path → Bool}
    (hnew : ∀ p, t.LeadsToNew t' p → keep p = false) :
    (c.filesAt t' inputs).filter keep = (c.filesAt t inputs).filter keep := by
  rw [filesAt, filesAt, List.filter_flatMap, List.filter_flatMap]
  refine List.flatMap_congr fun input hinput =>
    c.filter_filesOf_of_grows hgrows hlinks (c.pathExists_of_mem hexist hinput) hnew fun p hp => ?_
  exact hexist' p (List.mem_flatMap.2 ⟨input, hinput, hp⟩)

end Collector

namespace Command

/-- Two trees have the same directories, files and links; the content of files may be another. -/
def SameNodes (t t' : Tree) : Prop :=
  t.Grows t' ∧ t'.Grows t

namespace Invocation

variable {inv : Invocation} {t t' : Tree} {stats : Stats}

/-- Everything is overwritten, and the templates are the built-in ones. -/
structure Overwrites (inv : Invocation) : Prop where
  has_overwrite : inv.has .overwrite = true
  templates_eq : inv.get? .templates = none

/-- The run of a command writes no document to the configuration file. -/
def SparesConfiguration (inv : Invocation) (t : Tree) : Prop :=
  ∀ options, inv.optionsAt t = .ok options → ∀ path ∈ inv.path? .config,
    ¬ (inv.generatorAt t options).Rewrites t path

/-- The last document that a command writes to a location, or that it writes there when it is run again on the tree that
it left, is of a unit that was read from a file which the first run has written. -/
def FeedsBack (inv : Invocation) (t t' : Tree) (l : Location) : Prop :=
  ∃ options, inv.optionsAt t = .ok options ∧ ∃ unit, (inv.generatorAt t' options).HasLastWord t' l unit ∧
    ((inv.generatorAt t options).Rewrites t unit.path ∨
      ∃ unit', (inv.generatorAt t options).HasLastWord t l unit' ∧ (inv.generatorAt t options).Rewrites t unit'.path)

/-! ## The options of the second run -/

theorem Overwrites.overwriteFiles_eq (h : inv.Overwrites) {options : Options}
    (hoptions : inv.optionsAt t = .ok options) : options.overwriteFiles = true := by
  have hall : ∀ base, (inv.override base).overwriteFiles = true := fun base => by
    rw [override, h.has_overwrite, Bool.or_true]
  cases hpath : inv.path? .config with
  | none =>
    rw [optionsAt, hpath] at hoptions
    rw [← Except.ok.inj hoptions]
    exact hall {}
  | some path =>
    obtain ⟨_, base, -, -, rfl⟩ := (optionsAt_eq_ok_iff hpath).1 hoptions
    exact hall base

section Options

variable {options : Options} {result : RunResult} (hinv : inv.Overwrites) (hoptions : inv.optionsAt t = .ok options)
  (h : (inv.generatorAt t options).generate.effect t = (.ok result, t'))
include hinv hoptions h

/-- Options are read again from a configuration file that no document was written to. -/
theorem SparesConfiguration.optionsAt_eq (hspares : inv.SparesConfiguration t) : inv.optionsAt t' = .ok options := by
  have hconfined := (Generator.deliveries_of_generate (hinv.overwriteFiles_eq hoptions) h).confined
  refine optionsAt_of_grows hconfined.grows hoptions fun path hpath l content hleads hl => ?_
  obtain ⟨content', hl'⟩ := hconfined.grows.file hl
  rcases hconfined.file hl' with hsame | ⟨d, hd, -, htarget⟩
  · rw [hl', ← hsame, hl]
  · refine absurd ?_ (hspares options hoptions path hpath)
    rw [Generator.Rewrites, h]
    exact ⟨d, hd, l, htarget, hleads.grows hconfined.grows⟩

/-- No document was written to a configuration file that options are read from again. -/
theorem sparesConfiguration_of_optionsAt {options' : Options} (hoptions' : inv.optionsAt t' = .ok options') :
    inv.SparesConfiguration t := by
  have hover := hinv.overwriteFiles_eq hoptions
  intro options₁ hoptions₁ path hpath hrewrites
  obtain rfl := Except.ok.inj (hoptions.symm.trans hoptions₁)
  rw [Generator.Rewrites, h] at hrewrites
  obtain ⟨d, hd, l, htarget, hleads⟩ := hrewrites
  -- the last document that is written there is no configuration
  obtain ⟨d', hlast⟩ := exists_isLast (P := fun d => t'.LeadsTo ((inv.generatorAt t options).writer.targetPath d) l)
    ⟨d, hd, htarget⟩
  have hl := (Generator.deliveries_of_generate hover h).get?_of_last hover hlast
  obtain ⟨text, base, htext, hbase, -⟩ := (optionsAt_eq_ok_iff hpath).1 hoptions'
  obtain ⟨l', content, hleads', hl', hcontent⟩ := Tree.readText_eq_ok_iff.1 htext
  obtain rfl := hleads.unique hleads'
  obtain rfl := Node.file.inj (Option.some.inj (hl.symm.trans hl'))
  obtain rfl := Option.some.inj ((Tree.fromUTF8?_toUTF8 d'.body).symm.trans hcontent)
  rw [ofToml?_of_mem_documents hlast.mem] at hbase
  simp at hbase

end Options

/-! ## The second run -/

/-- With the configuration file spared and paths that are short enough the second run succeeds. -/
theorem perform_again_of_spares (hinv : inv.Overwrites) (hlinks : t.LinksResolve)
    (h : inv.perform.effect t = (.ok stats, t')) (hspares : inv.SparesConfiguration t) (hshort : inv.HasShortPaths t') :
    ∃ again t'', inv.perform.effect t' = (.ok again, t'') ∧ SameNodes t' t'' ∧
      (∀ p, p ∈ again.writtenPaths ∨ p ∈ again.skippedPaths → p ∈ stats.writtenPaths ∨ p ∈ stats.skippedPaths) ∧
      ∀ l, t''.get? l ≠ t'.get? l → inv.FeedsBack t t' l := by
  obtain ⟨options, result, hoptions, hexist, hgenerate, rfl⟩ := (perform_eq_ok_iff hinv.templates_eq).1 h
  have hoptions' := hspares.optionsAt_eq hinv hoptions hgenerate
  have hgrows := ((inv.generatorAt t options).confined_generate t).grows
  rw [hgenerate] at hgrows
  have hexist' := hshort.pathExists hgrows hoptions' hexist
  have hpaths := forall_mem_classFiles_of_grows hgrows hlinks hexist hexist'
  obtain ⟨t'', hregenerates, hkeeps⟩ := Generator.exists_regenerates_and_keeps (g := inv.generatorAt t options) rfl
    (hinv.overwriteFiles_eq hoptions) hgenerate hpaths fun keep hnew =>
      Collector.filter_filesAt_of_grows ⟨[options.extension]⟩ hgrows hlinks hexist hexist' hnew
  obtain ⟨again, hagain⟩ := hregenerates.second
  have hperform := (perform_eq_ok_iff hinv.templates_eq).2 ⟨options, again, hoptions', hexist', hagain, rfl⟩
  exact ⟨again.stats, t'', hperform, ⟨hregenerates.confined.grows, hregenerates.shrinks⟩,
    fun p hp => Generator.mem_written_or_skipped_of_again hgenerate hagain hregenerates.name_mem hp,
    fun l hne => ⟨options, hoptions, hkeeps l hne⟩⟩

/-- If only interfaces are generated then what is fed back comes from a class that the first run has read from a file
which it has written by the end. -/
theorem FeedsBack.exists_rewrites (hinv : inv.Overwrites) (hlinks : t.LinksResolve)
    (h : inv.perform.effect t = (.ok stats, t')) (hspares : inv.SparesConfiguration t) (hshort : inv.HasShortPaths t')
    {l : Location} (hfed : inv.FeedsBack t t' l)
    (hclasses : ∀ options, inv.optionsAt t = .ok options → options.generateClasses = false) :
    ∃ options unit, inv.optionsAt t = .ok options ∧ (inv.generatorAt t options).HasLastWord t l unit ∧
      (inv.generatorAt t options).Rewrites t unit.path := by
  obtain ⟨options, result, hoptions, hexist, hgenerate, -⟩ := (perform_eq_ok_iff hinv.templates_eq).1 h
  obtain ⟨options₁, hoptions₁, unit, hunit, hrewrites⟩ := hfed
  obtain rfl := Except.ok.inj (hoptions.symm.trans hoptions₁)
  have hover := hinv.overwriteFiles_eq hoptions
  have hgrows := ((inv.generatorAt t options).confined_generate t).grows
  rw [hgenerate] at hgrows
  have hexist' := hshort.pathExists hgrows (hspares.optionsAt_eq hinv hoptions hgenerate) hexist
  obtain ⟨t'', hregenerates⟩ := Generator.exists_regenerates (g := inv.generatorAt t options) rfl hover hgenerate
    (forall_mem_classFiles_of_grows hgrows hlinks hexist hexist')
  have hkept := hregenerates.not_rewrites rfl hover (hclasses options hoptions) hunit
  obtain ⟨unit', hunit', hrewrites⟩ := hrewrites.resolve_left hkept
  exact ⟨options, unit', hoptions, hunit', hrewrites⟩

/-- A second run that is set up has its configuration file spared, and its paths are short enough. -/
theorem spares_and_short_of_setupAt (hinv : inv.Overwrites) (h : inv.perform.effect t = (.ok stats, t'))
    {g : Generator} (hsetup : inv.setupAt t' = .ok g) : inv.SparesConfiguration t ∧ inv.HasShortPaths t' := by
  obtain ⟨options, result, hoptions, -, hgenerate, -⟩ := (perform_eq_ok_iff hinv.templates_eq).1 h
  obtain ⟨options', hoptions', rfl, hexist'⟩ := (setupAt_eq_ok_iff_of_builtin hinv.templates_eq).1 hsetup
  exact ⟨sparesConfiguration_of_optionsAt hinv hoptions hgenerate hoptions', hasShortPaths_of_exist hoptions' hexist'⟩

/-- What becomes of the second run. -/
theorem perform_regenerates (hinv : inv.Overwrites) (hlinks : t.LinksResolve)
    (h : inv.perform.effect t = (.ok stats, t')) (hprints : inv.Prints stats) :
    ((∃ again, (inv.perform.effect t').1 = .ok again ∧ inv.Prints again) ↔
        inv.SparesConfiguration t ∧ inv.HasShortPaths t' ∧ inv.HasPrintablePaths t') ∧
      SameNodes t' (inv.perform.effect t').2 ∧
      ∀ l, (inv.perform.effect t').2.get? l ≠ t'.get? l → inv.FeedsBack t t' l := by
  cases hsetup : inv.setupAt t' with
  | ok g =>
    obtain ⟨hspares, hshort⟩ := spares_and_short_of_setupAt hinv h hsetup
    obtain ⟨again, t'', hagain, hsame, hdocuments, hkeeps⟩ := perform_again_of_spares hinv hlinks h hspares hshort
    rw [hagain]
    refine ⟨⟨?_, ?_⟩, hsame, hkeeps⟩
    · rintro ⟨again', hagain', hprints'⟩
      obtain rfl := Except.ok.inj hagain'
      exact ⟨hspares, hshort, hprints'.hasPrintablePaths hagain⟩
    · rintro ⟨-, -, hprintable⟩
      exact ⟨again, rfl, hprints.again hdocuments fun hjson => hprintable hjson again (by rw [hagain])⟩
  | error fault =>
    -- the second run fails before it writes anything
    have hfails : inv.perform.effect t' = (.error fault, t') := by rw [effect_perform, hsetup]
    rw [hfails]
    refine ⟨iff_of_false (by simp) ?_, ⟨.refl t', .refl t'⟩, fun l hne => absurd rfl hne⟩
    rintro ⟨hspares, hshort, -⟩
    obtain ⟨again, t'', hagain, -⟩ := perform_again_of_spares hinv hlinks h hspares hshort
    rw [hfails] at hagain
    exact nomatch (Prod.mk.inj hagain).1

end Invocation

/-! ## The command -/

/-- A command that overwrites and has no templates of its own has succeeded, on a tree all of whose links lead
somewhere. Run again it succeeds exactly if the first run has written no document to its configuration file, the second
run comes upon no path that is too long, and it can print the paths of the files in which it finds no class if it has
to. Whether it succeeds or not, nothing comes into being or goes, and files stay as the first run left them except those
that are fed back: the last document written to them, in the first or in the second run, is of a class that was read
from a file which the first run has written. -/
theorem run_regenerates {args : List Bytes} {showLog : Bool} {t : Tree}
    (hargs : ∀ inv, Invocation.ofArguments args = .ok inv → inv.Overwrites) (hlinks : t.LinksResolve)
    (hok : (run args showLog t).1.code = 0) (showLog' : Bool) :
    ((run args showLog' (run args showLog t).2).1.code = 0 ↔
        ∀ inv, Invocation.ofArguments args = .ok inv → inv.SparesConfiguration t ∧
          inv.HasShortPaths (run args showLog t).2 ∧ inv.HasPrintablePaths (run args showLog t).2) ∧
      SameNodes (run args showLog t).2 (run args showLog' (run args showLog t).2).2 ∧
      ∀ l, (run args showLog' (run args showLog t).2).2.get? l ≠ (run args showLog t).2.get? l →
        ∃ inv, Invocation.ofArguments args = .ok inv ∧ inv.FeedsBack t (run args showLog t).2 l := by
  cases hinv : Invocation.ofArguments args with
  | error stop =>
    obtain ⟨hcode, htree⟩ := run_of_stop hinv showLog showLog' t (run args showLog t).2
    rw [htree]
    exact ⟨iff_of_true (hcode.trans hok) (by simp), ⟨.refl _, .refl _⟩, fun l hne => absurd rfl hne⟩
  | ok inv =>
    obtain ⟨stats, heffect, hprints⟩ := exists_perform_of_run hinv hok
    obtain ⟨htree', hcode'⟩ := run_of_ofArguments hinv showLog' (run args showLog t).2
    obtain ⟨hsucceeds, hsame, hkeeps⟩ := Invocation.perform_regenerates (hargs inv hinv) hlinks heffect hprints
    rw [hcode', htree', hsucceeds]
    exact ⟨by simp, hsame, fun l hne => ⟨inv, rfl, hkeeps l hne⟩⟩

/-- Run again on the tree that it left, a command succeeds and leaves everything as it is. -/
def Repeats (args : List Bytes) (t : Tree) : Prop :=
  (run args false (run args false t).2).1.code = 0 ∧
    ∀ l, (run args false (run args false t).2).2.get? l = (run args false t).2.get? l

/-- A directory with a class that has a property. -/
def sourceTree : Tree :=
  (Tree.empty.insert ["work"] "src" .directory).insert ["src", "work"] "Card.php"
    (.file "/**\n * @property int $amount\n */\nclass Card\n".toUTF8)

/-- The command generates interfaces into the directory that it looks into. -/
def inwardArguments : List Bytes :=
  ["--json", "--overwrite", "-o", "src/gen", "src"]

/-- What these arguments say. -/
def inwardInvocation : Invocation where
  inputs := [⟨"src"⟩]
  switches := [.json, .overwrite]
  settings := [(.outputDir, "src/gen")]

/-- The generator of the first run. -/
def forSource : Generator where
  options := { outputDir := ⟨"src/gen"⟩, overwriteFiles := true }
  classFiles := [⟨"src/Card.php"⟩]

/-- The first run does not write to the file of the class. -/
theorem not_rewrites_source {l : Location} {unit : SourceUnit} (hunit : forSource.HasLastWord sourceTree l unit) :
    ¬ forSource.Rewrites sourceTree unit.path := by
  obtain ⟨hsources, hsource, htargets⟩ :
      (forSource.sources (some forSource.writer) sourceTree).map (·.path) = [⟨"src/Card.php"⟩] ∧
        (forSource.generate.effect sourceTree).2.LeadsTo ⟨"src/Card.php"⟩ ["Card.php", "src", "work"] ∧
        ∀ d ∈ forSource.documents (some forSource.writer) sourceTree, ¬ (forSource.generate.effect
          sourceTree).2.LeadsTo (forSource.writer.targetPath d) ["Card.php", "src", "work"] := by
    decide +kernel
  have hmem : unit.path ∈ (forSource.sources (some forSource.writer) sourceTree).map (·.path) :=
    List.mem_map_of_mem hunit.mem
  rw [hsources] at hmem
  rw [List.mem_singleton.1 hmem]
  rintro ⟨d, hd, l', htarget, hleads⟩
  exact htargets d hd (hleads.unique hsource ▸ htarget)

/-- The second run reads the interface and has nothing to do with it. -/
theorem run_regenerates_inward :
    (∀ inv, Invocation.ofArguments inwardArguments = .ok inv → inv.Overwrites) ∧ sourceTree.LinksResolve ∧
      (run inwardArguments false sourceTree).1.code = 0 ∧ Repeats inwardArguments sourceTree := by
  have hargs : Invocation.ofArguments inwardArguments = .ok inwardInvocation := by decide +kernel
  have hgenerator : inwardInvocation.generatorAt sourceTree (inwardInvocation.override {}) = forSource := by
    decide +kernel
  have hall : ∀ inv, Invocation.ofArguments inwardArguments = .ok inv → inv.Overwrites := by
    intro inv hinv
    obtain rfl := Except.ok.inj (hargs.symm.trans hinv)
    exact ⟨rfl, rfl⟩
  have hlinks : sourceTree.LinksResolve := Tree.linksResolve_of_hasNoLinks (by decide +kernel)
  have hok : (run inwardArguments false sourceTree).1.code = 0 := by decide +kernel
  have hspares : inwardInvocation.SparesConfiguration sourceTree := fun options _ path hpath =>
    -- there is no configuration file
    nomatch show none = some path from hpath
  obtain ⟨hshort, hprintable⟩ : inwardInvocation.HasShortPaths (run inwardArguments false sourceTree).2 ∧
      inwardInvocation.HasPrintablePaths (run inwardArguments false sourceTree).2 :=
    Invocation.hasPaths_of_forall rfl rfl (by decide +kernel)
  obtain ⟨hcode, -, hkeeps⟩ := run_regenerates hall hlinks hok false
  refine ⟨hall, hlinks, hok, hcode.2 fun inv hinv => ?_, fun l => by_contra fun hne => ?_⟩
  · obtain rfl := Except.ok.inj (hargs.symm.trans hinv)
    exact ⟨hspares, hshort, hprintable⟩
  · obtain ⟨inv, hinv, hfed⟩ := hkeeps l hne
    obtain rfl := Except.ok.inj (hargs.symm.trans hinv)
    obtain ⟨stats, hfirst, -⟩ := exists_perform_of_run hargs hok
    have hclasses : ∀ options, inwardInvocation.optionsAt sourceTree = .ok options → options.generateClasses = false :=
      fun options h => by rw [Invocation.eq_override_of_optionsAt rfl h]; rfl
    obtain ⟨options, unit, h, hunit, hrewrites⟩ :=
      hfed.exists_rewrites ⟨rfl, rfl⟩ hlinks hfirst hspares hshort hclasses
    rw [Invocation.eq_override_of_optionsAt rfl h, hgenerator] at hunit hrewrites
    exact not_rewrites_source hunit hrewrites

/-- The command generates classes, too. -/
def inwardClassArguments : List Bytes :=
  ["--overwrite", "--classes", "-o", "src/gen", "src"]

/-- What these arguments say. -/
def inwardClassInvocation : Invocation where
  inputs := [⟨"src"⟩]
  switches := [.overwrite, .classes]
  settings := [(.outputDir, "src/gen")]

/-- The generator of the first run. -/
def forSourceClass : Generator where
  options := { outputDir := ⟨"src/gen"⟩, overwriteFiles := true, generateClasses := true }
  classFiles := [⟨"src/Card.php"⟩]

/-- The tree after the first run. -/
def generatedTree : Tree :=
  (forSourceClass.generate.effect sourceTree).2

/-- The files that the second run comes to. -/
def generatedTreeFiles : List Path :=
  [⟨"src/Card.php"⟩, ⟨"src/gen/Card.php"⟩, ⟨"src/gen/CardInterface.php"⟩]

/-- The class of the source tree. -/
def sourceCard : SourceUnit where
  path := ⟨"src/Card.php"⟩
  name := "Card"
  properties := [⟨"int", "amount", "Amount", "amount"⟩]
  droppedProperties := 0

/-- The class that was generated for it. -/
def generatedCard : SourceUnit where
  path := ⟨"src/gen/Card.php"⟩
  name := "Card"
  properties := []
  droppedProperties := 0

/-- What the two runs are given and where the first one writes to. -/
theorem runs_inwardClass :
    Invocation.ofArguments inwardClassArguments = .ok inwardClassInvocation ∧
      (run inwardClassArguments false sourceTree).1.code = 0 ∧
      inwardClassInvocation.generatorAt sourceTree (inwardClassInvocation.override {}) = forSourceClass ∧
      inwardClassInvocation.generatorAt generatedTree (inwardClassInvocation.override {}) =
        forSourceClass.withFiles generatedTreeFiles ∧
      forSourceClass.sources (some forSourceClass.writer) sourceTree = [sourceCard] ∧
      generatedTree.unitAt ⟨"src/Card.php"⟩ = .ok (some sourceCard) ∧
      generatedTree.LeadsTo ⟨"src/gen/CardInterface.php"⟩ ["CardInterface.php", "gen", "src", "work"] ∧
      generatedTree.LeadsTo ⟨"src/gen/Card.php"⟩ ["Card.php", "gen", "src", "work"] := by
  decide +kernel

theorem unitAt_generatedTree : generatedTree.unitAt ⟨"src/Card.php"⟩ = .ok (some sourceCard) := by
  obtain ⟨-, -, -, -, -, hunit, -⟩ := runs_inwardClass
  exact hunit

theorem places_generatedTree :
    forSourceClass.Places generatedTree "Card" ["CardInterface.php", "gen", "src", "work"]
      ["Card.php", "gen", "src", "work"] := by
  obtain ⟨-, -, -, -, -, -, hinterface, hskeleton⟩ := runs_inwardClass
  exact { interface := hinterface, skeleton := hskeleton, ne := by decide }

/-- The first run writes the interface of the class. -/
theorem get?_generatedTree {result : RunResult}
    (h : forSourceClass.generate.effect sourceTree = (.ok result, generatedTree)) :
    generatedTree.get? ["CardInterface.php", "gen", "src", "work"] =
      some (.file (forSourceClass.output sourceCard).interface.body.toUTF8) := by
  obtain ⟨-, -, -, -, hsources, -⟩ := runs_inwardClass
  have hlast : forSourceClass.HasLastWord sourceTree ["CardInterface.php", "gen", "src", "work"] sourceCard := by
    rw [Generator.HasLastWord, hsources]
    exact ⟨[], [], rfl, ⟨_, List.mem_cons_self, places_generatedTree.interface⟩, by simp⟩
  exact Generator.get?_of_hasLastWord rfl h hlast (places_generatedTree.isLast_interface sourceCard)

/-- A second run comes to the generated class after the class that this was generated for. -/
theorem get?_of_generate_generatedTree {result : RunResult} {t : Tree}
    (h : (forSourceClass.withFiles generatedTreeFiles).generate.effect generatedTree = (.ok result, t)) :
    t.get? ["CardInterface.php", "gen", "src", "work"] =
      some (.file (forSourceClass.output generatedCard).interface.body.toUTF8) := by
  obtain ⟨-, -, -, -, -, -, hinterface, hpath⟩ := runs_inwardClass
  have hpaths : ∀ path ∈ [(⟨"src/gen/CardInterface.php"⟩ : Path)],
      generatedTree.LeadsTo path ["CardInterface.php", "gen", "src", "work"] := by
    simpa using hinterface
  have houtput : forSourceClass.output generatedCard =
      (forSourceClass.withFiles generatedTreeFiles).output ⟨⟨"src/gen/Card.php"⟩, sourceCard.name, [], 0⟩ := rfl
  obtain ⟨reports, hcourse, -⟩ := Generator.course_of_run h
  rw [houtput]
  exact hcourse.get?_interface rfl rfl rfl unitAt_generatedTree (places_generatedTree.withFiles _) hpath hpaths

/-- The interfaces of the two classes have different methods. -/
theorem body_sourceCard_ne :
    (forSourceClass.output sourceCard).interface.body ≠ (forSourceClass.output generatedCard).interface.body := by
  intro hbody
  obtain ⟨text, -, hparse⟩ := Tree.unitAt_eq_ok_iff.1 unitAt_generatedTree
  have hparse' : SourceUnit.parse? "class Card" generatedCard.path = some generatedCard := by decide
  have hmethods : sourceCard.accessorNames = generatedCard.accessorNames :=
    calc sourceCard.accessorNames
      _ = Document.methodNames (forSourceClass.output sourceCard).interface.body :=
        (SourceUnit.methodNames_interface hparse forSourceClass.options).symm
      _ = Document.methodNames (forSourceClass.output generatedCard).interface.body := by rw [hbody]
      _ = generatedCard.accessorNames := SourceUnit.methodNames_interface hparse' forSourceClass.options
  exact absurd hmethods (by decide)

theorem not_repeats_inwardClass : ¬ Repeats inwardClassArguments sourceTree := by
  rintro ⟨hagain, hkept⟩
  obtain ⟨hargs, hok, hgenerator, hgenerator', -⟩ := runs_inwardClass
  -- what the generators of the two runs do
  obtain ⟨stats, hfirst, -⟩ := exists_perform_of_run hargs hok
  obtain ⟨options, result, hoptions, -, hgenerate, -⟩ := (Invocation.perform_eq_ok_iff rfl).1 hfirst
  obtain rfl := Except.ok.inj hoptions
  rw [hgenerator] at hgenerate
  have htree : (run inwardClassArguments false sourceTree).2 = generatedTree := by rw [generatedTree, hgenerate]
  obtain ⟨stats', hsecond, -⟩ := exists_perform_of_run hargs hagain
  rw [htree] at hgenerate hsecond hkept
  obtain ⟨options', result', hoptions', -, hgenerate', -⟩ := (Invocation.perform_eq_ok_iff rfl).1 hsecond
  obtain rfl := Except.ok.inj hoptions'
  rw [hgenerator'] at hgenerate'
  -- the interface would have to be the same
  have hcontent := get?_of_generate_generatedTree hgenerate'
  rw [hkept, get?_generatedTree hgenerate] at hcontent
  have htext := congrArg String.fromUTF8? (Node.file.inj (Option.some.inj hcontent))
  rw [Tree.fromUTF8?_toUTF8, Tree.fromUTF8?_toUTF8] at htext
  exact body_sourceCard_ne (Option.some.inj htext)

/-- A class, and an empty configuration file that has the name of the interface for it. -/
def emptyConfigurationTree : Tree :=
  ((Tree.empty.insert ["work"] "Card.php" (.file "<?php\nclass Card\n".toUTF8)).insert ["work"] "output"
    .directory).insert ["output", "work"] "CardInterface.php" (.file .empty)

/-- The command reads its options from that file. -/
def emptyConfigurationArguments : List Bytes :=
  ["--overwrite", "-c", "output/CardInterface.php", "Card.php"]

/-- What these arguments say. -/
def emptyConfigurationInvocation : Invocation where
  inputs := [⟨"Card.php"⟩]
  switches := [.overwrite]
  settings := [(.config, "output/CardInterface.php")]

/-- The command finds the class by a path that is hardly short enough. -/
def longArguments : List Bytes :=
  ["--overwrite", "-o", "src/gen", (Path.detour ⟨"src"⟩ 2040).bytes]

/-- A class in a working directory whose name is no text. -/
def unnamedTree : Tree :=
  { (Tree.empty.insert [] [0xff] .directory).insert [[0xff]] "Card.php" (.file "class Card".toUTF8) with
    cwd := [[0xff]]
    located := by decide +kernel }

/-- The command looks into that directory by its name, but generates into it without it. -/
def unnamedArguments : List Bytes :=
  ["--json", "--overwrite", "-o", "gen", Text.bytes "../" ++ [0xff]]

/-- A command overwrites and succeeds in a tree without links, and is not repeated. -/
structure FailsToRepeat (args : List Bytes) (t : Tree) : Prop where
  links : t.hasNoLinks = true
  overwrites : ∃ inv, Invocation.ofArguments args = .ok inv ∧ inv.Overwrites
  succeeds : (run args false t).1.code = 0
  undone : ¬ Repeats args t

/-- A command that fails when it is run again is not repeated. -/
theorem failsToRepeat_of_codes {args : List Bytes} {t : Tree} (hlinks : t.hasNoLinks = true)
    (hinv : ∃ inv, Invocation.ofArguments args = .ok inv ∧ inv.Overwrites)
    (hcodes : (run args false t).1.code = 0 ∧ (run args false (run args false t).2).1.code = 1) :
    FailsToRepeat args t where
  links := hlinks
  overwrites := hinv
  succeeds := hcodes.1
  undone hrepeats := absurd (hrepeats.1.symm.trans hcodes.2) (by decide)

/-- Four commands that overwrite and are not repeated although there are no links. The first one is fed with the class
that it has generated. The second one has written to its configuration file, which cannot be read any more. The third
one comes upon the interface that it has generated, by a path that is too long, and the last one cannot print the path
by which it comes upon that interface. -/
theorem not_repeats :
    FailsToRepeat inwardClassArguments sourceTree ∧ FailsToRepeat emptyConfigurationArguments emptyConfigurationTree ∧
      FailsToRepeat longArguments sourceTree ∧ FailsToRepeat unnamedArguments unnamedTree := by
  obtain ⟨hargs, hok, -⟩ := runs_inwardClass
  refine ⟨?inward, ?configuration, ?long, ?unnamed⟩
  case inward =>
    exact ⟨by decide +kernel, ⟨inwardClassInvocation, hargs, ⟨rfl, rfl⟩⟩, hok, not_repeats_inwardClass⟩
  case configuration =>
    exact failsToRepeat_of_codes (by decide +kernel)
      ⟨emptyConfigurationInvocation, by decide +kernel, ⟨rfl, rfl⟩⟩ (by decide +kernel)
  case long => exact failsToRepeat_of_codes (by decide +kernel) ⟨_, rfl, ⟨rfl, rfl⟩⟩ (by decide +kernel)
  case unnamed => exact failsToRepeat_of_codes (by decide +kernel) ⟨_, rfl, ⟨rfl, rfl⟩⟩ (by decide +kernel)

end Command

end GetSet
