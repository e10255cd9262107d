import GetSet.Proofs.Command.Setup
import GetSet.Proofs.Run.Again
import GetSet.Proofs.Run.Frame
import GetSet.Proofs.Tree.Rewalk

/-!
# Running a command again

A command that succeeded is run again with the same arguments. What the first run wrote are files for the second run to
read if the output directory lies in one of the inputs; they are settled like all others, and the second run writes
nothing (`restsOn_iff`). It can only fail because of its configuration file, from which no options can be read any more
if the first document is written there, or because it comes upon a file whose path is too long or cannot be printed.
-/

namespace GetSet

namespace Collector

/-! ## The files that are found again -/

/-- What an input that exists stands for in a tree that has grown. -/
theorem mem_filesOf_of_grows (c : Collector) {t t' : Tree} (hgrows : t.Grows t') (hlinks : t.LinksResolve)
    {input p : Path} (hinput : t.isDirectory input = false → t.pathExists input = true)
    (hp : p ∈ c.filesOf t' input) (hexists : t'.pathExists p = true) :
    p ∈ c.filesOf t input ∨ t.LeadsToNew t' p := by
  rw [filesOf] at hp ⊢
  by_cases hdir : t.isDirectory input = true
  · rw [if_pos (hgrows.isDirectory hdir)] at hp
    rw [if_pos hdir]
    obtain ⟨hbelow, hextension⟩ := List.mem_filter.1 hp
    refine (Tree.mem_filesBelow_of_grows hgrows hlinks hdir hbelow hexists).imp_left fun hbelow => ?_
    exact List.mem_filter.2 ⟨hbelow, hextension⟩
  · -- the input is a file, and stays one
    rw [Bool.not_eq_true] at hdir
    rw [hgrows.isDirectory_eq (hinput hdir), hdir] at hp
    rw [hdir]
    exact Or.inl hp

/-- If what some inputs stand for exists then an input that is no directory exists. -/
theorem pathExists_of_mem (c : Collector) {t : Tree} {inputs : List Path}
    (hexist : ∀ path ∈ c.filesAt t inputs, t.pathExists path = true) {input : Path} (hinput : input ∈ inputs)
    (hdir : t.isDirectory input = false) : t.pathExists input = true := by
  refine hexist input (List.mem_flatMap.2 ⟨input, hinput, ?_⟩)
  rw [filesOf, hdir]
  exact List.mem_singleton_self input

/-- Inputs that exist stand for the same files in a tree that has grown, and for new ones, if their paths reach them. -/
theorem mem_filesAt_of_grows (c : Collector) {t t' : Tree} (hgrows : t.Grows t') (hlinks : t.LinksResolve)
    {inputs : List Path} (hexist : ∀ path ∈ c.filesAt t inputs, t.pathExists path = true) {p : Path}
    (hp : p ∈ c.filesAt t' inputs) (hexists : t'.pathExists p = true) :
    p ∈ c.filesAt t inputs ∨ t.LeadsToNew t' p := by
  obtain ⟨input, hinput, hp⟩ := List.mem_flatMap.1 hp
  refine (c.mem_filesOf_of_grows hgrows hlinks (c.pathExists_of_mem hexist hinput) hp hexists).imp_left fun hp => ?_
  exact List.mem_flatMap.2 ⟨input, hinput, hp⟩

end Collector

namespace Command

namespace Invocation

/-! ## The configuration file -/

/-- Nothing is overwritten, and the templates are the built-in ones. -/
structure IsPlain (inv : Invocation) (t : Tree) : Prop where
  templates_eq : inv.get? .templates = none
  overwriteFiles_eq : ∀ options, inv.optionsAt t = .ok options → options.overwriteFiles = false

/-- The run of a command does not write its first document to the configuration file. -/
def KeepsConfiguration (inv : Invocation) (t : Tree) : Prop :=
  ∀ options, inv.optionsAt t = .ok options → ∀ path ∈ inv.path? .config, ∀ l, t.LeadsTo path l →
    let g := inv.generatorAt t options
    ∀ d ∈ (g.documents (some g.writer) t).head?, ¬ g.writer.Reopens d t l

/-- No path of the files that a command is given on a tree is too long. -/
def HasShortPaths (inv : Invocation) (t : Tree) : Prop :=
  ∀ options, inv.optionsAt t = .ok options →
    ∀ path ∈ (inv.generatorAt t options).classFiles, path.bytes.length < Tree.pathLimit

/-- If a command prints its statistics then the paths of the files in which it finds no class are texts. -/
def HasPrintablePaths (inv : Invocation) (t : Tree) : Prop :=
  inv.has .json = true → ∀ stats, (inv.perform.effect t).1 = .ok stats →
    ∀ path ∈ stats.unitsWithoutClassPaths, path.isText = true

variable {inv : Invocation} {t t' : Tree}

/-- The options are the same in a tree in which the configuration file has its content. -/
theorem optionsAt_of_grows (hgrows : t.Grows t') {options : Options} (hoptions : inv.optionsAt t = .ok options)
    (hkept : ∀ path ∈ inv.path? .config, ∀ l content, t.LeadsTo path l → t.get? l = some (.file content) →
      t'.get? l = some (.file content)) : inv.optionsAt t' = .ok options := by
  cases hpath : inv.path? .config with
  | none => rwa [optionsAt_eq_of_none hpath] at hoptions ⊢
  | some path =>
    obtain ⟨text, base, htext, hbase, rfl⟩ := (optionsAt_eq_ok_iff hpath).1 hoptions
    obtain ⟨l, content, hleads, hl, hcontent⟩ := Tree.readText_eq_ok_iff.1 htext
    have htext' :=
      Tree.readText_eq_ok_iff.2 ⟨l, content, hleads.grows hgrows, hkept path hpath l content hleads hl, hcontent⟩
    exact (optionsAt_eq_ok_iff hpath).2 ⟨text, base, htext', hbase, rfl⟩

/-- No options are read from a document. -/
theorem ofToml?_of_mem_documents {options : Options} {writer : Option Writer} {d : Document}
    (hd : d ∈ (inv.generatorAt t options).documents writer t') : Options.ofToml? d.body = none := by
  obtain ⟨unit, -, hd⟩ := List.mem_flatMap.1 hd
  exact unit.ofToml?_of_mem_documents options hd

/-- Options are read again from a configuration file that is kept. -/
theorem KeepsConfiguration.optionsAt_eq (hplain : inv.IsPlain t) {options : Options}
    (hoptions : inv.optionsAt t = .ok options) (h : inv.KeepsConfiguration t) :
    inv.optionsAt ((inv.generatorAt t options).generate.effect t).2 = .ok options := by
  refine optionsAt_of_grows ((inv.generatorAt t options).confined_generate t).grows hoptions
    fun path hpath l content hleads hl => ?_
  exact (Generator.generate_keeps_iff (hplain.overwriteFiles_eq _ hoptions) hl).2 fun d hd hreopens =>
    absurd hreopens (h _ hoptions path hpath l hleads d hd)

/-- A configuration file that options are read from again is kept: no options are read from a document. -/
theorem keepsConfiguration_of_optionsAt (hplain : inv.IsPlain t) {options options' : Options}
    (hoptions : inv.optionsAt t = .ok options)
    (h : inv.optionsAt ((inv.generatorAt t options).generate.effect t).2 = .ok options') :
    inv.KeepsConfiguration t := by
  intro options₁ hoptions₁ path hpath l hleads
  obtain rfl := Except.ok.inj (hoptions.symm.trans hoptions₁)
  intro g d hd hreopens
  obtain ⟨text, base, htext, hbase, -⟩ := (optionsAt_eq_ok_iff hpath).1 hoptions
  obtain ⟨l', content, hleads', hl, hcontent⟩ := Tree.readText_eq_ok_iff.1 htext
  obtain rfl := hleads.unique hleads'
  have hconfined := g.confined_generate t
  -- no options can be read where a document is
  have hbody : ∀ {d : Document} {text : String}, d ∈ g.documents (some g.writer) t →
      String.fromUTF8? d.body.toUTF8 = some text → Options.ofToml? text = none := by
    intro d text hd htext
    rw [Tree.fromUTF8?_toUTF8, Option.some.injEq] at htext
    rw [← htext]
    exact ofToml?_of_mem_documents hd
  obtain ⟨content', hl'⟩ := hconfined.grows.file hl
  obtain ⟨text', base', htext', hbase', -⟩ := (optionsAt_eq_ok_iff hpath).1 h
  obtain ⟨l₁, content₁, hleads₁, hl₁, hcontent₁⟩ := Tree.readText_eq_ok_iff.1 htext'
  obtain rfl := (hleads.grows hconfined.grows).unique hleads₁
  rcases hconfined.file hl₁ with hsame | ⟨d', hd', rfl, -⟩
  · -- the file has the content that it had, which must be the document
    rw [hl, Option.some.injEq, Node.file.injEq] at hsame
    subst hsame
    have hkept := (Generator.generate_keeps_iff (hplain.overwriteFiles_eq _ hoptions) hl).1 hl₁ d hd hreopens
    subst hkept
    rw [hbody (List.mem_of_mem_head? hd) hcontent] at hbase
    simp at hbase
  · rw [hbody hd' hcontent₁] at hbase'
    simp at hbase'

/-! ## The second run -/

/-- The second run turns to the files of the first one and to new ones if all of them exist. -/
theorem forall_mem_classFiles_of_grows (hgrows : t.Grows t') (hlinks : t.LinksResolve) {options : Options}
    (hexist : ∀ path ∈ (inv.generatorAt t options).classFiles, t.pathExists path = true)
    (hexist' : ∀ path ∈ (inv.generatorAt t' options).classFiles, t'.pathExists path = true) :
    ∀ path ∈ (inv.generatorAt t' options).classFiles,
      path ∈ (inv.generatorAt t options).classFiles ∨ t.LeadsToNew t' path := fun path hpath =>
  Collector.mem_filesAt_of_grows ⟨[options.extension]⟩ hgrows hlinks hexist hpath (hexist' path hpath)

/-- The files of the second run exist if their paths are not too long. -/
theorem HasShortPaths.pathExists (h : inv.HasShortPaths t') (hgrows : t.Grows t') {options : Options}
    (hoptions : inv.optionsAt t' = .ok options)
    (hexist : ∀ path ∈ (inv.generatorAt t options).classFiles, t.pathExists path = true) :
    ∀ path ∈ (inv.generatorAt t' options).classFiles, t'.pathExists path = true := by
  intro path hpath
  refine (Collector.pathExists_iff_of_mem_filesAt ⟨[options.extension]⟩ (fun input hinput hdir => ?_) hpath).2
    (h options hoptions path hpath)
  -- an input that is no directory now was none before
  have hdir' : t.isDirectory input = false := by
    rw [Bool.eq_false_iff]
    exact fun h => by simp [hgrows.isDirectory h] at hdir
  exact hgrows.pathExists (Collector.pathExists_of_mem ⟨[options.extension]⟩ hexist hinput hdir')

/-- Paths of files that exist are not too long. -/
theorem hasShortPaths_of_exist {options : Options} (hoptions : inv.optionsAt t = .ok options)
    (hexist : ∀ path ∈ (inv.generatorAt t options).classFiles, t.pathExists path = true) : inv.HasShortPaths t := by
  intro options' hoptions' path hpath
  obtain rfl := Except.ok.inj (hoptions.symm.trans hoptions')
  obtain ⟨_, _, hlocate⟩ := Tree.pathExists_iff.1 (hexist path hpath)
  exact (Tree.followable_of_locate hlocate).short

/-- What has been printed could be printed. -/
theorem Prints.hasPrintablePaths {stats : Stats} (h : inv.Prints stats)
    (hperform : inv.perform.effect t = (.ok stats, t')) : inv.HasPrintablePaths t := by
  intro hjson stats' hstats' path hpath
  rw [hperform] at hstats'
  obtain rfl := Except.ok.inj hstats'
  exact h hjson path (by simp [Stats.paths, hpath])

/-- A command without a configuration file and templates that is given only texts for paths, and no long ones, can
follow its paths and print those of files that declare no class. -/
theorem hasPaths_of_forall (hconfig : inv.path? .config = none) (htemplates : inv.get? .templates = none)
    (h : ∀ path ∈ (inv.generatorAt t (inv.override {})).classFiles,
      path.bytes.length < Tree.pathLimit ∧ path.isText = true) : inv.HasShortPaths t ∧ inv.HasPrintablePaths t := by
  refine ⟨fun options hoptions path hpath => ?_, fun _ stats hstats path hpath => ?_⟩
  · rw [eq_override_of_optionsAt hconfig hoptions] at hpath
    exact (h path hpath).1
  · obtain ⟨options, result, hoptions, -, hgenerate, rfl⟩ := (perform_eq_ok_iff htemplates).1 (Prod.ext hstats rfl)
    have hmem := (Generator.accounts_of_run hgenerate).interleaving.mem_iff.2 (Or.inr hpath)
    rw [eq_override_of_optionsAt hconfig hoptions] at hmem
    exact (h path hmem).2

/-- If the first run has printed its statistics then the second run can print all paths but those of files that declare
no class. -/
theorem Prints.again {stats again : Stats} (h : inv.Prints stats)
    (hdocuments : ∀ p, p ∈ again.writtenPaths ∨ p ∈ again.skippedPaths →
      p ∈ stats.writtenPaths ∨ p ∈ stats.skippedPaths)
    (hclasses : inv.has .json = true → ∀ path ∈ again.unitsWithoutClassPaths, path.isText = true) :
    inv.Prints again := by
  intro hjson path hpath
  rw [Stats.paths, List.append_assoc, List.mem_append, List.mem_append] at hpath
  rcases hpath with hclass | hdocument
  · exact hclasses hjson path hclass
  · refine h hjson path ?_
    rw [Stats.paths, List.append_assoc, List.mem_append, List.mem_append]
    exact Or.inr (hdocuments path hdocument)

theorem perform_again_iff (hplain : inv.IsPlain t) (hlinks : t.LinksResolve) {stats : Stats}
    (h : inv.perform.effect t = (.ok stats, t')) (hprints : inv.Prints stats) :
    (∃ again, inv.perform.effect t' = (.ok again, t') ∧ again.filesWritten = 0 ∧ inv.Prints again) ↔
      inv.KeepsConfiguration t ∧ inv.HasShortPaths t' ∧ inv.HasPrintablePaths t' := by
  obtain ⟨options, result, hoptions, hexist, hgenerate, rfl⟩ := (perform_eq_ok_iff hplain.templates_eq).1 h
  constructor
  · rintro ⟨again, hagain, -, hprints'⟩
    obtain ⟨options', -, hoptions', hexist', -⟩ := (perform_eq_ok_iff hplain.templates_eq).1 hagain
    refine ⟨?_, hasShortPaths_of_exist hoptions' hexist', hprints'.hasPrintablePaths hagain⟩
    have ht' : t' = ((inv.generatorAt t options).generate.effect t).2 := by rw [hgenerate]
    rw [ht'] at hoptions'
    exact keepsConfiguration_of_optionsAt hplain hoptions hoptions'
  · rintro ⟨hkeeps, hshort, hprintable⟩
    have hoptions' := hkeeps.optionsAt_eq hplain hoptions
    have hgrows := ((inv.generatorAt t options).confined_generate t).grows
    rw [hgenerate] at hoptions' hgrows
    have hexist' := hshort.pathExists hgrows hoptions' hexist
    have hkeep := hplain.overwriteFiles_eq options hoptions
    obtain ⟨⟨again, hagain, hwritten⟩, hnames⟩ := Generator.generate_again (g := inv.generatorAt t options) rfl hkeep
      hgenerate (forall_mem_classFiles_of_grows hgrows hlinks hexist hexist')
    have hperform := (perform_eq_ok_iff hplain.templates_eq).2 ⟨options, again, hoptions', hexist', hagain, rfl⟩
    refine ⟨again.stats, hperform, hwritten, hprints.again (fun p hp => ?_) fun hjson => ?_⟩
    · exact Generator.mem_written_or_skipped_of_again hgenerate hagain hnames hp
    · exact hprintable hjson again.stats (by rw [hperform])

end Invocation

/-! ## The command -/

/-- On this tree a command succeeds, writes nothing and leaves everything as it is. -/
def RestsOn (args : List Bytes) (t : Tree) : Prop :=
  ∀ showLog, (run args showLog t).1.code = 0 ∧ (run args showLog t).2 = t ∧
    ∀ inv, Invocation.ofArguments args = .ok inv →
      ∃ stats, inv.perform.effect t = (.ok stats, t) ∧ stats.filesWritten = 0

/-- What a command does with an invocation. -/
theorem run_of_ofArguments {args : List Bytes} {inv : Invocation} (hargs : Invocation.ofArguments args = .ok inv)
    (showLog : Bool) (t : Tree) :
    (run args showLog t).2 = (inv.perform.effect t).2 ∧
      ((run args showLog t).1.code = 0 ↔ ∃ stats, (inv.perform.effect t).1 = .ok stats ∧ inv.Prints stats) := by
  obtain ⟨journal, hrun⟩ := run_eq hargs showLog t
  rw [hrun]
  refine ⟨rfl, ?_⟩
  show (inv.report showLog (inv.perform.effect t).1 journal).code = 0 ↔ _
  cases (inv.perform.effect t).1 with
  | error fault => simp [Invocation.report]
  | ok stats => simp [inv.code_report_ok]

/-- A command whose exit code is 0 has been performed. -/
theorem exists_perform_of_run {args : List Bytes} {inv : Invocation} (hargs : Invocation.ofArguments args = .ok inv)
    {showLog : Bool} {t : Tree} (hok : (run args showLog t).1.code = 0) :
    ∃ stats, inv.perform.effect t = (.ok stats, (run args showLog t).2) ∧ inv.Prints stats := by
  obtain ⟨htree, hcode⟩ := run_of_ofArguments hargs showLog t
  obtain ⟨stats, hstats, hprints⟩ := hcode.1 hok
  exact ⟨stats, by rw [htree, ← hstats], hprints⟩

/-- Arguments that are no invocation generate nothing, on any tree. -/
theorem run_of_stop {args : List Bytes} {stop : Stop} (hargs : Invocation.ofArguments args = .error stop)
    (showLog showLog' : Bool) (t t' : Tree) :
    (run args showLog' t').1.code = (run args showLog t).1.code ∧ (run args showLog' t').2 = t' := by
  rw [run, run, hargs]
  cases stop <;> exact ⟨rfl, rfl⟩

/-- A command has succeeded that does not overwrite and has no templates of its own, in a tree all of whose links lead
somewhere. It rests, that is run again it succeeds, writes nothing and leaves the tree as it is, exactly if it has not
written its first document to its own configuration file, the second run comes upon no path that is too long, and the
second run can print the paths of the files in which it finds no class if it has to. -/
theorem restsOn_iff {args : List Bytes} {showLog : Bool} {t : Tree}
    (hplain : ∀ inv, Invocation.ofArguments args = .ok inv → inv.IsPlain t) (hlinks : t.LinksResolve)
    (hok : (run args showLog t).1.code = 0) :
    RestsOn args (run args showLog t).2 ↔
      ∀ inv, Invocation.ofArguments args = .ok inv → inv.KeepsConfiguration t ∧
        inv.HasShortPaths (run args showLog t).2 ∧ inv.HasPrintablePaths (run args showLog t).2 := by
  cases hargs : Invocation.ofArguments args with
  | error stop =>
    have hrun := run_of_stop hargs showLog
    refine iff_of_true (fun showLog' => ?_) (by simp)
    exact ⟨(hrun showLog' t _).1.trans hok, (hrun showLog' t _).2, by simp [hargs]⟩
  | ok inv =>
    obtain ⟨stats, heffect, hprints⟩ := exists_perform_of_run hargs hok
    have hagain := Invocation.perform_again_iff (hplain inv hargs) hlinks heffect hprints
    simp only [Except.ok.injEq, forall_eq']
    rw [← hagain]
    constructor
    · intro hrests
      obtain ⟨again, hperform, hwritten⟩ := (hrests showLog).2.2 inv hargs
      obtain ⟨again', hperform', hprints'⟩ := exists_perform_of_run hargs (hrests showLog).1
      rw [hperform] at hperform'
      obtain rfl := Except.ok.inj (Prod.mk.inj hperform').1
      exact ⟨again, hperform, hwritten, hprints'⟩
    · rintro ⟨again, hperform, hwritten, hprints'⟩ showLog'
      obtain ⟨htree', hcode'⟩ := run_of_ofArguments hargs showLog' (run args showLog t).2
      rw [hperform] at htree' hcode'
      refine ⟨hcode'.2 ⟨again, rfl, hprints'⟩, htree', fun inv' hinv' => ?_⟩
      obtain rfl := Except.ok.inj (hargs.symm.trans hinv')
      exact ⟨again, hperform, hwritten⟩

/-- A directory with a class, and a link to that directory. -/
def linkedTree : Tree :=
  ((Tree.empty.insert ["work"] "src" .directory).insert ["src", "work"] "Card.php"
    (.file "/**\n * @property int $amount\n */\nclass Card\n".toUTF8)).insert ["work"] "all" (.link ⟨"src"⟩)

/-- The command generates into the directory that it looks into. -/
def insideArguments : List Bytes :=
  ["--json", "--classes", "-o", "src/gen", "all"]

/-- What these arguments say. -/
def insideInvocation : Invocation where
  inputs := [⟨"all"⟩]
  switches := [.json, .classes]
  settings := [(.outputDir, "src/gen")]

/-- The second run reads what the first one generated, and rests. -/
theorem restsOn_inside :
    (run insideArguments false linkedTree).1.code = 0 ∧
      RestsOn insideArguments (run insideArguments false linkedTree).2 := by
  have hargs : Invocation.ofArguments insideArguments = .ok insideInvocation := by decide +kernel
  have hok : (run insideArguments false linkedTree).1.code = 0 := by decide +kernel
  refine ⟨hok, (restsOn_iff ?_ (by decide +kernel) hok).2 fun inv hinv => ?_⟩
  · intro inv hinv
    obtain rfl := Except.ok.inj (hargs.symm.trans hinv)
    exact ⟨rfl, fun options h => by rw [Invocation.eq_override_of_optionsAt rfl h]; rfl⟩
  · obtain rfl := Except.ok.inj (hargs.symm.trans hinv)
    have hkeeps : insideInvocation.KeepsConfiguration linkedTree := fun options _ path hpath =>
      -- there is no configuration file
      nomatch show none = some path from hpath
    exact ⟨hkeeps, Invocation.hasPaths_of_forall rfl rfl (by decide +kernel)⟩

/-- A class, and a configuration file that has the name of the interface for it. -/
def configuredTree : Tree :=
  ((Tree.empty.insert ["work"] "Card.php" (.file "<?php\nclass Card\n".toUTF8)).insert ["work"] "b" .directory).insert
    ["b", "work"] "CardInterface.php" (.file "output_dir = \"a/../b\"\n".toUTF8)

/-- The command reads its options from that file. -/
def configuredArguments : List Bytes :=
  ["-c", "b/CardInterface.php", "Card.php"]

/-- The first run writes the interface to its configuration file, and the second one fails. -/
theorem not_restsOn_configured :
    (∀ inv, Invocation.ofArguments configuredArguments = .ok inv → inv.IsPlain configuredTree) ∧
      configuredTree.LinksResolve ∧ (run configuredArguments false configuredTree).1.code = 0 ∧
      ¬ RestsOn configuredArguments (run configuredArguments false configuredTree).2 := by
  refine ⟨?_, by decide +kernel, by decide +kernel, fun hrests => ?_⟩
  · intro inv hinv
    have hargs : Invocation.ofArguments configuredArguments =
        .ok { inputs := [⟨"Card.php"⟩], settings := [(.config, "b/CardInterface.php")] } := by decide +kernel
    obtain rfl := Except.ok.inj (hargs.symm.trans hinv)
    refine ⟨rfl, fun options hoptions => ?_⟩
    have hkeep : (Invocation.optionsAt { inputs := [⟨"Card.php"⟩], settings := [(.config, "b/CardInterface.php")] }
        configuredTree).map (·.overwriteFiles) = .ok false := by decide +kernel
    rw [hoptions] at hkeep
    exact Except.ok.inj hkeep
  · have hfails : (run configuredArguments false (run configuredArguments false configuredTree).2).1.code = 1 := by
      decide +kernel
    exact absurd ((hrests false).1.symm.trans hfails) (by decide)

end Command

end GetSet
