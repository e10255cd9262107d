import GetSet.Proofs.Collector.Files
import GetSet.Proofs.Command.Setup
import GetSet.Proofs.Run.Frame
import GetSet.Proofs.Run.Log

/-!
# How a command fails

An invocation is unfit for a tree if its configuration, a template that it requires or one of its inputs is not there
or of no use. The command then fails before it has changed anything; else it fails for one of three reasons
(`Invocation.FailsWith`): a file or directory cannot be accessed, a file is found whose path is too long to reach it, or
everything is done but a path in the statistics cannot be printed (`run_failure`). The last two are reported in another
way than the first one (`not_only_access`). The checks that the parts of a generation make for themselves find nothing
(`Invocation.ChecksPass`).
-/

namespace GetSet

namespace Tree

/-- What exists fails to be read only because it cannot be accessed. -/
theorem isAccess_of_unitAt {t : Tree} {path : Path} {fault : Fault} (hexists : t.pathExists path = true)
    (h : t.unitAt path = .error fault) : fault.IsAccess := by
  rw [unitAt, if_pos hexists] at h
  cases htext : t.readText path with
  | error e =>
    rw [htext] at h
    exact ⟨path, e, (Except.error.inj h).symm⟩
  | ok text =>
    rw [htext] at h
    simp [Action.mapError_ok, Except.map] at h

end Tree

/-- A file that inputs stand for and that does not exist is found below one of them, and its path is too long. -/
theorem Collector.exists_filesBelow_of_missing (c : Collector) {t : Tree} {inputs : List Path}
    (hinputs : ∀ input ∈ inputs, t.pathExists input = true) {path : Path} (h : path ∈ c.filesAt t inputs)
    (hmissing : t.pathExists path = false) :
    (∃ dir ∈ inputs, t.isDirectory dir = true ∧ path ∈ t.filesBelow dir) ∧ Tree.pathLimit ≤ path.bytes.length := by
  have hreached := c.pathExists_iff_of_mem_filesAt (fun input hinput _ => hinputs input hinput) h
  refine ⟨?_, Nat.not_lt.1 (mt hreached.2 (by simp [hmissing]))⟩
  obtain ⟨input, hinput, hpath⟩ := List.mem_flatMap.1 h
  rw [filesOf] at hpath
  split at hpath
  · next hdir => exact ⟨input, hinput, hdir, (List.mem_filter.1 hpath).1⟩
  · rw [List.mem_singleton.1 hpath, hinputs input hinput] at hmissing
    simp at hmissing

/-! ## The faults of a run -/

namespace Writer

theorem isAccess_of_mapM {w : Writer} {ds : List Document} {t t' : Tree} {fault : Fault}
    (h : (ds.mapM w.write).effect t = (.error fault, t')) : fault.IsAccess := by
  obtain ⟨before, d, after, outcomes, t₁, -, -, hd⟩ := Action.exists_of_effect_mapM_eq_error w.oblivious_write h
  rw [effect_write] at hd
  exact (deliver_error hd).2.1

end Writer

namespace Generator

/-- While files are processed nothing goes. -/
theorem grows_processes (g : Generator) (w : Writer) (t : Tree) (paths : List Path) :
    t.Grows ((paths.mapM (g.process (some w))).effect t).2 := by
  rw [tree_of_processes]
  exact (w.confined_mapM _ t).grows

/-- Processing a file fails only because the file does not exist or because something cannot be accessed. -/
theorem fault_of_process {g : Generator} {writer : Option Writer} {path : Path} {t t' : Tree} {fault : Fault}
    (h : (g.process writer path).effect t = (.error fault, t')) :
    t.pathExists path = false ∧ fault = .missingInput path ∨ fault.IsAccess := by
  rw [effect_process] at h
  cases hunit : t.unitAt path with
  | error fault' =>
    rw [hunit] at h
    obtain rfl := Except.error.inj (Prod.mk.inj h).1
    by_cases hexists : t.pathExists path = true
    · exact Or.inr (Tree.isAccess_of_unitAt hexists hunit)
    · rw [Tree.unitAt, if_neg hexists] at hunit
      exact Or.inl ⟨Bool.eq_false_iff.2 hexists, (Except.error.inj hunit).symm⟩
  | ok unit =>
    rw [hunit] at h
    cases unit with
    | none => cases (Prod.mk.inj h).1
    | some unit =>
      dsimp only at h
      rcases hwrite : (writeAll writer (g.output unit).documents).effect t with ⟨fault' | outcomes, t₁⟩
      · rw [hwrite] at h
        obtain rfl := Except.error.inj (Prod.mk.inj h).1
        cases writer with
        | none => cases (Prod.mk.inj hwrite).1
        | some w => exact Or.inr (Writer.isAccess_of_mapM hwrite)
      · rw [hwrite] at h
        cases (Prod.mk.inj h).1

/-- A run that has the templates that it needs, over files that exist, fails only because something cannot be
accessed. -/
theorem isAccess_of_generate {g : Generator} {t t' : Tree} {fault : Fault} (hlacks : g.lacksTemplates = false)
    (hexist : ∀ path ∈ g.classFiles, t.pathExists path = true) (h : g.generate.effect t = (.error fault, t')) :
    fault.IsAccess := by
  rw [generate, effect_run, if_neg (by simp [hlacks])] at h
  rcases hprocess : (g.classFiles.mapM (g.process (some g.writer))).effect t with ⟨fault' | reports, t₁⟩
  · rw [hprocess] at h
    obtain rfl := Except.error.inj (Prod.mk.inj h).1
    obtain ⟨before, path, after, reports, t₂, hfiles, hbefore, hpath⟩ :=
      Action.exists_of_effect_mapM_eq_error (g.oblivious_process (some g.writer)) hprocess
    -- the file is still there when the run turns to it
    have hgrows := g.grows_processes g.writer t before
    rw [hbefore] at hgrows
    have hexists := hgrows.pathExists (hexist path (by simp [hfiles]))
    exact (fault_of_process hpath).resolve_left fun hmissing => by simp [hexists] at hmissing
  · rw [hprocess] at h
    simp at h

end Generator

namespace Command

namespace Invocation

/-! ## Unfit invocations -/

/-- An invocation cannot be set up on a tree: something that it needs is not there or of no use. -/
inductive Unfit (inv : Invocation) (t : Tree) : Prop where
  /-- The configuration file cannot be read, or it holds no options. -/
  | configuration {path : Path} (hpath : inv.path? .config = some path)
      (hread : ∀ text, t.readText path = .ok text → Options.ofToml? text = none)
  /-- A template that is required cannot be read. -/
  | template {options : Options} {dir file : Path} (hoptions : inv.optionsAt t = .ok options)
      (hdir : inv.path? .templates = some dir) (hfile : file ∈ TemplateSet.requiredFiles options.generateClasses)
      (hread : ∀ text, t.readText (dir.join file) ≠ .ok text)
  /-- An input does not exist. -/
  | input {input : Path} (hinput : input ∈ inv.inputs) (hmissing : t.pathExists input = false)

variable {inv : Invocation} {t : Tree}

/-- An invocation that was set up was not unfit. -/
theorem not_unfit_of_setupAt {g : Generator} (h : inv.setupAt t = .ok g) : ¬ inv.Unfit t := by
  obtain ⟨options, templates, hoptions, htemplates, rfl, hexist⟩ := setupAt_eq_ok_iff.1 h
  intro hunfit
  cases hunfit with
  | configuration hpath hread =>
    obtain ⟨text, base, htext, hbase, -⟩ := (optionsAt_eq_ok_iff hpath).1 hoptions
    rw [hread text htext] at hbase
    simp at hbase
  | template hoptions' hdir hfile hread =>
    obtain rfl := Except.ok.inj (hoptions.symm.trans hoptions')
    rw [templatesAt, hdir] at htemplates
    obtain ⟨text, htext⟩ := Tree.exists_readText_of_templatesAt htemplates _ hfile
    exact hread text htext
  | @input input hinput hmissing =>
    have hfile : input ∈ Collector.filesOf ⟨[options.extension]⟩ t input := by
      have hdir : t.isDirectory input = false := by
        rw [← Bool.not_eq_true]
        intro hdir
        obtain ⟨l, hleads, -⟩ := Tree.isDirectory_iff.1 hdir
        rw [Tree.pathExists_iff.2 ⟨l, hleads⟩] at hmissing
        simp at hmissing
      simp [Collector.filesOf, hdir]
    have hpresent := hexist input (List.mem_flatMap.2 ⟨input, hinput, hfile⟩)
    rw [hmissing] at hpresent
    simp at hpresent

/-- Without a configuration file and templates an invocation is fit if its inputs exist. -/
theorem not_unfit_of_exist (hconfig : inv.path? .config = none) (htemplates : inv.path? .templates = none)
    (hinputs : ∀ input ∈ inv.inputs, t.pathExists input = true) : ¬ inv.Unfit t := by
  intro hunfit
  cases hunfit with
  | configuration hpath => exact nomatch hconfig.symm.trans hpath
  | template _ hdir => exact nomatch htemplates.symm.trans hdir
  | input hinput hmissing => exact absurd (hinputs _ hinput) (by simp [hmissing])

theorem exists_optionsAt_of_not_unfit (h : ¬ inv.Unfit t) : ∃ options, inv.optionsAt t = .ok options := by
  cases hpath : inv.path? .config with
  | none => exact ⟨_, optionsAt_eq_of_none hpath t⟩
  | some path =>
    by_cases hread : ∀ text, t.readText path = .ok text → Options.ofToml? text = none
    · exact absurd (.configuration hpath hread) h
    · simp only [not_forall] at hread
      obtain ⟨text, htext, hbase⟩ := hread
      obtain ⟨base, hbase⟩ := Option.ne_none_iff_exists'.1 hbase
      exact ⟨_, (optionsAt_eq_ok_iff hpath).2 ⟨text, base, htext, hbase, rfl⟩⟩

/-- A file is found below an input, but its path is too long to reach it. -/
structure FindsBeyond (inv : Invocation) (t : Tree) (path : Path) : Prop where
  found : ∃ dir ∈ inv.inputs, t.isDirectory dir = true ∧ path ∈ t.filesBelow dir
  missing : t.pathExists path = false
  long : Tree.pathLimit ≤ path.bytes.length

/-- An invocation that is not unfit is set up unless a template that is not required cannot be accessed or a file is
found whose path is too long. -/
theorem fault_of_setupAt {fault : Fault} (hfit : ¬ inv.Unfit t) (h : inv.setupAt t = .error fault) :
    fault.IsAccess ∨ ∃ path, inv.FindsBeyond t path ∧ fault = .missingInput path := by
  obtain ⟨options, hoptions⟩ := exists_optionsAt_of_not_unfit hfit
  rw [setupAt, hoptions] at h
  dsimp only [bind, Except.bind] at h
  cases htemplates : inv.templatesAt t options with
  | error fault' =>
    rw [htemplates] at h
    obtain rfl := Except.error.inj h
    rw [templatesAt] at htemplates
    split at htemplates
    · next dir hdir =>
      refine Or.inl (Tree.isAccess_of_templatesAt (fun file hfile => ?_) htemplates)
      by_contra hread
      exact hfit (.template hoptions hdir hfile fun text htext => hread ⟨text, htext⟩)
    · simp at htemplates
  | ok templates =>
    have hinputs : ∀ input ∈ inv.inputs, t.pathExists input = true := by
      intro input hinput
      rw [← Bool.not_eq_false]
      exact fun hmissing => hfit (.input hinput hmissing)
    rw [htemplates] at h
    obtain ⟨path, hpath, hmissing, rfl⟩ := missing_of_registeredAll h
    obtain ⟨hfound, hlong⟩ := Collector.exists_filesBelow_of_missing _ hinputs hpath hmissing
    exact Or.inr ⟨path, ⟨hfound, hmissing, hlong⟩, rfl⟩

/-! ## Checks that find nothing -/

/-- What the parts of a generation check for themselves always holds when an invocation is performed: no input is
searched for files that is no directory, a generator has the templates that it needs, and every file exists when the
run turns to it. -/
structure ChecksPass (inv : Invocation) (t : Tree) : Prop where
  directories : ∀ extensions : List String,
    ∃ files, (Collector.expand ⟨extensions⟩ inv.inputs).effect t = (.ok files, t)
  templates : ∀ {g t₁}, inv.setup.effect t = (.ok g, t₁) → g.lacksTemplates = false
  files : ∀ {g t₁}, inv.setup.effect t = (.ok g, t₁) → ∀ {before path after reports t₂},
    g.classFiles = before ++ path :: after →
    (before.mapM (g.process (some g.writer))).effect t₁ = (.ok reports, t₂) → t₂.pathExists path = true

theorem lacksTemplates_of_setupAt {g : Generator} (h : inv.setupAt t = .ok g) : g.lacksTemplates = false := by
  obtain ⟨options, templates, -, htemplates, rfl, -⟩ := setupAt_eq_ok_iff.1 h
  show (options.generateClasses && templates.skeleton.isNone) = false
  cases hclasses : options.generateClasses with
  | false => rfl
  | true =>
    rw [templatesAt, hclasses] at htemplates
    split at htemplates
    · rw [Bool.true_and, ← Option.not_isSome, Tree.skeleton_of_templatesAt htemplates]
      rfl
    · obtain rfl := Except.ok.inj htemplates
      rfl

theorem checksPass (inv : Invocation) (t : Tree) : inv.ChecksPass t where
  directories extensions := ⟨_, (Collector.finds_expand ⟨extensions⟩ inv.inputs).effect_eq t⟩
  templates {g t₁} hsetup := by
    rw [inv.finds_setup.effect_eq] at hsetup
    exact lacksTemplates_of_setupAt (Prod.mk.inj hsetup).1
  files {g t₁} hsetup before path after reports t₂ hfiles hbefore := by
    rw [inv.finds_setup.effect_eq] at hsetup
    obtain ⟨hg, rfl⟩ := Prod.mk.inj hsetup
    obtain ⟨-, -, -, -, -, hexist⟩ := setupAt_eq_ok_iff.1 hg
    have hgrows := g.grows_processes g.writer t before
    rw [hbefore] at hgrows
    exact hgrows.pathExists (hexist path (by simp [hfiles]))

/-! ## Performing -/

/-- An unfit invocation fails and leaves the tree as it is. -/
theorem perform_of_unfit (h : inv.Unfit t) : ∃ fault, inv.perform.effect t = (.error fault, t) := by
  rw [effect_perform]
  cases hsetup : inv.setupAt t with
  | error fault => exact ⟨fault, rfl⟩
  | ok g => exact absurd h (not_unfit_of_setupAt hsetup)

/-- An invocation that is not unfit fails only because something cannot be accessed or because a file is found whose
path is too long; then nothing has been generated. -/
theorem fault_of_perform {fault : Fault} {t' : Tree} (hfit : ¬ inv.Unfit t)
    (h : inv.perform.effect t = (.error fault, t')) :
    fault.IsAccess ∨ ∃ path, inv.FindsBeyond t path ∧ fault = .missingInput path ∧ t' = t := by
  rw [effect_perform] at h
  cases hsetup : inv.setupAt t with
  | error fault' =>
    rw [hsetup] at h
    obtain ⟨hfault, rfl⟩ := Prod.mk.inj h
    obtain rfl := Except.error.inj hfault
    exact (fault_of_setupAt hfit hsetup).imp_right fun ⟨path, hpath, hfault⟩ => ⟨path, hpath, hfault, rfl⟩
  | ok g =>
    rw [hsetup] at h
    dsimp only at h
    obtain ⟨-, -, -, -, -, hexist⟩ := setupAt_eq_ok_iff.1 hsetup
    rcases hrun : g.generate.effect t with ⟨fault' | result, t₁⟩
    · rw [hrun] at h
      obtain rfl := Except.error.inj (Prod.mk.inj h).1
      exact Or.inl (Generator.isAccess_of_generate (lacksTemplates_of_setupAt hsetup) hexist hrun)
    · rw [hrun] at h
      exact nomatch (Prod.mk.inj h).1

/-- What a command reports that fails although its invocation is not unfit. -/
inductive FailsWith (inv : Invocation) (t : Tree) : List String → Prop where
  /-- A file or directory cannot be accessed. -/
  | access (path : Path) (cause : SystemError) : inv.FailsWith t (faultLines (.access path cause))
  /-- A file is found whose path does not reach it, and nothing has been generated. -/
  | missing {path : Path} (hpath : inv.FindsBeyond t path) (hkept : (inv.perform.effect t).2 = t) :
      inv.FailsWith t (faultLines (.missingInput path))
  /-- Everything is done, but the statistics name a path that cannot be printed. -/
  | unprintable {stats : Stats} {path : Path} (hjson : inv.has .json = true)
      (hstats : (inv.perform.effect t).1 = .ok stats) (hpath : path ∈ stats.paths) (htext : path.isText = false) :
      inv.FailsWith t unprintableLines

end Invocation

/-! ## The command -/

/-- If an invocation is unfit then the command fails: it exits with 1, prints nothing on standard output and leaves the
tree as it was. Else it fails at most because a file or directory cannot be accessed, because a file is found whose path
is too long, or because the statistics cannot be printed, and reports that. In all cases the checks find nothing that
the parts of a generation make for themselves. -/
theorem run_failure {args : List Bytes} {inv : Invocation} (hargs : Invocation.ofArguments args = .ok inv)
    (showLog : Bool) (t : Tree) :
    (inv.Unfit t → ∃ stderr, run args showLog t = ({ code := 1, stdout := "", stderr }, t)) ∧
      (¬ inv.Unfit t → (run args showLog t).1.code = 0 ∨ ∃ log lines, inv.FailsWith t lines ∧
        (run args showLog t).1 = { code := 1, stdout := "", stderr := log ++ lines }) ∧
      inv.ChecksPass t := by
  obtain ⟨journal, hrun⟩ := run_eq hargs showLog t
  refine ⟨fun hunfit => ?_, fun hfit => ?_, inv.checksPass t⟩
  · obtain ⟨fault, hfault⟩ := Invocation.perform_of_unfit hunfit
    rw [hrun, hfault]
    exact ⟨_, rfl⟩
  · rw [hrun]
    rcases hperform : inv.perform.effect t with ⟨fault | stats, t'⟩
    · obtain ⟨path, cause, rfl⟩ | ⟨path, hpath, rfl, rfl⟩ := Invocation.fault_of_perform hfit hperform
      · exact Or.inr ⟨_, _, .access path cause, rfl⟩
      · exact Or.inr ⟨_, _, .missing hpath (by rw [hperform]), rfl⟩
    · by_cases hprints : inv.Prints stats
      · exact Or.inl ((inv.code_report_ok showLog stats journal).2 hprints)
      · obtain ⟨log, hreport⟩ := Invocation.report_of_not_prints hprints showLog journal
        simp only [Invocation.Prints, not_forall, Bool.not_eq_true] at hprints
        obtain ⟨hjson, path, hpath, htext⟩ := hprints
        exact Or.inr ⟨log, _, .unprintable hjson (by rw [hperform]) hpath htext, hreport⟩

/-- A command with a missing input fails although the other one exists, and one fails that has a file for its output
directory. -/
theorem run_failure_card :
    (∃ stderr, run ["Card.php", "Missing.php"] false Generator.editedTree =
      ({ code := 1, stdout := "", stderr }, Generator.editedTree)) ∧
    ∃ log lines, Invocation.FailsWith { inputs := [⟨"Card.php"⟩], settings := [(.outputDir, "Card.php")] }
        Generator.editedTree lines ∧
      (run ["-o", "Card.php", "Card.php"] false Generator.editedTree).1 =
        { code := 1, stdout := "", stderr := log ++ lines } := by
  constructor
  · have hargs : Invocation.ofArguments ["Card.php", "Missing.php"] =
        .ok { inputs := [⟨"Card.php"⟩, ⟨"Missing.php"⟩] } := by decide +kernel
    have hmissing : Generator.editedTree.pathExists ⟨"Missing.php"⟩ = false := by decide +kernel
    exact (run_failure hargs false Generator.editedTree).1 (.input (by simp) hmissing)
  · have hargs : Invocation.ofArguments ["-o", "Card.php", "Card.php"] =
        .ok { inputs := [⟨"Card.php"⟩], settings := [(.outputDir, "Card.php")] } := by decide +kernel
    have hfails : (run ["-o", "Card.php", "Card.php"] false Generator.editedTree).1.code = 1 := by decide +kernel
    have hfit : ¬ Invocation.Unfit { inputs := [⟨"Card.php"⟩], settings := [(.outputDir, "Card.php")] }
        Generator.editedTree := Invocation.not_unfit_of_exist rfl rfl (by decide +kernel)
    exact ((run_failure hargs false Generator.editedTree).2.1 hfit).resolve_left (by rw [hfails]; simp)

/-- What is printed ends with the report of a file or directory that cannot be accessed. -/
def ReportsAccess (lines : List String) : Prop :=
  ∃ log path cause, lines = log ++ faultLines (.access path cause)

/-- Such a report ends with the error of the system. -/
theorem ReportsAccess.getLast?_eq {lines : List String} (h : ReportsAccess lines) :
    ∃ cause : SystemError, lines.getLast? = some ("    " ++ cause.message) := by
  obtain ⟨log, path, cause, rfl⟩ := h
  have hreport : ∃ above, faultLines (.access path cause) = above ++ ["    " ++ cause.message] := by
    refine ⟨linesOf ("Error: " ++ (Fault.access path cause).message) ++ ["", "Caused by:"], ?_⟩
    rw [List.append_assoc]
    rfl
  obtain ⟨above, habove⟩ := hreport
  exact ⟨cause, by rw [habove, ← List.append_assoc, List.getLast?_concat]⟩

theorem not_reportsAccess_unprintable : ¬ ReportsAccess unprintableLines := by
  intro h
  obtain ⟨cause, hlast⟩ := h.getLast?_eq
  cases cause <;> revert hlast <;> decide +kernel

/-- A path without line breaks is reported missing in one line. -/
theorem faultLines_missingInput {path : Path} (h : Text.newline ∉ path.bytes) :
    faultLines (.missingInput path) = ["Error: " ++ (Fault.missingInput path).message] := by
  have hshown := Text.newline_not_mem_ofBytesLossy h
  have hmessage : '\n' ∉ ("Error: " ++ (Fault.missingInput path).message).toList :=
    Text.not_mem_append (by decide +kernel) (Text.not_mem_append (Text.not_mem_append (by decide +kernel) hshown)
      (by decide +kernel))
  show linesOf _ ++ [] = _
  rw [linesOf_of_not_mem hmessage, List.append_nil]

theorem not_reportsAccess_missing {path : Path} (h : Text.newline ∉ path.bytes) :
    ¬ ReportsAccess (faultLines (.missingInput path)) := by
  intro hreports
  obtain ⟨cause, hlast⟩ := hreports.getLast?_eq
  rw [faultLines_missingInput h] at hlast
  have hfirst := congrArg (·.toList.head?) (Option.some.inj hlast)
  simp at hfirst

/-- The command generates into a directory whose name is no text and prints its statistics. -/
def unprintableArguments : List Bytes :=
  ["--json", "-o", [0xff], "Card.php"]

/-- What these arguments say. -/
def unprintableInvocation : Invocation where
  inputs := [⟨"Card.php"⟩]
  switches := [.json]
  settings := [(.outputDir, [0xff])]

/-- The command looks for classes in a directory, by a path that is hardly short enough. -/
def nestedInvocation : Invocation where
  inputs := [Collector.nestedDir]

theorem filesAt_nestedInvocation :
    Collector.filesAt {} Collector.nestedTree nestedInvocation.inputs = [Collector.nestedDir.join ⟨"Card.php"⟩] := by
  rw [nestedInvocation, Collector.filesAt, List.flatMap_singleton, Collector.filesOf,
    if_pos Collector.isDirectory_nestedDir, Collector.filesBelow_nestedDir]

theorem run_nestedDir :
    run [Collector.nestedDir.bytes] false Collector.nestedTree =
      ({ code := 1, stderr := faultLines (.missingInput (Collector.nestedDir.join ⟨"Card.php"⟩)) },
        Collector.nestedTree) := by
  have hargs : Invocation.ofArguments [Collector.nestedDir.bytes] = .ok nestedInvocation := rfl
  have hmissing : Collector.nestedTree.pathExists (Collector.nestedDir.join ⟨"Card.php"⟩) = false :=
    Tree.pathExists_eq_false_of_long (Collector.le_length_join_nestedDir "Card.php" (by decide) (by decide))
  exact run_of_setupAt hargs (Invocation.setupAt_eq_missingInput rfl rfl filesAt_nestedInvocation hmissing)

theorem newline_not_mem_nestedDir : Text.newline ∉ (Collector.nestedDir.join ⟨"Card.php"⟩).bytes := by
  intro hmem
  rcases Path.mem_bytes_join hmem with hmem | hmem | hmem
  · rcases Path.mem_bytes_detour hmem with hmem | hmem | hmem
    all_goals revert hmem; decide
  all_goals revert hmem; decide

/-- Two commands that are not unfit and fail without reporting a file or directory that cannot be accessed. -/
theorem not_only_access :
    (Invocation.ofArguments unprintableArguments = .ok unprintableInvocation ∧
      ¬ unprintableInvocation.Unfit Generator.editedTree ∧
      (run unprintableArguments false Generator.editedTree).1.code = 1 ∧
      ¬ ReportsAccess (run unprintableArguments false Generator.editedTree).1.stderr) ∧
    Invocation.ofArguments [Collector.nestedDir.bytes] = .ok nestedInvocation ∧
      ¬ nestedInvocation.Unfit Collector.nestedTree ∧
      (run [Collector.nestedDir.bytes] false Collector.nestedTree).1.code = 1 ∧
      ¬ ReportsAccess (run [Collector.nestedDir.bytes] false Collector.nestedTree).1.stderr := by
  have hunprintable : (run unprintableArguments false Generator.editedTree).1 =
      { code := 1, stderr := unprintableLines } := by
    decide +kernel
  have hinputs : ∀ input ∈ nestedInvocation.inputs, Collector.nestedTree.pathExists input = true := by
    intro input hinput
    rw [List.mem_singleton.1 hinput]
    exact Tree.pathExists_iff.2 ⟨_, Collector.leadsTo_nestedDir⟩
  refine ⟨⟨by decide +kernel, Invocation.not_unfit_of_exist rfl rfl (by decide +kernel), by rw [hunprintable], ?_⟩, rfl,
    Invocation.not_unfit_of_exist rfl rfl hinputs, by rw [run_nestedDir], ?_⟩
  · rw [hunprintable]
    exact not_reportsAccess_unprintable
  · rw [run_nestedDir]
    exact not_reportsAccess_missing newline_not_mem_nestedDir

end Command

end GetSet
