import GetSet.Command.Run
import GetSet.Proofs.Run.Course
import GetSet.Proofs.Template.Loading
import GetSet.Proofs.Tree.Paths

/-!
# What a command sets up

Before it generates anything a command reads its options, loads its templates, looks for its files and registers them
(`Invocation.setup`). None of this changes the tree; what comes of it depends on the tree as it is
(`Invocation.setupAt`).
-/

namespace GetSet

/-! ## Options -/

/-- The options in the configuration file at a path. -/
def Tree.optionsAt (t : Tree) (path : Path) : Except Fault Options :=
  match t.readText path with
  | .error cause => .error (.configuration path (.unreadable cause))
  | .ok text =>
    match Options.ofToml? text with
    | none => .error (.configuration path .malformed)
    | some options => .ok options

theorem Tree.optionsAt_eq_ok_iff {t : Tree} {path : Path} {options : Options} :
    t.optionsAt path = .ok options ↔ ∃ text, t.readText path = .ok text ∧ Options.ofToml? text = some options := by
  rw [optionsAt]
  cases t.readText path with
  | error cause =>
    simp
  | ok text =>
    rcases hoptions : Options.ofToml? text with _ | base <;> simp [hoptions]

theorem Options.finds_load (path : Path) : (Options.load path).Finds (·.optionsAt path) := by
  intro w
  unfold Options.load Tree.optionsAt
  cases htext : w.tree.readText path with
  | error cause =>
    simp [htext]
  | ok text =>
    cases hoptions : ofToml? text with
    | none =>
      simp [htext, hoptions]
    | some options =>
      simp [htext, hoptions]

namespace Collector

/-! ## Files -/

/-- What an input stands for: the matching files below it if it is a directory, else itself. -/
def filesOf (c : Collector) (t : Tree) (input : Path) : List Path :=
  if t.isDirectory input then c.filesBelow t input else [input]

/-- What some inputs stand for. -/
def filesAt (c : Collector) (t : Tree) (inputs : List Path) : List Path :=
  inputs.flatMap (c.filesOf t)

theorem finds_collect (c : Collector) (dir : Path) :
    (c.collect dir).Finds fun t =>
      if t.isDirectory dir then .ok (c.filesBelow t dir) else .error (.notADirectory dir) := by
  intro w
  by_cases h : w.tree.isDirectory dir = true
  · simp [h, c.exec_collect h]
  · simp [collect, h]

/-- What stands for an input exists unless its path is too long or the input does not exist. -/
theorem pathExists_iff_of_mem_filesAt (c : Collector) {t : Tree} {inputs : List Path}
    (hinputs : ∀ input ∈ inputs, t.isDirectory input = false → t.pathExists input = true) {p : Path}
    (hp : p ∈ c.filesAt t inputs) : t.pathExists p = true ↔ p.bytes.length < Tree.pathLimit := by
  obtain ⟨input, hinput, hp⟩ := List.mem_flatMap.1 hp
  rw [filesOf] at hp
  split at hp
  · next hdir => exact Tree.pathExists_iff_of_mem_filesBelow hdir (List.mem_filter.1 hp).1
  · next hdir =>
    rw [List.mem_singleton.1 hp]
    have hexists := hinputs input hinput (by simpa using hdir)
    obtain ⟨_, _, hlocate⟩ := Tree.pathExists_iff.1 hexists
    exact iff_of_true hexists (Tree.followable_of_locate hlocate).short

/-- Looks at one input. -/
def look (c : Collector) (input : Path) : Action (List Path) := do
  if ← Action.inspect (·.isDirectory input) then c.collect input else return [input]

theorem finds_look (c : Collector) (input : Path) : (c.look input).Finds fun t => .ok (c.filesOf t input) := by
  intro w
  unfold look filesOf
  by_cases h : w.tree.isDirectory input = true
  · simp [h, c.exec_collect h]
  · simp [h]

/-- Expanding inputs finds what they stand for. -/
theorem finds_expand (c : Collector) (inputs : List Path) :
    (c.expand inputs).Finds fun t => .ok (c.filesAt t inputs) :=
  (Action.finds_mapM c.finds_look inputs).bind fun _ => Action.finds_pure _

end Collector

namespace Command

namespace Invocation

/-! ## Registering -/

/-- The generator with one more file, if that exists. -/
def registered (g : Generator) (path : Path) (t : Tree) : Except Fault Generator :=
  if t.pathExists path then .ok { g with classFiles := g.classFiles ++ [path] } else .error (.missingInput path)

theorem finds_addClass (g : Generator) (path : Path) : (g.addClass path).Finds (registered g path) := by
  intro w
  unfold Generator.addClass registered
  by_cases h : w.tree.pathExists path = true
  · simp [h, Except.map]
  · simp [h]

theorem finds_register (g : Generator) (path : Path) : (register g path).Finds (registered g path) :=
  (Action.finds_report _).bind fun _ => finds_addClass g path

/-- The generator with more files, if all of them exist. -/
def registeredAll (g : Generator) (paths : List Path) (t : Tree) : Except Fault Generator :=
  paths.foldlM (fun g path => registered g path t) g

theorem finds_registerAll (g : Generator) (paths : List Path) :
    (paths.foldlM register g).Finds (registeredAll g paths) := by
  induction paths generalizing g with
  | nil => exact Action.finds_pure g
  | cons path paths ih => exact (finds_register g path).bind ih

/-- Files are registered if all of them exist. -/
theorem registeredAll_eq_ok_iff {g g' : Generator} {paths : List Path} {t : Tree} :
    registeredAll g paths t = .ok g' ↔
      (∀ path ∈ paths, t.pathExists path = true) ∧ g' = { g with classFiles := g.classFiles ++ paths } := by
  induction paths generalizing g with
  | nil =>
    show Except.ok g = .ok g' ↔ _
    rw [Except.ok.injEq, List.append_nil]
    exact ⟨fun h => ⟨by simp, h.symm⟩, fun h => h.2.symm⟩
  | cons path paths ih =>
    show (registered g path t >>= fun g => registeredAll g paths t) = _ ↔ _
    by_cases h : t.pathExists path = true
    · rw [registered, if_pos h]
      show registeredAll _ paths t = _ ↔ _
      rw [ih]
      simp [h]
    · rw [registered, if_neg h]
      simp [h, bind, Except.bind]

/-- Files are not registered because one of them does not exist. -/
theorem missing_of_registeredAll {g : Generator} {paths : List Path} {t : Tree} {fault : Fault}
    (h : registeredAll g paths t = .error fault) :
    ∃ path ∈ paths, t.pathExists path = false ∧ fault = .missingInput path := by
  induction paths generalizing g with
  | nil => exact nomatch h
  | cons path paths ih =>
    change (registered g path t >>= fun g => registeredAll g paths t) = _ at h
    by_cases hexists : t.pathExists path = true
    · rw [registered, if_pos hexists] at h
      obtain ⟨missing, hmem, hmissing⟩ := ih h
      exact ⟨missing, List.mem_cons_of_mem path hmem, hmissing⟩
    · rw [registered, if_neg hexists] at h
      exact ⟨path, List.mem_cons_self, by simpa using hexists, (Except.error.inj h).symm⟩

/-! ## Setting up -/

/-- The options that the arguments give, and for the others those of a base. -/
def override (inv : Invocation) (base : Options) : Options where
  outputDir := (inv.path? .outputDir).getD base.outputDir
  overwriteFiles := base.overwriteFiles || inv.has .overwrite
  argumentTypes := base.argumentTypes || inv.has .argumentTypes
  returnTypes := base.returnTypes || inv.has .returnTypes
  generateClasses := base.generateClasses || inv.has .classes
  extension :=
    match inv.extension? with
    | some extension => .ofList (extension.toList.dropWhile (· == '.'))
    | none => base.extension

/-- The options of an invocation. -/
def optionsAt (inv : Invocation) (t : Tree) : Except Fault Options :=
  match inv.path? .config with
  | some path => (t.optionsAt path).map inv.override
  | none => .ok (inv.override {})

/-- The options of an invocation without a configuration file. -/
theorem optionsAt_eq_of_none {inv : Invocation} (hpath : inv.path? .config = none) (t : Tree) :
    inv.optionsAt t = .ok (inv.override {}) := by
  rw [optionsAt, hpath]

theorem eq_override_of_optionsAt {inv : Invocation} (hpath : inv.path? .config = none) {t : Tree} {options : Options}
    (h : inv.optionsAt t = .ok options) : options = inv.override {} := by
  rw [optionsAt_eq_of_none hpath] at h
  exact (Except.ok.inj h).symm

/-- The options of an invocation with a configuration file. -/
theorem optionsAt_eq_ok_iff {inv : Invocation} {path : Path} (hpath : inv.path? .config = some path) {t : Tree}
    {options : Options} :
    inv.optionsAt t = .ok options ↔
      ∃ text base, t.readText path = .ok text ∧ Options.ofToml? text = some base ∧ options = inv.override base := by
  rw [optionsAt, hpath]
  dsimp only
  constructor
  · intro h
    cases hbase : t.optionsAt path with
    | error fault =>
      simp [hbase, Except.map] at h
    | ok base =>
      obtain ⟨text, htext, hoptions⟩ := Tree.optionsAt_eq_ok_iff.1 hbase
      rw [hbase] at h
      exact ⟨text, base, htext, hoptions, (Except.ok.inj h).symm⟩
  · rintro ⟨text, base, htext, hoptions, rfl⟩
    rw [Tree.optionsAt_eq_ok_iff.2 ⟨text, htext, hoptions⟩]
    rfl

theorem finds_options (inv : Invocation) : inv.options.Finds inv.optionsAt := by
  unfold options
  cases hpath : inv.path? .config with
  | none =>
    rw [show inv.optionsAt = fun _ => .ok (inv.override {}) from funext (optionsAt_eq_of_none hpath)]
    exact Action.finds_pure _
  | some path =>
    have hfound : inv.optionsAt = fun t => t.optionsAt path >>= fun base => .ok (inv.override base) := by
      funext t
      rw [optionsAt, hpath]
      dsimp only
      cases t.optionsAt path <;> rfl
    rw [hfound]
    exact (Options.finds_load path).bind fun base => Action.finds_pure (inv.override base)

/-- The templates of an invocation with these options. -/
def templatesAt (inv : Invocation) (t : Tree) (options : Options) : Except Fault TemplateSet :=
  match inv.path? .templates with
  | some dir => t.templatesAt dir options.generateClasses
  | none => .ok .builtin

theorem finds_loadTemplates (inv : Invocation) (options : Options) :
    (inv.loadTemplates options).Finds (inv.templatesAt · options) := by
  unfold loadTemplates templatesAt
  cases inv.path? .templates with
  | none => exact Action.finds_pure _
  | some dir => exact TemplateSet.finds_load dir options.generateClasses

/-- The generator of an invocation with these options and the built-in templates. -/
def generatorAt (inv : Invocation) (t : Tree) (options : Options) : Generator where
  options
  templates := .builtin
  classFiles := Collector.filesAt ⟨[options.extension]⟩ t inv.inputs
  verbose := inv.has .verbose

/-- Registers the files of an invocation with a new generator. -/
def enlist (inv : Invocation) (options : Options) (templates : TemplateSet) : Action Generator := do
  let files ← Collector.expand ⟨[options.extension]⟩ inv.inputs
  files.foldlM register { options, templates, verbose := inv.has .verbose }

/-- All that a command does before it generates anything. -/
def setup (inv : Invocation) : Action Generator := do
  let options ← inv.options
  let templates ← inv.loadTemplates options
  inv.enlist options templates

/-- Reports the statistics of a result unless they are printed. -/
def conclude (inv : Invocation) (result : RunResult) : Action Stats := do
  unless inv.has .json do
    Action.report (.summary result.stats)
  return result.stats

theorem perform_eq (inv : Invocation) :
    inv.perform = inv.setup >>= fun g => g.generate >>= inv.conclude := by
  unfold perform setup conclude enlist
  simp only [bind_assoc]

/-- The generator of an invocation with these options and templates. -/
def generatorWith (inv : Invocation) (t : Tree) (options : Options) (templates : TemplateSet) : Generator where
  options
  templates
  classFiles := Collector.filesAt ⟨[options.extension]⟩ t inv.inputs
  verbose := inv.has .verbose

/-- The generator that an invocation sets up. -/
def setupAt (inv : Invocation) (t : Tree) : Except Fault Generator := do
  let options ← inv.optionsAt t
  let templates ← inv.templatesAt t options
  registeredAll { options, templates, verbose := inv.has .verbose }
    (Collector.filesAt ⟨[options.extension]⟩ t inv.inputs) t

theorem finds_enlist (inv : Invocation) (options : Options) (templates : TemplateSet) :
    (inv.enlist options templates).Finds fun t =>
      registeredAll { options, templates, verbose := inv.has .verbose }
        (Collector.filesAt ⟨[options.extension]⟩ t inv.inputs) t :=
  (Collector.finds_expand _ _).bind fun _ => finds_registerAll _ _

/-- Setting up leaves the tree as it is. -/
theorem finds_setup (inv : Invocation) : inv.setup.Finds inv.setupAt :=
  inv.finds_options.bind fun options => (inv.finds_loadTemplates options).bind fun templates =>
    inv.finds_enlist options templates

/-- An invocation is set up if its options and templates are found and its files exist. -/
theorem setupAt_eq_ok_iff {inv : Invocation} {t : Tree} {g : Generator} :
    inv.setupAt t = .ok g ↔
      ∃ options templates, inv.optionsAt t = .ok options ∧ inv.templatesAt t options = .ok templates ∧
        g = inv.generatorWith t options templates ∧ ∀ path ∈ g.classFiles, t.pathExists path = true := by
  unfold setupAt
  cases inv.optionsAt t with
  | error fault => simp [bind, Except.bind]
  | ok options =>
    cases htemplates : inv.templatesAt t options with
    | error fault => simp [htemplates, bind, Except.bind]
    | ok templates =>
      dsimp only [bind, Except.bind]
      rw [htemplates]
      dsimp only
      rw [registeredAll_eq_ok_iff]
      constructor
      · rintro ⟨hexist, rfl⟩
        exact ⟨options, templates, rfl, htemplates, rfl, hexist⟩
      · rintro ⟨options', templates', hoptions, htemplates', rfl, hexist⟩
        obtain rfl := Except.ok.inj hoptions
        obtain rfl := Except.ok.inj (htemplates.symm.trans htemplates')
        exact ⟨hexist, rfl⟩

/-- Without templates of its own an invocation is set up if its options can be read and its files exist. -/
theorem setupAt_eq_ok_iff_of_builtin {inv : Invocation} (htemplates : inv.get? .templates = none) {g : Generator}
    {t : Tree} :
    inv.setupAt t = .ok g ↔
      ∃ options, inv.optionsAt t = .ok options ∧ g = inv.generatorAt t options ∧
        ∀ path ∈ g.classFiles, t.pathExists path = true := by
  have hbuiltin : ∀ options, inv.templatesAt t options = .ok .builtin := by
    intro options
    rw [templatesAt, path?, htemplates]
    rfl
  rw [setupAt_eq_ok_iff]
  constructor
  · rintro ⟨options, templates, hoptions, hfound, rfl, hexist⟩
    obtain rfl := Except.ok.inj ((hbuiltin options).symm.trans hfound)
    exact ⟨options, hoptions, rfl, hexist⟩
  · rintro ⟨options, hoptions, rfl, hexist⟩
    exact ⟨options, .builtin, hoptions, hbuiltin options, rfl, hexist⟩

/-- Without a configuration file and templates an invocation is not set up if the first of its files does not exist. -/
theorem setupAt_eq_missingInput {inv : Invocation} {t : Tree} {path : Path} {paths : List Path}
    (hconfig : inv.path? .config = none) (htemplates : inv.path? .templates = none)
    (hfiles : Collector.filesAt ⟨[(inv.override {}).extension]⟩ t inv.inputs = path :: paths)
    (hmissing : t.pathExists path = false) : inv.setupAt t = .error (.missingInput path) := by
  rw [setupAt, optionsAt_eq_of_none hconfig]
  show (inv.templatesAt t (inv.override {}) >>= _) = _
  rw [templatesAt, htemplates]
  show registeredAll _ _ t = _
  rw [hfiles]
  show (registered _ path t >>= _) = _
  rw [registered, if_neg (by simp [hmissing])]
  rfl

theorem finds_conclude (inv : Invocation) (result : RunResult) :
    (inv.conclude result).Finds fun _ => .ok result.stats := by
  intro w
  unfold conclude
  by_cases hjson : inv.has .json = true
  · simp [hjson]
  · simp [hjson, Except.map]

/-- A command is set up and then generates everything; nothing fails after that. -/
theorem effect_perform (inv : Invocation) (t : Tree) :
    inv.perform.effect t =
      match inv.setupAt t with
      | .ok g => ((g.generate.effect t).1.map (·.stats), (g.generate.effect t).2)
      | .error fault => (.error fault, t) := by
  have hrest : ∀ g : Generator, (g.generate >>= inv.conclude).Oblivious := fun g =>
    (g.oblivious_run (some g.writer)).bind fun result => (inv.finds_conclude result).oblivious
  rw [perform_eq, Action.effect_bind _ hrest, inv.finds_setup.effect_eq]
  cases inv.setupAt t with
  | error fault => rfl
  | ok g =>
    dsimp only
    rw [Action.effect_bind _ fun result => (inv.finds_conclude result).oblivious]
    rcases g.generate.effect t with ⟨fault | result, t'⟩
    · rfl
    · exact (inv.finds_conclude result).effect_eq t'

/-- A command that succeeds was set up and has generated everything. -/
theorem perform_eq_ok_iff {inv : Invocation} (htemplates : inv.get? .templates = none) {stats : Stats} {t t' : Tree} :
    inv.perform.effect t = (.ok stats, t') ↔
      ∃ options result, inv.optionsAt t = .ok options ∧
        (∀ path ∈ (inv.generatorAt t options).classFiles, t.pathExists path = true) ∧
        (inv.generatorAt t options).generate.effect t = (.ok result, t') ∧ stats = result.stats := by
  rw [effect_perform]
  constructor
  · intro h
    cases hsetup : inv.setupAt t with
    | error fault =>
      rw [hsetup] at h
      exact nomatch (Prod.mk.inj h).1
    | ok g =>
      obtain ⟨options, hoptions, rfl, hexist⟩ := (setupAt_eq_ok_iff_of_builtin htemplates).1 hsetup
      rw [hsetup] at h
      obtain ⟨hstats, htree⟩ := Prod.mk.inj h
      rcases hrun : (inv.generatorAt t options).generate.effect t with ⟨fault | result, t₁⟩
      · rw [hrun] at hstats
        exact nomatch hstats
      · rw [hrun] at hstats htree
        obtain rfl : t₁ = t' := htree
        exact ⟨options, result, hoptions, hexist, hrun, (Except.ok.inj hstats).symm⟩
  · rintro ⟨options, result, hoptions, hexist, hrun, rfl⟩
    rw [(setupAt_eq_ok_iff_of_builtin htemplates).2 ⟨options, hoptions, rfl, hexist⟩]
    dsimp only
    rw [hrun]
    rfl

/-! ## What is shown -/

/-- The statistics need not be printed, or they can be. -/
def Prints (inv : Invocation) (stats : Stats) : Prop :=
  inv.has .json = true → ∀ path ∈ stats.paths, path.isText = true

/-- A command that has generated everything fails if it cannot print its statistics. -/
theorem report_of_not_prints {inv : Invocation} {stats : Stats} (h : ¬ inv.Prints stats) (showLog : Bool)
    (journal : List Event) :
    ∃ log, inv.report showLog (.ok stats) journal = { code := 1, stderr := log ++ unprintableLines } := by
  obtain ⟨hjson, htext⟩ := Classical.not_imp.1 h
  have hencode : stats.encode? = none := if_neg (mt List.all_eq_true.1 htext)
  dsimp only [report]
  rw [if_pos hjson, hencode]
  exact ⟨_, rfl⟩

/-- The exit code of a command that has generated everything. -/
theorem code_report_ok (inv : Invocation) (showLog : Bool) (stats : Stats) (journal : List Event) :
    (inv.report showLog (.ok stats) journal).code = 0 ↔ inv.Prints stats := by
  by_cases hprints : inv.Prints stats
  · refine iff_of_true ?_ hprints
    dsimp only [report]
    split
    · next hjson =>
      rw [show stats.encode? = some stats.encode from if_pos (List.all_eq_true.2 (hprints hjson))]
    · rfl
  · obtain ⟨log, hreport⟩ := report_of_not_prints hprints showLog journal
    rw [hreport]
    exact iff_of_false (by simp) hprints

end Invocation

/-- A command performs its invocation and reports what came of it. -/
theorem run_eq {args : List Bytes} {inv : Invocation} (hargs : Invocation.ofArguments args = .ok inv)
    (showLog : Bool) (t : Tree) :
    ∃ journal, run args showLog t =
      (inv.report showLog (inv.perform.effect t).1 journal, (inv.perform.effect t).2) := by
  rw [run, hargs]
  exact ⟨_, rfl⟩

/-- A command that is not set up leaves the tree as it is and reports why. -/
theorem run_of_setupAt {args : List Bytes} {inv : Invocation} {t : Tree} {fault : Fault}
    (hargs : Invocation.ofArguments args = .ok inv) (hsetup : inv.setupAt t = .error fault) :
    run args false t = ({ code := 1, stderr := faultLines fault }, t) := by
  obtain ⟨journal, hrun⟩ := run_eq hargs false t
  rw [hrun, inv.effect_perform, hsetup]
  rfl

end Command

end GetSet
