import GetSet.Proofs.Command.Failure

/-!
# Two ways of loading templates

The templates of classes may be demanded or not. Whether they are makes a difference only if they are not both there:
then loading them fails in the one case, and in the other one the interfaces are left alone with theirs
(`load_modes`). Loading stops at the first file in which no template is found (`templatesAt_eq_error_iff`). A generator
that has what was demanded never lacks a template.
-/

namespace GetSet

/-! ## The first that fails -/

/-- A list is gone through up to the first element that fails. -/
theorem mapM_eq_error_iff {α β ε : Type} {f : α → Except ε β} {xs : List α} {e : ε} :
    xs.mapM f = .error e ↔
      ∃ before x after, xs = before ++ x :: after ∧ (∀ y ∈ before, ∃ b, f y = .ok b) ∧ f x = .error e := by
  induction xs with
  | nil => simp [pure, Except.pure]
  | cons x xs ih =>
    rw [List.mapM_cons]
    -- either the head is the first that fails, or it is in front of the first that fails in the rest
    cases hx : f x with
    | error e' =>
      constructor
      · intro h
        obtain rfl := Except.error.inj h
        exact ⟨[], x, xs, rfl, by simp, hx⟩
      · rintro ⟨before, y, after, heq, hbefore, hy⟩
        cases before with
        | nil =>
          obtain ⟨rfl, -⟩ := List.cons.inj heq
          obtain rfl := Except.error.inj (hx.symm.trans hy)
          rfl
        | cons z before =>
          obtain ⟨rfl, -⟩ := List.cons.inj heq
          obtain ⟨b, hb⟩ := hbefore x List.mem_cons_self
          exact nomatch hx.symm.trans hb
    | ok b =>
      have hrest : (Except.ok b >>= fun y => xs.mapM f >>= fun ys => pure (y :: ys)) = Except.error e ↔
          xs.mapM f = .error e := by
        cases xs.mapM f <;> simp [bind, Except.bind, pure, Except.pure]
      rw [hrest, ih]
      constructor
      · rintro ⟨before, y, after, rfl, hbefore, hy⟩
        exact ⟨x :: before, y, after, rfl, List.forall_mem_cons.2 ⟨⟨b, hx⟩, hbefore⟩, hy⟩
      · rintro ⟨before, y, after, heq, hbefore, hy⟩
        cases before with
        | nil =>
          obtain ⟨rfl, -⟩ := List.cons.inj heq
          exact nomatch hx.symm.trans hy
        | cons z before =>
          obtain ⟨-, rfl⟩ := List.cons.inj heq
          exact ⟨before, y, after, rfl, fun y hy => hbefore y (List.mem_cons_of_mem z hy), hy⟩

namespace Tree

open TemplateSet

variable {t : Tree} {path dir : Path} {withClasses : Bool} {templates : TemplateSet} {fault : Fault}

/-! ## One file -/

/-- The file that a path leads to holds the text of a template, whatever its line ends. -/
def HoldsTemplate (t : Tree) (path : Path) (template : Template) : Prop :=
  ∃ l content text, t.LeadsTo path l ∧ t.get? l = some (.file content) ∧ String.fromUTF8? content = some text ∧
    template.text = Text.withUnixLineEnds text

theorem templateAt_eq_ok_iff_holds {template : Template} :
    t.templateAt path = .ok template ↔ t.HoldsTemplate path template := by
  rw [templateAt_eq_ok_iff]
  constructor
  · rintro ⟨text, htext, rfl⟩
    obtain ⟨l, content, hleads, hl, hcontent⟩ := readText_eq_ok_iff.1 htext
    exact ⟨l, content, text, hleads, hl, hcontent, rfl⟩
  · rintro ⟨l, content, text, hleads, hl, hcontent, htemplate⟩
    exact ⟨text, readText_eq_ok_iff.2 ⟨l, content, hleads, hl, hcontent⟩, congrArg Template.mk htemplate⟩

/-- Why there is no template at a path: it leads to no file, or the file cannot be read. -/
inductive LacksTemplate (t : Tree) (path : Path) : Fault → Prop where
  | missing (hmissing : t.isFile path = false) : LacksTemplate t path (.missingTemplate path)
  | unreadable {cause : SystemError} (hfile : t.isFile path = true) (hread : t.readText path = .error cause) :
      LacksTemplate t path (.access path cause)

theorem templateAt_eq_error_iff : t.templateAt path = .error fault ↔ t.LacksTemplate path fault := by
  unfold templateAt
  constructor
  · intro h
    split at h
    · next hfile =>
      cases hread : t.readText path with
      | error cause =>
        rw [hread] at h
        obtain rfl := Except.error.inj h
        exact .unreadable hfile hread
      | ok text =>
        rw [hread] at h
        exact nomatch h
    · next hmissing =>
      obtain rfl := Except.error.inj h
      exact .missing (by simpa using hmissing)
  · rintro (hmissing | ⟨hfile, hread⟩)
    · rw [if_neg (by simp [hmissing])]
    · rw [if_pos hfile, hread]
      rfl

/-! ## All files -/

/-- The files that templates are loaded from, in this order. -/
def templateFiles (t : Tree) (dir : Path) (withClasses : Bool) : List Path :=
  requiredFiles (withClasses || t.hasSkeletonFiles dir)

/-- Loading fails exactly if going through the files does. -/
theorem templatesAt_eq_error_iff_mapM :
    t.templatesAt dir withClasses = .error fault ↔
      ((t.templateFiles dir withClasses).mapM fun file => t.templateAt (dir.join file)) = .error fault := by
  unfold templatesAt templateFiles skeletonAt
  cases withClasses || t.hasSkeletonFiles dir with
  | false =>
    show _ ↔ [interfaceMethodFile, interfaceDocumentFile].mapM _ = _
    simp only [List.mapM_cons, List.mapM_nil]
    cases t.templateAt (dir.join interfaceMethodFile) <;> cases t.templateAt (dir.join interfaceDocumentFile) <;>
      simp [bind, Except.bind, pure, Except.pure]
  | true =>
    show _ ↔ [interfaceMethodFile, interfaceDocumentFile, classMethodFile, classDocumentFile].mapM _ = _
    simp only [List.mapM_cons, List.mapM_nil]
    cases t.templateAt (dir.join interfaceMethodFile) <;> cases t.templateAt (dir.join interfaceDocumentFile) <;>
      cases t.templateAt (dir.join classMethodFile) <;> cases t.templateAt (dir.join classDocumentFile) <;>
        simp [bind, Except.bind, pure, Except.pure]

/-- In one of several files of a directory there is no template, and there is one in each file before it. -/
def FirstLacking (t : Tree) (dir : Path) (files : List Path) (fault : Fault) : Prop :=
  ∃ before file after, files = before ++ file :: after ∧
    (∀ earlier ∈ before, ∃ template, t.HoldsTemplate (dir.join earlier) template) ∧
      t.LacksTemplate (dir.join file) fault

theorem FirstLacking.append {files : List Path} (h : t.FirstLacking dir files fault) (more : List Path) :
    t.FirstLacking dir (files ++ more) fault := by
  obtain ⟨before, file, after, rfl, hbefore, hfile⟩ := h
  exact ⟨before, file, after ++ more, by simp, hbefore, hfile⟩

/-- Loading fails because of the first file in which there is no template. -/
theorem templatesAt_eq_error_iff :
    t.templatesAt dir withClasses = .error fault ↔ t.FirstLacking dir (t.templateFiles dir withClasses) fault := by
  rw [templatesAt_eq_error_iff_mapM, mapM_eq_error_iff]
  simp only [FirstLacking, templateAt_eq_ok_iff_holds, templateAt_eq_error_iff]

/-- Both templates of classes have a file if they can be loaded. -/
theorem hasSkeletonFiles_of_skeletonAt {skeleton : SkeletonTemplates} (h : t.skeletonAt dir = .ok skeleton) :
    t.hasSkeletonFiles dir = true := by
  have hfile : ∀ {file template}, t.templateAt (dir.join file) = .ok template → t.isFile (dir.join file) = true := by
    intro file template htemplate
    obtain ⟨text, htext, -⟩ := templateAt_eq_ok_iff.1 htemplate
    exact isFile_of_readText htext
  obtain ⟨hmethod, hdocument⟩ := skeletonAt_eq_ok_iff.1 h
  rw [hasSkeletonFiles, hfile hmethod, hfile hdocument, Bool.and_self]

/-- If classes are demanded the same is loaded as if they are not, provided that this has templates for them. -/
theorem templatesAt_true_eq_ok_iff :
    t.templatesAt dir true = .ok templates ↔
      t.templatesAt dir false = .ok templates ∧ templates.skeleton.isSome = true := by
  rw [templatesAt_eq_ok_iff, templatesAt_eq_ok_iff]
  simp only [Bool.true_or, Bool.false_or, if_true]
  constructor
  · rintro ⟨hmethod, hdocument, skeleton, hskeleton, hsome⟩
    rw [if_pos (hasSkeletonFiles_of_skeletonAt hskeleton), hsome]
    exact ⟨⟨hmethod, hdocument, skeleton, hskeleton, rfl⟩, rfl⟩
  · rintro ⟨⟨hmethod, hdocument, hskeleton⟩, hsome⟩
    split at hskeleton
    · exact ⟨hmethod, hdocument, hskeleton⟩
    · rw [hskeleton] at hsome
      exact nomatch hsome

/-- What fails although classes are not demanded fails in the same way if they are. -/
theorem templatesAt_true_of_error (h : t.templatesAt dir false = .error fault) :
    t.templatesAt dir true = .error fault := by
  rw [templatesAt_eq_error_iff] at h ⊢
  unfold templateFiles at h ⊢
  cases hfiles : t.hasSkeletonFiles dir with
  | true =>
    rw [hfiles] at h
    exact h
  | false =>
    -- the files of the templates of classes come last
    rw [hfiles] at h
    exact h.append [classMethodFile, classDocumentFile]

end Tree

/-- Templates are those in the files of a directory; those of classes are there both or not at all. -/
structure TemplateSet.ReadFrom (templates : TemplateSet) (t : Tree) (dir : Path) (withSkeleton : Bool) : Prop where
  interfaceMethod : t.HoldsTemplate (dir.join interfaceMethodFile) templates.interfaceMethod
  interfaceDocument : t.HoldsTemplate (dir.join interfaceDocumentFile) templates.interfaceDocument
  skeleton : if withSkeleton then
      ∃ method document, templates.skeleton = some { method, document } ∧
        t.HoldsTemplate (dir.join classMethodFile) method ∧ t.HoldsTemplate (dir.join classDocumentFile) document
    else templates.skeleton = none

/-- What is loaded, and when. -/
theorem Tree.templatesAt_eq_ok_iff_readFrom {t : Tree} {dir : Path} {withClasses : Bool} {templates : TemplateSet} :
    t.templatesAt dir withClasses = .ok templates ↔
      templates.ReadFrom t dir (withClasses || t.hasSkeletonFiles dir) := by
  rw [templatesAt_eq_ok_iff, templateAt_eq_ok_iff_holds, templateAt_eq_ok_iff_holds]
  simp only [skeletonAt_eq_ok_iff, templateAt_eq_ok_iff_holds]
  constructor
  · rintro ⟨hmethod, hdocument, hskeleton⟩
    refine ⟨hmethod, hdocument, ?_⟩
    split at hskeleton
    · next hwanted =>
      obtain ⟨skeleton, ⟨hmethod', hdocument'⟩, hsome⟩ := hskeleton
      rw [if_pos hwanted]
      exact ⟨skeleton.method, skeleton.document, hsome, hmethod', hdocument'⟩
    · next hunwanted =>
      rw [if_neg hunwanted]
      exact hskeleton
  · intro h
    refine ⟨h.interfaceMethod, h.interfaceDocument, ?_⟩
    have hskeleton := h.skeleton
    split at hskeleton
    · next hwanted =>
      obtain ⟨method, document, hsome, hmethod, hdocument⟩ := hskeleton
      rw [if_pos hwanted]
      exact ⟨⟨method, document⟩, ⟨hmethod, hdocument⟩, hsome⟩
    · next hunwanted =>
      rw [if_neg hunwanted]
      exact hskeleton

/-! ## Runs with the templates -/

/-- A run misses a template only if classes are to be generated for which there are none, and before it turns to any
file. -/
theorem Generator.run_eq_missingTemplate_iff {g : Generator} {writer : Option Writer} {t : Tree} {path : Path} :
    ((g.run writer).effect t).1 = .error (.missingTemplate path) ↔
      g.lacksTemplates = true ∧ path = TemplateSet.classDocumentFile := by
  rw [effect_run]
  by_cases hlacks : g.lacksTemplates = true
  · rw [if_pos hlacks]
    simp [hlacks, eq_comm]
  · rw [if_neg hlacks]
    refine iff_of_false (fun h => ?_) fun h => hlacks h.1
    rcases hprocess : (g.classFiles.mapM (g.process writer)).effect t with ⟨fault | reports, t'⟩
    · rw [hprocess] at h
      obtain rfl := Except.error.inj h
      obtain ⟨_, input, _, _, _, -, -, hinput⟩ :=
        Action.exists_of_effect_mapM_eq_error (g.oblivious_process writer) hprocess
      rcases fault_of_process hinput with ⟨-, hmissing⟩ | ⟨_, _, haccess⟩
      · exact nomatch hmissing
      · exact nomatch haccess
    · rw [hprocess] at h
      exact nomatch h

namespace TemplateSet

/-- Loading templates changes nothing, and it depends in one way only on whether classes are demanded: if they are, then
exactly those templates are loaded that are loaded otherwise too, provided that they are complete, and what fails
otherwise fails in the same way. Templates that are loaded hold the texts of their files, and a generator that is to
generate classes exactly if they were demanded does not miss one of them, whatever it works on. If loading fails then
because of the first file without a template. -/
theorem load_modes (dir : Path) :
    (∀ withClasses, (load dir withClasses).Finds (·.templatesAt dir withClasses)) ∧
      ∀ t : Tree,
        (∀ templates, t.templatesAt dir true = .ok templates ↔
          t.templatesAt dir false = .ok templates ∧ templates.skeleton.isSome = true) ∧
        (∀ fault, t.templatesAt dir false = .error fault → t.templatesAt dir true = .error fault) ∧
        (∀ templates, t.templatesAt dir false = .ok templates → templates.skeleton = none →
          ∃ fault, t.templatesAt dir true = .error fault) ∧
        (∀ withClasses templates, t.templatesAt dir withClasses = .ok templates →
          templates.ReadFrom t dir (withClasses || t.hasSkeletonFiles dir) ∧
            ∀ g : Generator, g.templates = templates → g.options.generateClasses = withClasses →
              ∀ writer t' path, ((g.run writer).effect t').1 ≠ .error (.missingTemplate path)) ∧
        ∀ withClasses fault, t.templatesAt dir withClasses = .error fault ↔
          t.FirstLacking dir (t.templateFiles dir withClasses) fault := by
  refine ⟨finds_load dir, fun t => ⟨fun _ => Tree.templatesAt_true_eq_ok_iff, fun _ => Tree.templatesAt_true_of_error,
    ?_, ?_, fun _ _ => Tree.templatesAt_eq_error_iff⟩⟩
  · intro templates htemplates hnone
    cases htrue : t.templatesAt dir true with
    | error fault => exact ⟨fault, rfl⟩
    | ok templates' =>
      obtain ⟨hfalse, hsome⟩ := Tree.templatesAt_true_eq_ok_iff.1 htrue
      obtain rfl := Except.ok.inj (htemplates.symm.trans hfalse)
      rw [hnone] at hsome
      exact nomatch hsome
  · intro withClasses templates htemplates
    refine ⟨Tree.templatesAt_eq_ok_iff_readFrom.1 htemplates, ?_⟩
    rintro g rfl rfl writer t' path hmissing
    obtain ⟨hlacks, -⟩ := Generator.run_eq_missingTemplate_iff.1 hmissing
    obtain ⟨hclasses, hnone⟩ := Bool.and_eq_true_iff.1 hlacks
    rw [hclasses] at htemplates
    rw [← Option.not_isSome, Tree.skeleton_of_templatesAt htemplates] at hnone
    exact nomatch hnone

/-- Templates of interfaces, and one of the two templates of classes. -/
def unfinishedTree : Tree :=
  (((Tree.empty.insert ["work"] "t" .directory).insert
    ["t", "work"] "InterfaceFunctionTemplate.txt" (.file "a\r\nb".toUTF8)).insert
    ["t", "work"] "InterfaceTemplate.txt" (.file "c".toUTF8)).insert
    ["t", "work"] "ClassFunctionTemplate.txt" (.file "d".toUTF8)

/-- The template that there is for classes is left out, or else the other one is missed. -/
theorem load_modes_unfinished :
    (load ⟨"t"⟩ false).effect unfinishedTree =
        (.ok { interfaceMethod := ⟨"a\nb"⟩, interfaceDocument := ⟨"c"⟩, skeleton := none }, unfinishedTree) ∧
      (load ⟨"t"⟩ true).effect unfinishedTree =
        (.error (.missingTemplate ⟨"t/ClassTemplate.txt"⟩), unfinishedTree) := by
  obtain ⟨hfinds, hmodes⟩ := load_modes ⟨"t"⟩
  obtain ⟨-, -, -, -, hfails⟩ := hmodes unfinishedTree
  have hholds : ∀ {file : Path} (l : Location) (text : String), unfinishedTree.LeadsTo (Path.join ⟨"t"⟩ file) l →
      unfinishedTree.get? l = some (.file text.toUTF8) →
        unfinishedTree.HoldsTemplate (Path.join ⟨"t"⟩ file) ⟨Text.withUnixLineEnds text⟩ :=
    fun l text hleads hl => ⟨l, _, text, hleads, hl, Tree.fromUTF8?_toUTF8 text, rfl⟩
  have hmethod : unfinishedTree.HoldsTemplate (Path.join ⟨"t"⟩ interfaceMethodFile) ⟨"a\nb"⟩ :=
    hholds ["InterfaceFunctionTemplate.txt", "t", "work"] "a\r\nb" (by decide +kernel) rfl
  have hdocument : unfinishedTree.HoldsTemplate (Path.join ⟨"t"⟩ interfaceDocumentFile) ⟨"c"⟩ :=
    hholds ["InterfaceTemplate.txt", "t", "work"] "c" (by decide +kernel) rfl
  have hclass : unfinishedTree.HoldsTemplate (Path.join ⟨"t"⟩ classMethodFile) ⟨"d"⟩ :=
    hholds ["ClassFunctionTemplate.txt", "t", "work"] "d" (by decide +kernel) rfl
  constructor
  · have hread : TemplateSet.ReadFrom ⟨⟨"a\nb"⟩, ⟨"c"⟩, none⟩ unfinishedTree ⟨"t"⟩ false := ⟨hmethod, hdocument, rfl⟩
    have hfiles : unfinishedTree.hasSkeletonFiles ⟨"t"⟩ = false := by decide +kernel
    rw [(hfinds false).effect_eq, Tree.templatesAt_eq_ok_iff_readFrom.2 (by rw [hfiles]; exact hread)]
  · have hfirst : unfinishedTree.FirstLacking ⟨"t"⟩ (unfinishedTree.templateFiles ⟨"t"⟩ true)
        (.missingTemplate (Path.join ⟨"t"⟩ classDocumentFile)) := by
      refine ⟨[interfaceMethodFile, interfaceDocumentFile, classMethodFile], classDocumentFile, [], rfl, ?_,
        .missing (by decide +kernel)⟩
      simp only [List.forall_mem_cons, List.not_mem_nil, false_implies, implies_true, and_true]
      exact ⟨⟨_, hmethod⟩, ⟨_, hdocument⟩, ⟨_, hclass⟩⟩
    rw [(hfinds true).effect_eq, (hfails true _).2 hfirst]
    rfl

end TemplateSet

end GetSet
