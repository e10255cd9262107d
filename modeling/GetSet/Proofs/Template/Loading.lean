import GetSet.Loading
import GetSet.Proofs.Action.Effect
import GetSet.Proofs.Tree.Growth

/-!
# Templates in a tree

What is found when templates are loaded: `Tree.templateAt` is the template in a file, `Tree.templatesAt` the templates
in a directory. Loading leaves the tree as it is. It fails if a template that is required cannot be read, and else only
for a template of classes that is there but cannot be read.
-/

namespace GetSet

/-! ## One template -/

namespace Tree

/-- The template in the file at a path. -/
def templateAt (t : Tree) (path : Path) : Except Fault Template :=
  if t.isFile path then
    ((t.readText path).mapError (.access path)).map fun text => ⟨Text.withUnixLineEnds text⟩
  else
    .error (.missingTemplate path)

variable {t : Tree} {path : Path}

theorem isFile_of_readText {text : String} (h : t.readText path = .ok text) : t.isFile path = true := by
  obtain ⟨l, content, hleads, hl, -⟩ := readText_eq_ok_iff.1 h
  exact (isFile_iff t path).2 ⟨content, read_eq_ok_iff.2 ⟨l, hleads, hl⟩⟩

/-- A template is found where a text can be read. -/
theorem templateAt_eq_ok_iff {template : Template} :
    t.templateAt path = .ok template ↔
      ∃ text, t.readText path = .ok text ∧ template = ⟨Text.withUnixLineEnds text⟩ := by
  rw [templateAt]
  split
  · cases htext : t.readText path with
    | error e =>
      simp [Action.mapError_error, Except.map]
    | ok text =>
      simp [Action.mapError_ok, Except.map, eq_comm]
  · next hmissing =>
    constructor
    · simp
    · rintro ⟨text, htext, -⟩
      exact absurd (isFile_of_readText htext) hmissing

/-- A file in which no template is found cannot be read. -/
theorem isAccess_of_templateAt {fault : Fault} (hfile : t.isFile path = true) (h : t.templateAt path = .error fault) :
    fault.IsAccess := by
  rw [templateAt, if_pos hfile] at h
  cases htext : t.readText path with
  | error e =>
    rw [htext] at h
    exact ⟨path, e, (Except.error.inj h).symm⟩
  | ok text =>
    rw [htext] at h
    exact nomatch h

end Tree

theorem Template.finds_load (path : Path) : (Template.load path).Finds (·.templateAt path) := by
  intro w
  unfold Template.load Tree.templateAt
  by_cases hfile : w.tree.isFile path = true
  · cases htext : w.tree.readText path with
    | error e =>
      simp [hfile, htext, Action.mapError_error, Except.map]
    | ok text =>
      simp [hfile, htext, Action.mapError_ok, Except.map]
  · simp [hfile]

/-! ## The templates in a directory -/

namespace TemplateSet

/-- The files that must hold templates. -/
def requiredFiles (withClasses : Bool) : List Path :=
  [interfaceMethodFile, interfaceDocumentFile] ++ if withClasses then [classMethodFile, classDocumentFile] else []

end TemplateSet

namespace Tree

open TemplateSet

/-- The templates of classes in a directory. -/
def skeletonAt (t : Tree) (dir : Path) : Except Fault SkeletonTemplates := do
  let method ← t.templateAt (dir.join classMethodFile)
  let document ← t.templateAt (dir.join classDocumentFile)
  return { method, document }

/-- Whether there are files for both templates of classes in a directory. -/
def hasSkeletonFiles (t : Tree) (dir : Path) : Bool :=
  t.isFile (dir.join classMethodFile) && t.isFile (dir.join classDocumentFile)

/-- The templates in a directory. -/
def templatesAt (t : Tree) (dir : Path) (withClasses : Bool) : Except Fault TemplateSet := do
  let interfaceMethod ← t.templateAt (dir.join interfaceMethodFile)
  let interfaceDocument ← t.templateAt (dir.join interfaceDocumentFile)
  if withClasses || t.hasSkeletonFiles dir then
    let skeleton ← t.skeletonAt dir
    return { interfaceMethod, interfaceDocument, skeleton := some skeleton }
  else
    return { interfaceMethod, interfaceDocument, skeleton := none }

variable {t : Tree} {dir : Path} {withClasses : Bool} {templates : TemplateSet}

theorem skeletonAt_eq_ok_iff {skeleton : SkeletonTemplates} :
    t.skeletonAt dir = .ok skeleton ↔ t.templateAt (dir.join classMethodFile) = .ok skeleton.method ∧
      t.templateAt (dir.join classDocumentFile) = .ok skeleton.document := by
  obtain ⟨method, document⟩ := skeleton
  rw [skeletonAt]
  cases t.templateAt (dir.join classMethodFile) <;> cases t.templateAt (dir.join classDocumentFile) <;>
    simp [bind, Except.bind, pure, Except.pure]

theorem isAccess_of_skeletonAt {fault : Fault} (hfiles : t.hasSkeletonFiles dir = true)
    (h : t.skeletonAt dir = .error fault) : fault.IsAccess := by
  obtain ⟨hmethod, hdocument⟩ := Bool.and_eq_true_iff.1 hfiles
  rw [skeletonAt] at h
  cases hfirst : t.templateAt (dir.join classMethodFile) with
  | error fault' =>
    rw [hfirst] at h
    obtain rfl := Except.error.inj h
    exact isAccess_of_templateAt hmethod hfirst
  | ok method =>
    cases hsecond : t.templateAt (dir.join classDocumentFile) with
    | error fault' =>
      rw [hfirst, hsecond] at h
      obtain rfl := Except.error.inj h
      exact isAccess_of_templateAt hdocument hsecond
    | ok document =>
      rw [hfirst, hsecond] at h
      exact nomatch h

/-- Templates are found if those of interfaces are, and those of classes if they are wanted or both have a file. -/
theorem templatesAt_eq_ok_iff :
    t.templatesAt dir withClasses = .ok templates ↔
      t.templateAt (dir.join interfaceMethodFile) = .ok templates.interfaceMethod ∧
        t.templateAt (dir.join interfaceDocumentFile) = .ok templates.interfaceDocument ∧
          if withClasses || t.hasSkeletonFiles dir then
            ∃ skeleton, t.skeletonAt dir = .ok skeleton ∧ templates.skeleton = some skeleton
          else templates.skeleton = none := by
  obtain ⟨interfaceMethod, interfaceDocument, skeleton⟩ := templates
  rw [templatesAt]
  cases t.templateAt (dir.join interfaceMethodFile) with
  | error fault => simp [bind, Except.bind]
  | ok method =>
    cases t.templateAt (dir.join interfaceDocumentFile) with
    | error fault => simp [bind, Except.bind]
    | ok document =>
      by_cases hwanted : (withClasses || t.hasSkeletonFiles dir) = true
      · cases t.skeletonAt dir <;> simp [bind, Except.bind, pure, Except.pure, hwanted, eq_comm]
      · simp [bind, Except.bind, pure, Except.pure, hwanted, eq_comm]

/-- If templates are found then all that are required can be read. -/
theorem exists_readText_of_templatesAt (h : t.templatesAt dir withClasses = .ok templates) :
    ∀ file ∈ requiredFiles withClasses, ∃ text, t.readText (dir.join file) = .ok text := by
  have hread : ∀ {file template}, t.templateAt (dir.join file) = .ok template →
      ∃ text, t.readText (dir.join file) = .ok text := fun htemplate =>
    (templateAt_eq_ok_iff.1 htemplate).imp fun _ => And.left
  obtain ⟨hmethod, hdocument, hskeleton⟩ := templatesAt_eq_ok_iff.1 h
  cases withClasses with
  | false => simp [requiredFiles, hread hmethod, hread hdocument]
  | true =>
    obtain ⟨skeleton, hskeleton, -⟩ := (by simpa using hskeleton : ∃ skeleton, _ ∧ _)
    obtain ⟨hmethod', hdocument'⟩ := skeletonAt_eq_ok_iff.1 hskeleton
    simp [requiredFiles, hread hmethod, hread hdocument, hread hmethod', hread hdocument']

/-- If classes are wanted there are templates for them. -/
theorem skeleton_of_templatesAt (h : t.templatesAt dir true = .ok templates) : templates.skeleton.isSome = true := by
  obtain ⟨-, -, hskeleton⟩ := templatesAt_eq_ok_iff.1 h
  obtain ⟨skeleton, -, hsome⟩ := (by simpa using hskeleton : ∃ skeleton, _ ∧ _)
  rw [hsome, Option.isSome_some]

/-- If all templates that are required can be read, then loading fails at most because of the others. -/
theorem isAccess_of_templatesAt {fault : Fault}
    (hrequired : ∀ file ∈ requiredFiles withClasses, ∃ text, t.readText (dir.join file) = .ok text)
    (h : t.templatesAt dir withClasses = .error fault) : fault.IsAccess := by
  have hfound : ∀ file ∈ requiredFiles withClasses, ∃ template, t.templateAt (dir.join file) = .ok template := by
    intro file hfile
    obtain ⟨text, htext⟩ := hrequired file hfile
    exact ⟨_, templateAt_eq_ok_iff.2 ⟨text, htext, rfl⟩⟩
  obtain ⟨method, hmethod⟩ := hfound interfaceMethodFile (by simp [requiredFiles])
  obtain ⟨document, hdocument⟩ := hfound interfaceDocumentFile (by simp [requiredFiles])
  rw [templatesAt, hmethod, hdocument] at h
  dsimp only [bind, Except.bind] at h
  split at h
  · next hwanted =>
    cases hskeleton : t.skeletonAt dir with
    | ok skeleton =>
      rw [hskeleton] at h
      exact nomatch h
    | error fault' =>
      rw [hskeleton] at h
      obtain rfl := Except.error.inj h
      cases withClasses with
      | false => exact isAccess_of_skeletonAt hwanted hskeleton
      | true =>
        obtain ⟨method', hmethod'⟩ := hfound classMethodFile (by simp [requiredFiles])
        obtain ⟨document', hdocument'⟩ := hfound classDocumentFile (by simp [requiredFiles])
        have hok : t.skeletonAt dir = .ok ⟨method', document'⟩ := skeletonAt_eq_ok_iff.2 ⟨hmethod', hdocument'⟩
        rw [hok] at hskeleton
        exact nomatch hskeleton
  · exact nomatch h

end Tree

namespace TemplateSet

/-- Loads the templates of classes. -/
def loadSkeleton (dir : Path) : Action SkeletonTemplates := do
  let method ← Template.load (dir.join classMethodFile)
  let document ← Template.load (dir.join classDocumentFile)
  return { method, document }

theorem finds_loadSkeleton (dir : Path) : (loadSkeleton dir).Finds (·.skeletonAt dir) :=
  (Template.finds_load _).bind fun method => (Template.finds_load _).bind fun document =>
    Action.finds_pure (⟨method, document⟩ : SkeletonTemplates)

/-- Loads the templates of classes if they are wanted, and puts all templates together. -/
def complete (dir : Path) (interfaceMethod interfaceDocument : Template) (wanted : Bool) : Action TemplateSet :=
  if wanted then do
    return { interfaceMethod, interfaceDocument, skeleton := some (← loadSkeleton dir) }
  else
    return { interfaceMethod, interfaceDocument, skeleton := none }

theorem load_eq (dir : Path) (withClasses : Bool) :
    load dir withClasses = (do
      Action.report (.loadingTemplates dir)
      let interfaceMethod ← Template.load (dir.join interfaceMethodFile)
      let interfaceDocument ← Template.load (dir.join interfaceDocumentFile)
      let bothThere ← Action.inspect (·.hasSkeletonFiles dir)
      complete dir interfaceMethod interfaceDocument (withClasses || bothThere)) := by
  simp only [load, complete, loadSkeleton, bind_assoc, pure_bind]
  rfl

theorem finds_complete (dir : Path) (interfaceMethod interfaceDocument : Template) (wanted : Bool) :
    (complete dir interfaceMethod interfaceDocument wanted).Finds fun t =>
      if wanted then t.skeletonAt dir >>= fun skeleton =>
        .ok { interfaceMethod, interfaceDocument, skeleton := some skeleton }
      else .ok { interfaceMethod, interfaceDocument, skeleton := none } :=
  ((finds_loadSkeleton dir).bind fun _ => Action.finds_pure _).ite (Action.finds_pure _)

/-- Loading templates finds those in the directory. -/
theorem finds_load (dir : Path) (withClasses : Bool) :
    (load dir withClasses).Finds (·.templatesAt dir withClasses) := by
  rw [load_eq]
  exact (Action.finds_report _).bind fun _ => (Template.finds_load _).bind fun _ =>
    (Template.finds_load _).bind fun _ => (Action.finds_inspect _).bind fun _ => finds_complete dir _ _ _

end TemplateSet

end GetSet
