import GetSet.Proofs.Document.Untagged
import GetSet.Proofs.Run.Agreement
import GetSet.Proofs.Run.Collision
import GetSet.Proofs.Writer.Overwriting

/-!
# Regenerating

A run that overwrites, with the built-in templates, is done once more on the tree that it left, over the same files and
those of its own that it comes upon now. It succeeds and makes nothing new: what it reads declares classes of the same
names as before, and their files are there (`processes_of_declares`). A file keeps its content unless the last document
that is written to it, in one of the two runs, comes from a file that the first run has written
(`exists_regenerates_and_keeps`). For all other files read the same in both runs, and they come in the same order.

The exception is a real one. A class that was generated declares no properties, and a run that comes to it after the
class that it was generated for leaves an interface without methods (`Course.get?_interface`).
-/

namespace GetSet

namespace Generator

variable {g : Generator} {t t' : Tree} {result : RunResult} {paths : List Path}

/-! ## Where documents are written -/

/-- The path of a document of a unit leads to a location. -/
def DeliversTo (g : Generator) (t : Tree) (l : Location) (unit : SourceUnit) : Prop :=
  ∃ d ∈ (g.output unit).documents, t.LeadsTo (g.writer.targetPath d) l

/-- A run writes a document to the file that a path leads to when it is over. -/
def Rewrites (g : Generator) (t : Tree) (path : Path) : Prop :=
  ∃ d ∈ g.documents (some g.writer) t, ∃ l,
    (g.generate.effect t).2.LeadsTo (g.writer.targetPath d) l ∧ (g.generate.effect t).2.LeadsTo path l

/-- The last document that a run writes to a location is one of this unit. -/
def HasLastWord (g : Generator) (t : Tree) (l : Location) (unit : SourceUnit) : Prop :=
  IsLast (g.DeliversTo (g.generate.effect t).2 l) (g.sources (some g.writer) t) unit

/-- A run that overwrites writes all documents. -/
theorem deliveries_of_generate (hover : g.options.overwriteFiles = true) (h : g.generate.effect t = (.ok result, t')) :
    g.writer.Deliveries t (g.documents (some g.writer) t) (g.documents (some g.writer) t) [] t' := by
  obtain ⟨written, skipped, hdeliveries, -, -⟩ := exists_deliveries h
  rw [← documents_of_run h] at hdeliveries
  obtain ⟨rfl, rfl⟩ := hdeliveries.eq_of_overwrite hover
  exact hdeliveries

/-- The last document of the unit that has the last word is found at the location. -/
theorem get?_of_hasLastWord (hover : g.options.overwriteFiles = true) (h : g.generate.effect t = (.ok result, t'))
    {l : Location} {unit : SourceUnit} (hunit : g.HasLastWord t l unit) {d : Document}
    (hd : IsLast (fun d => t'.LeadsTo (g.writer.targetPath d) l) (g.output unit).documents d) :
    t'.get? l = some (.file d.body.toUTF8) := by
  rw [HasLastWord, h] at hunit
  exact (deliveries_of_generate hover h).get?_of_last hover (hunit.flatMap hd)

/-- If only interfaces are generated, with the built-in templates, then no unit is read from a document. -/
theorem parse?_of_mem_documents (hbuiltin : g.templates = .builtin) (hclasses : g.options.generateClasses = false)
    {writer : Option Writer} {d : Document} (hd : d ∈ g.documents writer t) (path : Path) :
    SourceUnit.parse? d.body path = none := by
  obtain ⟨text, source, unit, hparse, hd⟩ := exists_parse?_of_mem_documents hd
  rw [output, hbuiltin] at hd
  rcases List.mem_cons.1 hd with rfl | hd
  · exact SourceUnit.parse?_interface hparse g.options path
  · obtain ⟨templates, htemplates, -⟩ := SourceUnit.exists_of_skeleton_generate (Option.mem_toList.1 hd)
    simp [Accessor.skeletonTemplates?, hclasses] at htemplates

/-! ## The second run -/

/-- A run that overwrites succeeds if its files declare classes of known names and the files for these are there. It
makes nothing new, and comes to classes of these names only. -/
theorem processes_of_declares (hbuiltin : g.templates = .builtin) (hover : g.options.overwriteFiles = true)
    {names : List String} {t : Tree}
    (hplaced : ∀ unit : SourceUnit, unit.name ∈ names → ∀ d ∈ (g.output unit).documents,
      g.writer.Ready t ∧ t.isFile (g.writer.targetPath d) = true)
    (hdeclares : ∀ path ∈ paths, t.Declares names path) :
    ∃ reports t', (paths.mapM (g.process (some g.writer))).effect t = (.ok reports, t') ∧ t'.Grows t ∧
      ∀ unit ∈ g.sourcesFrom (some g.writer) t paths, unit.name ∈ names := by
  induction paths generalizing t with
  | nil => exact ⟨[], t, rfl, .refl t, by simp [sourcesFrom]⟩
  | cons path paths ih =>
    obtain ⟨⟨unit, hunit, hnames⟩, hrest⟩ := List.forall_mem_cons.1 hdeclares
    rw [Action.effect_mapM_cons (g.oblivious_process (some g.writer)), effect_process, sourcesFrom, hunit]
    cases unit with
    | none =>
      obtain ⟨reports, t', hreports, hshrinks, hsources⟩ := ih hplaced hrest
      exact ⟨.withoutClass path :: reports, t', by dsimp only; rw [hreports], hshrinks, hsources⟩
    | some unit =>
      have hname := hnames unit rfl
      obtain ⟨outcomes, t₁, hwrite, hshrinks₁⟩ := Writer.mapM_of_isFile (w := g.writer) hover (hplaced unit hname)
      have hconfined := g.writer.confined_mapM (g.output unit).documents t
      rw [hwrite] at hconfined
      dsimp only at hconfined ⊢
      -- what was written declares the class of this unit or none
      have hbody : ∀ d ∈ (g.output unit).documents, ∀ path' u, SourceUnit.parse? d.body path' = some u →
          u.name ∈ names := by
        intro d hd path' u hparse
        obtain ⟨_, -, hparse'⟩ := Tree.unitAt_eq_ok_iff.1 hunit
        rw [output, hbuiltin] at hd
        rw [SourceUnit.name_of_parse?_document hparse' hd hparse]
        exact hname
      obtain ⟨reports, t', hreports, hshrinks, hsources⟩ :=
        ih (fun u hu d hd => (hplaced u hu d hd).imp (·.grows hconfined.grows) hconfined.grows.isFile)
          fun p hp => (hrest p hp).of_confined hconfined hbody
      rw [writeAll, hwrite]
      dsimp only
      rw [hreports]
      exact ⟨_, t', rfl, hshrinks.trans hshrinks₁, List.forall_mem_cons.2 ⟨hname, hsources⟩⟩

/-! ## Files that read the same -/

/-- The units of a run that come from some of its files are those that these files declare, in order, if each of them
reads the same whenever it is turned to. -/
theorem Course.filter_sourcesFrom {writer : Option Writer} {reports : List FileReport} {R : Tree → Tree → Prop}
    (h : g.Course writer t paths reports t') (hR : g.Respects writer R (g.sourcesFrom writer t paths))
    (keep : Path → Bool) (read : Path → Option SourceUnit)
    (hread : ∀ path ∈ paths, keep path = true → ∀ {s : Tree} {unit : Option SourceUnit}, R t s → R s t' →
      s.unitAt path = .ok unit → read path = unit) :
    (g.sourcesFrom writer t paths).filter (fun unit => keep unit.path) = (paths.filter keep).filterMap read := by
  induction h with
  | done t => rfl
  | @withoutClass t _ path paths _ hunit hrest ih =>
    rw [sourcesFrom, hunit] at hR ⊢
    dsimp only at hR ⊢
    rw [ih hR fun p hp => hread p (List.mem_cons_of_mem path hp), List.filter_cons]
    split
    next hkeep =>
      rw [List.filterMap_cons, hread path List.mem_cons_self hkeep (hR.refl t) (hrest.respects hR) hunit]
    next => rfl
  | @generated t t₁ _ path paths _ unit _ hunit hwrite hrest ih =>
    have hall := (Course.generated hunit hwrite hrest).respects hR
    obtain ⟨_, -, hparse⟩ := Tree.unitAt_eq_ok_iff.1 hunit
    have hpath := SourceUnit.path_of_parse? hparse
    rw [sourcesFrom, hunit] at hR ⊢
    dsimp only at hR ⊢
    rw [hwrite] at hR ⊢
    dsimp only at hR ⊢
    have hfirst := hR.step unit List.mem_cons_self hwrite
    have hlater := ih hR.tail fun p hp hkeep _ _ hs hs' =>
      hread p (List.mem_cons_of_mem path hp) hkeep (hR.trans hfirst hs) hs'
    rw [List.filter_cons, List.filter_cons, hpath, hlater]
    split
    next hkeep => rw [List.filterMap_cons, hread path List.mem_cons_self hkeep (hR.refl t) hall hunit]
    next => rfl

/-- The units of a run that come from files that it does not write are those that these files declare when it is over,
in order. -/
theorem filter_sources_of_generate (h : g.generate.effect t = (.ok result, t')) {keep : Path → Bool}
    (hkeep : ∀ path ∈ g.classFiles, keep path = true → ¬ g.Rewrites t path) :
    (g.sources (some g.writer) t).filter (fun unit => keep unit.path) =
      (g.classFiles.filter keep).filterMap t'.unit? := by
  have hlacks := (run_eq_ok_iff.1 h).1
  obtain ⟨reports, hcourse, -⟩ := course_of_run h
  have hdocuments : g.documents (some g.writer) t =
      (g.sourcesFrom (some g.writer) t g.classFiles).flatMap fun unit => (g.output unit).documents := by
    rw [documents, sources_eq hlacks]
  rw [sources_eq hlacks]
  refine hcourse.filter_sourcesFrom (g.respects_confined _) keep t'.unit?
    fun path hpath hkept s unit _ hconfined hunit => ?_
  refine Tree.unit?_of_unitAt (hconfined.unitAt hunit fun d hd l htarget hleads => hkeep path hpath hkept ?_)
  rw [Rewrites, h]
  exact ⟨d, hdocuments ▸ hd, l, htarget, hleads⟩

/-! ## Classes that are read again -/

section Readback

variable {unit : SourceUnit} {interfaceFile skeletonFile : Location}

/-- Interface and class of this name are written to two different files, by whatever links. -/
structure Places (g : Generator) (t : Tree) (name : String) (interfaceFile skeletonFile : Location) : Prop where
  interface : t.LeadsTo (g.writer.outputDir.join ⟨interfaceName name ++ "." ++ g.options.extension⟩) interfaceFile
  skeleton : t.LeadsTo (g.writer.outputDir.join ⟨name ++ "." ++ g.options.extension⟩) skeletonFile
  ne : interfaceFile ≠ skeletonFile

theorem Places.grows {name : String} (h : g.Places t name interfaceFile skeletonFile) (hgrows : t.Grows t') :
    g.Places t' name interfaceFile skeletonFile :=
  ⟨h.interface.grows hgrows, h.skeleton.grows hgrows, h.ne⟩

theorem Places.withFiles {name : String} (h : g.Places t name interfaceFile skeletonFile) (paths : List Path) :
    (g.withFiles paths).Places t name interfaceFile skeletonFile :=
  ⟨h.interface, h.skeleton, h.ne⟩

theorem fileName_of_skeleton {d : Document} (hd : (g.output unit).skeleton = some d) :
    d.fileName = unit.name ++ "." ++ g.options.extension := by
  rw [SourceUnit.fileName_of_mem_documents (SourceUnit.mem_documents_of_skeleton hd), SourceUnit.form_of_skeleton hd,
    Form.declaredName]

theorem exists_skeleton (hbuiltin : g.templates = .builtin) (hclasses : g.options.generateClasses = true)
    (unit : SourceUnit) : ∃ d, (g.output unit).skeleton = some d := by
  rw [output, hbuiltin]
  exact unit.exists_skeleton_builtin hclasses

namespace Places

theorem leadsTo_skeleton (h : g.Places t unit.name interfaceFile skeletonFile) {d : Document}
    (hd : (g.output unit).skeleton = some d) : t.LeadsTo (g.writer.targetPath d) skeletonFile := by
  rw [Writer.targetPath, fileName_of_skeleton hd]
  exact h.skeleton

/-- Of a unit's documents only the interface is written to its file. -/
theorem isLast_interface (unit : SourceUnit) (h : g.Places t unit.name interfaceFile skeletonFile) :
    IsLast (fun d => t.LeadsTo (g.writer.targetPath d) interfaceFile) (g.output unit).documents
      (g.output unit).interface := by
  refine ⟨[], (g.output unit).skeleton.toList, rfl, h.interface, fun d hd hleads => ?_⟩
  exact h.ne (hleads.unique (h.leadsTo_skeleton (Option.mem_toList.1 hd)))

theorem isLast_skeleton (h : g.Places t unit.name interfaceFile skeletonFile) {d : Document}
    (hd : (g.output unit).skeleton = some d) :
    IsLast (fun d => t.LeadsTo (g.writer.targetPath d) skeletonFile) (g.output unit).documents d :=
  ⟨[(g.output unit).interface], [], by rw [UnitOutput.documents, hd]; rfl, h.leadsTo_skeleton hd, by simp⟩

end Places

/-- The last of some documents that was written to a location is found there. -/
theorem get?_of_writeAll (hover : g.options.overwriteFiles = true) {ds : List Document} {outcomes : List WriteOutcome}
    (hwrite : (writeAll (some g.writer) ds).effect t = (.ok outcomes, t')) {l : Location} {d : Document}
    (hlast : IsLast (fun d => t'.LeadsTo (g.writer.targetPath d) l) ds d) : t'.get? l = some (.file d.body.toUTF8) := by
  obtain ⟨written, skipped, hrecorded⟩ := (g.writer.writes_mapM ds t).recorded hwrite
  obtain ⟨rfl, rfl⟩ := hrecorded.deliveries.eq_of_overwrite hover
  exact hrecorded.deliveries.get?_of_last hover hlast

theorem grows_of_writeAll {ds : List Document} {outcomes : List WriteOutcome}
    (hwrite : (writeAll (some g.writer) ds).effect t = (.ok outcomes, t')) : t.Grows t' := by
  have hconfined := g.writer.confined_mapM ds t
  rw [show (ds.mapM g.writer.write).effect t = _ from hwrite] at hconfined
  exact hconfined.grows

/-- Where nothing but an interface is read, no more is done. -/
theorem Course.eq_of_interface (hbuiltin : g.templates = .builtin) {writer : Option Writer} {reports : List FileReport}
    (h : g.Course writer t paths reports t') {text : String} {path : Path}
    (hparse : SourceUnit.parse? text path = some unit)
    (hl : t.get? interfaceFile = some (.file (g.output unit).interface.body.toUTF8))
    (hpaths : ∀ path ∈ paths, t.LeadsTo path interfaceFile) : t' = t := by
  rw [output, hbuiltin] at hl
  induction h with
  | done t => rfl
  | withoutClass _ _ ih => exact ih hl fun path hpath => hpaths path (List.mem_cons_of_mem _ hpath)
  | @generated t _ _ path' _ _ _ _ hunit _ _ _ =>
    rw [Tree.unitAt_of_text (hpaths path' List.mem_cons_self) hl, SourceUnit.parse?_interface hparse] at hunit
    simp at hunit

/-- A run comes to a class, then to the file of the class that it generates for it, and to no other file but that of the
interface. It leaves the interface of a class without properties. -/
theorem Course.get?_interface (hbuiltin : g.templates = .builtin) (hover : g.options.overwriteFiles = true)
    (hclasses : g.options.generateClasses = true) {path path' : Path} {reports : List FileReport}
    (h : g.Course (some g.writer) t (path :: path' :: paths) reports t') (hunit : t.unitAt path = .ok (some unit))
    (hplaces : g.Places t unit.name interfaceFile skeletonFile) (hpath' : t.LeadsTo path' skeletonFile)
    (hpaths : ∀ path ∈ paths, t.LeadsTo path interfaceFile) :
    t'.get? interfaceFile = some (.file (g.output ⟨path', unit.name, [], 0⟩).interface.body.toUTF8) := by
  cases h with
  | withoutClass hnone _ => exact absurd (Except.ok.inj (hunit.symm.trans hnone)) (Option.some_ne_none _)
  | @generated _ t₁ _ _ _ _ _ _ hunit' hwrite hrest =>
    obtain rfl := Option.some.inj (Except.ok.inj (hunit.symm.trans hunit'))
    obtain ⟨text, -, hparse⟩ := Tree.unitAt_eq_ok_iff.1 hunit
    have hplaces₁ := hplaces.grows (grows_of_writeAll hwrite)
    -- the class that is read again has no properties
    obtain ⟨d, hd⟩ := exists_skeleton hbuiltin hclasses unit
    have hskeleton := get?_of_writeAll hover hwrite (hplaces₁.isLast_skeleton hd)
    rw [output, hbuiltin] at hd
    have hparse' := SourceUnit.parse?_skeleton hparse hd path'
    have hbare := Tree.unitAt_of_text (hpath'.grows (grows_of_writeAll hwrite)) hskeleton
    rw [hparse'] at hbare
    cases hrest with
    | withoutClass hnone _ => exact absurd (Except.ok.inj (hbare.symm.trans hnone)) (Option.some_ne_none _)
    | @generated _ t₂ _ _ _ _ _ _ hbare' hwrite' hrest' =>
      obtain rfl := Option.some.inj (Except.ok.inj (hbare.symm.trans hbare'))
      have hplaces₂ := hplaces₁.grows (grows_of_writeAll hwrite')
      have hinterface := get?_of_writeAll (d := (g.output ⟨path', unit.name, [], 0⟩).interface) hover hwrite'
        (hplaces₂.isLast_interface ⟨path', unit.name, [], 0⟩)
      obtain rfl := hrest'.eq_of_interface hbuiltin hparse' hinterface fun p hp =>
        ((hpaths p hp).grows (grows_of_writeAll hwrite)).grows (grows_of_writeAll hwrite')
      exact hinterface

end Readback

/-! ## Both runs -/

/-- A run over some files on the tree that another one left makes nothing new, and comes only to classes of names that
the other one has come to. -/
structure Regenerates (g : Generator) (t t' : Tree) (paths : List Path) (t'' : Tree) : Prop where
  first : ∃ result, g.generate.effect t = (.ok result, t')
  second : ∃ again, (g.withFiles paths).generate.effect t' = (.ok again, t'')
  shrinks : t''.Grows t'
  name_mem : ∀ unit ∈ (g.withFiles paths).sources (some g.writer) t',
    unit.name ∈ (g.sources (some g.writer) t).map (·.name)

/-- The files of all documents of units with known names are there after a run that overwrites. -/
theorem placed_of_generate (hover : g.options.overwriteFiles = true) (h : g.generate.effect t = (.ok result, t'))
    {unit : SourceUnit} (hname : unit.name ∈ (g.sources (some g.writer) t).map (·.name)) {d : Document}
    (hd : d ∈ (g.output unit).documents) : g.writer.Ready t' ∧ t'.isFile (g.writer.targetPath d) = true := by
  have hdeliveries := deliveries_of_generate hover h
  obtain ⟨d', hd', htarget⟩ := exists_targetPath_eq hname hd
  exact ⟨hdeliveries.ready_of_mem_written hd', htarget ▸ hdeliveries.isFile_of_mem_written hd'⟩

/-- After a run that succeeds, with the built-in templates, a run over the same files and new ones that overwrites
succeeds. -/
theorem exists_regenerates (hbuiltin : g.templates = .builtin) (hover : g.options.overwriteFiles = true)
    (h : g.generate.effect t = (.ok result, t'))
    (hpaths : ∀ path ∈ paths, path ∈ g.classFiles ∨ t.LeadsToNew t' path) : ∃ t'', g.Regenerates t t' paths t'' := by
  have hlacks := (run_eq_ok_iff.1 h).1
  have hlacks' : (g.withFiles paths).lacksTemplates = false := hlacks
  have hdeclares : ∀ path ∈ paths, t'.Declares ((g.sources (some g.writer) t).map (·.name)) path := by
    intro path hpath
    rw [sources_eq hlacks]
    exact declares_of_generate hbuiltin h (hpaths path hpath)
  have hplaced : ∀ unit : SourceUnit, unit.name ∈ (g.sources (some g.writer) t).map (·.name) →
      ∀ d ∈ (g.output unit).documents, g.writer.Ready t' ∧ t'.isFile (g.writer.targetPath d) = true :=
    fun unit hname d hd => placed_of_generate hover h hname hd
  obtain ⟨reports, t'', hreports, hshrinks, hnames⟩ :=
    processes_of_declares (g := g.withFiles paths) hbuiltin hover hplaced hdeclares
  have hsecond : (g.withFiles paths).generate.effect t' = (.ok (.ofReports reports), t'') :=
    run_eq_ok_iff.2 ⟨hlacks', reports, hreports, rfl⟩
  refine ⟨t'', ⟨result, h⟩, ⟨_, hsecond⟩, hshrinks, ?_⟩
  rw [sources_eq hlacks']
  exact hnames

namespace Regenerates

variable {t'' : Tree} {l : Location} {path : Path} {unit unit' : SourceUnit}

theorem confined (h : g.Regenerates t t' paths t'') :
    g.writer.Confined ((g.withFiles paths).documents (some g.writer) t') t' t'' := by
  obtain ⟨again, hagain⟩ := h.second
  have hconfined := (g.withFiles paths).confined_generate t'
  rw [hagain] at hconfined
  exact hconfined

theorem leadsTo_iff (h : g.Regenerates t t' paths t'') : t''.LeadsTo path l ↔ t'.LeadsTo path l :=
  ⟨fun hleads => hleads.grows h.shrinks, fun hleads => hleads.grows h.confined.grows⟩

/-- What the second run writes the first one has written. -/
theorem rewrites (h : g.Regenerates t t' paths t'') (hpath : (g.withFiles paths).Rewrites t' path) :
    g.Rewrites t path := by
  obtain ⟨result, hresult⟩ := h.first
  obtain ⟨again, hagain⟩ := h.second
  obtain ⟨d, hd, l, htarget, hleads⟩ := hpath
  rw [hagain] at htarget hleads
  obtain ⟨unit, hunit, hd⟩ := List.mem_flatMap.1 hd
  obtain ⟨d', hd', hsame⟩ := exists_targetPath_eq (g := g) (h.name_mem unit hunit) hd
  rw [Rewrites, hresult]
  refine ⟨d', hd', l, ?_, h.leadsTo_iff.1 hleads⟩
  rw [hsame]
  exact h.leadsTo_iff.1 htarget

/-- From files that the first run has not written both runs read the same units, if they come to the same files. -/
theorem filter_sources (hbuiltin : g.templates = .builtin) (h : g.Regenerates t t' paths t'')
    (hpaths : ∀ path ∈ paths, path ∈ g.classFiles ∨ t.LeadsToNew t' path) {keep : Path → Bool}
    (hkeep : ∀ path, keep path = true → ¬ g.Rewrites t path)
    (hsame : paths.filter keep = g.classFiles.filter keep) :
    ((g.withFiles paths).sources (some g.writer) t').filter (fun unit => keep unit.path) =
      (g.sources (some g.writer) t).filter fun unit => keep unit.path := by
  obtain ⟨result, hresult⟩ := h.first
  obtain ⟨again, hagain⟩ := h.second
  rw [filter_sources_of_generate hresult fun path _ hkept => hkeep path hkept, ← hsame]
  refine (filter_sources_of_generate (g := g.withFiles paths) hagain fun path _ hkept hpath =>
    hkeep path hkept (h.rewrites hpath)).trans ?_
  refine List.filterMap_congr fun path hpath => ?_
  obtain ⟨hpath, hkept⟩ := List.mem_filter.1 hpath
  obtain ⟨unit, hunit, -⟩ := declares_of_generate hbuiltin hresult (hpaths path hpath)
  have hunit' := h.confined.unitAt hunit fun d hd l htarget hleads => by
    refine hkeep path hkept (h.rewrites ?_)
    rw [Rewrites, hagain]
    exact ⟨d, hd, l, htarget, hleads⟩
  rw [Tree.unit?_of_unitAt hunit, Tree.unit?_of_unitAt hunit']

/-- A file keeps its content if the unit with the last word comes, in both runs, from a file that the first run has not
written. -/
theorem get?_eq (hbuiltin : g.templates = .builtin) (hover : g.options.overwriteFiles = true)
    (h : g.Regenerates t t' paths t'') (hpaths : ∀ path ∈ paths, path ∈ g.classFiles ∨ t.LeadsToNew t' path)
    {keep : Path → Bool} (hkeep : ∀ path, keep path = true → ¬ g.Rewrites t path)
    (hsame : paths.filter keep = g.classFiles.filter keep) (hunit : g.HasLastWord t l unit)
    (hkept : keep unit.path = true) (hunit' : (g.withFiles paths).HasLastWord t' l unit')
    (hkept' : keep unit'.path = true) : t''.get? l = t'.get? l := by
  obtain ⟨result, hresult⟩ := h.first
  obtain ⟨again, hagain⟩ := h.second
  -- documents lead where they led
  have hdelivers : (g.withFiles paths).DeliversTo t'' l = g.DeliversTo t' l := by
    funext u
    exact propext (exists_congr fun d => and_congr_right fun _ => h.leadsTo_iff)
  have hlast : IsLast (g.DeliversTo t' l) (g.sources (some g.writer) t) unit := by
    rw [HasLastWord, hresult] at hunit
    exact hunit
  have hlast' : IsLast (g.DeliversTo t' l) ((g.withFiles paths).sources (some g.writer) t') unit' := by
    rw [HasLastWord, hagain, hdelivers] at hunit'
    exact hunit'
  -- so the same unit has the last word in both runs
  have hfilter := hlast'.filter (fun unit => keep unit.path) hkept'
  rw [h.filter_sources hbuiltin hpaths hkeep hsame] at hfilter
  obtain rfl := (hlast.filter (fun unit => keep unit.path) hkept).unique hfilter
  obtain ⟨d, hd⟩ := exists_isLast hlast.prop
  have hd' : IsLast (fun d => t''.LeadsTo (g.writer.targetPath d) l) (g.output unit).documents d := by
    simpa only [h.leadsTo_iff] using hd
  rw [get?_of_hasLastWord hover hresult hunit hd]
  exact get?_of_hasLastWord (g := g.withFiles paths) hover hagain hunit' hd'

/-- If only interfaces are generated then no unit in a file that the first run has written has the last word in the
second run. -/
theorem not_rewrites (hbuiltin : g.templates = .builtin) (hover : g.options.overwriteFiles = true)
    (hclasses : g.options.generateClasses = false) (h : g.Regenerates t t' paths t'')
    (hunit : (g.withFiles paths).HasLastWord t' l unit) : ¬ g.Rewrites t unit.path := by
  classical
  obtain ⟨result, hresult⟩ := h.first
  obtain ⟨again, hagain⟩ := h.second
  have hlacks := (run_eq_ok_iff.1 hagain).1
  obtain ⟨reports, hcourse, -⟩ := course_of_run hagain
  have hmem := hunit.mem
  rw [sources_eq hlacks] at hmem
  have hnone := hcourse.filter_sourcesFrom ((g.withFiles paths).respects_confined _)
      (fun path => decide (g.Rewrites t path)) (fun _ => none) fun path _ hrewrites s u hconfined _ hu => by
    rw [decide_eq_true_eq, Rewrites, hresult] at hrewrites
    obtain ⟨d, hd, l, htarget, hleads⟩ := hrewrites
    obtain ⟨d', hlast⟩ := exists_isLast (P := fun d => t'.LeadsTo (g.writer.targetPath d) l) ⟨d, hd, htarget⟩
    have hl := (deliveries_of_generate hover hresult).get?_of_last hover hlast
    -- what is there declares no class, and what the second run has written there by now does not either
    have hdeclares : t'.Declares [] path := Tree.declares_of_text hleads hl fun u hparse => by
      rw [parse?_of_mem_documents hbuiltin hclasses hlast.mem] at hparse
      exact nomatch hparse
    obtain ⟨u', hu', hnames⟩ := hdeclares.of_confined hconfined fun d hd path' u hparse => by
      have hd' : d ∈ (g.withFiles paths).documents (some g.writer) t' := by
        rw [documents, sources_eq hlacks]
        exact hd
      rw [parse?_of_mem_documents (g := g.withFiles paths) hbuiltin hclasses hd'] at hparse
      exact nomatch hparse
    obtain rfl := Except.ok.inj (hu.symm.trans hu')
    cases u with
    | none => rfl
    | some u => exact absurd (hnames u rfl) (List.not_mem_nil)
  rw [List.filterMap_eq_nil_iff.2 fun _ _ => rfl, List.filter_eq_nil_iff] at hnone
  exact fun hrewrites => hnone unit hmem (decide_eq_true hrewrites)

end Regenerates

theorem exists_hasLastWord (h : g.generate.effect t = (.ok result, t')) {d : Document}
    (hd : d ∈ g.documents (some g.writer) t) {l : Location} (hleads : t'.LeadsTo (g.writer.targetPath d) l) :
    ∃ unit, g.HasLastWord t l unit := by
  obtain ⟨unit, hunit, hd⟩ := List.mem_flatMap.1 hd
  simp only [HasLastWord, h]
  exact exists_isLast ⟨unit, hunit, d, hd, hleads⟩

/-- After a run that succeeds, with the built-in templates, a run over the same files and new ones that overwrites
succeeds too, and every file keeps its content unless the last document written to it, in the first or in the second
run, is of a unit that was read from a file which the first run has written. The new files do not come between the
others. -/
theorem exists_regenerates_and_keeps (hbuiltin : g.templates = .builtin) (hover : g.options.overwriteFiles = true)
    (h : g.generate.effect t = (.ok result, t'))
    (hpaths : ∀ path ∈ paths, path ∈ g.classFiles ∨ t.LeadsToNew t' path)
    (hsame : ∀ keep : Path → Bool, (∀ path, t.LeadsToNew t' path → keep path = false) →
      paths.filter keep = g.classFiles.filter keep) :
    ∃ t'', g.Regenerates t t' paths t'' ∧ ∀ l, t''.get? l ≠ t'.get? l →
      ∃ unit, (g.withFiles paths).HasLastWord t' l unit ∧
        (g.Rewrites t unit.path ∨ ∃ unit', g.HasLastWord t l unit' ∧ g.Rewrites t unit'.path) := by
  classical
  obtain ⟨t'', hregenerates⟩ := exists_regenerates hbuiltin hover h hpaths
  obtain ⟨again, hagain⟩ := hregenerates.second
  refine ⟨t'', hregenerates, fun l hne => ?_⟩
  -- the second run has a document for the location, and so has the first one
  obtain ⟨d, hd, hleads⟩ := hregenerates.confined.exists_leadsTo_of_ne hregenerates.shrinks hne
  obtain ⟨unit, hunit⟩ := exists_hasLastWord hagain hd hleads
  obtain ⟨u, hu, hd⟩ := List.mem_flatMap.1 hd
  obtain ⟨d', hd', htarget⟩ := exists_targetPath_eq (g := g) (hregenerates.name_mem u hu) hd
  obtain ⟨unit', hunit'⟩ := exists_hasLastWord h hd' (htarget ▸ hregenerates.leadsTo_iff.1 hleads)
  refine ⟨unit, hunit, ?_⟩
  by_contra hnone
  obtain ⟨hkept, hnone⟩ := not_or.1 hnone
  have hkept' : ¬ g.Rewrites t unit'.path := fun hpath => hnone ⟨unit', hunit', hpath⟩
  have hnew : ∀ path, t.LeadsToNew t' path → decide (¬ g.Rewrites t path) = false := by
    rintro path ⟨l', content, hleads', hl', hnew⟩
    have hconfined := g.confined_generate t
    rw [h] at hconfined
    rcases hconfined.file hl' with hold | ⟨d, hd, -, htarget⟩
    · exact absurd hold (hnew content)
    · rw [decide_eq_false_iff_not, not_not, Rewrites, h]
      exact ⟨d, hd, l', htarget, hleads'⟩
  exact hne (hregenerates.get?_eq hbuiltin hover hpaths (fun path => of_decide_eq_true) (hsame _ hnew) hunit'
    (decide_eq_true hkept') hunit (decide_eq_true hkept))

end Generator

end GetSet
