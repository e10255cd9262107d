import GetSet.Proofs.Run.Frame
import GetSet.Proofs.Run.Preview

/-!
# The first unit of a run

A run reads the files before its first unit, and that of the unit itself, from the tree that it starts on. If it does
not overwrite, then the only old file that it can change is one that the interface of this unit is written to
(`Writer.Reopens`), and from then on it changes no file again. So it reads the other files as they are when it is over
(`Course.of_opens`). Whether it yields the preview of the tree that it starts on, or that of the tree that it leaves,
is then a matter of the files that the interface takes the place of (`Spares`).
-/

namespace GetSet

/-! ## Files that stay as they are -/

namespace Tree

variable {t t' t'' : Tree} {path : Path}

/-- A unit is read again from a file that has kept its content. -/
theorem unitAt_of_grows (hgrows : t.Grows t') {unit : Option SourceUnit} (h : t.unitAt path = .ok unit)
    (hkeep : ∀ {l content}, t.LeadsTo path l → t.get? l = some (.file content) → t'.get? l = some (.file content)) :
    t'.unitAt path = .ok unit := by
  obtain ⟨l, content, text, hleads, hl, hrest⟩ := unitAt_eq_ok_iff_file.1 h
  exact unitAt_eq_ok_iff_file.2 ⟨l, content, text, hleads.grows hgrows, hkeep hleads hl, hrest⟩

/-- Every file stays with its content. -/
structure Keeps (t t' : Tree) : Prop where
  grows : t.Grows t'
  file : ∀ {l : Location} {content : ByteArray}, t.get? l = some (.file content) → t'.get? l = some (.file content)

theorem Keeps.refl (t : Tree) : t.Keeps t where
  grows := .refl t
  file h := h

theorem Keeps.trans (h : t.Keeps t') (h' : t'.Keeps t'') : t.Keeps t'' where
  grows := h.grows.trans h'.grows
  file hl := h'.file (h.file hl)

theorem Keeps.unitAt (h : t.Keeps t') {unit : Option SourceUnit} (hunit : t.unitAt path = .ok unit) :
    t'.unitAt path = .ok unit :=
  unitAt_of_grows h.grows hunit fun _ hl => h.file hl

end Tree

namespace Writer

variable {w : Writer} {d : Document} {t t' : Tree}

theorem Ready.keeps_mapM (hkeep : w.overwrite = false) (h : w.Ready t) (ds : List Document) :
    t.Keeps ((ds.mapM w.write).effect t).2 where
  grows := (w.confined_mapM ds t).grows
  file hl := h.mapM_keeps hkeep ds hl

/-- A file that a document comes upon holds the document. -/
theorem get?_deliver_of_reopens (hkeep : w.overwrite = false) {l : Location} {content : ByteArray}
    (h : w.Reopens d t l) (hl : t.get? l = some (.file content)) :
    (w.deliver d t).2.get? l = some (.file d.body.toUTF8) := by
  obtain ⟨content', hl'⟩ := (w.confined_deliver d t).grows.file hl
  rcases (w.confined_deliver d t).file hl' with hold | ⟨d', hd', rfl, -⟩
  · rw [hl, Option.some.injEq, Node.file.injEq] at hold
    subst hold
    rw [hl', (deliver_keeps_iff hkeep d hl).1 hl' h]
  · obtain rfl := List.mem_singleton.1 hd'
    exact hl'

/-- What can be read from a tree is read again after a document was written first, unless the document took the place
of the file. -/
structure Rereads (w : Writer) (d : Document) (t t' : Tree) : Prop where
  replaced : ∀ {path : Path} {unit : Option SourceUnit} {l : Location}, t.unitAt path = .ok unit →
    t.LeadsTo path l → w.Reopens d t l → t'.unitAt path = .ok (SourceUnit.parse? d.body path)
  kept : ∀ {path : Path} {unit : Option SourceUnit} {l : Location}, t.unitAt path = .ok unit →
    t.LeadsTo path l → ¬ w.Reopens d t l → t'.unitAt path = .ok unit

theorem Rereads.keeps {t'' : Tree} (h : w.Rereads d t t') (hkeeps : t'.Keeps t'') : w.Rereads d t t'' where
  replaced hunit hleads hreopens := hkeeps.unitAt (h.replaced hunit hleads hreopens)
  kept hunit hleads hnot := hkeeps.unitAt (h.kept hunit hleads hnot)

theorem rereads_deliver (hkeep : w.overwrite = false) (d : Document) (t : Tree) :
    w.Rereads d t (w.deliver d t).2 where
  replaced {path unit l} hunit hleads hreopens := by
    obtain ⟨l', _, _, hleads', hl, -⟩ := Tree.unitAt_eq_ok_iff_file.1 hunit
    obtain rfl := hleads.unique hleads'
    exact Tree.unitAt_of_text (hleads.grows (w.confined_deliver d t).grows) (get?_deliver_of_reopens hkeep hreopens hl)
  kept {path unit l} hunit hleads hnot := by
    refine Tree.unitAt_of_grows (w.confined_deliver d t).grows hunit fun hleads' hl => ?_
    obtain rfl := hleads.unique hleads'
    exact (deliver_keeps_iff hkeep d hl).2 fun hreopens => absurd hreopens hnot

/-- Where a path leads decides how it is read again. -/
theorem Rereads.unit?_eq (h : w.Rereads d t t') {path : Path} {unit : Option SourceUnit}
    (hunit : t.unitAt path = .ok unit) {l : Location} (hleads : t.LeadsTo path l) :
    (w.Reopens d t l → t'.unit? path = SourceUnit.parse? d.body path) ∧
      (¬ w.Reopens d t l → t'.unit? path = t.unit? path) := by
  refine ⟨fun hreopens => Tree.unit?_of_unitAt (h.replaced hunit hleads hreopens), fun hnot => ?_⟩
  rw [Tree.unit?_of_unitAt (h.kept hunit hleads hnot), Tree.unit?_of_unitAt hunit]

/-- There is one text at most that the document took the place of. -/
theorem Rereads.exists_replaces (h : w.Rereads d t t') {paths : List Path}
    (hpaths : ∀ path ∈ paths, ∃ unit, t.unitAt path = .ok unit) :
    ∃ text, ∀ path ∈ paths,
      t'.unit? path = t.unit? path ∨ Generator.Replaces text d.body t.unit? t'.unit? path := by
  by_cases hany : ∃ path ∈ paths, ∃ l, t.LeadsTo path l ∧ w.Reopens d t l
  · obtain ⟨path, hpath, l, hleads, hreopens⟩ := hany
    obtain ⟨unit, hunit⟩ := hpaths path hpath
    obtain ⟨l', content, text, hleads', hl, htext, -⟩ := Tree.unitAt_eq_ok_iff_file.1 hunit
    obtain rfl := hleads.unique hleads'
    refine ⟨text, fun path' hpath' => ?_⟩
    obtain ⟨unit', hunit'⟩ := hpaths path' hpath'
    obtain ⟨l', -, -, hleads'', -⟩ := Tree.unitAt_eq_ok_iff_file.1 hunit'
    obtain ⟨hreplaced, hkept⟩ := h.unit?_eq hunit' hleads''
    by_cases hreopens' : w.Reopens d t l'
    · -- both paths lead to the same file
      obtain rfl := hreopens.2.2.unique hreopens'.2.2
      have hsame := Tree.unitAt_eq_ok_iff_file.2 ⟨l, content, text, hleads'', hl, htext, rfl⟩
      exact Or.inr ⟨Tree.unit?_of_unitAt hsame, hreplaced hreopens'⟩
    · exact Or.inl (hkept hreopens')
  · refine ⟨"", fun path hpath => ?_⟩
    obtain ⟨unit, hunit⟩ := hpaths path hpath
    obtain ⟨l, -, -, hleads, -⟩ := Tree.unitAt_eq_ok_iff_file.1 hunit
    exact Or.inl ((h.unit?_eq hunit hleads).2 fun hreopens => hany ⟨path, hpath, l, hleads, hreopens⟩)

/-- After some documents there is no directory to be made any more, and only the first of them can have come upon a
file. -/
theorem rereads_mapM (hkeep : w.overwrite = false) {ds : List Document} (hd : d.IsRelative)
    {outcomes : List WriteOutcome} (h : ((d :: ds).mapM w.write).effect t = (.ok outcomes, t')) :
    w.Ready t' ∧ w.Rereads d t t' := by
  obtain ⟨outcome, t₁, rest, hfirst, hrest, -⟩ := (Action.effect_mapM_cons_eq_ok_iff w.oblivious_write).1 h
  rw [effect_write] at hfirst
  have hready := ready_of_deliver hd hfirst
  have hreads := rereads_deliver hkeep d t
  rw [hfirst] at hreads
  have hkeeps := hready.keeps_mapM hkeep ds
  rw [hrest] at hkeeps
  exact ⟨hready.grows hkeeps.grows, hreads.keeps hkeeps⟩

end Writer

/-! ## The first unit -/

/-- The first of some files that declares a class, with the files before it and those after it. -/
structure Tree.Opens (t : Tree) (paths before : List Path) (unit : SourceUnit) (after : List Path) : Prop where
  paths_eq : paths = before ++ unit.path :: after
  silent : ∀ path ∈ before, t.unitAt path = .ok none
  unitAt_eq : t.unitAt unit.path = .ok (some unit)

theorem Tree.Opens.exists_unitAt {t : Tree} {paths before after : List Path} {unit : SourceUnit}
    (h : t.Opens paths before unit after) : ∀ path ∈ before ++ [unit.path], ∃ u, t.unitAt path = .ok u := by
  intro path hpath
  rcases List.mem_append.1 hpath with hpath | hpath
  · exact ⟨_, h.silent path hpath⟩
  · obtain rfl := List.mem_singleton.1 hpath
    exact ⟨_, h.unitAt_eq⟩

theorem Tree.Opens.eq_append {t : Tree} {paths before after : List Path} {unit : SourceUnit}
    (h : t.Opens paths before unit after) : paths = (before ++ [unit.path]) ++ after := by
  rw [h.paths_eq, List.append_assoc, List.singleton_append]

theorem Tree.Opens.after_subset {t : Tree} {paths before after : List Path} {unit : SourceUnit}
    (h : t.Opens paths before unit after) : after ⊆ paths := by
  rw [h.paths_eq]
  exact fun path hpath => List.mem_append_right before (List.mem_cons_of_mem unit.path hpath)

namespace Generator

variable {g : Generator} {t t' : Tree} {paths before after : List Path} {reports : List FileReport}
  {unit : SourceUnit}

/-- Where the interface of a unit takes the place of a file, every one of some paths that leads to it is reported on as
before. -/
def Spares (g : Generator) (t : Tree) (unit : SourceUnit) (paths : List Path) : Prop :=
  ∀ l, g.writer.Reopens (g.output unit).interface t l → ∀ path ∈ paths, t.LeadsTo path l →
    g.preview path (SourceUnit.parse? (g.output unit).interface.body path) = g.preview path (t.unit? path)

/-- What is reported about files that are read again, together, changes only if the interface changes a report. -/
theorem previewAll_eq_iff_spares (h : g.writer.Rereads (g.output unit).interface t t')
    (hpaths : ∀ path ∈ paths, ∃ u, t.unitAt path = .ok u) :
    g.previewAll t'.unit? paths = g.previewAll t.unit? paths ↔ g.Spares t unit paths := by
  obtain ⟨text, htext⟩ := h.exists_replaces hpaths
  rw [previewAll_eq_iff htext]
  constructor
  · intro hall l hreopens path hpath hleads
    obtain ⟨u, hu⟩ := hpaths path hpath
    rw [← (h.unit?_eq hu hleads).1 hreopens]
    exact hall path hpath
  · intro hspares path hpath
    obtain ⟨u, hu⟩ := hpaths path hpath
    obtain ⟨l, -, -, hleads, -⟩ := Tree.unitAt_eq_ok_iff_file.1 hu
    obtain ⟨hreplaced, hkept⟩ := h.unit?_eq hu hleads
    by_cases hreopens : g.writer.Reopens (g.output unit).interface t l
    · rw [hreplaced hreopens]
      exact hspares l hreopens path hpath hleads
    · rw [hkept hreopens]

/-! ## The course of a run from its first unit on -/

/-- A run comes to no unit and leaves the tree as it is, or there is a first unit. -/
theorem Course.silent_or_opens {writer : Option Writer} (h : g.Course writer t paths reports t') :
    ((∀ path ∈ paths, t.unitAt path = .ok none) ∧ t' = t ∧
        (RunResult.ofReports reports).withoutWrites = g.previewAll t.unit? paths) ∨
      ∃ before unit after, t.Opens paths before unit after := by
  induction h with
  | done t => exact Or.inl ⟨by simp, rfl, rfl⟩
  | @withoutClass t _ path _ _ hunit _ ih =>
    rcases ih with ⟨hsilent, rfl, hresult⟩ | ⟨before, unit, after, hopens⟩
    · refine Or.inl ⟨List.forall_mem_cons.2 ⟨hunit, hsilent⟩, rfl, ?_⟩
      rw [RunResult.ofReports_cons, RunResult.withoutWrites_append, hresult, previewAll_cons,
        Tree.unit?_of_unitAt hunit]
      rfl
    · refine Or.inr ⟨path :: before, unit, after, ?_, List.forall_mem_cons.2 ⟨hunit, hopens.silent⟩, hopens.unitAt_eq⟩
      rw [hopens.paths_eq, List.cons_append]
  | @generated t _ _ path paths _ unit _ hunit _ _ _ =>
    obtain ⟨text, -, hparse⟩ := Tree.unitAt_eq_ok_iff.1 hunit
    obtain rfl := SourceUnit.path_of_parse? hparse
    exact Or.inr ⟨[], unit, paths, rfl, by simp, hunit⟩

/-- What a run does from its first unit on. -/
theorem Course.split {writer : Option Writer} (h : g.Course writer t paths reports t')
    (hopens : t.Opens paths before unit after) :
    ∃ outcomes t₁ rest, (writeAll writer (g.output unit).documents).effect t = (.ok outcomes, t₁) ∧
      g.Course writer t₁ after rest t' ∧ (RunResult.ofReports reports).withoutWrites =
        g.previewAll t.unit? (before ++ [unit.path]) ++ (RunResult.ofReports rest).withoutWrites := by
  obtain ⟨rfl, hsilent, hunit⟩ := hopens
  induction before generalizing reports with
  | nil =>
    cases h with
    | withoutClass hnone _ => simp [hunit] at hnone
    | @generated _ t₁ _ _ _ rest unit' outcomes hunit' hwrite hrest =>
      obtain rfl := Option.some.inj (Except.ok.inj (hunit.symm.trans hunit'))
      refine ⟨outcomes, t₁, rest, hwrite, hrest, ?_⟩
      rw [RunResult.ofReports_cons, RunResult.withoutWrites_append, RunResult.withoutWrites_generated, List.nil_append,
        previewAll, List.map_singleton, Tree.unit?_of_unitAt hunit, preview]
  | cons path before ih =>
    have hpath := hsilent path List.mem_cons_self
    cases h with
    | withoutClass _ hrest =>
      obtain ⟨outcomes, t₁, rest, hwrite, hrest', hresult⟩ :=
        ih (fun p hp => hsilent p (List.mem_cons_of_mem path hp)) hrest
      refine ⟨outcomes, t₁, rest, hwrite, hrest', ?_⟩
      rw [RunResult.ofReports_cons, RunResult.withoutWrites_append, hresult, List.cons_append, previewAll_cons,
        Tree.unit?_of_unitAt hpath, ← RunResult.append_assoc]
      rfl
    | generated hunit' _ _ => simp [hpath] at hunit'

/-- With the output directory there, a run that does not overwrite keeps all files, so that it reads from each of them
what can be read there when it is over. -/
theorem Course.of_ready (hkeep : g.options.overwriteFiles = false) (hready : g.writer.Ready t)
    (h : g.Course (some g.writer) t paths reports t') :
    g.writer.Ready t' ∧ t.Keeps t' ∧ (RunResult.ofReports reports).withoutWrites = g.previewAll t'.unit? paths := by
  have hR : g.Respects (some g.writer) (fun s s' => g.writer.Ready s → g.writer.Ready s' ∧ s.Keeps s')
      (g.sourcesFrom (some g.writer) t paths) := by
    refine ⟨fun s hs => ⟨hs, .refl s⟩, fun h h' hs => ?_, fun unit _ {s s' _} hwrite hs => ?_⟩
    · obtain ⟨hs', hkeeps⟩ := h hs
      obtain ⟨hs'', hkeeps'⟩ := h' hs'
      exact ⟨hs'', hkeeps.trans hkeeps'⟩
    · have hkeeps : s.Keeps ((writeAll (some g.writer) (g.output unit).documents).effect s).2 :=
        hs.keeps_mapM hkeep (g.output unit).documents
      rw [hwrite] at hkeeps
      exact ⟨hs.grows hkeeps.grows, hkeeps⟩
  obtain ⟨hready', hkeeps⟩ := h.respects hR hready
  refine ⟨hready', hkeeps, h.withoutWrites_eq hR fun path _ s unit hs hs' hunit => ?_⟩
  exact Tree.unit?_of_unitAt ((hs' (hs hready).1).2.unitAt hunit)

/-- A run that does not overwrite reads the files up to its first unit from the tree that it starts on and the others as
they are when it is over. -/
theorem Course.of_opens (hkeep : g.options.overwriteFiles = false)
    (h : g.Course (some g.writer) t paths reports t') (hopens : t.Opens paths before unit after) :
    g.writer.Ready t' ∧ g.writer.Rereads (g.output unit).interface t t' ∧
      (RunResult.ofReports reports).withoutWrites =
        g.previewAll t.unit? (before ++ [unit.path]) ++ g.previewAll t'.unit? after := by
  obtain ⟨outcomes, t₁, rest, hwrite, hrest, hresult⟩ := h.split hopens
  obtain ⟨text, -, hparse⟩ := Tree.unitAt_eq_ok_iff.1 hopens.unitAt_eq
  have hrelative := SourceUnit.isRelative_of_mem_documents (SourceUnit.isIdentifier_of_parse? hparse)
    (d := (g.output unit).interface) List.mem_cons_self
  obtain ⟨hready, hrereads⟩ := Writer.rereads_mapM hkeep hrelative hwrite
  obtain ⟨hready', hkeeps, hlater⟩ := hrest.of_ready hkeep hready
  exact ⟨hready', hrereads.keeps hkeeps, by rw [hresult, hlater]⟩

/-- A run that does not overwrite yields the preview of the tree that it starts on exactly if the files after its first
unit are spared. -/
theorem Course.eq_preview_before_iff (hkeep : g.options.overwriteFiles = false)
    (h : g.Course (some g.writer) t paths reports t') (hopens : t.Opens paths before unit after)
    (hread : ∀ path ∈ after, ∃ u, t.unitAt path = .ok u) :
    (RunResult.ofReports reports).withoutWrites = g.previewAll t.unit? paths ↔ g.Spares t unit after := by
  obtain ⟨-, hrereads, hsplit⟩ := h.of_opens hkeep hopens
  rw [← previewAll_eq_iff_spares hrereads hread, hsplit, hopens.eq_append,
    g.previewAll_append t.unit? (before ++ [unit.path]), RunResult.append_right_inj]

/-- It yields the preview of the tree that it leaves exactly if the files up to its first unit are spared. -/
theorem Course.eq_preview_after_iff (hkeep : g.options.overwriteFiles = false)
    (h : g.Course (some g.writer) t paths reports t') (hopens : t.Opens paths before unit after) :
    (RunResult.ofReports reports).withoutWrites = g.previewAll t'.unit? paths ↔
      g.Spares t unit (before ++ [unit.path]) := by
  obtain ⟨-, hrereads, hsplit⟩ := h.of_opens hkeep hopens
  rw [← previewAll_eq_iff_spares hrereads hopens.exists_unitAt, hsplit, hopens.eq_append,
    g.previewAll_append t'.unit? (before ++ [unit.path]), RunResult.append_left_inj, eq_comm]

end Generator

end GetSet
