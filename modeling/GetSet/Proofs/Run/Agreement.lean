import GetSet.Proofs.Run.Again
import GetSet.Proofs.Run.Opening

/-!
# Previews and runs that write

A run that does not write leaves the tree as it is and yields what a run that writes yields, except for what that one
counts about writing (`render_agrees_iff`). Such a preview reads all files from the tree that it starts on; a run that
writes reads each one from a tree that holds the documents of the files before it. What it reads is the same if it does
not overwrite or if its documents are kept apart from its files, with the exception of a file that its first document
takes the place of though it does not overwrite.
-/

namespace GetSet

/-! ## Documents that are kept apart from files -/

namespace Writer

variable {w : Writer} {t t' : Tree}

/-- A file that no document is written to is read as before. -/
theorem Confined.unitAt {ds : List Document} (h : w.Confined ds t t') {path : Path} {unit : Option SourceUnit}
    (hunit : t.unitAt path = .ok unit)
    (hapart : ∀ d ∈ ds, ∀ l, t'.LeadsTo (w.targetPath d) l → ¬ t'.LeadsTo path l) : t'.unitAt path = .ok unit := by
  refine Tree.unitAt_of_grows h.grows hunit fun {l content} hleads hl => ?_
  obtain ⟨content', hl'⟩ := h.grows.file hl
  rcases h.file hl' with hold | ⟨d, hd, -, htarget⟩
  · rw [← hl, hold]
    exact hl'
  · exact absurd (hleads.grows h.grows) (hapart d hd l htarget)

end Writer

namespace Generator

variable {g : Generator} {t t' : Tree} {reports : List FileReport}

/-- With the documents of some units a writer changes nothing but their files and the directories for them. -/
theorem respects_confined (g : Generator) (sources : List SourceUnit) :
    g.Respects (some g.writer) (g.writer.Confined (sources.flatMap fun unit => (g.output unit).documents)) sources where
  refl := .refl g.writer _
  trans h h' := (h.trans h').mono (by simp)
  step unit hunit s s' _ hwrite := by
    have hstep := g.writer.confined_mapM (g.output unit).documents s
    rw [show ((g.output unit).documents.mapM g.writer.write).effect s = _ from hwrite] at hstep
    exact hstep.mono fun d hd => List.mem_flatMap.2 ⟨unit, hunit, hd⟩

/-- No document of a run is written where a registered file is. -/
def Apart (g : Generator) (t : Tree) (result : RunResult) : Prop :=
  ∀ d ∈ result.units.flatMap (·.documents), ∀ path ∈ g.classFiles, ∀ l,
    t.LeadsTo (g.writer.targetPath d) l → ¬ t.LeadsTo path l

/-- A run whose documents are kept apart from its files reads all files as they are before it and after it. -/
theorem Course.of_apart (h : g.Course (some g.writer) t g.classFiles reports t')
    (hapart : g.Apart t' (.ofReports reports)) :
    (RunResult.ofReports reports).withoutWrites = g.previewAll t'.unit? g.classFiles ∧
      ∀ path ∈ g.classFiles, ∀ {u}, t.unitAt path = .ok u → t'.unitAt path = .ok u := by
  have hdocuments := h.flatMap_documents
  set ds := (g.sourcesFrom (some g.writer) t g.classFiles).flatMap fun unit => (g.output unit).documents with hds
  have hR := g.respects_confined (g.sourcesFrom (some g.writer) t g.classFiles)
  rw [← hds] at hR
  have hagain : ∀ path ∈ g.classFiles, ∀ {s u}, g.writer.Confined ds s t' → s.unitAt path = .ok u →
      t'.unitAt path = .ok u := by
    intro path hpath s u hconfined hunit
    exact hconfined.unitAt hunit fun d hd l htarget => hapart d (hdocuments ▸ hd) path hpath l htarget
  constructor
  · exact h.withoutWrites_eq hR fun path hpath _ _ _ hs' hunit => Tree.unit?_of_unitAt (hagain path hpath hs' hunit)
  · exact fun path hpath _ hunit => hagain path hpath (h.respects hR) hunit

/-! ## The preview -/

/-- A run that does not write leaves the tree as it is, whether it succeeds or fails. -/
theorem tree_of_render (g : Generator) (t : Tree) : (g.render.effect t).2 = t := by
  have hprocess : ∀ path t, ((g.process none path).effect t).2 = t := by
    intro path t
    rw [effect_process]
    rcases t.unitAt path with fault | _ | unit <;> rfl
  have hall := Action.tree_mapM_of_unchanged (g.oblivious_process none) hprocess g.classFiles t
  rw [render, effect_run]
  split
  · rfl
  · rcases h : (g.classFiles.mapM (g.process none)).effect t with ⟨fault | reports, t'⟩
    · rw [h] at hall
      exact hall
    · rw [h] at hall
      exact hall

theorem finds_render (g : Generator) : g.render.Finds fun t => (g.render.effect t).1 :=
  (g.oblivious_run none).finds fun t => Prod.ext rfl (g.tree_of_render t)

/-- A run that does not write leaves the tree as it is. If it succeeds and a run that writes does too, then it previews
that run: the units and what is counted about files and properties are the same. This holds if no document of the run
that writes is where a registered file is, and for a run that does not overwrite unless the interface of its first unit
took the place of a file that is read later and declares something else. -/
theorem render_agrees_iff (g : Generator) (t : Tree) :
    (g.render.effect t).2 = t ∧
      ∀ preview result t', (g.render.effect t).1 = .ok preview → g.generate.effect t = (.ok result, t') →
        (g.Apart t' result → result.withoutWrites = preview) ∧
        (g.options.overwriteFiles = false →
          (result.withoutWrites = preview ↔
            ∀ before unit after, t.Opens g.classFiles before unit after → g.Spares t unit after)) := by
  refine ⟨g.tree_of_render t, fun preview result t' hrender hgenerate => ?_⟩
  obtain ⟨previews, hprevious, rfl⟩ := course_of_run (Prod.ext hrender rfl : g.render.effect t = (.ok preview, _))
  obtain ⟨-, hpreview, hread⟩ := hprevious.eq_preview
  obtain ⟨reports, hcourse, rfl⟩ := course_of_run hgenerate
  rw [hpreview]
  constructor
  · intro hapart
    obtain ⟨hresult, hagain⟩ := hcourse.of_apart hapart
    rw [hresult]
    refine g.previewAll_congr fun path hpath => ?_
    obtain ⟨unit, hunit⟩ := hread path hpath
    rw [Tree.unit?_of_unitAt hunit, Tree.unit?_of_unitAt (hagain path hpath hunit)]
  · intro hkeep
    have hopening : ∀ {before unit after}, t.Opens g.classFiles before unit after →
        ((RunResult.ofReports reports).withoutWrites = g.previewAll t.unit? g.classFiles ↔ g.Spares t unit after) :=
      fun hopens => hcourse.eq_preview_before_iff hkeep hopens fun path hpath => hread path (hopens.after_subset hpath)
    constructor
    · intro heq before unit after hopens
      exact (hopening hopens).1 heq
    · intro hspares
      rcases hcourse.silent_or_opens with ⟨-, -, hresult⟩ | ⟨before, unit, after, hopens⟩
      · exact hresult
      · exact (hopening hopens).2 (hspares before unit after hopens)

/-- Two classes, the second one in a file with the name of the interface for the first one. There is no directory
`a`. -/
def neighboursTree : Tree :=
  ((Tree.empty.insert ["work"] "Card.php" (.file "<?php\nclass Card\n".toUTF8)).insert ["work"] "b" .directory).insert
    ["b", "work"] "CardInterface.php" (.file "<?php\nclass Other\n".toUTF8)

/-- Generates for the two classes. -/
def forNeighbours (options : Options) : Generator where
  options
  classFiles := [⟨"Card.php"⟩, ⟨"b/CardInterface.php"⟩]

/-- The preview is right if `b` is the output directory, where the interface for the first class is skipped, and also
for a run that overwrites what is in a directory of its own. -/
theorem render_agrees_neighbours :
    (∃ preview result t', ((forNeighbours { outputDir := ⟨"b"⟩ }).render.effect neighboursTree).1 = .ok preview ∧
      (forNeighbours { outputDir := ⟨"b"⟩ }).generate.effect neighboursTree = (.ok result, t') ∧
      result.withoutWrites = preview) ∧
    ∃ preview result t', ((forNeighbours { overwriteFiles := true }).render.effect neighboursTree).1 = .ok preview ∧
      (forNeighbours { overwriteFiles := true }).generate.effect neighboursTree = (.ok result, t') ∧
      (forNeighbours { overwriteFiles := true }).Apart t' result ∧ result.withoutWrites = preview := by
  constructor
  · have hrender : ((forNeighbours { outputDir := ⟨"b"⟩ }).render.effect neighboursTree).1.map (·.units.length) =
        .ok 2 := by decide +kernel
    have hgenerate : ((forNeighbours { outputDir := ⟨"b"⟩ }).generate.effect neighboursTree).1.map
        (·.units.length) = .ok 2 := by decide +kernel
    obtain ⟨preview, _, h, -⟩ := Action.exists_of_map_eq_ok hrender
    obtain ⟨result, t', h', -⟩ := Action.exists_of_map_eq_ok hgenerate
    have hrendered := congrArg Prod.fst h
    refine ⟨preview, result, t', hrendered, h', ?_⟩
    have hready : (forNeighbours { outputDir := ⟨"b"⟩ }).writer.Ready neighboursTree := Or.inr (by decide)
    exact (((render_agrees_iff _ neighboursTree).2 preview result t' hrendered h').2 rfl).2
      fun _ _ _ _ l hreopens => absurd hreopens (hready.not_reopens _ l)
  · have hrender : ((forNeighbours { overwriteFiles := true }).render.effect neighboursTree).1.map (·.units.length) =
        .ok 2 := by decide +kernel
    have hgenerate : ((forNeighbours { overwriteFiles := true }).generate.effect neighboursTree).1.map
        (fun r => (r.units.flatMap (·.documents)).map (forNeighbours { overwriteFiles := true }).writer.targetPath) =
        .ok [⟨"output/CardInterface.php"⟩, ⟨"output/OtherInterface.php"⟩] := by decide +kernel
    obtain ⟨preview, _, h, -⟩ := Action.exists_of_map_eq_ok hrender
    obtain ⟨result, t', h', htargets⟩ := Action.exists_of_map_eq_ok hgenerate
    have hrendered := congrArg Prod.fst h
    have hplaces : ∀ target ∈ [⟨"output/CardInterface.php"⟩, ⟨"output/OtherInterface.php"⟩],
        ∀ path ∈ (forNeighbours { overwriteFiles := true }).classFiles,
          (((forNeighbours { overwriteFiles := true }).generate.effect neighboursTree).2.locate .look target).map
              (·.location) ≠
            (((forNeighbours { overwriteFiles := true }).generate.effect neighboursTree).2.locate .look path).map
              (·.location) := by decide +kernel
    have hapart : (forNeighbours { overwriteFiles := true }).Apart t' result := by
      rintro d hd path hpath l ⟨node, htarget⟩ ⟨node', hleads⟩
      rw [h'] at hplaces
      refine hplaces _ (htargets ▸ List.mem_map_of_mem hd) path hpath ?_
      rw [htarget, hleads]
      rfl
    exact ⟨preview, result, t', hrendered, h', hapart,
      ((render_agrees_iff _ neighboursTree).2 preview result t' hrendered h').1 hapart⟩

/-- The preview is wrong if `b` is reached through the missing directory `a`: the interface for the first class takes
the place of the second class before that is read. -/
theorem not_render_agrees_neighbours :
    ∃ preview result t', ((forNeighbours { outputDir := ⟨"a/../b"⟩ }).render.effect neighboursTree).1 = .ok preview ∧
      (forNeighbours { outputDir := ⟨"a/../b"⟩ }).generate.effect neighboursTree = (.ok result, t') ∧
      (forNeighbours { outputDir := ⟨"a/../b"⟩ }).options.overwriteFiles = false ∧ result.units ≠ preview.units := by
  have hrender : ((forNeighbours { outputDir := ⟨"a/../b"⟩ }).render.effect neighboursTree).1.map (·.units.length) =
      .ok 2 := by decide +kernel
  have hgenerate : ((forNeighbours { outputDir := ⟨"a/../b"⟩ }).generate.effect neighboursTree).1.map
      (·.units.length) = .ok 1 := by decide +kernel
  obtain ⟨preview, _, h, htwo⟩ := Action.exists_of_map_eq_ok hrender
  obtain ⟨result, t', h', hone⟩ := Action.exists_of_map_eq_ok hgenerate
  refine ⟨preview, result, t', congrArg Prod.fst h, h', rfl, fun hunits => ?_⟩
  rw [hunits] at hone
  omega

end Generator

end GetSet
