import GetSet.Proofs.Run.History
import GetSet.Proofs.Stats.Sum

/-!
# What a run reports and what it counts

The statistics of a run that succeeds count what it has reported (`Tells`): the paths of the files that it wrote, that
it left alone and that declare no class, in order, and the tags that it dropped (`tells_run`).
-/

namespace GetSet.Generator

variable {w : Writer}

/-- Events tell what statistics count: the paths of the files that were written, that were left alone and that declare
no class, and the tags that were dropped. -/
structure Tells (events : List Event) (s : Stats) : Prop where
  writtenPaths_eq : s.writtenPaths = events.filterMap (·.written?)
  skippedPaths_eq : s.skippedPaths = events.filterMap (·.skipped?)
  unitsWithoutClassPaths_eq : s.unitsWithoutClassPaths = events.filterMap (·.noClass?)
  propertiesDropped_eq : s.propertiesDropped = events.countP (·.isDropped)

theorem Tells.append {events events' : List Event} {s s' : Stats} (h : Tells events s) (h' : Tells events' s') :
    Tells (events ++ events') (s ++ s') := by
  rw [Stats.append_def]
  constructor
  · rw [List.filterMap_append, ← h.writtenPaths_eq, ← h'.writtenPaths_eq]
  · rw [List.filterMap_append, ← h.skippedPaths_eq, ← h'.skippedPaths_eq]
  · rw [List.filterMap_append, ← h.unitsWithoutClassPaths_eq, ← h'.unitsWithoutClassPaths_eq]
  · rw [List.countP_append, ← h.propertiesDropped_eq, ← h'.propertiesDropped_eq]

/-- What is reported about documents tells their outcomes. -/
theorem tells_outcomes {ds : List Document} {t t' : Tree} {outcomes : List WriteOutcome}
    (h : (ds.mapM w.write).effect t = (.ok outcomes, t')) :
    Tells ((ds.mapM w.write).journal t) (outcomes.foldl Stats.recordWrite {}) := by
  induction ds generalizing t outcomes with
  | nil =>
    obtain rfl := Except.ok.inj (Prod.mk.inj h).1
    exact ⟨rfl, rfl, rfl, rfl⟩
  | cons d ds ih =>
    obtain ⟨outcome, t₁, rest, hfirst, hrest, rfl⟩ := (Action.effect_mapM_cons_eq_ok_iff w.oblivious_write).1 h
    rw [Action.journal_mapM_cons w.additive_write, hfirst, List.foldl_cons,
      ← Stats.append_empty (Stats.recordWrite {} outcome), Stats.append_foldl_recordWrite]
    refine Tells.append ?_ (ih hrest)
    rw [Writer.effect_write] at hfirst
    rw [Writer.journal_write, Writer.notices]
    rcases Writer.deliver_ok_cases hfirst with ⟨hkeep, hexists, rfl, -⟩ | ⟨t₂, hmissing, -, -, rfl⟩
    · rw [if_pos ⟨hkeep, hexists⟩]
      exact ⟨rfl, rfl, rfl, rfl⟩
    · rw [if_neg (by rintro ⟨hkeep, hexists⟩; simp [hmissing hkeep] at hexists), hfirst]
      split <;> exact ⟨rfl, rfl, rfl, rfl⟩

/-- What is reported while a unit is read tells the tags that were dropped. -/
theorem tells_load (verbose : Bool) {path : Path} {t : Tree} {unit : Option SourceUnit}
    (h : t.unitAt path = .ok unit) :
    Tells (SourceUnit.loadEvents verbose path t)
      { propertiesDropped := (unit.map (·.droppedProperties)).getD 0 } where
  writtenPaths_eq :=
    (SourceUnit.filterMap_loadEvents _ (fun _ => rfl) (fun _ _ _ => rfl) (fun _ _ => rfl) (fun _ _ _ => rfl) t).symm
  skippedPaths_eq :=
    (SourceUnit.filterMap_loadEvents _ (fun _ => rfl) (fun _ _ _ => rfl) (fun _ _ => rfl) (fun _ _ _ => rfl) t).symm
  unitsWithoutClassPaths_eq :=
    (SourceUnit.filterMap_loadEvents _ (fun _ => rfl) (fun _ _ _ => rfl) (fun _ _ => rfl) (fun _ _ _ => rfl) t).symm
  propertiesDropped_eq := (SourceUnit.countP_isDropped_loadEvents h).symm

theorem tells_synthesizing (unit : SourceUnit) :
    Tells (unit.properties.map fun p => .synthesizing unit.name p.pascalName) {} := by
  induction unit.properties with
  | nil => exact ⟨rfl, rfl, rfl, rfl⟩
  | cons p ps ih =>
    have hfirst : Tells [.synthesizing unit.name p.pascalName] {} := ⟨rfl, rfl, rfl, rfl⟩
    exact hfirst.append ih

/-- What is reported about a file: what its reading reports, and then that it declares no class, or what is generated
for its properties and what is done with its documents. -/
theorem journal_process (g : Generator) (path : Path) (t : Tree) :
    (g.process (some w) path).journal t =
      SourceUnit.loadEvents g.verbose path t ++
        match t.unitAt path with
        | .error _ => []
        | .ok none => [.noClass path]
        | .ok (some unit) =>
          (unit.properties.map fun p => .synthesizing unit.name p.pascalName) ++
            ((g.output unit).documents.mapM w.write).journal t := by
  rw [process_eq, Action.journal_bind (SourceUnit.additive_load g.verbose path) (g.additive_proceed (some w) path),
    SourceUnit.journal_load, SourceUnit.effect_load]
  rcases t.unitAt path with fault | _ | unit
  · rfl
  · rfl
  · have hall := additive_writeAll (some w) (g.output unit).documents
    dsimp only
    rw [proceed, Action.journal_bind (Action.additive_reportAll _)
      fun _ => hall.bind fun _ => Action.additive_pure _, Action.journal_reportAll, Action.effect_reportAll]
    dsimp only
    rw [Action.journal_bind hall fun _ => Action.additive_pure _]
    congr 2
    rcases (writeAll (some w) (g.output unit).documents).effect t with ⟨fault | outcomes, t'⟩ <;>
      exact List.append_nil _

/-- What is reported about a file tells what is counted for it. -/
theorem tells_process {g : Generator} {path : Path} {t t' : Tree} {report : FileReport}
    (h : (g.process (some w) path).effect t = (.ok report, t')) :
    Tells ((g.process (some w) path).journal t) (Stats.ofReports [report]) := by
  rw [journal_process]
  rcases process_eq_ok_iff.1 h with ⟨hunit, rfl, -⟩ | ⟨unit, outcomes, hunit, hwrite, rfl⟩
  · rw [hunit]
    have hnoClass : Tells [.noClass path] { unitsWithoutClassPaths := [path] } := ⟨rfl, rfl, rfl, rfl⟩
    have htells := (tells_load g.verbose hunit).append hnoClass
    exact ⟨htells.writtenPaths_eq, htells.skippedPaths_eq, htells.unitsWithoutClassPaths_eq,
      htells.propertiesDropped_eq⟩
  · have htells := (tells_load g.verbose hunit).append ((tells_synthesizing unit).append (tells_outcomes hwrite))
    rw [hunit, Stats.ofReports_generated]
    rw [Stats.foldl_recordWrite] at htells
    exact ⟨htells.writtenPaths_eq, htells.skippedPaths_eq, htells.unitsWithoutClassPaths_eq,
      htells.propertiesDropped_eq⟩

theorem tells_processes {g : Generator} {paths : List Path} {t t' : Tree} {reports : List FileReport}
    (h : (paths.mapM (g.process (some w))).effect t = (.ok reports, t')) :
    Tells ((paths.mapM (g.process (some w))).journal t) (Stats.ofReports reports) := by
  induction paths generalizing t reports with
  | nil =>
    obtain rfl := Except.ok.inj (Prod.mk.inj h).1
    exact ⟨rfl, rfl, rfl, rfl⟩
  | cons path paths ih =>
    obtain ⟨report, t₁, rest, hfirst, hrest, rfl⟩ :=
      (Action.effect_mapM_cons_eq_ok_iff (g.oblivious_process (some w))).1 h
    rw [Action.journal_mapM_cons (g.additive_process (some w)), hfirst, ← List.singleton_append,
      Stats.ofReports_append]
    exact (tells_process hfirst).append (ih hrest)

/-- What a run that succeeds reports tells what it counts. -/
theorem tells_run {g : Generator} {t t' : Tree} {result : RunResult}
    (h : (g.run (some w)).effect t = (.ok result, t')) : Tells ((g.run (some w)).journal t) result.stats := by
  obtain ⟨hlacks, reports, hreports, rfl⟩ := run_eq_ok_iff.1 h
  have hall := Action.Additive.mapM (g.additive_process (some w)) g.classFiles
  have htells := tells_processes hreports
  rw [run_eq, if_neg (by simp [hlacks]), Action.journal_bind (Action.additive_report _) fun _ =>
    hall.bind additive_summarize, Action.effect_report]
  dsimp only
  rw [Action.journal_bind hall additive_summarize, hreports]
  have hstart : Tells [.generating g.classFiles.length] {} := ⟨rfl, rfl, rfl, rfl⟩
  have hend : Tells [.finished (RunResult.ofReports reports).stats] {} := ⟨rfl, rfl, rfl, rfl⟩
  have hall := hstart.append (htells.append hend)
  rwa [Stats.append_empty, Stats.empty_append] at hall

end GetSet.Generator
