import GetSet.Proofs.Run.Course
import GetSet.Proofs.Source.Reading
import GetSet.Proofs.Writer.Deliveries

/-!
# What a run has done when it ends

A run that writes turns to its documents in order. If it succeeds it has turned to all of them, and if it fails to the
first of them, with no more than directories made for another one. It has reported what it wrote and what it left
alone (`writes_run`).
-/

namespace GetSet.Generator

variable {w : Writer}

/-! ## One file -/

/-- The documents of the unit that a file declares, if there is one to be read. -/
def documentsAt (g : Generator) (t : Tree) (path : Path) : List Document :=
  match t.unitAt path with
  | .ok (some unit) => (g.output unit).documents
  | _ => []

theorem writes_load (verbose : Bool) (path : Path) (t : Tree) : w.Writes [] (SourceUnit.load verbose path) t := by
  refine Writer.writes_of_silent (by rw [SourceUnit.effect_load]) ?_ ?_ <;> rw [SourceUnit.journal_load] <;>
    exact SourceUnit.filterMap_loadEvents _ (fun _ => rfl) (fun _ _ _ => rfl) (fun _ _ => rfl) (fun _ _ _ => rfl) t

theorem writes_proceed (g : Generator) (path : Path) (unit : Option SourceUnit) (t : Tree) :
    w.Writes ((unit.map fun u => (g.output u).documents).getD []) (g.proceed (some w) path unit) t := by
  cases unit with
  | none => exact Writer.writes_of_silent rfl rfl rfl
  | some unit =>
    have hall := additive_writeAll (some w) (g.output unit).documents
    refine (Writer.writes_of_silent rfl ?_ ?_).after_silent (Action.additive_reportAll _)
      (fun _ => hall.bind fun _ => Action.additive_pure _) fun _ => ?_
    · simp [Event.written?]
    · simp [Event.skipped?]
    · exact (w.writes_mapM _ _).before_silent hall (fun _ => Action.additive_pure _) fun _ _ => Writer.writes_pure _ _

theorem writes_process (g : Generator) (path : Path) (t : Tree) :
    w.Writes (g.documentsAt t path) (g.process (some w) path) t := by
  rw [process_eq]
  refine (writes_load g.verbose path t).after_silent (SourceUnit.additive_load g.verbose path)
    (g.additive_proceed (some w) path) fun {unit t'} hload => ?_
  rw [SourceUnit.effect_load] at hload
  obtain ⟨hunit, rfl⟩ := Prod.mk.inj hload
  rw [documentsAt, hunit]
  cases unit with
  | none => exact g.writes_proceed path none t
  | some unit => exact g.writes_proceed path (some unit) t

/-! ## All files -/

/-- The documents of the units that a run over some files turns to are those of the first file and, unless the run ends
there, those of the others. -/
theorem flatMap_sourcesFrom_cons (g : Generator) (writer : Option Writer) (t : Tree) (path : Path)
    (paths : List Path) :
    ((g.sourcesFrom writer t (path :: paths)).flatMap fun unit => (g.output unit).documents) =
      g.documentsAt t path ++
        match (g.process writer path).effect t with
        | (.ok _, t') => (g.sourcesFrom writer t' paths).flatMap fun unit => (g.output unit).documents
        | (.error _, _) => [] := by
  rw [sourcesFrom, documentsAt, effect_process]
  rcases t.unitAt path with fault | _ | unit
  · rfl
  · rfl
  · dsimp only
    rcases (writeAll writer (g.output unit).documents).effect t with ⟨fault | outcomes, t'⟩ <;> rfl

theorem writes_processes (g : Generator) (paths : List Path) (t : Tree) :
    w.Writes ((g.sourcesFrom (some w) t paths).flatMap fun unit => (g.output unit).documents)
      (paths.mapM (g.process (some w))) t := by
  induction paths generalizing t with
  | nil => exact Writer.writes_pure [] t
  | cons path paths ih =>
    have hall := Action.Additive.mapM (g.additive_process (some w)) paths
    rw [List.mapM_cons, flatMap_sourcesFrom_cons]
    refine (g.writes_process path t).bind (g.additive_process (some w) path)
      (fun _ => hall.bind fun _ => Action.additive_pure _) fun {report t'} hreport => ?_
    rw [hreport]
    exact (ih t').before_silent hall (fun _ => Action.additive_pure _) fun _ _ => Writer.writes_pure _ _

/-- A run turns to its documents in order, whether it succeeds or fails, and records what it does with them. -/
theorem writes_run (g : Generator) (w : Writer) (t : Tree) : w.Writes (g.documents (some w) t) (g.run (some w)) t := by
  rw [run_eq, documents, sources]
  split
  · exact Writer.writes_of_silent rfl rfl rfl
  · have hall := Action.Additive.mapM (g.additive_process (some w)) g.classFiles
    refine (Writer.writes_of_silent rfl rfl rfl).after_silent (Action.additive_report _)
      (fun _ => hall.bind additive_summarize) fun {_ t'} hreport => ?_
    obtain ⟨-, rfl⟩ := Prod.mk.inj hreport
    exact (g.writes_processes g.classFiles t).before_silent hall additive_summarize fun _ _ =>
      Writer.writes_of_silent rfl rfl rfl

end GetSet.Generator
