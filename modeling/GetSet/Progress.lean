import GetSet.Path

/-!
# Progress

Many paths are worked off one after the other, and the first failure ends it. A progress bar accompanies more than ten
paths unless it is hidden; it shows the file that is worked on, counts what was done and says how it ended. How a bar is
drawn is up to the caller, and drawing has no influence on the work.
-/

namespace GetSet

/-- How far the work has come. -/
structure Bar where
  length : Nat
  position : Nat := 0
  /-- The name of the file that is worked on, or how the work ended. -/
  label : String := ""
deriving DecidableEq, Repr

namespace Bar

/-- The bar while a path is worked on. -/
def labelled (bar : Bar) (path : Path) : Bar :=
  { bar with label := (path.fileName?.map Text.ofBytesLossy).getD bar.label }

/-- The bar after a path was worked on. -/
def advanced (bar : Bar) : Bar :=
  { bar with position := bar.position + 1 }

/-- The bar after all paths were worked on. -/
def finished (bar : Bar) : Bar :=
  { bar with position := bar.length, label := "Generation complete" }

/-- The bar after a failure; it stays where it is. -/
def abandoned (bar : Bar) : Bar :=
  { bar with label := "Generation aborted" }

end Bar

/-- Whether progress is shown. -/
structure Progress where
  hidden : Bool := false
deriving DecidableEq, Repr

namespace Progress

/-- The number of paths up to which no bar is shown. -/
def quietLength : Nat := 10

/-- The bar to start with, if one is shown. -/
def bar? (p : Progress) (paths : List Path) : Option Bar :=
  if !p.hidden && quietLength < paths.length then some { length := paths.length } else none

section Tracking

variable {m : Type → Type} [Monad m] {ε α : Type}

/-- Applies an operation to paths in order until it fails. The bar, if there is one, is drawn before and after each
application, also after one that fails, and once more at the end. -/
def trackFrom (draw : Bar → m Unit) (operation : Path → ExceptT ε m α) :
    Option Bar → List Path → ExceptT ε m (List α)
  | bar, [] => do
    ExceptT.lift ((bar.map (·.finished)).forM draw)
    return []
  | bar, path :: paths => do
    let current := bar.map (·.labelled path)
    ExceptT.lift (current.forM draw)
    let result ← ExceptT.lift (operation path).run
    let next := current.map (·.advanced)
    ExceptT.lift (next.forM draw)
    match result with
    | .ok a =>
      let as ← trackFrom draw operation next paths
      return a :: as
    | .error e =>
      ExceptT.lift ((next.map (·.abandoned)).forM draw)
      throw e

/-- Applies an operation to all paths in order, unless it fails. -/
def track (p : Progress) (draw : Bar → m Unit) (operation : Path → ExceptT ε m α) (paths : List Path) :
    ExceptT ε m (List α) :=
  trackFrom draw operation (p.bar? paths) paths

/-- Drawing nothing. -/
def silent (_ : Bar) : m Unit :=
  pure ()

/-- If nothing is drawn, the operation is applied to the paths and nothing else happens. -/
theorem track_silent [LawfulMonad m] (p : Progress) (operation : Path → ExceptT ε m α) (paths : List Path) :
    p.track silent operation paths = paths.mapM operation := by
  have noDrawing : ∀ bar : Option Bar, bar.forM (silent (m := m)) = pure () := by
    intro bar
    cases bar <;> rfl
  have go : ∀ bar, trackFrom silent operation bar paths = paths.mapM operation := by
    induction paths with
    | nil =>
      intro bar
      refine ExceptT.ext ?_
      simp [trackFrom, noDrawing]
    | cons path paths ih =>
      intro bar
      refine ExceptT.ext ?_
      simp only [trackFrom, noDrawing, ih, List.mapM_cons, ExceptT.run_bind, ExceptT.run_lift, bind_map_left,
        pure_bind]
      refine bind_congr fun result => ?_
      cases result with
      | ok a => rfl
      | error e => simp
  exact go _

end Tracking

end Progress

end GetSet
