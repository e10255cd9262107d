import GetSet.Fault
import GetSet.Journal
import GetSet.Tree.Access

/-!
# Actions

An action works on a directory tree, reports events and may fail. What it did to the tree and what it reported before
a fault stays.
-/

namespace GetSet

/-- What an action works on. -/
structure Workspace where
  tree : Tree
  /-- What was reported, oldest first. -/
  journal : List Event := []

/-- A computation on a workspace that may fail. -/
abbrev Action := ExceptT Fault (StateM Workspace)

namespace Action

/-! ## Performing an action -/

/-- Performs an action on a workspace. -/
def exec {α : Type} (action : Action α) (w : Workspace) : Except Fault α × Workspace :=
  action.run.run w

/-- Performs an action on a tree, with an empty journal. -/
def runOn {α : Type} (action : Action α) (tree : Tree) : Except Fault α × Workspace :=
  action.exec { tree }

@[simp]
theorem exec_pure {α : Type} (a : α) (w : Workspace) : (pure a : Action α).exec w = (.ok a, w) := rfl

@[simp]
theorem exec_throw {α : Type} (fault : Fault) (w : Workspace) :
    (throw fault : Action α).exec w = (.error fault, w) := rfl

/-- An action goes on after another one unless that fails. -/
@[simp]
theorem exec_bind {α β : Type} (a : Action α) (f : α → Action β) (w : Workspace) :
    (a >>= f).exec w =
      match a.exec w with
      | (.ok x, w') => (f x).exec w'
      | (.error fault, w') => (.error fault, w') := by
  show (ExceptT.bindCont f (a w).1) (a w).2 = _
  unfold exec ExceptT.run StateT.run
  rcases a w with ⟨_ | _, _⟩ <;> rfl

@[simp]
theorem exec_map {α β : Type} (f : α → β) (a : Action α) (w : Workspace) :
    (f <$> a).exec w = ((a.exec w).1.map f, (a.exec w).2) := by
  show (f <$> a : Action β) w = _
  unfold exec ExceptT.run StateT.run
  simp only [Functor.map, ExceptT.map, ExceptT.mk, StateT.bind, bind]
  rcases a w with ⟨_ | _, _⟩ <;> rfl

/-- A failure becomes an answer, and what was done before it stays. -/
@[simp]
theorem exec_observing {α : Type} (a : Action α) (w : Workspace) :
    (observing a).exec w = (.ok (a.exec w).1, (a.exec w).2) := by
  show (observing a : Action (Except Fault α)) w = _
  unfold exec ExceptT.run StateT.run
  simp only [observing, tryCatch, tryCatchThe, MonadExcept.tryCatch, MonadExceptOf.tryCatch, ExceptT.tryCatch,
    ExceptT.mk, StateT.bind, bind, ExceptT.bind, ExceptT.bindCont]
  rcases a w with ⟨_ | _, _⟩ <;> rfl

/-! ## The elements of actions -/

/-- Reports an event. -/
def report (e : Event) : Action Unit :=
  modify fun w => { w with journal := w.journal ++ [e] }

@[simp]
theorem exec_report (e : Event) (w : Workspace) :
    (report e).exec w = (.ok (), { w with journal := w.journal ++ [e] }) := rfl

/-- Reports some events in order. -/
def reportAll (es : List Event) : Action Unit :=
  modify fun w => { w with journal := w.journal ++ es }

@[simp]
theorem exec_reportAll (es : List Event) (w : Workspace) :
    (reportAll es).exec w = (.ok (), { w with journal := w.journal ++ es }) := rfl

/-- What is found in the tree. -/
def inspect {α : Type} (f : Tree → α) : Action α := do
  return f (← get).tree

@[simp]
theorem exec_inspect {α : Type} (f : Tree → α) (w : Workspace) : (inspect f).exec w = (.ok (f w.tree), w) := rfl

/-- Gets what can fail to be there from the tree, and blames a path if it does. -/
def reading {α : Type} (path : Path) (f : Tree → Except SystemError α) : Action α := do
  match f (← get).tree with
  | .ok a => return a
  | .error e => throw (.access path e)

@[simp]
theorem exec_reading {α : Type} (path : Path) (f : Tree → Except SystemError α) (w : Workspace) :
    (reading path f).exec w = ((f w.tree).mapError (.access path), w) := by
  show exec (match f w.tree with | .ok a => return a | .error e => throw (.access path e)) w = _
  cases f w.tree <;> rfl

/-- Changes the tree, and blames a path if that fails. -/
def changing (path : Path) (f : Tree → Except SystemError Tree) : Action Unit := do
  match f (← get).tree with
  | .ok tree => modify fun w => { w with tree }
  | .error e => throw (.access path e)

@[simp]
theorem exec_changing (path : Path) (f : Tree → Except SystemError Tree) (w : Workspace) :
    (changing path f).exec w =
      match f w.tree with
      | .ok tree => (.ok (), { w with tree })
      | .error e => (.error (.access path e), w) := by
  show exec (match f w.tree with
    | .ok tree => modify fun w => { w with tree }
    | .error e => throw (.access path e)) w = _
  cases f w.tree <;> rfl

/-- Makes a directory with all that are missing above it. -/
def makeDirectories (path : Path) : Action Unit := do
  let (result, tree) := (← get).tree.makeDirectories path
  modify fun w => { w with tree }
  match result with
  | .ok () => return
  | .error e => throw (.access path e)

@[simp]
theorem exec_makeDirectories (path : Path) (w : Workspace) :
    (makeDirectories path).exec w =
      (((w.tree.makeDirectories path).1).mapError (.access path),
        { w with tree := (w.tree.makeDirectories path).2 }) := by
  show exec (match (w.tree.makeDirectories path).1 with
    | .ok () => return
    | .error e => throw (.access path e)) { w with tree := (w.tree.makeDirectories path).2 } = _
  cases (w.tree.makeDirectories path).1 <;> rfl

end Action

end GetSet
