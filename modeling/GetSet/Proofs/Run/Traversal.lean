import GetSet.Progress

/-!
# Traversals that stop at the first failure

An operation with a state of its own is applied to paths in order. `Traverses` says which calls that makes, what it
answers and which state it leaves: either all calls succeed, or the first one that fails is the last one. Tracking is
this traversal, whether a bar is drawn or not (`track_exact`).

To see the calls, the operation is run with a list of them and with a screen beside its state. The operation does not
look at the screen, and drawing changes nothing else.
-/

namespace GetSet.Progress

variable {ε α β σ δ δ' : Type}

/-! ## Traversals -/

/-- The operation succeeds on the paths one after the other: it gives these values and leads to this state. -/
inductive Succeeds (operation : Path → ExceptT ε (StateM σ) α) : σ → List Path → List α → σ → Prop
  | nil (s : σ) : Succeeds operation s [] [] s
  | cons {s s₁ s₂ : σ} {path : Path} {paths : List Path} {a : α} {as : List α}
      (hcall : (operation path).run.run s = (.ok a, s₁)) (hrest : Succeeds operation s₁ paths as s₂) :
      Succeeds operation s (path :: paths) (a :: as) s₂

/-- What a traversal answers, the paths that it calls the operation with, and the state that these calls lead to. -/
inductive Traverses (operation : Path → ExceptT ε (StateM σ) α) (s : σ) (paths : List Path) :
    Except ε (List α) → List Path → σ → Prop
  /-- No call fails. -/
  | completed {as : List α} {s' : σ} (hall : Succeeds operation s paths as s') :
      Traverses operation s paths (.ok as) paths s'
  /-- One call fails, and it is the last one. -/
  | stopped {before after : List Path} {path : Path} {as : List α} {e : ε} {s₁ s' : σ}
      (hpaths : paths = before ++ path :: after) (hbefore : Succeeds operation s before as s₁)
      (hcall : (operation path).run.run s₁ = (.error e, s')) :
      Traverses operation s paths (.error e) (before ++ [path]) s'

section Traverses

variable {operation : Path → ExceptT ε (StateM σ) α} {s s₁ s' : σ} {path : Path} {paths calls : List Path}
  {result : Except ε (List α)}

theorem traverses_nil_iff : Traverses operation s [] result calls s' ↔ result = .ok [] ∧ calls = [] ∧ s' = s := by
  constructor
  · intro h
    cases h with
    | completed hall =>
      cases hall
      exact ⟨rfl, rfl, rfl⟩
    | stopped hpaths => simp at hpaths
  · rintro ⟨rfl, rfl, rfl⟩
    exact .completed (.nil s')

/-- If the first call succeeds, the others follow. -/
theorem traverses_cons_iff_of_ok {a : α} (hcall : (operation path).run.run s = (.ok a, s₁)) :
    Traverses operation s (path :: paths) result calls s' ↔
      ∃ rest calls', Traverses operation s₁ paths rest calls' s' ∧ result = rest.map (a :: ·) ∧
        calls = path :: calls' := by
  constructor
  · intro h
    cases h with
    | completed hall =>
      cases hall with
      | cons hfirst hrest =>
        rw [hcall] at hfirst
        cases hfirst
        exact ⟨_, _, .completed hrest, rfl, rfl⟩
    | @stopped before after last _ e _ _ hpaths hbefore hlast =>
      cases hbefore with
      | nil =>
        obtain ⟨rfl, rfl⟩ := List.cons.inj hpaths
        rw [hcall] at hlast
        cases hlast
      | cons hfirst hrest =>
        obtain ⟨rfl, htail⟩ := List.cons.inj hpaths
        rw [hcall] at hfirst
        cases hfirst
        exact ⟨_, _, .stopped htail hrest hlast, rfl, rfl⟩
  · rintro ⟨rest, calls', h, rfl, rfl⟩
    cases h with
    | completed hall => exact .completed (.cons hcall hall)
    | stopped hpaths hbefore hlast =>
      exact .stopped (by rw [hpaths, List.cons_append]) (.cons hcall hbefore) hlast

/-- If the first call fails, it is the only one. -/
theorem traverses_cons_iff_of_error {e : ε} (hcall : (operation path).run.run s = (.error e, s₁)) :
    Traverses operation s (path :: paths) result calls s' ↔ result = .error e ∧ calls = [path] ∧ s' = s₁ := by
  constructor
  · intro h
    cases h with
    | completed hall =>
      cases hall with
      | cons hfirst _ =>
        rw [hcall] at hfirst
        cases hfirst
    | stopped hpaths hbefore hlast =>
      cases hbefore with
      | nil =>
        obtain ⟨rfl, rfl⟩ := List.cons.inj hpaths
        rw [hcall] at hlast
        cases hlast
        exact ⟨rfl, rfl, rfl⟩
      | cons hfirst _ =>
        obtain ⟨rfl, -⟩ := List.cons.inj hpaths
        rw [hcall] at hfirst
        cases hfirst
  · rintro ⟨rfl, rfl, rfl⟩
    have hpaths : path :: paths = [] ++ path :: paths := rfl
    exact .stopped hpaths (.nil s) hcall

/-- There is one traversal only. -/
theorem Traverses.unique {result' : Except ε (List α)} {calls' : List Path} {s'' : σ}
    (h : Traverses operation s paths result calls s') (h' : Traverses operation s paths result' calls' s'') :
    result = result' ∧ calls = calls' ∧ s' = s'' := by
  induction paths generalizing s result calls result' calls' with
  | nil =>
    obtain ⟨rfl, rfl, rfl⟩ := traverses_nil_iff.1 h
    obtain ⟨rfl, rfl, rfl⟩ := traverses_nil_iff.1 h'
    exact ⟨rfl, rfl, rfl⟩
  | cons path paths ih =>
    rcases hcall : (operation path).run.run s with ⟨e | a, s₁⟩
    · obtain ⟨rfl, rfl, rfl⟩ := (traverses_cons_iff_of_error hcall).1 h
      obtain ⟨rfl, rfl, rfl⟩ := (traverses_cons_iff_of_error hcall).1 h'
      exact ⟨rfl, rfl, rfl⟩
    · obtain ⟨rest, calls, hrest, rfl, rfl⟩ := (traverses_cons_iff_of_ok hcall).1 h
      obtain ⟨rest', calls', hrest', rfl, rfl⟩ := (traverses_cons_iff_of_ok hcall).1 h'
      obtain ⟨rfl, rfl, rfl⟩ := ih hrest hrest'
      exact ⟨rfl, rfl, rfl⟩

end Traverses

/-! ## Running one computation after another -/

/-- If a computation succeeds, the next one goes on in the state that it leaves. -/
theorem run_bind_of_ok {action : ExceptT ε (StateM σ) β} {next : β → ExceptT ε (StateM σ) α} {s s₁ : σ} {b : β}
    (h : action.run.run s = (.ok b, s₁)) : (action >>= next).run.run s = (next b).run.run s₁ := by
  rw [ExceptT.run_bind, StateT.run_bind, h]
  rfl

/-- If a computation fails, so does all that follows. -/
theorem run_bind_of_error {action : ExceptT ε (StateM σ) β} {next : β → ExceptT ε (StateM σ) α} {s s₁ : σ} {e : ε}
    (h : action.run.run s = (.error e, s₁)) : (action >>= next).run.run s = (.error e, s₁) := by
  rw [ExceptT.run_bind, StateT.run_bind, h]
  rfl

/-- What is lifted cannot fail, and the computation goes on in the state that it leaves. -/
theorem run_lift_bind (action : StateM σ β) (next : β → ExceptT ε (StateM σ) α) (s : σ) :
    (ExceptT.lift action >>= next).run.run s = (next (action.run s).1).run.run (action.run s).2 := rfl

theorem run_bind_pure (action : ExceptT ε (StateM σ) β) (f : β → α) (s : σ) :
    (action >>= fun b => pure (f b)).run.run s = ((action.run.run s).1.map f, (action.run.run s).2) := by
  rw [bind_pure_comp, ExceptT.run_map, StateT.run_map]
  rfl

/-! ## Watching an operation -/

/-- The state of an operation, the paths that it was called with, the first one in front, and a screen. -/
structure Watched (σ δ : Type) where
  state : σ
  calls : List Path
  screen : δ

namespace Watched

/-- After a call that led to a state. -/
def called (w : Watched σ δ) (path : Path) (s : σ) : Watched σ δ :=
  { w with state := s, calls := w.calls ++ [path] }

/-- After a bar was drawn, if there is one. -/
def drawn (w : Watched σ δ) (draw : Bar → δ → δ) (bar : Option Bar) : Watched σ δ :=
  { w with screen := bar.elim w.screen (draw · w.screen) }

end Watched

/-- The operation, with its calls recorded. -/
def watched (operation : Path → ExceptT ε (StateM σ) α) (path : Path) : ExceptT ε (StateM (Watched σ δ)) α :=
  ExceptT.mk fun w =>
    let (result, s) := (operation path).run.run w.state
    (result, w.called path s)

/-- Drawing on the screen. -/
def onScreen (draw : Bar → δ → δ) (bar : Bar) : StateM (Watched σ δ) Unit :=
  modify fun w => { w with screen := draw bar w.screen }

/-- What is answered, which calls were made and which state they led to, when a watched operation starts in a state. -/
def observe (action : ExceptT ε (StateM (Watched σ δ)) β) (s : σ) (screen : δ) : Except ε β × List Path × σ :=
  let (answer, w) := action.run.run ⟨s, [], screen⟩
  (answer, w.calls, w.state)

/-- What is on the screen then. -/
def screenAfter (action : ExceptT ε (StateM (Watched σ δ)) β) (s : σ) (screen : δ) : δ :=
  (action.run.run ⟨s, [], screen⟩).2.screen

theorem run_forM_onScreen (draw : Bar → δ → δ) (bar : Option Bar) (w : Watched σ δ) :
    StateT.run (bar.forM (onScreen draw)) w = ((), w.drawn draw bar) := by
  cases bar <;> rfl

section Tracking

variable {operation : Path → ExceptT ε (StateM σ) α} {draw : Bar → δ → δ} {bar : Option Bar} {path : Path}
  {paths calls : List Path} {w : Watched σ δ} {s s₁ s' : σ} {screen : δ} {result : Except ε (List α)}

/-! ## One step of tracking -/

theorem run_watched {answer : Except ε α} (hcall : (operation path).run.run w.state = (answer, s₁)) :
    (watched operation path).run.run w = (answer, w.called path s₁) := by
  show (((operation path).run.run w.state).1, w.called path ((operation path).run.run w.state).2) = _
  rw [hcall]

theorem run_trackFrom_nil :
    (trackFrom (onScreen draw) (watched operation) bar []).run.run w =
      (.ok [], w.drawn draw (bar.map (·.finished))) := by
  rw [trackFrom, run_lift_bind, run_forM_onScreen]
  rfl

/-- After a call that succeeds the other paths follow. -/
theorem run_trackFrom_cons_of_ok {a : α} (hcall : (operation path).run.run w.state = (.ok a, s₁)) :
    (trackFrom (onScreen draw) (watched operation) bar (path :: paths)).run.run w =
      let current := bar.map (·.labelled path)
      let next := current.map (·.advanced)
      let rest := (trackFrom (onScreen draw) (watched operation) next paths).run.run
        (((w.drawn draw current).called path s₁).drawn draw next)
      (rest.1.map (a :: ·), rest.2) := by
  have hwatched := run_watched (w := w.drawn draw (bar.map (·.labelled path))) hcall
  rw [trackFrom, run_lift_bind, run_forM_onScreen, run_lift_bind, hwatched]
  dsimp only
  rw [run_lift_bind, run_forM_onScreen]
  dsimp only
  rw [run_bind_pure]

/-- A call that fails is the last one. -/
theorem run_trackFrom_cons_of_error {e : ε} (hcall : (operation path).run.run w.state = (.error e, s₁)) :
    (trackFrom (onScreen draw) (watched operation) bar (path :: paths)).run.run w =
      let current := bar.map (·.labelled path)
      let next := current.map (·.advanced)
      (.error e, (((w.drawn draw current).called path s₁).drawn draw next).drawn draw (next.map (·.abandoned))) := by
  have hwatched := run_watched (w := w.drawn draw (bar.map (·.labelled path))) hcall
  rw [trackFrom, run_lift_bind, run_forM_onScreen, run_lift_bind, hwatched]
  dsimp only
  rw [run_lift_bind, run_forM_onScreen]
  dsimp only
  rw [run_lift_bind, run_forM_onScreen]
  rfl

/-! ## The course of tracking -/

/-- Tracking makes the calls of a traversal, whatever is drawn. -/
theorem traverses_trackFrom (operation : Path → ExceptT ε (StateM σ) α) (draw : Bar → δ → δ) (bar : Option Bar)
    (paths : List Path) (w : Watched σ δ) :
    let after := (trackFrom (onScreen draw) (watched operation) bar paths).run.run w
    ∃ calls, after.2.calls = w.calls ++ calls ∧ Traverses operation w.state paths after.1 calls after.2.state := by
  -- the calls that were recorded before stay in front, and the bar may be any one
  induction paths generalizing bar w with
  | nil =>
    rw [run_trackFrom_nil]
    exact ⟨[], (List.append_nil _).symm, traverses_nil_iff.2 ⟨rfl, rfl, rfl⟩⟩
  | cons path paths ih =>
    rcases hcall : (operation path).run.run w.state with ⟨e | a, s₁⟩
    · rw [run_trackFrom_cons_of_error hcall]
      exact ⟨[path], rfl, (traverses_cons_iff_of_error hcall).2 ⟨rfl, rfl, rfl⟩⟩
    · rw [run_trackFrom_cons_of_ok hcall]
      obtain ⟨calls, hcalls, hrest⟩ := ih ((bar.map (·.labelled path)).map (·.advanced)) _
      exact ⟨path :: calls, hcalls.trans (List.append_assoc _ _ _),
        (traverses_cons_iff_of_ok hcall).2 ⟨_, calls, hrest, rfl, rfl⟩⟩

theorem traverses_observe (operation : Path → ExceptT ε (StateM σ) α) (draw : Bar → δ → δ) (bar : Option Bar)
    (paths : List Path) (s : σ) (screen : δ) :
    let seen := observe (trackFrom (onScreen draw) (watched operation) bar paths) s screen
    Traverses operation s paths seen.1 seen.2.1 seen.2.2 := by
  obtain ⟨calls, hcalls, htraverses⟩ := traverses_trackFrom operation draw bar paths ⟨s, [], screen⟩
  rw [List.nil_append] at hcalls
  rwa [← hcalls] at htraverses

theorem observe_trackFrom_iff :
    observe (trackFrom (onScreen draw) (watched operation) bar paths) s screen = (result, calls, s') ↔
      Traverses operation s paths result calls s' := by
  have hseen := traverses_observe operation draw bar paths s screen
  constructor
  · intro h
    rwa [h] at hseen
  · intro h
    obtain ⟨hresult, hcalls, hstate⟩ := hseen.unique h
    exact Prod.ext hresult (Prod.ext hcalls hstate)

/-- The operation answers the same and leads to the same state when it is not watched. -/
theorem exists_traverses_mapM (operation : Path → ExceptT ε (StateM σ) α) (paths : List Path) (s : σ) :
    let after := (paths.mapM operation).run.run s
    ∃ calls, Traverses operation s paths after.1 calls after.2 := by
  induction paths generalizing s with
  | nil => exact ⟨[], traverses_nil_iff.2 ⟨rfl, rfl, rfl⟩⟩
  | cons path paths ih =>
    rw [List.mapM_cons]
    rcases hcall : (operation path).run.run s with ⟨e | a, s₁⟩
    · rw [run_bind_of_error hcall]
      exact ⟨[path], (traverses_cons_iff_of_error hcall).2 ⟨rfl, rfl, rfl⟩⟩
    · rw [run_bind_of_ok hcall, run_bind_pure]
      obtain ⟨calls, hrest⟩ := ih s₁
      exact ⟨path :: calls, (traverses_cons_iff_of_ok hcall).2 ⟨_, calls, hrest, rfl, rfl⟩⟩

/-- Tracking is exactly a traversal that stops at the first failure. The operation is called with the paths in order,
once each: with all of them if it never fails, and up to the path that it fails on otherwise. The values in order, or
that failure, are the answer, and the state is that of these calls. All this is the same with any bar and with none, and
so it depends neither on the bar being hidden nor on the number of paths. The operation by itself, with nothing drawn,
answers the same and leads to the same state. -/
theorem track_exact (operation : Path → ExceptT ε (StateM σ) α) (paths : List Path) (s : σ) :
    (∀ (p : Progress) (draw : Bar → δ → δ) (screen : δ) (result : Except ε (List α)) (calls : List Path) (s' : σ),
      observe (p.track (onScreen draw) (watched operation) paths) s screen = (result, calls, s') ↔
        Traverses operation s paths result calls s') ∧
      (∀ (p : Progress) (bar : Option Bar) (draw : Bar → δ → δ) (draw' : Bar → δ' → δ') (screen : δ) (screen' : δ'),
        observe (p.track (onScreen draw) (watched operation) paths) s screen =
          observe (trackFrom (onScreen draw') (watched operation) bar paths) s screen') ∧
      ∀ (p : Progress) (result : Except ε (List α)) (s' : σ),
        (p.track silent operation paths).run.run s = (result, s') ↔
          ∃ calls, Traverses operation s paths result calls s' := by
  refine ⟨fun p draw screen result calls s' => observe_trackFrom_iff,
    fun p bar draw draw' screen screen' => observe_trackFrom_iff.2 (observe_trackFrom_iff.1 rfl),
    fun p result s' => ?_⟩
  rw [track_silent]
  obtain ⟨calls, hmapM⟩ := exists_traverses_mapM operation paths s
  constructor
  · intro h
    rw [h] at hmapM
    exact ⟨calls, hmapM⟩
  · rintro ⟨calls', h⟩
    obtain ⟨hresult, -, hstate⟩ := hmapM.unique h
    exact Prod.ext hresult hstate

/-! ## The bar -/

theorem bar?_eq_none (p : Progress) (h : p.hidden = true ∨ paths.length ≤ quietLength) : p.bar? paths = none := by
  unfold bar?
  rw [if_neg]
  rw [Bool.and_eq_true, decide_eq_true_eq, Bool.not_eq_true']
  rintro ⟨hshown, hlong⟩
  rcases h with hhidden | hshort
  · exact nomatch hhidden.symm.trans hshown
  · exact Nat.not_lt.2 hshort hlong

theorem bar?_eq_some (p : Progress) (hshown : p.hidden = false) (hlong : quietLength < paths.length) :
    p.bar? paths = some { length := paths.length } := by
  unfold bar?
  rw [if_pos (by rw [hshown]; exact decide_eq_true hlong)]

theorem screen_trackFrom_none (operation : Path → ExceptT ε (StateM σ) α) (draw : Bar → δ → δ) (paths : List Path)
    (w : Watched σ δ) : ((trackFrom (onScreen draw) (watched operation) none paths).run.run w).2.screen = w.screen := by
  induction paths generalizing w with
  | nil =>
    rw [run_trackFrom_nil]
    rfl
  | cons path paths ih =>
    rcases hcall : (operation path).run.run w.state with ⟨e | a, s₁⟩
    · rw [run_trackFrom_cons_of_error hcall]
      rfl
    · rw [run_trackFrom_cons_of_ok hcall]
      exact ih _

/-- How a bar ends: at its end after all calls, and as many steps on as there were calls otherwise. -/
def lastBar (bar : Bar) (calls : Nat) : Except ε β → Bar
  | .ok _ => bar.finished
  | .error _ => { bar with position := bar.position + calls }.abandoned

theorem screen_trackFrom_some {bar : Bar} {w : Watched σ (Option Bar)}
    (h : Traverses operation w.state paths result calls s') :
    ((trackFrom (onScreen fun bar _ => some bar) (watched operation) (some bar) paths).run.run w).2.screen =
      some (lastBar bar calls.length result) := by
  induction paths generalizing bar w result calls with
  | nil =>
    obtain ⟨rfl, -, -⟩ := traverses_nil_iff.1 h
    rw [run_trackFrom_nil]
    rfl
  | cons path paths ih =>
    rcases hcall : (operation path).run.run w.state with ⟨e | a, s₁⟩
    · obtain ⟨rfl, rfl, -⟩ := (traverses_cons_iff_of_error hcall).1 h
      rw [run_trackFrom_cons_of_error hcall]
      rfl
    · obtain ⟨rest, calls, hrest, rfl, rfl⟩ := (traverses_cons_iff_of_ok hcall).1 h
      rw [run_trackFrom_cons_of_ok hcall]
      refine (ih hrest).trans ?_
      cases rest with
      | ok as => rfl
      | error e =>
        have hcount : bar.position + 1 + calls.length = bar.position + (calls.length + 1) := by omega
        simp only [lastBar, Except.map, Bar.advanced, Bar.labelled, Bar.abandoned, hcount, List.length_cons]

/-- Up to ten paths no bar is drawn, and none at all if it is hidden. -/
theorem screenAfter_track_of_quiet (p : Progress) (operation : Path → ExceptT ε (StateM σ) α) (draw : Bar → δ → δ)
    (s : σ) (screen : δ) (h : p.hidden = true ∨ paths.length ≤ quietLength) :
    screenAfter (p.track (onScreen draw) (watched operation) paths) s screen = screen := by
  unfold track
  rw [p.bar?_eq_none h]
  exact screen_trackFrom_none operation draw paths _

/-- In the end a bar counts the calls, also one that failed, and says whether all succeeded. -/
theorem screenAfter_track_of_shown (p : Progress) (hshown : p.hidden = false) (hlong : quietLength < paths.length)
    (h : Traverses operation s paths result calls s') :
    screenAfter (p.track (onScreen fun bar _ => some bar) (watched operation) paths) s none =
      some {
        length := paths.length
        position := calls.length
        label := if result.isOk then "Generation complete" else "Generation aborted" } := by
  unfold track
  rw [p.bar?_eq_some hshown hlong]
  refine (screen_trackFrom_some (w := ⟨s, [], none⟩) h).trans ?_
  cases h with
  | completed => rfl
  | stopped =>
    rw [lastBar, Nat.zero_add]
    rfl

end Tracking

end GetSet.Progress
