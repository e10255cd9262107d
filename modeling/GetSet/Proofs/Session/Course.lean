import GetSet.Proofs.Session.Step
import Mathlib.Data.List.DropRight
import Mathlib.Data.List.Induction

/-!
# The course of a session

Whatever steps are taken in a session, and whichever of them fail, the registered files are those that were registered
since the last step that started with a new generator, in order (`keeps_on_failure`).
-/

namespace GetSet.Session

variable {s : Session} {step : Step}

/-! ## Registering by steps -/

/-- A step starts with a new generator. -/
def renews (s : Session) : Step → Bool
  | .newGenerator options => !(s.next (.newGenerator options)).1.fails
  | _ => false

/-- The files that a step adds to the registered ones: those that it is given if it succeeds; if it fails, none, or
those of a list that come before the first one that does not exist. -/
def added (s : Session) : Step → List Path
  | .addClass path => if (s.next (.addClass path)).1.fails then [] else [path]
  | .addClasses paths =>
    if (s.next (.addClasses paths)).1.fails then paths.takeWhile (s.tree.pathExists ·) else paths
  | _ => []

/-- A step whose outcomes have the registered files of the session leaves these as they are. -/
theorem classFiles_follow_of_bind {α : Type} {a : Action α} {outcome : α → Outcome}
    (hperform : s.perform step = a >>= fun x => pure (outcome x))
    (houtcome : ∀ x, (outcome x).generator.classFiles = s.generator.classFiles) :
    (s.follow step).generator.classFiles = s.generator.classFiles := by
  have heffect := effect_perform_of_bind hperform s.tree
  rcases ha : a.effect s.tree with ⟨fault | x, t'⟩
  · rw [ha] at heffect
    rw [(answer_of_fault heffect).2]
  · rw [ha] at heffect
    rw [(answer_of_effect heffect).2]
    exact houtcome x

theorem classFiles_follow_addClass (path : Path) :
    (s.follow (.addClass path)).generator.classFiles = s.generator.classFiles ++ s.added (.addClass path) := by
  have hperform : s.perform (.addClass path) =
      s.generator.addClass path >>= fun g => pure ⟨g, s.collector, .paths g.classFiles⟩ := rfl
  have heffect := effect_perform_of_bind hperform s.tree
  rw [(Command.Invocation.finds_addClass s.generator path).effect_eq] at heffect
  rw [added]
  by_cases h : s.tree.pathExists path = true
  · rw [Command.Invocation.registered, if_pos h] at heffect
    obtain ⟨hanswer, hfollow⟩ := answer_of_effect heffect
    rw [hanswer, hfollow]
    rfl
  · rw [Command.Invocation.registered, if_neg h] at heffect
    obtain ⟨hanswer, hfollow⟩ := answer_of_fault heffect
    rw [hanswer, hfollow]
    exact (List.append_nil _).symm

theorem classFiles_follow_addClasses (paths : List Path) :
    (s.follow (.addClasses paths)).generator.classFiles = s.generator.classFiles ++ s.added (.addClasses paths) := by
  obtain ⟨hanswer, hfollow⟩ := s.answer_addClasses paths
  rw [hfollow, added, hanswer]
  cases hmissing : Generator.missingOf paths s.tree with
  | some fault => rfl
  | none =>
    show s.generator.classFiles ++ paths.takeWhile (s.tree.pathExists ·) = s.generator.classFiles ++ paths
    rw [Generator.missingOf, Option.map_eq_none_iff, List.find?_eq_none] at hmissing
    rw [List.takeWhile_eq_self_iff.2 fun path hpath => by simpa using hmissing path hpath]

theorem classFiles_follow_newGenerator (options : Option Value) :
    (s.follow (.newGenerator options)).generator.classFiles =
      if s.renews (.newGenerator options) then [] else s.generator.classFiles := by
  rw [renews]
  rcases s.cases_newGenerator options with ⟨hanswer, hfollow⟩ | ⟨given, hanswer, hfollow⟩
  · rw [hanswer, hfollow]
    rfl
  · rw [hanswer, hfollow]
    rfl

theorem classFiles_follow_of_unchanged (h : (s.follow step).generator.classFiles = s.generator.classFiles)
    (hrenews : s.renews step = false) (hadded : s.added step = []) :
    (s.follow step).generator.classFiles = if s.renews step then [] else s.generator.classFiles ++ s.added step := by
  rw [h, hrenews, hadded, List.append_nil]
  rfl

/-- What becomes of the registered files by a step. -/
theorem classFiles_follow (s : Session) (step : Step) :
    (s.follow step).generator.classFiles =
      if s.renews step then [] else s.generator.classFiles ++ s.added step := by
  cases step with
  | newGenerator options =>
    rw [classFiles_follow_newGenerator, show s.added (.newGenerator options) = [] from rfl, List.append_nil]
  | addClass path => exact classFiles_follow_addClass path
  | addClasses paths => exact classFiles_follow_addClasses paths
  | writeDocument writer form fileName body =>
    refine classFiles_follow_of_unchanged ?_ rfl rfl
    cases hform : Form.decode? form with
    | none => rw [follow_writeDocument_of_none hform]
    | some form' => exact classFiles_follow_of_bind (perform_writeDocument hform fileName body) fun _ => rfl
  | configure change =>
    refine classFiles_follow_of_unchanged ?_ rfl rfl
    cases change <;> rfl
  | write path content =>
    exact classFiles_follow_of_unchanged (classFiles_follow_of_bind (s.perform_write path content) fun _ => rfl) rfl rfl
  | makeLink path target =>
    exact classFiles_follow_of_unchanged (classFiles_follow_of_bind (s.perform_makeLink path target) fun _ => rfl) rfl
      rfl
  | list | classFiles | newCollector | addExtension | command => exact classFiles_follow_of_unchanged rfl rfl rfl
  | _ => exact classFiles_follow_of_unchanged (classFiles_follow_of_bind rfl fun _ => rfl) rfl rfl

/-! ## Steps one after the other -/

/-- The session after some steps. -/
def after (s : Session) (steps : List Step) : Session :=
  steps.foldl follow s

/-- Some steps, each with the session in which it is taken. -/
def stages (s : Session) : List Step → List (Session × Step)
  | [] => []
  | step :: steps => (s, step) :: (s.follow step).stages steps

theorem stages_concat (s : Session) (steps : List Step) (step : Step) :
    s.stages (steps ++ [step]) = s.stages steps ++ [(s.after steps, step)] := by
  induction steps generalizing s with
  | nil => rfl
  | cons first steps ih =>
    rw [List.cons_append, stages, ih]
    rfl

theorem after_concat (s : Session) (steps : List Step) (step : Step) :
    s.after (steps ++ [step]) = (s.after steps).follow step := by
  rw [after, List.foldl_concat, after]

/-- One of some steps starts with a new generator. -/
def isRenewed (s : Session) (steps : List Step) : Bool :=
  (s.stages steps).any fun stage => stage.1.renews stage.2

/-- The steps that come after the last one that starts with a new generator, each with the session in which it is
taken. -/
def sinceRenewal (s : Session) (steps : List Step) : List (Session × Step) :=
  (s.stages steps).rtakeWhile fun stage => !stage.1.renews stage.2

theorem isRenewed_concat (s : Session) (steps : List Step) (step : Step) :
    s.isRenewed (steps ++ [step]) = (s.isRenewed steps || (s.after steps).renews step) := by
  simp [isRenewed, stages_concat]

theorem sinceRenewal_concat (s : Session) (steps : List Step) (step : Step) :
    s.sinceRenewal (steps ++ [step]) =
      if (s.after steps).renews step then [] else s.sinceRenewal steps ++ [(s.after steps, step)] := by
  rw [sinceRenewal, stages_concat, List.rtakeWhile_concat]
  by_cases h : (s.after steps).renews step = true
  · simp [h]
  · simp [h, sinceRenewal]

/-- A step that fails does no more to a session than it may. Whatever steps are taken, the registered files are then
those that were added since the last step that started with a new generator, in order and as often as they were
added. -/
theorem keeps_on_failure (s : Session) :
    (∀ step, (s.next step).1.fails = true → s.Allows (s.next step).1 (s.follow step) step) ∧
      ∀ steps, (s.after steps).generator.classFiles =
        (if s.isRenewed steps then [] else s.generator.classFiles) ++
          (s.sinceRenewal steps).flatMap fun stage => stage.1.added stage.2 := by
  refine ⟨fun step h => allows_of_fails h, fun steps => ?_⟩
  induction steps using List.reverseRecOn with
  | nil => simp [after, isRenewed, sinceRenewal, stages]
  | append_singleton steps step ih =>
    rw [after_concat, classFiles_follow, isRenewed_concat, sinceRenewal_concat]
    by_cases hrenews : (s.after steps).renews step = true
    · simp [hrenews]
    · rw [if_neg hrenews, if_neg hrenews, ih]
      simp [hrenews]

/-- A session in which a file is where the generated files are to be put. -/
def blocked : Session where
  generator := { classFiles := [⟨"Card.php"⟩] }
  tree := (Tree.empty.insert ["work"] "Card.php" (.file "class Card\n".toUTF8)).insert ["work"] "output" (.file .empty)

/-- In `blocked` no file can be generated, and nothing is done to the session; of three files the first one stays
registered if the second one does not exist. -/
theorem keeps_on_failure_blocked :
    (blocked.next .generate).1.fails = true ∧
      (blocked.follow .generate).generator = blocked.generator ∧
      (blocked.next (.addClasses [⟨"Card.php"⟩, ⟨"Coin.php"⟩, ⟨"Card.php"⟩])).1.fails = true ∧
      (blocked.follow (.addClasses [⟨"Card.php"⟩, ⟨"Coin.php"⟩, ⟨"Card.php"⟩])).tree = blocked.tree ∧
      (blocked.after [.addClasses [⟨"Card.php"⟩, ⟨"Coin.php"⟩, ⟨"Card.php"⟩], .generate]).generator.classFiles =
        [⟨"Card.php"⟩, ⟨"Card.php"⟩] := by
  have hgenerate : (blocked.next .generate).1.fails = true := by decide +kernel
  have hadd : (blocked.next (.addClasses [⟨"Card.php"⟩, ⟨"Coin.php"⟩, ⟨"Card.php"⟩])).1.fails = true := by
    decide +kernel
  obtain ⟨hfail, hcourse⟩ := keeps_on_failure blocked
  obtain ⟨hgenerator, -⟩ := hfail _ hgenerate
  obtain ⟨before, missing, after, -, -, -, -, hfollow⟩ := hfail _ hadd
  refine ⟨hgenerate, hgenerator, hadd, by rw [hfollow], ?_⟩
  rw [hcourse]
  decide +kernel

end GetSet.Session
