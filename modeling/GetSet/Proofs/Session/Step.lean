import GetSet.Session
import GetSet.Proofs.Command.Setup
import GetSet.Proofs.Run.Agreement
import GetSet.Proofs.Run.History

/-!
# What a step that fails does to a session

Most steps that fail leave the session as it was. Files that are registered together stay registered up to the first one
that does not exist, and what was written by a generation that fails stays (`allows_of_fails`).
-/

namespace GetSet

/-- An answer tells that a step failed. -/
def Answer.fails : Answer → Bool
  | fault _ | rejected => true
  | _ => false

/-! ## Registering files together -/

namespace Generator

/-- The generator with the first of some files, up to one that does not exist. -/
def withExisting (g : Generator) (paths : List Path) (t : Tree) : Generator :=
  { g with classFiles := g.classFiles ++ paths.takeWhile (t.pathExists ·) }

/-- The fault of registering files of which one does not exist. -/
def missingOf (paths : List Path) (t : Tree) : Option Fault :=
  (paths.find? fun path => !t.pathExists path).map .missingInput

theorem finds_addClasses (g : Generator) (paths : List Path) :
    (g.addClasses paths).Finds fun t => .ok (g.withExisting paths t, missingOf paths t) := by
  intro w
  induction paths generalizing g w with
  | nil => simp [addClasses, withExisting, missingOf]
  | cons path paths ih =>
    have hfirst := (Command.Invocation.finds_addClass g path).observing w
    unfold addClasses
    rw [Action.exec_bind]
    rcases hexec : (observing (g.addClass path) : Action (Except Fault Generator)).exec w with ⟨result, w'⟩
    rw [hexec] at hfirst
    obtain ⟨hresult, htree⟩ := Prod.mk.inj hfirst
    rw [show result = _ from hresult]
    dsimp only
    by_cases h : w.tree.pathExists path = true
    · have hrest := ih { g with classFiles := g.classFiles ++ [path] } w'
      rw [show w'.tree = w.tree from htree] at hrest
      rw [Command.Invocation.registered, if_pos h]
      dsimp only
      rw [hrest]
      simp [withExisting, missingOf, h]
    · rw [Command.Invocation.registered, if_neg h]
      simp [withExisting, missingOf, h, show w'.tree = w.tree from htree]

/-- If one of some files does not exist then the ones before it do. -/
theorem exists_of_missingOf {paths : List Path} {t : Tree} {fault : Fault} (h : missingOf paths t = some fault) :
    ∃ missing after, fault = .missingInput missing ∧ t.pathExists missing = false ∧
      paths = paths.takeWhile (t.pathExists ·) ++ missing :: after := by
  induction paths with
  | nil => exact nomatch h
  | cons path paths ih =>
    rw [missingOf, List.find?_cons] at h
    by_cases hexists : t.pathExists path = true
    · rw [hexists, Bool.not_true] at h
      obtain ⟨missing, after, hfault, hmissing, hpaths⟩ := ih h
      refine ⟨missing, after, hfault, hmissing, ?_⟩
      rw [List.takeWhile_cons_of_pos hexists, List.cons_append, ← hpaths]
    · have hmissing : t.pathExists path = false := by simpa using hexists
      refine ⟨path, paths, ?_, hmissing, ?_⟩
      · simpa [hmissing, eq_comm] using h
      · rw [List.takeWhile_cons_of_neg hexists, List.nil_append]

end Generator

namespace Session

variable {s : Session} {step : Step}

/-! ## The course of a step -/

/-- The session after a step. -/
def follow (s : Session) (step : Step) : Session :=
  (s.next step).2.2

/-- The answer to a step and the session after it, as they come from the effect of what is performed. -/
theorem next_eq (s : Session) (step : Step) :
    ((s.next step).1, s.follow step) =
      match (s.perform step).effect s.tree with
      | (.ok o, t') => (o.answer, ⟨o.generator, o.collector, t'⟩)
      | (.error fault, t') => (.fault fault, { s with tree := t' }) := by
  unfold follow next Action.effect
  rcases (s.perform step).runOn s.tree with ⟨fault | o, w⟩ <;> rfl

theorem answer_of_effect {o : Outcome} {t' : Tree} (h : (s.perform step).effect s.tree = (.ok o, t')) :
    (s.next step).1 = o.answer ∧ s.follow step = ⟨o.generator, o.collector, t'⟩ := by
  have hnext := s.next_eq step
  rw [h] at hnext
  exact Prod.mk.inj hnext

theorem answer_of_fault {fault : Fault} {t' : Tree} (h : (s.perform step).effect s.tree = (.error fault, t')) :
    (s.next step).1 = .fault fault ∧ s.follow step = { s with tree := t' } := by
  have hnext := s.next_eq step
  rw [h] at hnext
  exact Prod.mk.inj hnext

section Performing

variable {α : Type} {a : Action α} {outcome : α → Outcome}

/-- A step that performs an action and answers with what it yields. -/
theorem effect_perform_of_bind (hperform : s.perform step = a >>= fun x => pure (outcome x)) (t : Tree) :
    (s.perform step).effect t = ((a.effect t).1.map outcome, (a.effect t).2) := by
  rw [hperform, Action.effect_bind a fun x => Action.oblivious_pure (outcome x)]
  rcases a.effect t with ⟨fault | x, t'⟩ <;> rfl

/-- If it is only the action that can fail then the step leaves everything but the tree as it was. -/
theorem exists_fault_of_fails (hperform : s.perform step = a >>= fun x => pure (outcome x))
    (houtcome : ∀ x, (outcome x).answer.fails = false) (h : (s.next step).1.fails = true) :
    ∃ fault t', a.effect s.tree = (.error fault, t') ∧ s.follow step = { s with tree := t' } := by
  have heffect := effect_perform_of_bind hperform s.tree
  rcases ha : a.effect s.tree with ⟨fault | x, t'⟩
  · rw [ha] at heffect
    exact ⟨fault, t', rfl, (answer_of_fault heffect).2⟩
  · rw [ha] at heffect
    rw [(answer_of_effect heffect).1, houtcome] at h
    exact nomatch h

/-- A step that only looks leaves the session as it was if it fails. -/
theorem follow_eq_of_fails {found : Tree → Except Fault α} (hfinds : a.Finds found)
    (hperform : s.perform step = a >>= fun x => pure (outcome x)) (houtcome : ∀ x, (outcome x).answer.fails = false)
    (h : (s.next step).1.fails = true) : s.follow step = s := by
  obtain ⟨fault, t', heffect, hfollow⟩ := exists_fault_of_fails hperform houtcome h
  rw [hfinds.effect_eq] at heffect
  obtain ⟨-, rfl⟩ := Prod.mk.inj heffect
  exact hfollow

end Performing

/-! ## Steps that fail -/

/-- What a step that fails with an answer may do to a session. Of files that are registered together those stay
registered that come before the first one that does not exist, which the answer names. A generation that fails has
turned to the first of its documents, in order; what it has written of these is all that has changed, apart from the
output directory and directories above it, which may be new. Nothing but these directories is new if a document
cannot be written. A step that works on the tree alone leaves the rest of the session as it was, and all other steps
leave the session as it was. -/
def Allows (s : Session) (answer : Answer) (s' : Session) : Step → Prop
  | .addClasses paths => ∃ before missing after, paths = before ++ missing :: after ∧
      (∀ path ∈ before, s.tree.pathExists path = true) ∧ s.tree.pathExists missing = false ∧
      answer = .fault (.missingInput missing) ∧
      s' = { s with generator.classFiles := s.generator.classFiles ++ before }
  | .generate => s'.generator = s.generator ∧ s'.collector = s.collector ∧
      ∃ ds written skipped t, ds <+: s.generator.documents (some s.generator.writer) s.tree ∧
        s.generator.writer.Deliveries s.tree ds written skipped t ∧
        (s'.tree = t ∨ s'.tree = (s.generator.writer.prepare t).2) ∧
        s.generator.writer.Confined written s.tree s'.tree
  | .writeDocument writer .. => s'.generator = s.generator ∧ s'.collector = s.collector ∧
      writer.Confined [] s.tree s'.tree
  | .write .. | .makeDirectory .. | .makeLink .. | .remove .. => s'.generator = s.generator ∧ s'.collector = s.collector
  | _ => s' = s

theorem perform_write (s : Session) (path : Path) (content : ByteArray) :
    s.perform (.write path content) = (makeParents path >>= fun _ => Action.changing path (·.write path content)) >>=
      fun _ => pure ⟨s.generator, s.collector, .done⟩ := by
  simp only [perform, bind_assoc]

theorem perform_makeLink (s : Session) (path target : Path) :
    s.perform (.makeLink path target) =
      (makeParents path >>= fun _ => Action.changing path (·.makeLink path target)) >>= fun _ => pure ⟨s.generator, s.collector, .done⟩ := by
  simp only [perform, bind_assoc]

/-- A step that works on the tree alone leaves the rest of the session as it was if it fails. -/
theorem keeps_of_fails {a : Action Unit}
    (hperform : s.perform step = a >>= fun _ => pure ⟨s.generator, s.collector, .done⟩)
    (h : (s.next step).1.fails = true) :
    (s.follow step).generator = s.generator ∧ (s.follow step).collector = s.collector := by
  obtain ⟨_, _, -, hfollow⟩ := exists_fault_of_fails hperform (fun _ => rfl) h
  rw [hfollow]
  exact ⟨rfl, rfl⟩

/-- Registering files together registers those before the first that does not exist, and answers with that one. -/
theorem answer_addClasses (s : Session) (paths : List Path) :
    (s.next (.addClasses paths)).1 = ((Generator.missingOf paths s.tree).map .fault).getD
        (.paths (s.generator.withExisting paths s.tree).classFiles) ∧
      s.follow (.addClasses paths) = { s with generator := s.generator.withExisting paths s.tree } := by
  have hperform : s.perform (.addClasses paths) = s.generator.addClasses paths >>= fun r =>
      pure ⟨r.1, s.collector, (r.2.map .fault).getD (.paths r.1.classFiles)⟩ := by
    refine congrArg (s.generator.addClasses paths >>= ·) (funext fun r => ?_)
    rcases r with ⟨g, _ | fault⟩ <;> rfl
  have heffect := effect_perform_of_bind hperform s.tree
  rw [(s.generator.finds_addClasses paths).effect_eq] at heffect
  exact answer_of_effect heffect

theorem allows_addClasses {paths : List Path} (h : (s.next (.addClasses paths)).1.fails = true) :
    s.Allows (s.next (.addClasses paths)).1 (s.follow (.addClasses paths)) (.addClasses paths) := by
  obtain ⟨hanswer, hfollow⟩ := s.answer_addClasses paths
  cases hmissing : Generator.missingOf paths s.tree with
  | none =>
    rw [hanswer, hmissing] at h
    exact nomatch h
  | some fault =>
    obtain ⟨missing, after, rfl, hnone, hpaths⟩ := Generator.exists_of_missingOf hmissing
    refine ⟨_, missing, after, hpaths, fun path hpath => List.mem_takeWhile_imp hpath, hnone, ?_, hfollow⟩
    rw [hanswer, hmissing]
    rfl

theorem allows_generate (h : (s.next .generate).1.fails = true) :
    s.Allows (s.next .generate).1 (s.follow .generate) .generate := by
  have hperform : s.perform .generate =
      s.generator.generate >>= fun result => pure ⟨s.generator, s.collector, .result result⟩ := rfl
  obtain ⟨fault, t', heffect, hfollow⟩ := exists_fault_of_fails hperform (fun _ => rfl) h
  obtain ⟨ds, written, skipped, t, hds, hrecorded, hleft, -⟩ :=
    (s.generator.writes_run s.generator.writer s.tree).exists_recorded
  rw [show (s.generator.run (some s.generator.writer)).effect s.tree = _ from heffect] at hleft
  rw [hfollow]
  exact ⟨rfl, rfl, ds, written, skipped, t, hds, hrecorded.deliveries, hleft,
    hrecorded.deliveries.confined_of_left hleft⟩

theorem follow_writeDocument_of_none {writer : Writer} {form : Value} (hform : Form.decode? form = none)
    (fileName body : String) : s.follow (.writeDocument writer form fileName body) = s := by
  have heffect : (s.perform (.writeDocument writer form fileName body)).effect s.tree =
      (.ok ⟨s.generator, s.collector, .rejected⟩, s.tree) := by
    simp [perform, hform]
  exact (answer_of_effect heffect).2

theorem perform_writeDocument {writer : Writer} {value : Value} {form : Form} (hform : Form.decode? value = some form)
    (fileName body : String) :
    s.perform (.writeDocument writer value fileName body) = writer.write { form, fileName, body } >>= fun outcome =>
      pure ⟨s.generator, s.collector, .outcome outcome⟩ := by
  simp [perform, hform]

theorem allows_writeDocument {writer : Writer} {form : Value} {fileName body : String}
    (h : (s.next (.writeDocument writer form fileName body)).1.fails = true) :
    s.Allows (s.next (.writeDocument writer form fileName body)).1 (s.follow (.writeDocument writer form fileName body))
      (.writeDocument writer form fileName body) := by
  cases hform : Form.decode? form with
  | none =>
    rw [follow_writeDocument_of_none hform]
    exact ⟨rfl, rfl, .refl writer [] s.tree⟩
  | some form' =>
    obtain ⟨fault, t', heffect, hfollow⟩ :=
      exists_fault_of_fails (perform_writeDocument hform fileName body) (fun _ => rfl) h
    rw [Writer.effect_write] at heffect
    obtain ⟨-, -, rfl⟩ := Writer.deliver_error heffect
    rw [hfollow]
    exact ⟨rfl, rfl, writer.confined_prepare [] s.tree⟩

/-- A step that is to start with a new generator does so, or fails because the options are not what they should be. -/
theorem cases_newGenerator (s : Session) (options : Option Value) :
    ((s.next (.newGenerator options)).1 = .rejected ∧ s.follow (.newGenerator options) = s) ∨
      ∃ given, (s.next (.newGenerator options)).1 = .options given ∧
        s.follow (.newGenerator options) = { s with generator := { options := given } } := by
  rcases options with _ | value
  · exact Or.inr ⟨{}, rfl, rfl⟩
  · rcases hoptions : Options.decode? value with _ | given
    · have heffect : (s.perform (.newGenerator (some value))).effect s.tree =
          (.ok ⟨s.generator, s.collector, .rejected⟩, s.tree) := by
        simp [perform, hoptions]
      exact Or.inl (answer_of_effect heffect)
    · have heffect : (s.perform (.newGenerator (some value))).effect s.tree =
          (.ok ⟨{ options := given }, s.collector, .options given⟩, s.tree) := by
        simp [perform, hoptions]
      exact Or.inr ⟨given, answer_of_effect heffect⟩

/-- A step that fails does no more to a session than it may. -/
theorem allows_of_fails (h : (s.next step).1.fails = true) : s.Allows (s.next step).1 (s.follow step) step := by
  cases step with
  | addClasses paths => exact allows_addClasses h
  | generate => exact allows_generate h
  | writeDocument writer form fileName body => exact allows_writeDocument h
  | newGenerator options =>
    rcases s.cases_newGenerator options with ⟨-, hfollow⟩ | ⟨given, hanswer, -⟩
    · exact hfollow
    · rw [hanswer] at h
      exact nomatch h
  -- steps that only look
  | loadTemplates dir withClasses =>
    exact follow_eq_of_fails (TemplateSet.finds_load dir withClasses) rfl (fun _ => rfl) h
  | loadOptions path => exact follow_eq_of_fails (Options.finds_load path) rfl (fun _ => rfl) h
  | addClass path =>
    exact follow_eq_of_fails (Command.Invocation.finds_addClass s.generator path) rfl (fun _ => rfl) h
  | parseFile path verbose => exact follow_eq_of_fails (SourceUnit.finds_load verbose path) rfl (fun _ => rfl) h
  | render => exact follow_eq_of_fails s.generator.finds_render rfl (fun _ => rfl) h
  | collect dir => exact follow_eq_of_fails (s.collector.finds_collect dir) rfl (fun _ => rfl) h
  | expand inputs => exact follow_eq_of_fails (s.collector.finds_expand inputs) rfl (fun _ => rfl) h
  -- steps that work on the tree alone
  | write path content => exact keeps_of_fails (s.perform_write path content) h
  | makeLink path target => exact keeps_of_fails (s.perform_makeLink path target) h
  | makeDirectory path => exact keeps_of_fails (a := Action.makeDirectories path) rfl h
  | remove path => exact keeps_of_fails (a := Action.changing path (·.remove path)) rfl h
  -- steps that do not fail
  | list | configure | classFiles | newCollector | addExtension | command => exact nomatch (h : false = true)

end Session

end GetSet
