import GetSet.Proofs.Run.Course
import GetSet.Proofs.Stats.Sum

/-!
# Splitting a run

A run over the files of two lists is a run over the first list and then, on the tree that this leaves, one over the
second list: the same tree, the results put together, and the same fault. A run that fails has therefore done all that
the files before the failing one ask for, and nothing for those after it.
-/

namespace GetSet

/-- A run, and another one on the tree that it leaves if it succeeds. -/
def RunResult.chain (first : Except Fault RunResult × Tree) (second : Action RunResult) :
    Except Fault RunResult × Tree :=
  match first with
  | (.ok r, t) =>
    match second.effect t with
    | (.ok r', t') => (.ok (r ++ r'), t')
    | (.error fault, t') => (.error fault, t')
  | (.error fault, t) => (.error fault, t)

namespace Generator

/-- What it means that runs of a generator can be split: after some files a run goes on with the others as if it had
been started for them, and a run that fails does so at one file, after all files before it, or because it lacks
templates, before it changes anything. -/
structure Splits (g : Generator) (run : Generator → Action RunResult) : Prop where
  append : ∀ (ps qs : List Path) (t : Tree),
    (run (g.withFiles (ps ++ qs))).effect t = RunResult.chain ((run (g.withFiles ps)).effect t) (run (g.withFiles qs))
  failure : ∀ (paths : List Path) (t t' : Tree) (fault : Fault),
    (run (g.withFiles paths)).effect t = (.error fault, t') →
      (g.lacksTemplates = true ∧ t' = t) ∨ ∃ before path after result t₁, paths = before ++ path :: after ∧
        (run (g.withFiles before)).effect t = (.ok result, t₁) ∧
          (run (g.withFiles [path])).effect t₁ = (.error fault, t')

theorem effect_run_append (g : Generator) (writer : Option Writer) (ps qs : List Path) (t : Tree) :
    ((g.withFiles (ps ++ qs)).run writer).effect t =
      RunResult.chain (((g.withFiles ps).run writer).effect t) ((g.withFiles qs).run writer) := by
  rw [effect_run_withFiles, effect_run_withFiles]
  by_cases hlacks : g.lacksTemplates = true
  · rw [if_pos hlacks, if_pos hlacks]
    rfl
  · rw [if_neg hlacks, if_neg hlacks, Action.effect_mapM_append (g.oblivious_process writer)]
    rcases (ps.mapM (g.process writer)).effect t with ⟨fault | reports, t'⟩
    · rfl
    · rw [RunResult.chain]
      dsimp only
      rw [effect_run_withFiles, if_neg hlacks]
      rcases (qs.mapM (g.process writer)).effect t' with ⟨fault | reports', t''⟩
      · rfl
      · dsimp only
        rw [RunResult.ofReports_append]

theorem failure_of_run (g : Generator) (writer : Option Writer) {paths : List Path} {t t' : Tree} {fault : Fault}
    (h : ((g.withFiles paths).run writer).effect t = (.error fault, t')) :
    (g.lacksTemplates = true ∧ t' = t) ∨ ∃ before path after result t₁, paths = before ++ path :: after ∧
      ((g.withFiles before).run writer).effect t = (.ok result, t₁) ∧
        ((g.withFiles [path]).run writer).effect t₁ = (.error fault, t') := by
  by_cases hlacks : g.lacksTemplates = true
  · rw [effect_run_withFiles, if_pos hlacks] at h
    exact Or.inl ⟨hlacks, (Prod.mk.inj h).2.symm⟩
  · right
    induction paths generalizing t with
    | nil =>
      rw [effect_run_withFiles, if_neg hlacks] at h
      simp at h
    | cons path paths ih =>
      rw [show path :: paths = [path] ++ paths from rfl, effect_run_append] at h
      rcases hfirst : ((g.withFiles [path]).run writer).effect t with ⟨fault' | result, t₁⟩
      · -- the first file fails, and nothing comes before it
        rw [hfirst] at h
        refine ⟨[], path, paths, .ofReports [], t, rfl, ?_, hfirst.trans h⟩
        rw [effect_run_withFiles, if_neg hlacks]
        rfl
      · have hrest : ((g.withFiles paths).run writer).effect t₁ = (.error fault, t') := by
          rw [hfirst, RunResult.chain] at h
          rcases hqs : ((g.withFiles paths).run writer).effect t₁ with ⟨fault' | result', t₂⟩
          · rw [hqs] at h
            exact h
          · rw [hqs] at h
            simp at h
        obtain ⟨before, path', after, result', t₂, rfl, hbefore, hpath'⟩ := ih hrest
        refine ⟨path :: before, path', after, result ++ result', t₂, rfl, ?_, hpath'⟩
        rw [show path :: before = [path] ++ before from rfl, effect_run_append, hfirst, RunResult.chain,
          hbefore]

/-- Runs of a generator can be split, whether they write or not. -/
theorem splits (g : Generator) : g.Splits generate ∧ g.Splits render := by
  constructor
  · exact ⟨g.effect_run_append (some g.writer), fun _ _ _ _ h => g.failure_of_run (some g.writer) h⟩
  · exact ⟨g.effect_run_append none, fun _ _ _ _ h => g.failure_of_run none h⟩

end Generator

end GetSet
