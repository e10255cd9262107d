import GetSet.Proofs.Action.Effect

/-!
# What actions report

An action that is additive adds to the journal and has no other use for it. What it reports is then fixed by the tree
(`Action.journal`), and actions that follow one another report one after the other (`journal_bind`).
-/

namespace GetSet

namespace Action

/-- What an action reports on a tree. -/
def journal {α : Type} (a : Action α) (t : Tree) : List Event :=
  (a.runOn t).2.journal

/-- An action adds what it reports to the journal, and the journal has no influence on it. -/
def Additive {α : Type} (a : Action α) : Prop :=
  ∀ w : Workspace, a.exec w = ((a.effect w.tree).1, ⟨(a.effect w.tree).2, w.journal ++ a.journal w.tree⟩)

variable {α β : Type}

theorem Additive.oblivious {a : Action α} (h : a.Additive) : a.Oblivious := by
  intro w
  rw [h w]

/-- An action is additive if what it yields, the tree that it leaves and what it reports are known for every
workspace. -/
theorem additive_of_exec {a : Action α} (f : Tree → Except Fault α × Tree) (es : Tree → List Event)
    (h : ∀ w, a.exec w = ((f w.tree).1, ⟨(f w.tree).2, w.journal ++ es w.tree⟩)) : a.Additive := by
  intro w
  have heffect : a.effect w.tree = f w.tree := by rw [effect, runOn, h]
  have hjournal : a.journal w.tree = es w.tree := by rw [journal, runOn, h, List.nil_append]
  rw [h w, heffect, hjournal]

/-! ## The elements of actions -/

@[simp]
theorem journal_pure (x : α) (t : Tree) : (pure x : Action α).journal t = [] := rfl

@[simp]
theorem journal_report (e : Event) (t : Tree) : (report e).journal t = [e] := rfl

@[simp]
theorem journal_reportAll (es : List Event) (t : Tree) : (reportAll es).journal t = es := rfl

theorem additive_pure (x : α) : (pure x : Action α).Additive :=
  additive_of_exec (fun t => (.ok x, t)) (fun _ => []) fun w => by simp

theorem additive_throw (fault : Fault) : (throw fault : Action α).Additive :=
  additive_of_exec (fun t => (.error fault, t)) (fun _ => []) fun w => by simp

theorem additive_report (e : Event) : (report e).Additive :=
  additive_of_exec (fun t => (.ok (), t)) (fun _ => [e]) fun w => by simp

theorem additive_reportAll (es : List Event) : (reportAll es).Additive :=
  additive_of_exec (fun t => (.ok (), t)) (fun _ => es) fun w => by simp

/-! ## Actions one after the other -/

theorem exec_bind_of_additive {a : Action α} {f : α → Action β} (ha : a.Additive) (hf : ∀ x, (f x).Additive)
    (w : Workspace) :
    (a >>= f).exec w =
      match a.effect w.tree with
      | (.ok x, t) => (((f x).effect t).1, ⟨((f x).effect t).2, w.journal ++ (a.journal w.tree ++ (f x).journal t)⟩)
      | (.error fault, t) => (.error fault, ⟨t, w.journal ++ a.journal w.tree⟩) := by
  rw [exec_bind, ha w]
  rcases a.effect w.tree with ⟨fault | x, t⟩
  · rfl
  · dsimp only
    rw [hf x, List.append_assoc]

theorem Additive.bind {a : Action α} {f : α → Action β} (ha : a.Additive) (hf : ∀ x, (f x).Additive) :
    (a >>= f).Additive := by
  refine additive_of_exec
    (fun t => match a.effect t with
      | (.ok x, t') => (f x).effect t'
      | (.error fault, t') => (.error fault, t'))
    (fun t => a.journal t ++ match a.effect t with
      | (.ok x, t') => (f x).journal t'
      | (.error _, _) => []) fun w => ?_
  rw [exec_bind_of_additive ha hf]
  rcases a.effect w.tree with ⟨fault | x, t⟩ <;> simp

/-- What an action goes on with reports after it, on the tree that it leaves. -/
theorem journal_bind {a : Action α} {f : α → Action β} (ha : a.Additive) (hf : ∀ x, (f x).Additive) (t : Tree) :
    (a >>= f).journal t =
      a.journal t ++
        match a.effect t with
        | (.ok x, t') => (f x).journal t'
        | (.error _, _) => [] := by
  rw [journal, runOn, exec_bind_of_additive ha hf]
  dsimp only
  rcases a.effect t with ⟨fault | x, t'⟩ <;> simp

/-- What is reported by two actions is reported by one of them. -/
theorem mem_journal_bind {a : Action α} {f : α → Action β} (ha : a.Additive) (hf : ∀ x, (f x).Additive) {t : Tree}
    {e : Event} (h : e ∈ (a >>= f).journal t) :
    e ∈ a.journal t ∨ ∃ x t', a.effect t = (.ok x, t') ∧ e ∈ (f x).journal t' := by
  rw [journal_bind ha hf, List.mem_append] at h
  refine h.imp_right fun h => ?_
  rcases heffect : a.effect t with ⟨fault | x, t'⟩
  · rw [heffect] at h
    simp at h
  · rw [heffect] at h
    exact ⟨x, t', rfl, h⟩

theorem Additive.ite {c : Prop} [Decidable c] {a b : Action α} (ha : a.Additive) (hb : b.Additive) :
    (if c then a else b).Additive := by
  split
  · exact ha
  · exact hb

theorem Additive.mapM {f : α → Action β} (hf : ∀ x, (f x).Additive) (xs : List α) : (xs.mapM f).Additive := by
  induction xs with
  | nil => exact additive_pure []
  | cons x xs ih =>
    rw [List.mapM_cons]
    exact (hf x).bind fun _ => ih.bind fun _ => additive_pure _

/-- An action for every element of a list reports on the first element and, unless it fails, on the others. -/
theorem journal_mapM_cons {f : α → Action β} (hf : ∀ x, (f x).Additive) (x : α) (xs : List α) (t : Tree) :
    ((x :: xs).mapM f).journal t =
      (f x).journal t ++
        match (f x).effect t with
        | (.ok _, t') => (xs.mapM f).journal t'
        | (.error _, _) => [] := by
  have hxs := Additive.mapM hf xs
  rw [List.mapM_cons, journal_bind (hf x) fun y => hxs.bind fun _ => additive_pure _]
  rcases (f x).effect t with ⟨fault | y, t'⟩
  · rfl
  · dsimp only
    rw [journal_bind hxs fun _ => additive_pure _]
    rcases (xs.mapM f).effect t' with ⟨fault | ys, t''⟩ <;> simp

/-- What is reported for the elements of a list is reported for one of them. -/
theorem mem_journal_mapM {f : α → Action β} (hf : ∀ x, (f x).Additive) {xs : List α} {t : Tree} {e : Event}
    (h : e ∈ (xs.mapM f).journal t) : ∃ x ∈ xs, ∃ t', e ∈ (f x).journal t' := by
  induction xs generalizing t with
  | nil => simp at h
  | cons x xs ih =>
    have hxs := Additive.mapM hf xs
    rw [List.mapM_cons] at h
    rcases mem_journal_bind (hf x) (fun y => hxs.bind fun _ => additive_pure _) h with h | ⟨y, t₁, -, h⟩
    · exact ⟨x, List.mem_cons_self, t, h⟩
    · rcases mem_journal_bind hxs (fun _ => additive_pure _) h with h | ⟨ys, t₂, -, h⟩
      · obtain ⟨x', hx', hrest⟩ := ih h
        exact ⟨x', List.mem_cons_of_mem x hx', hrest⟩
      · simp at h

end Action

end GetSet
