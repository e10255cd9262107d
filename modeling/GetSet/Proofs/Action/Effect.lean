import GetSet.Action

/-!
# Effects

The effect of an action is what it yields on a tree, with the tree that it leaves. An action is oblivious if the journal
has no influence on its effect; all actions of a generation are, because they report to the journal and never look
into it. The effects of actions that follow one another are then put together from their effects on trees
(`effect_bind`).
-/

namespace GetSet

namespace Action

/-- What an action yields on a tree, and the tree that it leaves. -/
def effect {α : Type} (a : Action α) (t : Tree) : Except Fault α × Tree :=
  ((a.runOn t).1, (a.runOn t).2.tree)

/-- The journal has no influence on the effect of an action. -/
def Oblivious {α : Type} (a : Action α) : Prop :=
  ∀ w : Workspace, ((a.exec w).1, (a.exec w).2.tree) = a.effect w.tree

variable {α β : Type}

/-- An action with a known effect on every workspace is oblivious. -/
theorem oblivious_of_exec {a : Action α} (f : Tree → Except Fault α × Tree)
    (h : ∀ w, ((a.exec w).1, (a.exec w).2.tree) = f w.tree) : a.Oblivious :=
  fun w => (h w).trans (h { tree := w.tree }).symm

/-- An action succeeds if something is known of what it yields. -/
theorem exists_of_map_eq_ok {a : Action α} {t : Tree} {f : α → β} {y : β} (h : (a.effect t).1.map f = .ok y) :
    ∃ x t', a.effect t = (.ok x, t') ∧ f x = y := by
  rcases ha : a.effect t with ⟨fault | x, t'⟩
  · rw [ha] at h
    exact nomatch h
  · rw [ha] at h
    exact ⟨x, t', rfl, Except.ok.inj h⟩

/-! ## The elements of actions -/

theorem mapError_ok {ε ε' : Type} (f : ε → ε') (x : α) : (Except.ok x : Except ε α).mapError f = .ok x := rfl

theorem mapError_error {ε ε' : Type} (f : ε → ε') (e : ε) :
    (Except.error e : Except ε α).mapError f = .error (f e) := rfl

@[simp]
theorem effect_pure (x : α) (t : Tree) : (pure x : Action α).effect t = (.ok x, t) := rfl

theorem oblivious_pure (x : α) : (pure x : Action α).Oblivious := fun _ => rfl

@[simp]
theorem effect_report (e : Event) (t : Tree) : (report e).effect t = (.ok (), t) := rfl

@[simp]
theorem effect_reportAll (es : List Event) (t : Tree) : (reportAll es).effect t = (.ok (), t) := rfl

/-! ## Actions that only look -/

/-- An action yields what a function finds in the tree, and leaves the tree as it is. -/
def Finds (a : Action α) (f : Tree → Except Fault α) : Prop :=
  ∀ w : Workspace, ((a.exec w).1, (a.exec w).2.tree) = (f w.tree, w.tree)

theorem Finds.oblivious {a : Action α} {f : Tree → Except Fault α} (h : a.Finds f) : a.Oblivious :=
  oblivious_of_exec (fun t => (f t, t)) h

theorem Finds.effect_eq {a : Action α} {f : Tree → Except Fault α} (h : a.Finds f) (t : Tree) :
    a.effect t = (f t, t) :=
  h { tree := t }

theorem Oblivious.finds {a : Action α} {f : Tree → Except Fault α} (ha : a.Oblivious)
    (h : ∀ t, a.effect t = (f t, t)) : a.Finds f :=
  fun w => (ha w).trans (h w.tree)

theorem finds_pure (x : α) : (pure x : Action α).Finds fun _ => .ok x := fun _ => rfl

theorem finds_report (e : Event) : (report e).Finds fun _ => .ok () := fun _ => rfl

theorem finds_inspect (f : Tree → α) : (inspect f).Finds fun t => .ok (f t) := fun _ => rfl

theorem Finds.bind {a : Action α} {k : α → Action β} {f : Tree → Except Fault α} {g : α → Tree → Except Fault β}
    (ha : a.Finds f) (hk : ∀ x, (k x).Finds (g x)) : (a >>= k).Finds fun t => f t >>= fun x => g x t := by
  intro w
  obtain ⟨hresult, htree⟩ := Prod.mk.inj (ha w)
  rw [exec_bind]
  show _ = (f w.tree >>= fun x => g x w.tree, w.tree)
  rw [← hresult]
  rcases hexec : a.exec w with ⟨fault | x, w'⟩
  · rw [hexec] at htree
    exact congrArg _ htree
  · rw [hexec] at htree
    have hx := hk x w'
    rw [show w'.tree = w.tree from htree] at hx
    exact hx

theorem Finds.ite {c : Prop} [Decidable c] {a b : Action α} {f g : Tree → Except Fault α} (ha : a.Finds f)
    (hb : b.Finds g) : (if c then a else b).Finds fun t => if c then f t else g t := by
  split
  · exact ha
  · exact hb

theorem Finds.observing {a : Action α} {f : Tree → Except Fault α} (ha : a.Finds f) :
    (observing a : Action (Except Fault α)).Finds fun t => .ok (f t) := by
  intro w
  obtain ⟨hresult, htree⟩ := Prod.mk.inj (ha w)
  rw [exec_observing, hresult, htree]

/-- Actions that always find something, one for every element of a list. -/
theorem finds_mapM {f : α → Action β} {found : α → Tree → β} (hf : ∀ x, (f x).Finds fun t => .ok (found x t))
    (xs : List α) : (xs.mapM f).Finds fun t => .ok (xs.map (found · t)) := by
  induction xs with
  | nil => exact finds_pure []
  | cons x xs ih =>
    rw [List.mapM_cons]
    exact (hf x).bind fun _ => ih.bind fun _ => finds_pure _

/-! ## Actions one after the other -/

/-- What an action goes on with starts on the tree that the action leaves. -/
theorem effect_bind (a : Action α) {f : α → Action β} (hf : ∀ x, (f x).Oblivious) (t : Tree) :
    (a >>= f).effect t =
      match a.effect t with
      | (.ok x, t') => (f x).effect t'
      | (.error fault, t') => (.error fault, t') := by
  unfold effect runOn
  rw [exec_bind]
  rcases h : a.exec { tree := t } with ⟨_ | x, w⟩
  · rfl
  · exact hf x w

/-- Actions that follow one another succeed if both do. -/
theorem effect_bind_eq_ok_iff {a : Action α} {f : α → Action β} (hf : ∀ x, (f x).Oblivious) {t t' : Tree} {y : β} :
    (a >>= f).effect t = (.ok y, t') ↔ ∃ x t₁, a.effect t = (.ok x, t₁) ∧ (f x).effect t₁ = (.ok y, t') := by
  rw [effect_bind a hf]
  constructor
  · intro h
    rcases ha : a.effect t with ⟨fault | x, t₁⟩
    · rw [ha] at h
      exact nomatch (Prod.mk.inj h).1
    · rw [ha] at h
      exact ⟨x, t₁, rfl, h⟩
  · rintro ⟨x, t₁, ha, hx⟩
    rw [ha]
    exact hx

theorem Oblivious.bind {a : Action α} {f : α → Action β} (ha : a.Oblivious) (hf : ∀ x, (f x).Oblivious) :
    (a >>= f).Oblivious := by
  intro w
  have hw := ha w
  rw [effect_bind a hf, ← hw, exec_bind]
  rcases a.exec w with ⟨_ | x, w'⟩
  · rfl
  · exact hf x w'

theorem Oblivious.ite {c : Prop} [Decidable c] {a b : Action α} (ha : a.Oblivious) (hb : b.Oblivious) :
    (if c then a else b).Oblivious := by
  split
  · exact ha
  · exact hb

theorem Oblivious.mapM {f : α → Action β} (hf : ∀ x, (f x).Oblivious) (xs : List α) : (xs.mapM f).Oblivious := by
  induction xs with
  | nil => exact oblivious_pure []
  | cons x xs ih =>
    rw [List.mapM_cons]
    exact (hf x).bind fun _ => ih.bind fun _ => oblivious_pure _

/-- An action for every element of a list: the rest starts on the tree that the first one leaves. -/
theorem effect_mapM_cons {f : α → Action β} (hf : ∀ x, (f x).Oblivious) (x : α) (xs : List α) (t : Tree) :
    ((x :: xs).mapM f).effect t =
      match (f x).effect t with
      | (.ok y, t') =>
        match (xs.mapM f).effect t' with
        | (.ok ys, t'') => (.ok (y :: ys), t'')
        | (.error fault, t'') => (.error fault, t'')
      | (.error fault, t') => (.error fault, t') := by
  rw [List.mapM_cons, effect_bind _ fun y => (Oblivious.mapM hf xs).bind fun _ => oblivious_pure _]
  rcases (f x).effect t with ⟨_ | y, t'⟩
  · rfl
  · dsimp only
    rw [effect_bind _ fun ys => oblivious_pure (y :: ys)]
    rcases (xs.mapM f).effect t' with ⟨_ | ys, t''⟩ <;> rfl

theorem effect_mapM_cons_eq_ok_iff {f : α → Action β} (hf : ∀ x, (f x).Oblivious) {x : α} {xs : List α} {t t' : Tree}
    {ys : List β} :
    ((x :: xs).mapM f).effect t = (.ok ys, t') ↔
      ∃ y t₁ rest, (f x).effect t = (.ok y, t₁) ∧ (xs.mapM f).effect t₁ = (.ok rest, t') ∧ ys = y :: rest := by
  have hrest : ∀ y, ((xs.mapM f) >>= fun rest => pure (y :: rest)).Oblivious := fun y =>
    (Oblivious.mapM hf xs).bind fun rest => oblivious_pure (y :: rest)
  rw [List.mapM_cons, effect_bind_eq_ok_iff hrest]
  constructor
  · rintro ⟨y, t₁, hy, hys⟩
    obtain ⟨rest, t₂, hxs, hpure⟩ := (effect_bind_eq_ok_iff fun rest => oblivious_pure (y :: rest)).1 hys
    obtain ⟨hlist, rfl⟩ := Prod.mk.inj hpure
    exact ⟨y, t₁, rest, hy, hxs, (Except.ok.inj hlist).symm⟩
  · rintro ⟨y, t₁, rest, hy, hxs, rfl⟩
    exact ⟨y, t₁, hy, (effect_bind_eq_ok_iff fun rest => oblivious_pure (y :: rest)).2 ⟨rest, t', hxs, rfl⟩⟩

theorem cases_of_effect_mapM_cons_eq_error {f : α → Action β} (hf : ∀ x, (f x).Oblivious) {x : α} {xs : List α}
    {t t' : Tree} {fault : Fault} (h : ((x :: xs).mapM f).effect t = (.error fault, t')) :
    (f x).effect t = (.error fault, t') ∨
      ∃ y t₁, (f x).effect t = (.ok y, t₁) ∧ (xs.mapM f).effect t₁ = (.error fault, t') := by
  rw [effect_mapM_cons hf] at h
  rcases hx : (f x).effect t with ⟨fault' | y, t₁⟩
  · rw [hx] at h
    obtain ⟨hfault, rfl⟩ := Prod.mk.inj h
    exact Or.inl (by rw [Except.error.inj hfault])
  · rw [hx] at h
    dsimp only at h
    refine Or.inr ⟨y, t₁, rfl, ?_⟩
    rcases hxs : (xs.mapM f).effect t₁ with ⟨fault' | ys, t₂⟩
    · rw [hxs] at h
      obtain ⟨hfault, rfl⟩ := Prod.mk.inj h
      rw [Except.error.inj hfault]
    · rw [hxs] at h
      exact nomatch (Prod.mk.inj h).1

/-- If an action fails for some element of a list, then it has succeeded for those before it. -/
theorem exists_of_effect_mapM_eq_error {f : α → Action β} (hf : ∀ x, (f x).Oblivious) {xs : List α} {t t' : Tree}
    {fault : Fault} (h : (xs.mapM f).effect t = (.error fault, t')) :
    ∃ before x after ys t₁, xs = before ++ x :: after ∧ (before.mapM f).effect t = (.ok ys, t₁) ∧
      (f x).effect t₁ = (.error fault, t') := by
  induction xs generalizing t with
  | nil => exact nomatch (Prod.mk.inj h).1
  | cons x xs ih =>
    rcases cases_of_effect_mapM_cons_eq_error hf h with hfirst | ⟨y, t₁, hfirst, hrest⟩
    · exact ⟨[], x, xs, [], t, rfl, rfl, hfirst⟩
    · obtain ⟨before, x', after, ys, t₂, rfl, hbefore, hx'⟩ := ih hrest
      exact ⟨x :: before, x', after, y :: ys, t₂, rfl,
        (effect_mapM_cons_eq_ok_iff hf).2 ⟨y, t₁, ys, hfirst, hbefore, rfl⟩, hx'⟩

/-- The tree that is left is the one that the rest leaves, unless the first one fails. -/
theorem tree_mapM_cons {f : α → Action β} (hf : ∀ x, (f x).Oblivious) (x : α) (xs : List α) (t : Tree) :
    (((x :: xs).mapM f).effect t).2 =
      match (f x).effect t with
      | (.ok _, t') => ((xs.mapM f).effect t').2
      | (.error _, t') => t' := by
  rw [effect_mapM_cons hf]
  rcases (f x).effect t with ⟨_ | y, t'⟩
  · rfl
  · dsimp only
    rcases (xs.mapM f).effect t' with ⟨_ | ys, t''⟩ <;> rfl

/-- An action for every element of two lists: the second list starts on the tree that the first one leaves. -/
theorem effect_mapM_append {f : α → Action β} (hf : ∀ x, (f x).Oblivious) (xs ys : List α) (t : Tree) :
    ((xs ++ ys).mapM f).effect t =
      match (xs.mapM f).effect t with
      | (.ok as, t') =>
        match (ys.mapM f).effect t' with
        | (.ok bs, t'') => (.ok (as ++ bs), t'')
        | (.error fault, t'') => (.error fault, t'')
      | (.error fault, t') => (.error fault, t') := by
  rw [List.mapM_append, effect_bind _ fun as => (Oblivious.mapM hf ys).bind fun _ => oblivious_pure _]
  rcases (xs.mapM f).effect t with ⟨_ | as, t'⟩
  · rfl
  · dsimp only
    rw [effect_bind _ fun bs => oblivious_pure (as ++ bs)]
    rcases (ys.mapM f).effect t' with ⟨_ | bs, t''⟩ <;> rfl

theorem tree_mapM_append {f : α → Action β} (hf : ∀ x, (f x).Oblivious) (xs ys : List α) (t : Tree) :
    (((xs ++ ys).mapM f).effect t).2 =
      match (xs.mapM f).effect t with
      | (.ok _, t') => ((ys.mapM f).effect t').2
      | (.error _, t') => t' := by
  rw [effect_mapM_append hf]
  rcases (xs.mapM f).effect t with ⟨_ | as, t'⟩
  · rfl
  · dsimp only
    rcases (ys.mapM f).effect t' with ⟨_ | bs, t''⟩ <;> rfl

/-- Actions that leave every tree as it is. -/
theorem tree_mapM_of_unchanged {f : α → Action β} (hf : ∀ x, (f x).Oblivious) (h : ∀ x t, ((f x).effect t).2 = t)
    (xs : List α) (t : Tree) : ((xs.mapM f).effect t).2 = t := by
  induction xs with
  | nil => rfl
  | cons x xs ih =>
    have hx := h x t
    rw [tree_mapM_cons hf]
    rcases hfirst : (f x).effect t with ⟨fault | y, t'⟩
    · rw [hfirst] at hx
      exact hx
    · rw [hfirst] at hx
      rw [show t' = t from hx]
      exact ih

end Action

end GetSet
