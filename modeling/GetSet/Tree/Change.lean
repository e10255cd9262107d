import GetSet.Tree.Access

/-!
# What changes

What a tree holds after it was changed. A file that was written is at one location, and the path that it was written to
leads there (`read_write`); all other locations are as they were. Making directories adds directories to a tree and
nothing else (`addsDirectories_makeDirectories`).
-/

namespace GetSet.Tree

/-! ## Writing -/

/-- A tree that differs from another one in the file at a location, which may be new. -/
structure WrittenAt (t t' : Tree) (l : Location) (content : ByteArray) : Prop where
  here : t'.get? l = some (.file content)
  before : t.get? l = none ∨ ∃ old, t.get? l = some (.file old)
  elsewhere : ∀ l', l' ≠ l → t'.get? l' = t.get? l'
  cwd_eq : t'.cwd = t.cwd

/-- The location of a place. -/
def Place.location : Place → Location
  | .occupied l _ => l
  | .vacant dir name => name :: dir

/-- Writing succeeds exactly where the path leads to a file or a free name. -/
theorem write_eq_ok_iff {t t' : Tree} {p : Path} {content : ByteArray} :
    t.write p content = .ok t' ↔
      (∃ l old, t.locate .write p = .ok (.occupied l (.file old)) ∧ t' = t.replace l content) ∨
        ∃ dir name, t.locate .write p = .ok (.vacant dir name) ∧ t' = t.insert dir name (.file content) := by
  unfold write
  rcases t.locate .write p with e | ⟨l, _ | old | target⟩ | ⟨dir, name⟩
  · simp
  · simp
  · simp [and_assoc, eq_comm]
  · simp
  · simp [and_assoc, eq_comm]

/-- After writing, the file at the place where the path leads has the content, and nothing else has changed. -/
theorem writtenAt_of_write {t t' : Tree} {p : Path} {content : ByteArray} (h : t.write p content = .ok t') :
    ∃ place, t.locate .write p = .ok place ∧ WrittenAt t t' place.location content := by
  rcases write_eq_ok_iff.1 h with ⟨l, old, hlocate, rfl⟩ | ⟨dir, name, hlocate, rfl⟩
  · have hfile := (locate_holds hlocate).1
    refine ⟨_, hlocate, ?_, Or.inr ⟨old, hfile⟩, ?_, cwd_replace t l content⟩
    · simp [Place.location, get?_replace content hfile]
    · intro l' hl'
      exact (get?_replace content hfile l').trans (if_neg hl')
  · obtain ⟨hdir, hfree, hname⟩ := locate_holds hlocate
    refine ⟨_, hlocate, ?_, Or.inl hfree, ?_, cwd_insert t dir name _⟩
    · simp [Place.location, get?_insert _ hdir hfree hname]
    · intro l' hl'
      exact (get?_insert _ hdir hfree hname l').trans (if_neg hl')

/-- A path along which a file was written leads to the file, if every link on the way does. -/
theorem steps_of_writtenAt {t t' : Tree} {l : Location} {content : ByteArray} (hw : WrittenAt t t' l content)
    {follow follow' : Location → Path → List Bytes → Bool → Except SystemError Place}
    (hfollow : ∀ dir target rest slash place, follow dir target rest slash = .ok place → place.location = l →
      (∀ node, place = .occupied l node → ∃ old, node = .file old) →
        follow' dir target rest slash = .ok (.occupied l (.file content)))
    {slash : Bool} {names : List Bytes} {dir : Location} {place : Place}
    (hplace : place.location = l) (hfile : ∀ node, place = .occupied l node → ∃ old, node = .file old)
    (h : steps t .write follow slash dir names = .ok place) :
    steps t' .look follow' slash dir names = .ok (.occupied l (.file content)) := by
  -- the directories and links on the way are still there, because only a file has changed
  have keep : ∀ {l' : Location} {node : Node}, t.get? l' = some node → (∀ old, node ≠ .file old) →
      t'.get? l' = some node := by
    intro l' node hnode hne
    rw [hw.elsewhere l' ?_, hnode]
    rintro rfl
    rcases hw.before with hnone | ⟨old, hold⟩
    · simp [hnone] at hnode
    · rw [hold] at hnode
      exact hne old (Option.some.inj hnode).symm
  fun_induction steps t .write follow slash dir names with
  | case1 dir =>
    obtain rfl := Except.ok.inj h
    obtain ⟨old, hold⟩ := hfile _ (by rw [← hplace]; rfl)
    simp at hold
  | case2 dir name rest hname ih =>
    rw [steps, if_pos hname]
    exact ih h
  | case3 dir name rest hdot hname ih =>
    rw [steps, if_neg hdot, if_pos hname]
    exact ih h
  | case4 => simp at h
  | case5 => simp at h
  | case6 dir name rest hdot hdots hslash hname hfree hrest =>
    obtain rfl := Except.ok.inj h
    have hl : name :: dir = l := hplace
    have hslash' : slash = false := by simpa [hrest] using hslash
    rw [steps, if_neg hdot, if_neg hdots, if_neg (by simp), if_neg hname, hl, hw.here]
    simp [hrest, hslash']
  | case7 => simp at h
  | case8 dir name rest hdot hdots hslash hname hsub ih =>
    rw [steps, if_neg hdot, if_neg hdots, if_neg (by simp), if_neg hname, keep hsub (by simp)]
    exact ih h
  | case9 dir name rest hdot hdots hslash hname old hold hrest =>
    obtain rfl := Except.ok.inj h
    have hl : name :: dir = l := hplace
    rw [steps, if_neg hdot, if_neg hdots, if_neg (by simp), if_neg hname, hl, hw.here]
    simp only [hrest, if_true]
  | case10 => simp at h
  | case11 dir name rest hdot hdots hslash hname target hlink hentry =>
    simp at hentry
  | case12 dir name rest hdot hdots hslash hname target hlink hentry =>
    rw [steps, if_neg hdot, if_neg hdots, if_neg (by simp), if_neg hname, keep hlink (by simp)]
    simpa using hfollow _ _ _ _ _ h hplace hfile

theorem resolve_of_writtenAt {t t' : Tree} {l : Location} {content : ByteArray} (hw : WrittenAt t t' l content)
    {links : Nat} {slash : Bool} {names : List Bytes} {dir : Location} {place : Place}
    (hplace : place.location = l) (hfile : ∀ node, place = .occupied l node → ∃ old, node = .file old)
    (h : t.resolve .write links slash dir names = .ok place) :
    t'.resolve .look links slash dir names = .ok (.occupied l (.file content)) := by
  induction links generalizing slash dir names place with
  | zero =>
    refine steps_of_writtenAt hw ?_ hplace hfile h
    intro _ _ _ _ _ hfollow
    simp at hfollow
  | succ links ih =>
    refine steps_of_writtenAt hw ?_ hplace hfile h
    intro dir target rest slash place hfollow hplace hfile
    exact ih hplace hfile hfollow

/-- After writing, the path leads to the file that was written, and nothing else has changed. -/
theorem locate_of_write {t t' : Tree} {p : Path} {content : ByteArray} (h : t.write p content = .ok t') :
    ∃ place, t.locate .write p = .ok place ∧
      t'.locate .look p = .ok (.occupied place.location (.file content)) ∧ WrittenAt t t' place.location content := by
  obtain ⟨place, hlocate, hw⟩ := writtenAt_of_write h
  refine ⟨place, hlocate, ?_, hw⟩
  have hfile : ∀ node, place = .occupied place.location node → ∃ old, node = .file old := by
    intro node hnode
    rcases write_eq_ok_iff.1 h with ⟨l, old, hlocate', -⟩ | ⟨dir, name, hlocate', -⟩ <;>
      rw [hlocate] at hlocate' <;> obtain rfl := Except.ok.inj hlocate'
    · exact ⟨old, by simpa [Place.location, eq_comm] using hnode⟩
    · simp at hnode
  -- what is checked before the names are followed depends on the path alone
  unfold locate at hlocate ⊢
  split at hlocate
  · simp at hlocate
  · next hnul =>
    rw [if_neg hnul]
    split at hlocate
    · simp at hlocate
    · next hempty =>
      rw [if_neg hempty]
      split at hlocate
      · simp at hlocate
      · next hlong =>
        rw [if_neg hlong, hw.cwd_eq]
        exact resolve_of_writtenAt hw rfl hfile hlocate

/-- A file that was written is read back. -/
theorem read_write {t t' : Tree} {p : Path} {content : ByteArray} (h : t.write p content = .ok t') :
    t'.read p = .ok content := by
  obtain ⟨place, -, hlook, -⟩ := locate_of_write h
  simp [read, hlook]

/-! ## Making directories -/

/-- A tree with more directories than another one and else the same. -/
structure AddsDirectories (t t' : Tree) : Prop where
  get?_eq : ∀ l, t'.get? l = t.get? l ∨ t.get? l = none ∧ t'.get? l = some .directory
  cwd_eq : t'.cwd = t.cwd

namespace AddsDirectories

theorem refl (t : Tree) : AddsDirectories t t :=
  ⟨fun _ => Or.inl rfl, rfl⟩

theorem trans {t t' t'' : Tree} (h : AddsDirectories t t') (h' : AddsDirectories t' t'') :
    AddsDirectories t t'' where
  get?_eq l := by
    rcases h.get?_eq l with heq | ⟨hnone, hdir⟩ <;> rcases h'.get?_eq l with heq' | ⟨hnone', hdir'⟩
    · exact Or.inl (heq'.trans heq)
    · exact Or.inr ⟨heq ▸ hnone', hdir'⟩
    · exact Or.inr ⟨hnone, heq'.trans hdir⟩
    · exact Or.inr ⟨hnone, hdir'⟩
  cwd_eq := h'.cwd_eq.trans h.cwd_eq

end AddsDirectories

theorem addsDirectories_makeDirectory {t t' : Tree} {p : Path} (h : t.makeDirectory p = .ok t') :
    AddsDirectories t t' := by
  unfold makeDirectory add at h
  split at h
  · simp at h
  · next dir name hlocate =>
    obtain rfl := Except.ok.inj h
    obtain ⟨hdir, hfree, hname⟩ := locate_holds hlocate
    refine ⟨fun l => ?_, cwd_insert t dir name _⟩
    rw [get?_insert _ hdir hfree hname]
    split
    · next hl => exact Or.inr ⟨hl ▸ hfree, rfl⟩
    · exact Or.inl rfl
  · simp at h

theorem addsDirectories_makeChain (t : Tree) (chain : List Path) :
    AddsDirectories t (t.makeChain chain).2 := by
  fun_induction makeChain t chain with
  | case1 => exact .refl t
  | case2 => exact .refl t
  | case3 p above hp t' h => exact addsDirectories_makeDirectory h
  | case4 p above hp h t' hrest t'' hmake ih =>
    rw [hrest] at ih
    exact ih.trans (addsDirectories_makeDirectory hmake)
  | case5 p above hp h t' hrest e hmake ih =>
    rw [hrest] at ih
    exact ih
  | case6 p above hp h failed ih => exact ih
  | case7 => exact .refl t

/-- Making directories adds directories and nothing else, even if it fails. -/
theorem addsDirectories_makeDirectories (t : Tree) (p : Path) : AddsDirectories t (t.makeDirectories p).2 :=
  addsDirectories_makeChain t p.ancestors

end GetSet.Tree
