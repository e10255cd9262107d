import GetSet.Proofs.Tree.Growth

/-!
# Looking and writing

A path is followed in two ways that differ at its end only: for writing, the last name may not be followed by a slash.
Where a file can be written a look finds the same place (`locate_look_of_write`), and where a look finds a file, that
file is the one that would be written (`locate_write_of_look`).
-/

namespace GetSet.Tree

variable {t : Tree}

/-! ## From writing to looking -/

theorem steps_look_of_write {follow follow' : Location → Path → List Bytes → Bool → Except SystemError Place}
    (hfollow : ∀ dir target rest slash place, follow dir target rest slash = .ok place →
      follow' dir target rest slash = .ok place)
    {slash : Bool} {names : List Bytes} {dir : Location} {place : Place}
    (h : steps t .write follow slash dir names = .ok place) : steps t .look follow' slash dir names = .ok place := by
  fun_induction steps t .write follow slash dir names with
  | case1 dir =>
    rw [steps]
    exact h
  | case2 dir name rest hdot ih =>
    rw [steps, if_pos hdot]
    exact ih h
  | case3 dir name rest hdot hdots ih =>
    rw [steps, if_neg hdot, if_pos hdots]
    exact ih h
  | case4 => simp at h
  | case5 => simp at h
  | case6 dir name rest hdot hdots hslash hname hfree hrest =>
    rw [steps, if_neg hdot, if_neg hdots, if_neg (by simp), if_neg hname, hfree]
    simpa only [hrest, if_true] using h
  | case7 => simp at h
  | case8 dir name rest hdot hdots hslash hname hsub ih =>
    rw [steps, if_neg hdot, if_neg hdots, if_neg (by simp), if_neg hname, hsub]
    exact ih h
  | case9 dir name rest hdot hdots hslash hname content hfile hrest =>
    rw [steps, if_neg hdot, if_neg hdots, if_neg (by simp), if_neg hname, hfile]
    simpa only [hrest, if_true] using h
  | case10 => simp at h
  | case11 dir name rest hdot hdots hslash hname target hlink hentry => simp at hentry
  | case12 dir name rest hdot hdots hslash hname target hlink hentry =>
    rw [steps, if_neg hdot, if_neg hdots, if_neg (by simp), if_neg hname, hlink]
    show (if (rest.isEmpty && !slash && Purpose.look == .entry) = true then _ else _) = _
    rw [if_neg (by simp)]
    exact hfollow _ _ _ _ _ h

theorem resolve_look_of_write {links : Nat} {slash : Bool} {dir : Location} {names : List Bytes} {place : Place}
    (h : t.resolve .write links slash dir names = .ok place) : t.resolve .look links slash dir names = .ok place := by
  induction links generalizing slash dir names place with
  | zero =>
    refine steps_look_of_write ?_ h
    intro _ _ _ _ _ hfollow
    simp at hfollow
  | succ links ih =>
    refine steps_look_of_write ?_ h
    intro dir target rest slash place hfollow
    exact ih hfollow

/-- Where a file could be written a look finds the same place. -/
theorem locate_look_of_write {p : Path} {slash : Bool} {place : Place} (h : t.locate .write p slash = .ok place) :
    t.locate .look p slash = .ok place := by
  have hp := followable_of_locate h
  rw [locate_of_followable hp] at h ⊢
  exact resolve_look_of_write h

/-! ## From looking to writing -/

/-- With a slash behind its last name a path leads to no file. -/
theorem steps_slash_ne_file {follow : Location → Path → List Bytes → Bool → Except SystemError Place}
    (hfollow : ∀ dir target rest l content, follow dir target rest true ≠ .ok (.occupied l (.file content)))
    {names : List Bytes} {dir : Location} (l : Location) (content : ByteArray) :
    steps t .look follow true dir names ≠ .ok (.occupied l (.file content)) := by
  fun_induction steps t .look follow true dir names with
  | case1 => simp
  | case2 _ _ _ _ ih => exact ih
  | case3 _ _ _ _ _ ih => exact ih
  | case4 => simp
  | case5 => simp
  | case6 => simp
  | case7 => simp
  | case8 _ _ _ _ _ _ _ _ ih => exact ih
  | case9 _ _ _ _ _ _ _ old hfile hlast => simp at hlast
  | case10 => simp
  | case11 _ _ _ _ _ _ _ target hlink hentry => simp at hentry
  | case12 => exact hfollow _ _ _ _ _

theorem resolve_slash_ne_file {links : Nat} {dir : Location} {names : List Bytes} (l : Location)
    (content : ByteArray) : t.resolve .look links true dir names ≠ .ok (.occupied l (.file content)) := by
  induction links generalizing dir names l content with
  | zero => exact steps_slash_ne_file (fun _ _ _ _ _ => by simp) l content
  | succ links ih => exact steps_slash_ne_file (fun _ _ _ l content => ih l content) l content

theorem steps_write_of_look {follow follow' : Location → Path → List Bytes → Bool → Except SystemError Place}
    {l : Location} {content : ByteArray}
    (hfollow : ∀ dir target rest slash, follow dir target rest slash = .ok (.occupied l (.file content)) →
      slash = false ∧ follow' dir target rest slash = .ok (.occupied l (.file content)))
    {slash : Bool} {names : List Bytes} {dir : Location} (hslash : slash = false)
    (h : steps t .look follow slash dir names = .ok (.occupied l (.file content))) :
    steps t .write follow' slash dir names = .ok (.occupied l (.file content)) := by
  fun_induction steps t .look follow slash dir names with
  | case1 => simp at h
  | case2 dir name rest hdot ih =>
    rw [steps, if_pos hdot]
    exact ih h
  | case3 dir name rest hdot hdots ih =>
    rw [steps, if_neg hdot, if_pos hdots]
    exact ih h
  | case4 => simp at h
  | case5 => simp at h
  | case6 => simp at h
  | case7 => simp at h
  | case8 dir name rest hdot hdots _ hname hsub ih =>
    rw [steps, if_neg hdot, if_neg hdots, if_neg (by simp [hslash]), if_neg hname, hsub]
    exact ih h
  | case9 dir name rest hdot hdots _ hname old hfile hlast =>
    rw [steps, if_neg hdot, if_neg hdots, if_neg (by simp [hslash]), if_neg hname, hfile]
    simpa only [hlast, if_true] using h
  | case10 => simp at h
  | case11 _ _ _ _ _ _ _ target hlink hentry => simp at hentry
  | case12 dir name rest hdot hdots _ hname target hlink hentry =>
    rw [steps, if_neg hdot, if_neg hdots, if_neg (by simp [hslash]), if_neg hname, hlink]
    show (if (rest.isEmpty && !slash && Purpose.write == .entry) = true then _ else _) = _
    rw [if_neg (by simp)]
    exact (hfollow _ _ _ _ h).2

theorem resolve_write_of_look {links : Nat} {slash : Bool} {dir : Location} {names : List Bytes} {l : Location}
    {content : ByteArray} (h : t.resolve .look links slash dir names = .ok (.occupied l (.file content))) :
    t.resolve .write links slash dir names = .ok (.occupied l (.file content)) := by
  have hslash : slash = false := by
    cases slash with
    | false => rfl
    | true => exact absurd h (resolve_slash_ne_file l content)
  induction links generalizing slash dir names with
  | zero =>
    refine steps_write_of_look ?_ hslash h
    intro _ _ _ _ hfollow
    simp at hfollow
  | succ links ih =>
    refine steps_write_of_look ?_ hslash h
    intro dir target rest slash hfollow
    have hdone : (slash || rest.isEmpty && target.endsInSlash) = false := by
      rw [← Bool.not_eq_true]
      intro htrue
      rw [htrue] at hfollow
      exact resolve_slash_ne_file l content hfollow
    exact ⟨(Bool.or_eq_false_iff.1 hdone).1, ih hfollow hdone⟩

/-- The file that a look finds is the one that would be written. -/
theorem locate_write_of_look {p : Path} {slash : Bool} {l : Location} {content : ByteArray}
    (h : t.locate .look p slash = .ok (.occupied l (.file content))) :
    t.locate .write p slash = .ok (.occupied l (.file content)) := by
  have hp := followable_of_locate h
  rw [locate_of_followable hp] at h ⊢
  exact resolve_write_of_look h

end GetSet.Tree
