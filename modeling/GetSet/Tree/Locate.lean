import GetSet.Tree.Basic
import GetSet.Tree.SystemError

/-!
# Where a path leads

A path is followed name by name from the root or from the working directory. A symbolic link on the way is replaced by
its target, at most 40 times in all. Whether a link at the very end is followed as well depends on what the path is
needed for (`Purpose`).

`steps` recurses on the names; what a link does is a parameter of it. `resolve` ties the knot and recurses on the number
of links that may still be followed, so that no measure is needed.
-/

namespace GetSet.Tree

/-- What a path is followed for. -/
inductive Purpose where
  /-- To look at what is there: a link at the end is followed. -/
  | look
  /-- To write a file, which is made if it is missing: a link at the end is followed, and the path of a file cannot end
  in a slash. -/
  | write
  /-- To add or remove the entry itself: a link at the end is not followed. -/
  | entry
deriving DecidableEq, Repr

/-- Where a path leads: to a node, or to a name that is free in a directory. -/
inductive Place where
  | occupied (l : Location) (node : Node)
  | vacant (dir : Location) (name : Bytes)
deriving DecidableEq

/-- Follows names from a directory. `slash` tells whether a slash stands after the last name, and `follow` goes on from
a link in a directory with the link's target and the names after it. -/
def steps (t : Tree) (purpose : Purpose)
    (follow : Location → Path → List Bytes → Bool → Except SystemError Place) (slash : Bool) :
    Location → List Bytes → Except SystemError Place
  | dir, [] => .ok (.occupied dir .directory)
  | dir, name :: rest =>
    if name == "." then steps t purpose follow slash dir rest
    else if name == ".." then steps t purpose follow slash dir.tail rest
    else if rest.isEmpty && slash && purpose == .write then .error .isADirectory
    else if !isEntryName name then .error .nameTooLong
    else
      match t.get? (name :: dir) with
      | none => if rest.isEmpty then .ok (.vacant dir name) else .error .notFound
      | some .directory => steps t purpose follow slash (name :: dir) rest
      | some (.file content) =>
        if rest.isEmpty && !slash then .ok (.occupied (name :: dir) (.file content)) else .error .notADirectory
      | some (.link target) =>
        if rest.isEmpty && !slash && purpose == .entry then .ok (.occupied (name :: dir) (.link target))
        else follow dir target rest slash

/-- Where a path starts that is followed from a directory. -/
def start (dir : Location) (p : Path) : Location :=
  if p.isAbsolute then [] else dir

/-- Follows names from a location through at most `links` links. -/
def resolve (t : Tree) (purpose : Purpose) :
    (links : Nat) → (slash : Bool) → Location → List Bytes → Except SystemError Place
  | 0, slash => steps t purpose (fun _ _ _ _ => .error .tooManyLinks) slash
  | links + 1, slash =>
    steps t purpose
      (fun dir target rest slash =>
        resolve t purpose links (slash || rest.isEmpty && target.endsInSlash) (start dir target)
          (target.names ++ rest))
      slash

/-- The number of links that may be followed for one path. -/
def linkLimit : Nat := 40

/-- The number of bytes that a path must stay below. -/
def pathLimit : Nat := 4096

/-- Where a path leads; `slash` tells whether a slash at its end counts. -/
def locate (t : Tree) (purpose : Purpose) (p : Path) (slash : Bool := p.endsInSlash) : Except SystemError Place :=
  if p.bytes.contains 0 then .error .interiorNul
  else if p.bytes.isEmpty then .error .notFound
  else if pathLimit ≤ p.bytes.length then .error .nameTooLong
  else t.resolve purpose linkLimit slash (start t.cwd p) p.names

/-! ## What is known of a place -/

/-- What holds of a place that a path leads to: a node is there, and it is a link only if links are not followed; a
free name is free in a directory and may be taken. -/
def Place.Holds (t : Tree) (purpose : Purpose) : Place → Prop
  | .occupied l node => t.get? l = some node ∧ (purpose ≠ .entry → ∀ target, node ≠ .link target)
  | .vacant dir name =>
    t.get? dir = some .directory ∧ t.get? (name :: dir) = none ∧ isEntryName name = true

theorem get?_tail {t : Tree} {dir : Location} (h : t.get? dir = some .directory) :
    t.get? dir.tail = some .directory := by
  cases dir with
  | nil => rfl
  | cons name above => exact get?_parent h

theorem steps_holds {t : Tree} {purpose : Purpose}
    {follow : Location → Path → List Bytes → Bool → Except SystemError Place}
    (hfollow : ∀ dir target rest slash place, t.get? dir = some .directory →
      follow dir target rest slash = .ok place → place.Holds t purpose)
    {slash : Bool} {names : List Bytes} {dir : Location} {place : Place} (hdir : t.get? dir = some .directory)
    (h : steps t purpose follow slash dir names = .ok place) : place.Holds t purpose := by
  fun_induction steps t purpose follow slash dir names with
  | case1 dir =>
    obtain rfl := Except.ok.inj h
    exact ⟨hdir, fun _ target => by simp⟩
  | case2 dir name rest hname ih => exact ih hdir h
  | case3 dir name rest _ hname ih => exact ih (get?_tail hdir) h
  | case4 => simp at h
  | case5 => simp at h
  | case6 dir name rest _ _ _ hname hfree _ =>
    obtain rfl := Except.ok.inj h
    exact ⟨hdir, hfree, by simpa using hname⟩
  | case7 => simp at h
  | case8 dir name rest _ _ _ _ hsub ih => exact ih hsub h
  | case9 dir name rest _ _ _ _ content hfile _ =>
    obtain rfl := Except.ok.inj h
    exact ⟨hfile, fun _ target => by simp⟩
  | case10 => simp at h
  | case11 dir name rest _ _ _ _ target hlink hentry =>
    obtain rfl := Except.ok.inj h
    refine ⟨hlink, fun hne => absurd ?_ hne⟩
    simp only [Bool.and_eq_true, beq_iff_eq] at hentry
    exact hentry.2
  | case12 dir name rest _ _ _ _ target hlink _ => exact hfollow _ _ _ _ _ hdir h

theorem get?_start {t : Tree} {dir : Location} (p : Path) (h : t.get? dir = some .directory) :
    t.get? (start dir p) = some .directory := by
  unfold start
  split
  · rfl
  · exact h

theorem resolve_holds {t : Tree} {purpose : Purpose} {links : Nat} {slash : Bool} {dir : Location}
    {names : List Bytes} {place : Place} (hdir : t.get? dir = some .directory)
    (h : t.resolve purpose links slash dir names = .ok place) : place.Holds t purpose := by
  induction links generalizing slash dir names place with
  | zero =>
    refine steps_holds ?_ hdir h
    intro _ _ _ _ _ _ hfollow
    simp at hfollow
  | succ links ih =>
    refine steps_holds ?_ hdir h
    intro dir' target rest slash' place' hdir' hfollow
    exact ih (get?_start target hdir') hfollow

/-- A path leads to a place as it is described. -/
theorem locate_holds {t : Tree} {purpose : Purpose} {p : Path} {slash : Bool} {place : Place}
    (h : t.locate purpose p slash = .ok place) : place.Holds t purpose := by
  unfold locate at h
  split at h
  · simp at h
  · split at h
    · simp at h
    · split at h
      · simp at h
      · exact resolve_holds (get?_start p t.get?_cwd) h

end GetSet.Tree
