import GetSet.Tree.Access

/-!
# Walking a directory

`walk` lists the files below a directory, those reached through links included. The entries of a directory come in the
order of their names. A directory tells the names of its entries and of what kind they are, so that a file in it is
listed even if the path that is put together for it is too long to lead there. A directory in it is opened by its path,
and a link followed by it; what cannot be reached in this way is left out, and so is a link to a directory that the walk
has come through already.

The walk ends because of two quantities. A link leads to a directory that is not among those above, so one directory
fewer is left that the walk has not come through; an entry of a directory lies one name deeper, and no node lies deeper
than the deepest one. `remaining` makes one number of the two, in which the first has the greater weight.
-/

namespace GetSet.Tree

/-! ## Why a walk ends -/

/-- The number of locations that are not among those the walk has come through. -/
def unseen (t : Tree) (seen : List Location) : Nat :=
  ([] :: t.locations).countP (· ∉ seen)

/-- The number of names that lead to the deepest node. -/
def depth (t : Tree) : Nat :=
  (t.locations.map List.length).foldr max 0

theorem mem_locations {t : Tree} {dir : Location} {node : Node} (h : t.get? dir = some node) :
    dir ∈ [] :: t.locations := by
  cases dir with
  | nil => simp
  | cons name above => exact List.mem_cons_of_mem _ (List.mem_map_of_mem (get?_cons_eq_some_iff.1 h))

theorem unseen_cons_le (t : Tree) (seen : List Location) (dir : Location) : t.unseen (dir :: seen) ≤ t.unseen seen := by
  refine List.countP_mono_left fun l _ h => ?_
  simp only [decide_eq_true_eq] at h ⊢
  exact fun hmem => h (List.mem_cons_of_mem _ hmem)

theorem unseen_cons_lt {t : Tree} {seen : List Location} {dir : Location} {node : Node}
    (h : t.get? dir = some node) (hdir : dir ∉ seen) : t.unseen (dir :: seen) < t.unseen seen := by
  have key : ∀ ls : List Location, dir ∈ ls →
      ls.countP (· ∉ dir :: seen) < ls.countP (· ∉ seen) := by
    intro ls hmem
    -- around `dir` nothing is gained, and `dir` itself is lost
    obtain ⟨as, bs, rfl⟩ := List.append_of_mem hmem
    have le : ∀ ls : List Location, ls.countP (· ∉ dir :: seen) ≤ ls.countP (· ∉ seen) := by
      intro ls
      refine List.countP_mono_left fun l _ h => ?_
      simp only [decide_eq_true_eq] at h ⊢
      exact fun hmem => h (List.mem_cons_of_mem _ hmem)
    have h₁ := le as
    have h₂ := le bs
    simp only [List.countP_append, List.countP_cons, List.mem_cons_self, not_true_eq_false, hdir,
      not_false_eq_true, decide_true, decide_false, if_true]
    simp only [Bool.false_eq_true, if_false]
    omega
  exact key _ (mem_locations h)

theorem length_le_depth {t : Tree} {name : Bytes} {dir : Location} {node : Node}
    (h : t.get? (name :: dir) = some node) : dir.length < t.depth := by
  have le : ∀ (ls : List Location) (l : Location), l ∈ ls → l.length ≤ (ls.map List.length).foldr max 0 := by
    intro ls
    induction ls with
    | nil => simp
    | cons a ls ih =>
      intro l hl
      rcases List.mem_cons.1 hl with rfl | hl
      · exact Nat.le_max_left _ _
      · exact Nat.le_trans (ih l hl) (Nat.le_max_right _ _)
  exact le t.locations (name :: dir) (List.mem_map_of_mem (get?_cons_eq_some_iff.1 h))

/-- What a walk in a directory has left to do. -/
def remaining (t : Tree) (dir : Location) (seen : List Location) : Nat :=
  t.unseen seen * (t.depth + 1) + (t.depth - dir.length)

theorem remaining_entry {t : Tree} {name : Bytes} {dir : Location} {node : Node} (seen : List Location)
    (h : t.get? (name :: dir) = some node) :
    t.remaining (name :: dir) ((name :: dir) :: seen) < t.remaining dir seen := by
  have hlt := length_le_depth h
  have hle := Nat.mul_le_mul_right (t.depth + 1) (t.unseen_cons_le seen (name :: dir))
  simp only [remaining, List.length_cons]
  omega

theorem remaining_link {t : Tree} {dir dir' : Location} {node : Node} {seen : List Location}
    (h : t.get? dir' = some node) (hseen : dir' ∉ seen) :
    t.remaining dir' (dir' :: seen) < t.remaining dir seen := by
  have hle := Nat.mul_le_mul_right (t.depth + 1) (unseen_cons_lt h hseen)
  rw [Nat.succ_mul] at hle
  simp only [remaining]
  omega

/-! ## The walk -/

/-- The files below a directory, given by its path, its location and the locations of the directories that the walk
has come through on its way, this one included. -/
def walk (t : Tree) (path : Path) (dir : Location) (seen : List Location) : List Path :=
  (t.children dir).attach.flatMap fun ⟨(name, node), _h⟩ =>
    let inner := path.join ⟨name⟩
    match node, _h with
    | .file _, _ => [inner]
    | .directory, _h =>
      if t.isDirectory inner then walk t inner (name :: dir) ((name :: dir) :: seen) else []
    | .link _, _ =>
      match _hlocate : t.locate .look inner with
      | .ok (.occupied _ (.file _)) => [inner]
      | .ok (.occupied dir' .directory) => if _hseen : dir' ∈ seen then [] else walk t inner dir' (dir' :: seen)
      | _ => []
termination_by t.remaining dir seen
decreasing_by
  · exact remaining_entry seen (mem_children.1 _h)
  · exact remaining_link (locate_holds _hlocate).1 _hseen

/-- What a walk finds in one entry of a directory. -/
def walkEntry (t : Tree) (path : Path) (dir : Location) (seen : List Location) (e : Bytes × Node) : List Path :=
  let inner := path.join ⟨e.1⟩
  match e.2 with
  | .file _ => [inner]
  | .directory => if t.isDirectory inner then t.walk inner (e.1 :: dir) ((e.1 :: dir) :: seen) else []
  | .link _ =>
    match t.locate .look inner with
    | .ok (.occupied _ (.file _)) => [inner]
    | .ok (.occupied dir' .directory) => if dir' ∈ seen then [] else t.walk inner dir' (dir' :: seen)
    | _ => []

/-- What a walk finds in a directory: the files in it, and what it finds in the directories in it; links lead to
both. -/
theorem mem_walk {t : Tree} {path p : Path} {dir : Location} {seen : List Location} :
    p ∈ t.walk path dir seen ↔
      ∃ name node, t.get? (name :: dir) = some node ∧
        match node with
        | .file _ => p = path.join ⟨name⟩
        | .directory =>
          t.isDirectory (path.join ⟨name⟩) = true ∧
            p ∈ t.walk (path.join ⟨name⟩) (name :: dir) ((name :: dir) :: seen)
        | .link _ =>
          (∃ l content, t.locate .look (path.join ⟨name⟩) = .ok (.occupied l (.file content)) ∧
            p = path.join ⟨name⟩) ∨
          ∃ dir', t.locate .look (path.join ⟨name⟩) = .ok (.occupied dir' .directory) ∧ dir' ∉ seen ∧
            p ∈ t.walk (path.join ⟨name⟩) dir' (dir' :: seen) := by
  rw [walk]
  simp only [List.mem_flatMap, List.mem_attach, true_and, Subtype.exists]
  constructor
  · rintro ⟨⟨name, node⟩, hmem, hp⟩
    refine ⟨name, node, mem_children.1 hmem, ?_⟩
    cases node with
    | directory =>
      dsimp only at hp ⊢
      split at hp <;> simp_all
    | file content => exact List.mem_singleton.1 hp
    | link target =>
      dsimp only at hp ⊢
      split at hp
      · next h => exact Or.inl ⟨_, _, h, by simpa using hp⟩
      · next h =>
        split at hp
        · simp at hp
        · next hseen => exact Or.inr ⟨_, h, hseen, hp⟩
      · simp at hp
  · rintro ⟨name, node, hnode, hp⟩
    refine ⟨(name, node), mem_children.2 hnode, ?_⟩
    cases node with
    | directory =>
      dsimp only at hp ⊢
      rw [if_pos hp.1]
      exact hp.2
    | file content => exact List.mem_singleton.2 hp
    | link target =>
      dsimp only at hp ⊢
      rcases hp with ⟨l, content, h, rfl⟩ | ⟨dir', h, hseen, hp⟩
      · split <;> simp_all
      · split
        · simp_all
        · next l h' =>
          rw [h] at h'
          obtain rfl : dir' = l := by simpa using h'
          rw [dif_neg hseen]
          exact hp
        · next hne => exact absurd h (hne _)

/-- The files below the directory that a path leads to, those in a directory sorted by name; none if the path leads to
no directory. -/
def filesBelow (t : Tree) (path : Path) : List Path :=
  match t.locate .look path with
  | .ok (.occupied dir .directory) => t.walk path dir [dir]
  | _ => []

/-! ## What is below the working directory -/

/-- An entry below a directory: its path from there, and whether it is a directory, a file or a link. -/
def entryBelow? (dir : Location) (e : Location × Node) : Option (Path × Node) :=
  if dir.isSuffixOf e.1 && e.1 != dir then
    some (.ofPieces (e.1.take (e.1.length - dir.length)).reverse, e.2)
  else
    none

/-- All entries below the working directory, with their paths from there. -/
def listing (t : Tree) : List (Path × Node) :=
  t.entries.filterMap (entryBelow? t.cwd)

end GetSet.Tree
