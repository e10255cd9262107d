import GetSet.Path

/-!
# Directory trees

A tree has a node at each of finitely many locations: a directory, a file or a symbolic link. Four laws hold of every
tree and are part of its type: no location has two nodes, every node stands in a directory, every name is one that an
entry can have, and the working directory is there. The root is a directory that is always there.

A location is the list of the names that lead to it, the last one in front, so that `name :: dir` is the entry `name`
of the directory `dir` and `[]` is the root.

A tree changes in three ways, `insert`, `replace` and `erase`. Each comes with a lemma that says what `get?` finds
afterwards; nothing else about them is used later.
-/

namespace GetSet

/-- The names that lead from the root to a node, the last one in front. -/
abbrev Location := List Bytes

/-- What can be at a location. -/
inductive Node where
  | directory
  | file (content : ByteArray)
  | link (target : Path)

/-- Nodes are compared by what they hold; two contents are the same if their bytes are. -/
instance : DecidableEq Node
  | .directory, .directory => isTrue rfl
  | .directory, .file _ => isFalse nofun
  | .directory, .link _ => isFalse nofun
  | .file _, .directory => isFalse nofun
  | .file a, .file b =>
    if h : a.data = b.data then isTrue (congrArg Node.file (ByteArray.ext h))
    else isFalse fun heq => h (congrArg ByteArray.data (Node.file.inj heq))
  | .file _, .link _ => isFalse nofun
  | .link _, .directory => isFalse nofun
  | .link _, .file _ => isFalse nofun
  | .link a, .link b =>
    if h : a = b then isTrue (congrArg Node.link h) else isFalse fun heq => h (Node.link.inj heq)

namespace Tree

/-- The names that an entry of a directory can have. -/
def isEntryName (name : Bytes) : Bool :=
  name != "" && name != "." && name != ".." && !name.contains Path.slash && !name.contains 0 && name.length ≤ 255

end Tree

/-- A directory tree with a working directory. -/
structure Tree where
  /-- The nodes below the root. -/
  entries : List (Location × Node)
  /-- Where relative paths start. -/
  cwd : Location
  distinct : (entries.map (·.1)).Nodup
  nested : ∀ name dir, name :: dir ∈ entries.map (·.1) → dir = [] ∨ (dir, .directory) ∈ entries
  named : ∀ l ∈ entries.map (·.1), ∀ name ∈ l, Tree.isEntryName name = true
  located : cwd = [] ∨ (cwd, .directory) ∈ entries

namespace Tree

/-! ## Looking up -/

/-- The node at a location. -/
def get? (t : Tree) : Location → Option Node
  | [] => some .directory
  | l => t.entries.lookup l

/-- The locations of all nodes below the root. -/
def locations (t : Tree) : List Location :=
  t.entries.map (·.1)

@[simp]
theorem get?_root (t : Tree) : t.get? [] = some .directory := rfl

theorem get?_cons (t : Tree) (name : Bytes) (dir : Location) :
    t.get? (name :: dir) = t.entries.lookup (name :: dir) := rfl

/-- In a list without repeated keys a look-up finds exactly the pairs of the list. -/
theorem lookup_eq_some_iff {entries : List (Location × Node)} (h : (entries.map (·.1)).Nodup) {l : Location}
    {node : Node} : entries.lookup l = some node ↔ (l, node) ∈ entries := by
  induction entries with
  | nil => simp
  | cons e entries ih =>
    obtain ⟨key, value⟩ := e
    simp only [List.map_cons, List.nodup_cons] at h
    rw [List.lookup_cons]
    by_cases hkey : l = key
    · subst hkey
      simp only [beq_self_eq_true, Option.some.injEq, List.mem_cons, Prod.mk.injEq, true_and]
      refine ⟨fun hv => Or.inl hv.symm, fun hv => hv.elim Eq.symm fun hmem => ?_⟩
      exact absurd (List.mem_map_of_mem hmem) h.1
    · simp [beq_eq_false_iff_ne.2 hkey, hkey, ih h.2]

/-- The nodes below the root are the pairs of the tree. -/
theorem get?_cons_eq_some_iff {t : Tree} {name : Bytes} {dir : Location} {node : Node} :
    t.get? (name :: dir) = some node ↔ (name :: dir, node) ∈ t.entries :=
  lookup_eq_some_iff t.distinct

/-- A location below the root has a node exactly if it is listed. -/
theorem get?_cons_eq_none_iff {t : Tree} {name : Bytes} {dir : Location} :
    t.get? (name :: dir) = none ↔ name :: dir ∉ t.locations := by
  rw [get?_cons, List.lookup_eq_none_iff]
  simp only [locations, List.mem_map, not_exists, not_and, bne_iff_ne, ne_eq]
  exact ⟨fun h e he heq => h e he heq.symm, fun h e he heq => h e he heq.symm⟩

/-- A node stands in a directory. -/
theorem get?_parent {t : Tree} {name : Bytes} {dir : Location} {node : Node}
    (h : t.get? (name :: dir) = some node) : t.get? dir = some .directory := by
  rcases t.nested name dir (List.mem_map_of_mem (get?_cons_eq_some_iff.1 h)) with rfl | hdir
  · rfl
  · cases dir with
    | nil => rfl
    | cons parent above => exact get?_cons_eq_some_iff.2 hdir

/-- The working directory is a directory. -/
@[simp]
theorem get?_cwd (t : Tree) : t.get? t.cwd = some .directory := by
  cases h : t.cwd with
  | nil => rfl
  | cons name dir =>
    refine get?_cons_eq_some_iff.2 (h ▸ t.located.resolve_left ?_)
    simp [h]

/-- The name of a node is one that an entry can have. -/
theorem isEntryName_of_get? {t : Tree} {name : Bytes} {dir : Location} {node : Node}
    (h : t.get? (name :: dir) = some node) : isEntryName name = true :=
  t.named _ (List.mem_map_of_mem (get?_cons_eq_some_iff.1 h)) name List.mem_cons_self

/-! ## The children of a directory -/

/-- The name and node of an entry, if it stands in a directory. -/
def childOf? (dir : Location) : Location × Node → Option (Bytes × Node)
  | (name :: above, node) => if above = dir then some (name, node) else none
  | ([], _) => none

/-- Puts an entry into a list sorted by name. -/
def insertByName (e : Bytes × Node) : List (Bytes × Node) → List (Bytes × Node)
  | [] => [e]
  | f :: fs => if e.1 ≤ f.1 then e :: f :: fs else f :: insertByName e fs

theorem mem_insertByName {e e' : Bytes × Node} {fs : List (Bytes × Node)} :
    e' ∈ insertByName e fs ↔ e' = e ∨ e' ∈ fs := by
  induction fs with
  | nil => simp [insertByName]
  | cons f fs ih =>
    unfold insertByName
    split
    · simp
    · simp only [List.mem_cons, ih]
      exact or_left_comm

theorem mem_foldr_insertByName {e : Bytes × Node} {es : List (Bytes × Node)} :
    e ∈ es.foldr insertByName [] ↔ e ∈ es := by
  induction es with
  | nil => simp
  | cons f es ih => rw [List.foldr_cons, mem_insertByName, ih, List.mem_cons]

/-- What stands in a directory, sorted by name. -/
def children (t : Tree) (dir : Location) : List (Bytes × Node) :=
  (t.entries.filterMap (childOf? dir)).foldr insertByName []

theorem mem_children {t : Tree} {dir : Location} {name : Bytes} {node : Node} :
    (name, node) ∈ t.children dir ↔ t.get? (name :: dir) = some node := by
  rw [get?_cons_eq_some_iff, children, mem_foldr_insertByName, List.mem_filterMap]
  constructor
  · rintro ⟨⟨l, node'⟩, he, hchild⟩
    cases l with
    | nil => simp [childOf?] at hchild
    | cons name' above =>
      simp only [childOf?, Option.ite_none_right_eq_some, Option.some.injEq, Prod.mk.injEq] at hchild
      obtain ⟨rfl, rfl, rfl⟩ := hchild
      exact he
  · intro he
    exact ⟨_, he, by simp [childOf?]⟩

/-! ## Changing -/

/-- Adds an entry to a directory. The tree stays as it is if there is no such directory, if it has such an entry or if
no entry can have that name. -/
def insert (t : Tree) (dir : Location) (name : Bytes) (node : Node) : Tree :=
  if h : t.get? dir = some .directory ∧ t.get? (name :: dir) = none ∧ isEntryName name then
    { t with
      entries := (name :: dir, node) :: t.entries
      distinct := List.nodup_cons.2 ⟨get?_cons_eq_none_iff.1 h.2.1, t.distinct⟩
      nested := by
        intro name' dir' hmem
        rcases List.mem_cons.1 hmem with heq | hmem
        · -- the new entry stands in `dir`
          obtain ⟨rfl, rfl⟩ := List.cons.inj heq
          cases dir' with
          | nil => exact Or.inl rfl
          | cons => exact Or.inr (List.mem_cons_of_mem _ (get?_cons_eq_some_iff.1 h.1))
        · exact (t.nested name' dir' hmem).imp_right (List.mem_cons_of_mem _)
      named := by
        intro l hl name' hname'
        rcases List.mem_cons.1 hl with rfl | hl
        · rcases List.mem_cons.1 hname' with rfl | hmem
          · exact h.2.2
          · cases dir with
            | nil => simp at hmem
            | cons => exact t.named _ (List.mem_map_of_mem (get?_cons_eq_some_iff.1 h.1)) name' hmem
        · exact t.named l hl name' hname'
      located := t.located.imp_right (List.mem_cons_of_mem _) }
  else
    t

/-- The new entry is at its location and every other location is as it was. -/
theorem get?_insert {t : Tree} {dir : Location} {name : Bytes} (node : Node)
    (hdir : t.get? dir = some .directory) (hfree : t.get? (name :: dir) = none) (hname : isEntryName name = true)
    (l : Location) : (t.insert dir name node).get? l = if l = name :: dir then some node else t.get? l := by
  rw [insert, dif_pos ⟨hdir, hfree, hname⟩]
  cases l with
  | nil => rfl
  | cons a as =>
    show List.lookup (a :: as) ((name :: dir, node) :: t.entries) = _
    rw [List.lookup_cons]
    by_cases h : a :: as = name :: dir
    · simp [h]
    · rw [beq_eq_false_iff_ne.2 h, if_neg h]
      rfl

@[simp]
theorem cwd_insert (t : Tree) (dir : Location) (name : Bytes) (node : Node) :
    (t.insert dir name node).cwd = t.cwd := by
  unfold insert
  split <;> rfl

/-- A pair with the content of a file replaced, if it is the file at a location. -/
def replaceEntry (l : Location) (content : ByteArray) (e : Location × Node) : Location × Node :=
  (e.1, match e.2 with
    | .file old => .file (if e.1 = l then content else old)
    | node => node)

/-- Replaces the content of the file at a location. The tree stays as it is if there is no file. -/
def replace (t : Tree) (l : Location) (content : ByteArray) : Tree where
  entries := t.entries.map (replaceEntry l content)
  cwd := t.cwd
  distinct := by
    rw [List.map_map]
    exact t.distinct
  nested := by
    intro name dir hmem
    rw [List.map_map] at hmem
    refine (t.nested name dir hmem).imp_right fun hdir => ?_
    exact List.mem_map.2 ⟨_, hdir, rfl⟩
  named := by
    rw [List.map_map]
    exact t.named
  located := t.located.imp_right fun hcwd => List.mem_map.2 ⟨_, hcwd, rfl⟩

/-- The file has the new content and every other location is as it was. -/
theorem get?_replace {t : Tree} {l : Location} {old : ByteArray} (content : ByteArray)
    (hfile : t.get? l = some (.file old)) (l' : Location) :
    (t.replace l content).get? l' = if l' = l then some (.file content) else t.get? l' := by
  cases l' with
  | nil =>
    have : l ≠ [] := by rintro rfl; simp at hfile
    simp [Ne.symm this]
  | cons a as =>
    have look : ∀ entries : List (Location × Node),
        (entries.map (replaceEntry l content)).lookup (a :: as) =
          (entries.lookup (a :: as)).map fun node => (replaceEntry l content (a :: as, node)).2 := by
      intro entries
      induction entries with
      | nil => rfl
      | cons e entries ih =>
        obtain ⟨key, node⟩ := e
        rw [List.map_cons, replaceEntry, List.lookup_cons, List.lookup_cons, ih]
        by_cases hkey : a :: as = key
        · subst hkey
          simp [replaceEntry]
        · simp [beq_eq_false_iff_ne.2 hkey]
    rw [get?_cons, get?_cons]
    refine (look t.entries).trans ?_
    by_cases heq : a :: as = l
    · subst heq
      rw [get?_cons] at hfile
      simp [hfile, replaceEntry]
    · rw [if_neg heq]
      cases t.entries.lookup (a :: as) with
      | none => rfl
      | some node => cases node <;> simp [replaceEntry, heq]

@[simp]
theorem cwd_replace (t : Tree) (l : Location) (content : ByteArray) : (t.replace l content).cwd = t.cwd := rfl

/-- Removes the node at a location and everything below it. The tree stays as it is if the working directory would
go with it. -/
def erase (t : Tree) (l : Location) : Tree :=
  if h : l.isSuffixOf t.cwd then t
  else
    { t with
      entries := t.entries.filter fun e => !l.isSuffixOf e.1
      distinct := t.distinct.sublist (List.filter_sublist.map _)
      nested := by
        intro name dir hmem
        obtain ⟨⟨_, node⟩, he, rfl⟩ := List.mem_map.1 hmem
        rw [List.mem_filter] at he
        refine (t.nested name dir (List.mem_map_of_mem he.1)).imp_right fun hdir => ?_
        -- a directory that goes takes its entries with it
        refine List.mem_filter.2 ⟨hdir, ?_⟩
        simp only [Bool.not_eq_true', Bool.eq_false_iff, ne_eq, List.isSuffixOf_iff_suffix] at he ⊢
        exact fun hsuffix => he.2 (hsuffix.trans (List.suffix_cons name dir))
      named := by
        intro l' hl'
        obtain ⟨e, he, rfl⟩ := List.mem_map.1 hl'
        exact t.named _ (List.mem_map_of_mem (List.mem_filter.1 he).1)
      located := t.located.imp_right fun hcwd => List.mem_filter.2 ⟨hcwd, by simp [h]⟩ }

/-! ## A tree to start from -/

/-- An empty working directory in an otherwise empty tree. -/
def empty : Tree where
  entries := [(["work"], .directory)]
  cwd := ["work"]
  distinct := by decide
  nested := by
    intro name dir hmem
    simp only [List.map_cons, List.map_nil, List.mem_singleton, List.cons.injEq] at hmem
    exact Or.inl hmem.2
  named := by decide
  located := by decide

end Tree

end GetSet
