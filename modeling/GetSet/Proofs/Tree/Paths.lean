import Mathlib.Data.List.Basic
import GetSet.Proofs.Tree.Reach

/-!
# The files that a walk finds

A walk goes down from a directory by names of entries. It finds the files to which names lead through directories that
their paths reach, without coming back: a link on the way does not lead to a directory that was come through before it.
Its paths are those that names lead to in this way (`mem_filesBelow_iff`). Between the two stands `Descends`, which
carries the locations that were come through as the walk does.

A file is found by the name that its directory lists. Its own path may be too long to reach it
(`pathExists_iff_of_mem_filesBelow`).
-/

namespace GetSet

namespace Path

/-- The path that goes further by some names. -/
def descend (p : Path) (names : List Bytes) : Path :=
  names.foldl (fun q name => q.join ⟨name⟩) p

@[simp]
theorem descend_nil (p : Path) : p.descend [] = p := rfl

@[simp]
theorem descend_cons (p : Path) (name : Bytes) (names : List Bytes) :
    p.descend (name :: names) = (p.join ⟨name⟩).descend names := rfl

theorem descend_append (p : Path) (names names' : List Bytes) :
    p.descend (names ++ names') = (p.descend names).descend names' :=
  List.foldl_append

theorem names_descend {p : Path} {names : List Bytes} (h : ∀ name ∈ names, Tree.isEntryName name = true) :
    (p.descend names).names = p.names ++ names := by
  induction names generalizing p with
  | nil => simp
  | cons name names ih =>
    have hname := h name List.mem_cons_self
    have hpiece := isPiece_of_isEntryName hname
    rw [descend_cons, ih fun n hn => h n (List.mem_cons_of_mem name hn), names_join hpiece.isAbsolute_eq,
      hpiece.names_eq, List.append_assoc, List.singleton_append]

end Path

namespace Tree

variable {t : Tree} {path : Path} {dir : Location} {seen : List Location}

/-! ## Paths by names -/

/-- An entry of the directory that a path leads to is a link. -/
def IsLinkIn (t : Tree) (path : Path) (name : Bytes) : Prop :=
  ∃ dir target, t.LeadsTo path dir ∧ t.get? (name :: dir) = some (.link target)

/-- The names `before` and `name` lead to a directory, the last one through a link. -/
structure LinkTo (t : Tree) (path : Path) (before : List Bytes) (name : Bytes) (l : Location) : Prop where
  isLinkIn : t.IsLinkIn (path.descend before) name
  leadsTo : t.LeadsTo (path.descend (before ++ [name])) l
  directory : t.get? l = some .directory

/-- An entry of a directory is a file, or a link by whose path a file is reached. The path of a file may be too long to
reach it. -/
def IsFileEntry (t : Tree) (path : Path) (dir : Location) (name : Bytes) : Prop :=
  (∃ content, t.get? (name :: dir) = some (.file content)) ∨
    ∃ target, t.get? (name :: dir) = some (.link target) ∧ t.isFile (path.join ⟨name⟩) = true

/-- An entry of the directory that a path leads to is a file, or a link by whose path a file is reached. -/
def IsFileIn (t : Tree) (path : Path) (name : Bytes) : Prop :=
  ∃ dir, t.LeadsTo path dir ∧ t.IsFileEntry path dir name

/-- Names lead from a directory through directories to a file, and no link on the way comes back to a directory that
fewer names lead to. -/
structure ReachesFile (t : Tree) (path : Path) (names : List Bytes) : Prop where
  ne_nil : names ≠ []
  entry : ∀ name ∈ names, isEntryName name = true
  directory : ∀ before, before <+: names → before ≠ names → t.isDirectory (path.descend before) = true
  file : ∀ before name, before ++ [name] = names → t.IsFileIn (path.descend before) name
  noReturn : ∀ before name l, before ++ [name] <+: names → t.LinkTo path before name l →
    ∀ earlier, earlier <+: before → ¬ t.LeadsTo (path.descend earlier) l

/-- No link on the way leads to one of some locations. -/
def Avoids (t : Tree) (path : Path) (seen : List Location) (names : List Bytes) : Prop :=
  ∀ before name l, before ++ [name] <+: names → t.LinkTo path before name l → l ∉ seen

theorem linkTo_cons {name n : Bytes} {before : List Bytes} {l : Location} :
    t.LinkTo path (name :: before) n l ↔ t.LinkTo (path.join ⟨name⟩) before n l :=
  ⟨fun h => ⟨h.isLinkIn, h.leadsTo, h.directory⟩, fun h => ⟨h.isLinkIn, h.leadsTo, h.directory⟩⟩

/-! ## Entries by path -/

/-- What a name leads to in a directory is one of its entries, and the entry itself if that is no link. -/
theorem exists_entry (hpath : t.LeadsTo path dir) (hdir : t.get? dir = some .directory) {name : Bytes}
    (hname : isEntryName name = true) {l : Location} (h : t.LeadsTo (path.join ⟨name⟩) l) :
    ∃ node, t.get? (name :: dir) = some node ∧ ((∃ target, node = .link target) ∨ l = name :: dir) := by
  obtain ⟨links, -, hlocate⟩ := exists_locate_join hpath hdir .look (Path.isPiece_of_isEntryName hname) h.followable
  obtain ⟨node, hnode⟩ := h
  rw [hlocate, resolve_entry hname] at hnode
  rcases hentry : t.get? (name :: dir) with _ | _ | content | target
  · rw [hentry] at hnode
    simp at hnode
  · rw [hentry] at hnode
    simp only [Except.ok.injEq, Place.occupied.injEq] at hnode
    exact ⟨_, rfl, .inr hnode.1.symm⟩
  · rw [hentry] at hnode
    simp only [Except.ok.injEq, Place.occupied.injEq] at hnode
    exact ⟨_, rfl, .inr hnode.1.symm⟩
  · exact ⟨_, rfl, .inl ⟨target, rfl⟩⟩

theorem IsFileEntry.isEntryName {name : Bytes} (h : t.IsFileEntry path dir name) : isEntryName name = true := by
  rcases h with ⟨content, hfile⟩ | ⟨target, hlink, -⟩
  · exact isEntryName_of_get? hfile
  · exact isEntryName_of_get? hlink

/-- A path that leads to a file leads to no directory. -/
theorem not_directory_of_isFile (h : t.isFile path = true) {l : Location} (hl : t.LeadsTo path l) :
    t.get? l ≠ some .directory := by
  obtain ⟨l', content, hl', hfile⟩ := isFile_iff_leadsTo.1 h
  rw [hl.unique hl', hfile]
  simp

/-- What is a file is no link to a directory. -/
theorem IsFileIn.not_linkTo {before : List Bytes} {name : Bytes} {l : Location}
    (h : t.IsFileIn (path.descend before) name) : ¬ t.LinkTo path before name l := by
  intro hlink
  obtain ⟨dir, hpath, ⟨content, hfile⟩ | ⟨-, -, hfile⟩⟩ := h
  · obtain ⟨dir', target, hpath', htarget⟩ := hlink.isLinkIn
    rw [hpath'.unique hpath, hfile] at htarget
    simp at htarget
  · have hleads := hlink.leadsTo
    rw [Path.descend_append] at hleads
    exact not_directory_of_isFile hfile hleads hlink.directory

/-! ## Descents -/

/-- Names lead from the directory at a location down to a file. The locations that were come through grow by one with
each name, and no link leads to one of them. -/
inductive Descends (t : Tree) : Path → Location → List Location → List Bytes → Prop
  | file {path : Path} {dir : Location} {seen : List Location} {name : Bytes} (hfile : t.IsFileEntry path dir name) :
      t.Descends path dir seen [name]
  | inner {path : Path} {dir dir' : Location} {seen : List Location} {name : Bytes} {names : List Bytes}
      (hname : isEntryName name = true) (hleads : t.LeadsTo (path.join ⟨name⟩) dir')
      (hdir : t.get? dir' = some .directory)
      (hfresh : ∀ target, t.get? (name :: dir) = some (.link target) → dir' ∉ seen)
      (hrest : t.Descends (path.join ⟨name⟩) dir' (dir' :: seen) names) : t.Descends path dir seen (name :: names)

theorem Descends.entry {names : List Bytes} (h : t.Descends path dir seen names) :
    ∀ name ∈ names, isEntryName name = true := by
  induction h with
  | file hfile => simpa using hfile.isEntryName
  | inner hname _ _ _ _ ih => exact List.forall_mem_cons.2 ⟨hname, ih⟩

/-- A walk goes through the entries of a directory one by one. -/
theorem walk_eq_flatMap : t.walk path dir seen = (t.children dir).flatMap (t.walkEntry path dir seen) := by
  conv_rhs => rw [← List.attach_map_subtype_val (t.children dir), List.flatMap_map]
  rw [walk]
  refine List.flatMap_congr ?_
  rintro ⟨⟨name, node⟩, hmem⟩ -
  cases node with
  | file content => rfl
  | directory => rfl
  | link target =>
    dsimp only [walkEntry]
    split
    · next h => rw [h]
    · next h =>
      rw [h]
      rfl
    · next hfile hdirectory =>
      split
      · next h => exact absurd h (hfile _ _)
      · next h => exact absurd h (hdirectory _)
      · rfl

/-- What is found in an entry has the name of the entry first. -/
theorem exists_descends_of_mem_walkEntry {p : Path} (hpath : t.LeadsTo path dir)
    (hdir : t.get? dir = some .directory) {name : Bytes} {node : Node} (hnode : t.get? (name :: dir) = some node)
    (hp : p ∈ t.walkEntry path dir seen (name, node)) :
    ∃ names, t.Descends path dir seen (name :: names) ∧ p = path.descend (name :: names) := by
  induction hn : t.remaining dir seen using Nat.strongRecOn generalizing path dir seen name node with
  | ind n ih =>
    subst hn
    have hname := isEntryName_of_get? hnode
    -- what is found in a directory is found in one of its entries
    have hwalk : ∀ {dir'}, t.remaining dir' (dir' :: seen) < t.remaining dir seen →
        t.LeadsTo (path.join ⟨name⟩) dir' → t.get? dir' = some .directory →
        (∀ target, t.get? (name :: dir) = some (.link target) → dir' ∉ seen) →
        p ∈ t.walk (path.join ⟨name⟩) dir' (dir' :: seen) →
        ∃ names, t.Descends path dir seen (name :: names) ∧ p = path.descend (name :: names) := by
      intro dir' hlt hleads hdir' hfresh hp
      rw [walk_eq_flatMap, List.mem_flatMap] at hp
      obtain ⟨⟨name', node'⟩, hmem, hp⟩ := hp
      obtain ⟨names, hnames, rfl⟩ := ih _ hlt hleads hdir' (mem_children.1 hmem) hp rfl
      exact ⟨name' :: names, .inner hname hleads hdir' hfresh hnames, rfl⟩
    cases node with
    | file content => exact ⟨[], .file (.inl ⟨content, hnode⟩), List.mem_singleton.1 hp⟩
    | directory =>
      simp only [walkEntry] at hp
      split at hp
      · next hsub =>
        obtain ⟨_, hleads, -⟩ := isDirectory_iff.1 hsub
        have hinner := hpath.join hdir hnode (by simp) hleads.followable
        exact hwalk (remaining_entry seen hnode) hinner hnode (by simp [hnode]) hp
      · simp at hp
    | link target =>
      simp only [walkEntry] at hp
      split at hp
      · next l content hlocate =>
        obtain rfl := List.mem_singleton.1 hp
        have hfile := isFile_iff_leadsTo.2 ⟨l, content, ⟨_, hlocate⟩, (locate_holds hlocate).1⟩
        exact ⟨[], .file (.inr ⟨target, hnode, hfile⟩), rfl⟩
      · next dir' hlocate =>
        have hdir' : t.get? dir' = some .directory := (locate_holds hlocate).1
        split at hp
        · simp at hp
        · next hseen => exact hwalk (remaining_link hdir' hseen) ⟨_, hlocate⟩ hdir' (fun _ _ => hseen) hp
      · simp at hp

theorem Descends.mem_walk {names : List Bytes} (h : t.Descends path dir seen names) (hpath : t.LeadsTo path dir)
    (hdir : t.get? dir = some .directory) : path.descend names ∈ t.walk path dir seen := by
  induction h with
  | @file path dir seen name hfile =>
    rw [Tree.mem_walk]
    rcases hfile with ⟨content, hfile⟩ | ⟨target, hlink, hfile⟩
    · exact ⟨name, .file content, hfile, rfl⟩
    · obtain ⟨l, content, hleads, hl⟩ := isFile_iff_leadsTo.1 hfile
      exact ⟨name, .link target, hlink, .inl ⟨l, content, hleads.locate_eq hl, rfl⟩⟩
  | @inner path dir dir' seen name names hname hleads hdir' hfresh _ ih =>
    obtain ⟨node, hnode, hentry⟩ := exists_entry hpath hdir hname hleads
    rw [Tree.mem_walk]
    refine ⟨name, node, hnode, ?_⟩
    rcases hentry with ⟨target, rfl⟩ | rfl
    · exact .inr ⟨dir', hleads.locate_eq hdir', hfresh target hnode, ih hleads hdir'⟩
    · obtain rfl := Option.some.inj (hnode.symm.trans hdir')
      exact ⟨isDirectory_iff.2 ⟨_, hleads, hdir'⟩, ih hleads hdir'⟩

/-! ## Descents by paths -/

theorem Descends.reachesFile {names : List Bytes} (h : t.Descends path dir seen names) (hpath : t.LeadsTo path dir)
    (hdir : t.get? dir = some .directory) (hseen : dir ∈ seen) :
    t.ReachesFile path names ∧ t.Avoids path seen names := by
  have hhere : ∀ {path dir}, t.LeadsTo path dir → t.get? dir = some .directory → t.isDirectory path = true :=
    fun hpath hdir => isDirectory_iff.2 ⟨_, hpath, hdir⟩
  induction h with
  | @file path dir seen name hfile =>
    have hentry : ∀ before n, before ++ [n] <+: [name] → t.IsFileIn (path.descend before) n := by
      intro before n hprefix
      obtain ⟨rfl, rfl⟩ : before = [] ∧ n = name := by
        cases before with
        | nil => simpa using hprefix
        | cons => simp at hprefix
      exact ⟨dir, hpath, hfile⟩
    have hnoLink : ∀ before n l, before ++ [n] <+: [name] → ¬ t.LinkTo path before n l :=
      fun before n l hprefix => (hentry before n hprefix).not_linkTo
    refine ⟨⟨by simp, by simpa using hfile.isEntryName, ?_, fun before n heq => ?_,
      fun before n l hprefix hlink => absurd hlink (hnoLink before n l hprefix)⟩,
      fun before n l hprefix hlink => absurd hlink (hnoLink before n l hprefix)⟩
    rotate_left
    · exact hentry before n ⟨[], (List.append_nil _).trans heq⟩
    intro before hprefix hne
    rcases List.prefix_cons_iff.1 hprefix with rfl | ⟨rest, rfl, hrest⟩
    · exact hhere hpath hdir
    · exact absurd (by rw [List.prefix_nil.1 hrest]) hne
  | @inner path dir dir' seen name names hname hleads hdir' hfresh hdescends ih =>
    obtain ⟨hreaches, havoids⟩ := ih hleads hdir' List.mem_cons_self
    -- a link on the way is the first name, or it comes later
    have hcases : ∀ before n l, before ++ [n] <+: name :: names → t.LinkTo path before n l →
        before = [] ∧ l ∉ seen ∨
          ∃ rest, before = name :: rest ∧ rest ++ [n] <+: names ∧ t.LinkTo (path.join ⟨name⟩) rest n l := by
      intro before n l hprefix hlink
      cases before with
      | nil =>
        obtain rfl : n = name := by simpa using hprefix
        obtain ⟨dir'', target, hleads'', htarget⟩ := hlink.isLinkIn
        rw [hleads''.unique hpath] at htarget
        rw [hlink.leadsTo.unique hleads]
        exact .inl ⟨rfl, hfresh target htarget⟩
      | cons m rest =>
        obtain ⟨rfl, hrest⟩ := List.cons_prefix_cons.1 hprefix
        exact .inr ⟨rest, rfl, hrest, linkTo_cons.1 hlink⟩
    refine ⟨⟨by simp, ?_, ?_, ?_, ?_⟩, ?_⟩
    · exact List.forall_mem_cons.2 ⟨hname, hdescends.entry⟩
    · intro before hprefix hne
      rcases List.prefix_cons_iff.1 hprefix with rfl | ⟨rest, rfl, hrest⟩
      · exact hhere hpath hdir
      · exact hreaches.directory rest hrest fun heq => hne (by rw [heq])
    · intro before n heq
      cases before with
      | nil => exact absurd (List.cons.inj heq).2.symm hreaches.ne_nil
      | cons m rest =>
        obtain ⟨rfl, hrest⟩ := List.cons.inj heq
        exact hreaches.file rest n hrest
    · intro before n l hprefix hlink earlier hearlier hl
      rcases hcases before n l hprefix hlink with ⟨rfl, hfree⟩ | ⟨rest, rfl, hrest, hlink⟩
      · rw [List.prefix_nil.1 hearlier] at hl
        exact hfree (hl.unique hpath ▸ hseen)
      · rcases List.prefix_cons_iff.1 hearlier with rfl | ⟨earlier', rfl, hearlier'⟩
        · exact havoids rest n l hrest hlink (List.mem_cons_of_mem _ (hl.unique hpath ▸ hseen))
        · exact hreaches.noReturn rest n l hrest hlink earlier' hearlier' hl
    · intro before n l hprefix hlink
      rcases hcases before n l hprefix hlink with ⟨rfl, hfree⟩ | ⟨rest, rfl, hrest, hlink⟩
      · exact hfree
      · exact fun hmem => havoids rest n l hrest hlink (List.mem_cons_of_mem _ hmem)

theorem ReachesFile.descends {names : List Bytes} (h : t.ReachesFile path names) (hpath : t.LeadsTo path dir)
    (havoids : t.Avoids path seen names) : t.Descends path dir seen names := by
  induction names generalizing path dir seen with
  | nil => exact absurd rfl h.ne_nil
  | cons name rest ih =>
    have hname := h.entry name List.mem_cons_self
    by_cases hrest : rest = []
    · subst hrest
      obtain ⟨dir', hpath', hfile⟩ := h.file [] name rfl
      exact .file (hpath.unique hpath' ▸ hfile)
    · obtain ⟨dir', hleads, hdir'⟩ := isDirectory_iff.1
        (h.directory [name] (by simp) fun heq => hrest (List.cons.inj heq).2.symm)
      have hfresh : ∀ target, t.get? (name :: dir) = some (.link target) → dir' ∉ seen := fun target htarget =>
        havoids [] name dir' (by simp) ⟨⟨dir, target, hpath, htarget⟩, hleads, hdir'⟩
      refine .inner hname hleads hdir' hfresh (ih ?_ hleads ?_)
      · refine ⟨hrest, fun n hn => h.entry n (List.mem_cons_of_mem name hn), ?_,
          fun before n heq => h.file (name :: before) n (congrArg _ heq), ?_⟩
        · exact fun before hprefix hne => h.directory (name :: before) (List.cons_prefix_cons.2 ⟨rfl, hprefix⟩)
            fun heq => hne (List.cons.inj heq).2
        · exact fun before n l hprefix hlink earlier hearlier =>
            h.noReturn (name :: before) n l (List.cons_prefix_cons.2 ⟨rfl, hprefix⟩) (linkTo_cons.2 hlink)
              (name :: earlier) (List.cons_prefix_cons.2 ⟨rfl, hearlier⟩)
      · intro before n l hprefix hlink hmem
        have hprefix' : name :: before ++ [n] <+: name :: rest := List.cons_prefix_cons.2 ⟨rfl, hprefix⟩
        rcases List.mem_cons.1 hmem with rfl | hmem
        · exact h.noReturn (name :: before) n l hprefix' (linkTo_cons.2 hlink) [name] (by simp) hleads
        · exact havoids (name :: before) n l hprefix' (linkTo_cons.2 hlink) hmem

theorem reachesFile_iff_descends (hpath : t.LeadsTo path dir) (hdir : t.get? dir = some .directory)
    {names : List Bytes} : t.ReachesFile path names ↔ t.Descends path dir [dir] names := by
  refine ⟨fun h => h.descends hpath ?_, fun h => (h.reachesFile hpath hdir List.mem_cons_self).1⟩
  intro before name l hprefix hlink hmem
  obtain rfl := List.mem_singleton.1 hmem
  exact h.noReturn before name l hprefix hlink [] List.nil_prefix hpath

theorem filesBelow_eq_walk (hpath : t.LeadsTo path dir) (hdir : t.get? dir = some .directory) :
    t.filesBelow path = t.walk path dir [dir] := by
  rw [filesBelow, hpath.locate_eq hdir]

/-- The files below a directory are those that names lead to without coming back. -/
theorem mem_filesBelow_iff (h : t.isDirectory path = true) {p : Path} :
    p ∈ t.filesBelow path ↔ ∃ names, t.ReachesFile path names ∧ p = path.descend names := by
  obtain ⟨dir, hpath, hdir⟩ := isDirectory_iff.1 h
  rw [filesBelow_eq_walk hpath hdir]
  constructor
  · intro hp
    rw [walk_eq_flatMap, List.mem_flatMap] at hp
    obtain ⟨⟨name, node⟩, hmem, hp⟩ := hp
    obtain ⟨names, hnames, rfl⟩ := exists_descends_of_mem_walkEntry hpath hdir (mem_children.1 hmem) hp
    exact ⟨name :: names, (reachesFile_iff_descends hpath hdir).2 hnames, rfl⟩
  · rintro ⟨names, hnames, rfl⟩
    exact ((reachesFile_iff_descends hpath hdir).1 hnames).mem_walk hpath hdir

/-! ## Files that their paths reach -/

/-- A file that is listed in a directory is reached by its path, unless that is too long. -/
theorem IsFileIn.reached_iff {name : Bytes} (h : t.IsFileIn path name) (hdir : t.isDirectory path = true) :
    t.pathExists (path.join ⟨name⟩) = true ↔ (path.join ⟨name⟩).bytes.length < pathLimit := by
  refine ⟨fun hexists => ?_, fun hshort => ?_⟩
  · obtain ⟨l, node, hlocate⟩ := pathExists_iff.1 hexists
    exact (followable_of_locate hlocate).short
  · obtain ⟨dir, hpath, hentry⟩ := h
    rcases hentry with ⟨content, hfile⟩ | ⟨-, -, hfile⟩
    · obtain ⟨dir', hpath', hdir'⟩ := isDirectory_iff.1 hdir
      obtain rfl := hpath.unique hpath'
      have hfollowable := hpath.followable.join (isEntryName_of_get? hfile) hshort
      exact pathExists_iff.2 ⟨_, hpath.join hdir' hfile (by simp) hfollowable⟩
    · obtain ⟨l, _, hleads, -⟩ := isFile_iff_leadsTo.1 hfile
      exact pathExists_iff.2 ⟨l, hleads⟩

/-- A file that a walk finds is reached by its path, unless that is too long. -/
theorem pathExists_iff_of_mem_filesBelow (h : t.isDirectory path = true) {p : Path} (hp : p ∈ t.filesBelow path) :
    t.pathExists p = true ↔ p.bytes.length < pathLimit := by
  obtain ⟨names, hnames, rfl⟩ := (mem_filesBelow_iff h).1 hp
  obtain ⟨before, name, rfl⟩ := (List.eq_nil_or_concat' names).resolve_left hnames.ne_nil
  rw [Path.descend_append]
  exact (hnames.file before name rfl).reached_iff (hnames.directory before (List.prefix_append _ _) (by simp))

end Tree

end GetSet
