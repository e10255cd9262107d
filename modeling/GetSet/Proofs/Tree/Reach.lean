import GetSet.Proofs.Tree.Descent
import GetSet.Tree.Walk

/-!
# Walks in trees that have grown

A walk in a tree that has grown finds what it found before and files that are new (`mem_filesBelow_of_grows`), provided
that every link led somewhere before: a link that led nowhere may, once a directory is made, lead to files that were
there all the time. Paths that lead nowhere because they are too long are left aside.
-/

namespace GetSet.Tree

variable {t t' : Tree}

/-- Every link leads to a file or a directory. -/
def LinksResolve (t : Tree) : Prop :=
  ∀ {name : Bytes} {dir : Location} {target : Path}, t.get? (name :: dir) = some (.link target) →
    ∃ l node, t.resolve .look linkLimit false dir [name] = .ok (.occupied l node)

/-- Whether an entry leads to a file or a directory if it is a link. -/
def linkResolves (t : Tree) : Location × Node → Bool
  | (name :: dir, .link _) =>
    match t.resolve .look linkLimit false dir [name] with
    | .ok (.occupied _ _) => true
    | _ => false
  | _ => true

theorem linksResolve_iff : t.LinksResolve ↔ ∀ e ∈ t.entries, t.linkResolves e = true := by
  constructor
  · intro h e he
    obtain ⟨l, node⟩ := e
    cases l with
    | nil => rfl
    | cons name dir =>
      cases node with
      | directory => rfl
      | file content => rfl
      | link target =>
        obtain ⟨l, node, hresolve⟩ := h (get?_cons_eq_some_iff.2 he)
        rw [linkResolves, hresolve]
  · intro h name dir target hlink
    have he := h _ (get?_cons_eq_some_iff.1 hlink)
    rw [linkResolves] at he
    split at he
    · next l node hresolve => exact ⟨l, node, hresolve⟩
    · simp at he

instance : Decidable t.LinksResolve :=
  decidable_of_iff _ linksResolve_iff.symm

/-- Whether there are only directories and files. -/
def hasNoLinks (t : Tree) : Bool :=
  t.entries.all fun e => match e.2 with
    | .link _ => false
    | _ => true

theorem linksResolve_of_hasNoLinks (h : t.hasNoLinks = true) : t.LinksResolve := by
  intro name dir target hlink
  have he := List.all_eq_true.1 h _ (get?_cons_eq_some_iff.1 hlink)
  exact nomatch he

/-- A path leads to a file that was not there before. -/
def LeadsToNew (t t' : Tree) (p : Path) : Prop :=
  ∃ l content, t'.LeadsTo p l ∧ t'.get? l = some (.file content) ∧ ∀ old, t.get? l ≠ some (.file old)

/-! ## Entries of a directory -/

/-- Following the name of an entry. -/
theorem resolve_entry {name : Bytes} (hname : isEntryName name = true) (purpose : Purpose) (links : Nat)
    (dir : Location) :
    t.resolve purpose links false dir [name] =
      match t.get? (name :: dir) with
      | none => .ok (.vacant dir name)
      | some .directory => .ok (.occupied (name :: dir) .directory)
      | some (.file content) => .ok (.occupied (name :: dir) (.file content))
      | some (.link target) =>
        if purpose == .entry then .ok (.occupied (name :: dir) (.link target))
        else followWith t purpose links dir target [] false := by
  obtain ⟨hdot, hdots⟩ := Path.notDots_of_isEntryName hname
  rw [resolve_eq_steps, steps, beq_eq_false_iff_ne.2 hdot, beq_eq_false_iff_ne.2 hdots, hname]
  rcases t.get? (name :: dir) with _ | _ | content | target
  · rfl
  · show steps t purpose (followWith t purpose links) false (name :: dir) [] = _
    rw [steps]
  · rfl
  · rfl

/-- The path of an entry of a directory leads to the entry, unless it is a link or the path cannot be followed. -/
theorem LeadsTo.join {path : Path} {dir : Location} (h : t.LeadsTo path dir) (hdir : t.get? dir = some .directory)
    {name : Bytes} {node : Node} (hnode : t.get? (name :: dir) = some node) (hlink : ∀ target, node ≠ .link target)
    (hfollowable : Followable (path.join ⟨name⟩)) : t.LeadsTo (path.join ⟨name⟩) (name :: dir) := by
  have hname := isEntryName_of_get? hnode
  obtain ⟨links, -, hlocate⟩ := exists_locate_join h hdir .look (Path.isPiece_of_isEntryName hname) hfollowable
  refine ⟨node, ?_⟩
  rw [hlocate, resolve_entry hname, hnode]
  cases node with
  | directory => rfl
  | file content => rfl
  | link target => exact absurd rfl (hlink target)

theorem isFile_iff_leadsTo {p : Path} :
    t.isFile p = true ↔ ∃ l content, t.LeadsTo p l ∧ t.get? l = some (.file content) := by
  rw [isFile_iff]
  constructor
  · rintro ⟨content, hread⟩
    obtain ⟨l, hl⟩ := read_eq_ok_iff.1 hread
    exact ⟨l, content, hl⟩
  · rintro ⟨l, content, hl⟩
    exact ⟨content, read_eq_ok_iff.2 ⟨l, hl⟩⟩

theorem LeadsTo.followable {p : Path} {l : Location} (h : t.LeadsTo p l) : Followable p := by
  obtain ⟨node, hnode⟩ := h
  exact followable_of_locate hnode

/-! ## New directories -/

/-- In a directory that is new everything is new. -/
theorem get?_eq_none_of_new {dir : Location} (hnew : t.get? dir ≠ some .directory) (name : Bytes) :
    t.get? (name :: dir) = none := by
  cases h : t.get? (name :: dir) with
  | none =>
    rfl
  | some node =>
    exact absurd (get?_parent h) hnew

/-- A walk in a directory that is new finds new files only, as far as its paths lead anywhere. -/
theorem leadsToNew_of_mem_walk (hgrows : t.Grows t') {path p : Path} {dir : Location} {seen : List Location}
    (hpath : t'.LeadsTo path dir) (hdir : t'.get? dir = some .directory) (hnew : t.get? dir ≠ some .directory)
    (hp : p ∈ t'.walk path dir seen) (hexists : t'.pathExists p = true) : t.LeadsToNew t' p := by
  obtain ⟨_, hleads⟩ := pathExists_iff.1 hexists
  induction hn : t'.remaining dir seen using Nat.strongRecOn generalizing path dir seen with
  | ind n ih =>
    subst hn
    obtain ⟨name, node, hnode, hp⟩ := mem_walk.1 hp
    have hnone := get?_eq_none_of_new hnew name
    cases node with
    | file content =>
      subst hp
      refine ⟨name :: dir, content, hpath.join hdir hnode (by simp) hleads.followable, hnode, ?_⟩
      simp [hnone]
    | directory =>
      obtain ⟨hsub, hp⟩ := hp
      obtain ⟨_, hleads, -⟩ := isDirectory_iff.1 hsub
      have hinner := hpath.join hdir hnode (by simp) hleads.followable
      exact ih _ (remaining_entry seen hnode) hinner hnode (by simp [hnone]) hp rfl
    | link target =>
      -- links are never new
      rw [hgrows.link.2 hnode] at hnone
      simp at hnone

/-! ## Directories that were there -/

/-- A link leads where it led before. -/
theorem locate_link_of_grows (hgrows : t.Grows t') (hlinks : t.LinksResolve) {path : Path} {dir : Location}
    (hpath : t.LeadsTo path dir) (hdir : t.get? dir = some .directory) {name : Bytes} {target : Path}
    (hnode : t.get? (name :: dir) = some (.link target)) {l : Location} (h : t'.LeadsTo (path.join ⟨name⟩) l) :
    t.LeadsTo (path.join ⟨name⟩) l := by
  have hname := isEntryName_of_get? hnode
  obtain ⟨links, hle, hlocate⟩ := exists_locate_join hpath hdir .look (Path.isPiece_of_isEntryName hname) h.followable
  have hagrees := locate_agrees hgrows .look (path.join ⟨name⟩) (path.join ⟨name⟩).endsInSlash
  rcases resolve_of_le hle false dir [name] with hmany | hsame
  · -- too many links before are too many now
    obtain ⟨node, hl⟩ := h
    rw [hlocate.trans hmany, hl] at hagrees
    simp [Agrees] at hagrees
  · obtain ⟨l', node', hresolve⟩ := hlinks hnode
    have hleads : t.LeadsTo (path.join ⟨name⟩) l' := ⟨node', (hlocate.trans hsame).trans hresolve⟩
    rw [h.unique (hleads.grows hgrows)]
    exact hleads

/-- A walk in a directory that was there finds what it found before, and new files, as far as its paths lead
anywhere. -/
theorem mem_walk_of_grows (hgrows : t.Grows t') (hlinks : t.LinksResolve) {path p : Path} {dir : Location}
    {seen : List Location} (hpath : t.LeadsTo path dir) (hdir : t.get? dir = some .directory)
    (hp : p ∈ t'.walk path dir seen) (hexists : t'.pathExists p = true) :
    p ∈ t.walk path dir seen ∨ t.LeadsToNew t' p := by
  obtain ⟨_, hleads⟩ := pathExists_iff.1 hexists
  induction hn : t'.remaining dir seen using Nat.strongRecOn generalizing path dir seen with
  | ind n ih =>
    subst hn
    obtain ⟨name, node, hnode, hp⟩ := mem_walk.1 hp
    have hpath' := hpath.grows hgrows
    have hdir' := hgrows.directory hdir
    cases node with
    | file content =>
      subst hp
      by_cases hold : ∃ old, t.get? (name :: dir) = some (.file old)
      · obtain ⟨old, hold⟩ := hold
        exact Or.inl (mem_walk.2 ⟨name, .file old, hold, rfl⟩)
      · refine Or.inr ⟨name :: dir, content, hpath'.join hdir' hnode (by simp) hleads.followable, hnode, ?_⟩
        exact fun old hfile => hold ⟨old, hfile⟩
    | directory =>
      obtain ⟨hsub, hp⟩ := hp
      obtain ⟨_, hleads, -⟩ := isDirectory_iff.1 hsub
      by_cases hold : t.get? (name :: dir) = some .directory
      · have hinner := hpath.join hdir hold (by simp) hleads.followable
        refine (ih _ (remaining_entry seen hnode) hinner hold hp rfl).imp_left fun hp => ?_
        exact mem_walk.2 ⟨name, .directory, hold, isDirectory_iff.2 ⟨_, hinner, hold⟩, hp⟩
      · have hinner := hpath'.join hdir' hnode (by simp) hleads.followable
        exact Or.inr (leadsToNew_of_mem_walk hgrows hinner hnode hold hp hexists)
    | link target =>
      have hlink := hgrows.link.2 hnode
      rcases hp with ⟨l, content, hlocate, rfl⟩ | ⟨dir', hlocate, hseen, hp⟩
      · have hl' : t'.get? l = some (.file content) := (locate_holds hlocate).1
        have hleads := locate_link_of_grows hgrows hlinks hpath hdir hlink ⟨_, hlocate⟩
        obtain ⟨node, hlocate⟩ := hleads
        have hl : t.get? l = some node := (locate_holds hlocate).1
        -- what was there is a file, because a directory would still be one
        cases node with
        | file old => exact Or.inl (mem_walk.2 ⟨name, .link target, hlink, Or.inl ⟨l, old, hlocate, rfl⟩⟩)
        | directory =>
          rw [hgrows.directory hl] at hl'
          simp at hl'
        | link target' => exact absurd rfl ((locate_holds hlocate).2 (by decide) target')
      · have hl' : t'.get? dir' = some .directory := (locate_holds hlocate).1
        have hleads := locate_link_of_grows hgrows hlinks hpath hdir hlink ⟨_, hlocate⟩
        obtain ⟨node, hbefore⟩ := hleads
        have hl : t.get? dir' = some node := (locate_holds hbefore).1
        cases node with
        | directory =>
          refine (ih _ (remaining_link hl' hseen) ⟨_, hbefore⟩ hl hp rfl).imp_left fun hp => ?_
          exact mem_walk.2 ⟨name, .link target, hlink, Or.inr ⟨dir', hbefore, hseen, hp⟩⟩
        | file old =>
          obtain ⟨content, hcontent⟩ := hgrows.file hl
          rw [hcontent] at hl'
          simp at hl'
        | link target' => exact absurd rfl ((locate_holds hbefore).2 (by decide) target')

/-- Below a directory that was there are the files that were there before, and new files, as far as their paths lead
anywhere. -/
theorem mem_filesBelow_of_grows (hgrows : t.Grows t') (hlinks : t.LinksResolve) {path p : Path}
    (hdir : t.isDirectory path = true) (hp : p ∈ t'.filesBelow path) (hexists : t'.pathExists p = true) :
    p ∈ t.filesBelow path ∨ t.LeadsToNew t' p := by
  obtain ⟨dir, hleads, hdir⟩ := isDirectory_iff.1 hdir
  have hlocate := hleads.locate_eq hdir
  have hlocate' := (hleads.grows hgrows).locate_eq (hgrows.directory hdir)
  rw [filesBelow, hlocate'] at hp
  rw [filesBelow, hlocate]
  exact mem_walk_of_grows hgrows hlinks hleads hdir hp hexists

end GetSet.Tree
