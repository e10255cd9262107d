import GetSet.Proofs.Tree.Order

/-!
# Files that are found again

A walk in a tree that has grown finds again what it found before (`filesBelow_subset_of_grows`), and what it finds
besides is new. Because both walks are in order, the files that are not new come in the same order
(`filter_filesBelow_of_grows`).
-/

namespace GetSet

theorem Path.Before.asymm {p q : Path} (h : p.Before q) : ¬ q.Before p :=
  List.lex_asymm (fun hlt hlt' => List.lt_asymm hlt hlt') h

namespace Tree

variable {t t' : Tree} {path : Path}

/-! ## Names that lead on -/

theorem Grows.isDirectory (h : t.Grows t') {p : Path} (hp : t.isDirectory p = true) : t'.isDirectory p = true := by
  obtain ⟨l, hleads, hl⟩ := isDirectory_iff.1 hp
  exact isDirectory_iff.2 ⟨l, hleads.grows h, h.directory hl⟩

theorem Grows.isFile (h : t.Grows t') {p : Path} (hp : t.isFile p = true) : t'.isFile p = true := by
  obtain ⟨l, content, hleads, hl⟩ := isFile_iff_leadsTo.1 hp
  obtain ⟨content', hl'⟩ := h.file hl
  exact isFile_iff_leadsTo.2 ⟨l, content', hleads.grows h, hl'⟩

/-- What a path leads to stays a directory or a file. -/
theorem Grows.isDirectory_eq (h : t.Grows t') {p : Path} (hp : t.pathExists p = true) :
    t'.isDirectory p = t.isDirectory p := by
  obtain ⟨l, node, hnode⟩ := pathExists_iff.1 hp
  have hl : t.get? l = some node := (locate_holds hnode).1
  have hleads : t.LeadsTo p l := ⟨node, hnode⟩
  cases node with
  | directory =>
    have hdir : t.isDirectory p = true := isDirectory_iff.2 ⟨l, hleads, hl⟩
    rw [hdir, h.isDirectory hdir]
  | file content =>
    have hfile : t.isFile p = true := isFile_iff_leadsTo.2 ⟨l, content, hleads, hl⟩
    have hnone : ∀ {s : Tree}, s.isFile p = true → s.isDirectory p = false := by
      intro s hs
      rw [Bool.eq_false_iff]
      intro hdir
      obtain ⟨l', hl', hdir⟩ := isDirectory_iff.1 hdir
      exact not_directory_of_isFile hs hl' hdir
    rw [hnone hfile, hnone (h.isFile hfile)]
  | link target => exact absurd rfl ((locate_holds hnode).2 (by decide) target)

/-- What is listed as a file in a directory stays one. -/
theorem IsFileIn.grows {name : Bytes} (h : t.IsFileIn path name) (hgrows : t.Grows t') : t'.IsFileIn path name := by
  obtain ⟨dir, hpath, ⟨content, hfile⟩ | ⟨target, hlink, hfile⟩⟩ := h
  · obtain ⟨content', hfile'⟩ := hgrows.file hfile
    exact ⟨dir, hpath.grows hgrows, .inl ⟨content', hfile'⟩⟩
  · exact ⟨dir, hpath.grows hgrows, .inr ⟨target, hgrows.link.1 hlink, hgrows.isFile hfile⟩⟩

namespace ReachesFile

variable {names : List Bytes}

/-- The names on the way to a file lead where they led before the tree has grown. -/
theorem leadsTo_of_grows (h : t.ReachesFile path names) (hgrows : t.Grows t') {before : List Bytes}
    (hbefore : before <+: names) (hne : before ≠ names) {l : Location} (hl : t'.LeadsTo (path.descend before) l) :
    t.LeadsTo (path.descend before) l := by
  obtain ⟨l', hleads, -⟩ := isDirectory_iff.1 (h.directory before hbefore hne)
  rw [hl.unique (hleads.grows hgrows)]
  exact hleads

/-- A link on the way that leads to a directory has led there before the tree has grown. -/
theorem linkTo_of_grows (h : t.ReachesFile path names) (hgrows : t.Grows t') {before : List Bytes} {name : Bytes}
    {l : Location} (hnames : before ++ [name] <+: names) (hlink : t'.LinkTo path before name l) :
    t.LinkTo path before name l := by
  have hbefore : before <+: names := (List.prefix_append before [name]).trans hnames
  have hne : before ++ [name] ≠ names := fun heq => ((h.file before name heq).grows hgrows).not_linkTo hlink
  have hne' : before ≠ names := by
    rintro rfl
    exact absurd hnames.length_le (by simp)
  obtain ⟨dir, target, hleads, htarget⟩ := hlink.isLinkIn
  refine ⟨⟨dir, target, h.leadsTo_of_grows hgrows hbefore hne' hleads, hgrows.link.2 htarget⟩,
    h.leadsTo_of_grows hgrows hnames hne hlink.leadsTo, ?_⟩
  obtain ⟨l', hleads', hdir⟩ := isDirectory_iff.1 (h.directory _ hnames hne)
  rw [(h.leadsTo_of_grows hgrows hnames hne hlink.leadsTo).unique hleads']
  exact hdir

/-- Names that reach a file still do in a tree that has grown. -/
theorem grows (h : t.ReachesFile path names) (hgrows : t.Grows t') : t'.ReachesFile path names where
  ne_nil := h.ne_nil
  entry := h.entry
  directory before hnames hne := hgrows.isDirectory (h.directory before hnames hne)
  file before name heq := (h.file before name heq).grows hgrows
  noReturn before name l hnames hlink earlier hearlier hl := by
    have hbefore : before <+: names := (List.prefix_append before [name]).trans hnames
    have hne : earlier ≠ names := by
      rintro rfl
      exact absurd (hnames.trans hearlier).length_le (by simp)
    exact h.noReturn before name l hnames (h.linkTo_of_grows hgrows hnames hlink) earlier hearlier
      (h.leadsTo_of_grows hgrows (hearlier.trans hbefore) hne hl)

end ReachesFile

/-! ## Walks -/

/-- The files below a directory are still there when the tree has grown. -/
theorem filesBelow_subset_of_grows (hgrows : t.Grows t') (hdir : t.isDirectory path = true) :
    t.filesBelow path ⊆ t'.filesBelow path := by
  intro p hp
  obtain ⟨names, hnames, rfl⟩ := (mem_filesBelow_iff hdir).1 hp
  exact (mem_filesBelow_iff (hgrows.isDirectory hdir)).2 ⟨names, hnames.grows hgrows, rfl⟩

/-- Below a directory that was there, the files that are not new come as they came before, if all their paths lead
somewhere. -/
theorem filter_filesBelow_of_grows (hgrows : t.Grows t') (hlinks : t.LinksResolve) (hdir : t.isDirectory path = true)
    {keep : Path → Bool} (hnew : ∀ p, t.LeadsToNew t' p → keep p = false)
    (hexist : ∀ p ∈ t'.filesBelow path, keep p = true → t'.pathExists p = true) :
    (t'.filesBelow path).filter keep = (t.filesBelow path).filter keep := by
  have hsorted := (pairwise_filesBelow hdir).filter keep
  have hsorted' := (pairwise_filesBelow (hgrows.isDirectory hdir)).filter keep
  refine List.Perm.eq_of_pairwise (fun _ _ _ _ h h' => absurd h' h.asymm) hsorted' hsorted ?_
  refine (List.perm_ext_iff_of_nodup (hsorted'.imp Path.Before.ne) (hsorted.imp Path.Before.ne)).2 fun p => ?_
  rw [List.mem_filter, List.mem_filter]
  constructor
  · rintro ⟨hp, hkeep⟩
    refine ⟨(mem_filesBelow_of_grows hgrows hlinks hdir hp (hexist p hp hkeep)).resolve_right fun h => ?_, hkeep⟩
    rw [hnew p h] at hkeep
    simp at hkeep
  · rintro ⟨hp, hkeep⟩
    exact ⟨filesBelow_subset_of_grows hgrows hdir hp, hkeep⟩

end Tree

end GetSet
