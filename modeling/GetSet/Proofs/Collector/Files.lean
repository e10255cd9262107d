import GetSet.Collector
import GetSet.Proofs.Path.Extension
import GetSet.Proofs.Tree.Detour
import GetSet.Proofs.Tree.Order

/-!
# The files that are collected

A collector finds the files below a directory whose last name has one of its extensions, each of them once and in order,
and does nothing else than to report them (`collect_exact`). Nothing that stands in the directory makes it fail. It goes
by the names that directories list: it finds a file whose path is too long to reach it, and passes over a directory
whose path is (`not_collects_by_path`).
-/

namespace GetSet

namespace Collector

/-- Collecting finds exactly the files with one of the extensions to which names lead from the directory, through
directories that their paths reach and without coming back to one of them through a link; it finds each of them once, in
the order of the names, and does not fail whatever stands in the tree. Besides it only reports what it finds. -/
theorem collect_exact (c : Collector) {dir : Path} {w : Workspace} (h : w.tree.isDirectory dir = true) :
    (c.collect dir).exec w = (.ok (c.filesBelow w.tree dir), { w with
      journal := w.journal ++ .collecting dir ::
        ((c.filesBelow w.tree dir).map .foundFile ++ [.collected (c.filesBelow w.tree dir).length]) }) ∧
      (∀ p, p ∈ c.filesBelow w.tree dir ↔ ∃ names, p = dir.descend names ∧ w.tree.ReachesFile dir names ∧
        ∃ name, names.getLast? = some name ∧ HasExtension c.extensions name) ∧
      (c.filesBelow w.tree dir).Pairwise Path.Before ∧ (c.filesBelow w.tree dir).Nodup := by
  have hsorted : (c.filesBelow w.tree dir).Pairwise Path.Before := (Tree.pairwise_filesBelow h).filter _
  refine ⟨c.exec_collect h, fun p => ?_, hsorted, hsorted.imp Path.Before.ne⟩
  -- the last name decides whether a file matches
  have hmatches : ∀ {names}, w.tree.ReachesFile dir names →
      ((dir.descend names).matchesExtension c.extensions = true ↔
        ∃ name, names.getLast? = some name ∧ HasExtension c.extensions name) := by
    intro names hnames
    obtain ⟨before, name, rfl⟩ := (List.eq_nil_or_concat' names).resolve_left hnames.ne_nil
    have hname := hnames.entry name (by simp)
    rw [Path.descend_append, List.getLast?_concat]
    exact (Path.matchesExtension_join_iff hname).trans (by simp)
  rw [filesBelow, List.mem_filter, Tree.mem_filesBelow_iff h]
  constructor
  · rintro ⟨⟨names, hnames, rfl⟩, hp⟩
    exact ⟨names, rfl, hnames, (hmatches hnames).1 hp⟩
  · rintro ⟨names, rfl, hnames, hextension⟩
    exact ⟨⟨names, hnames, rfl⟩, (hmatches hnames).2 hextension⟩

/-- A directory with a link to itself, one to another directory, one that leads nowhere and two files. -/
def linkedTree : Tree :=
  ((((((Tree.empty.insert ["work"] "src" .directory).insert ["work"] "other" .directory).insert
    ["src", "work"] "self" (.link ⟨"../src"⟩)).insert
    ["src", "work"] "elsewhere" (.link ⟨"../other"⟩)).insert
    ["src", "work"] "nowhere" (.link ⟨"missing.php"⟩)).insert
    ["src", "work"] "notes.txt" (.file .empty)).insert
    ["other", "work"] "Card.PHP" (.file .empty)

/-- The file in the other directory is found once, by the link to that directory. -/
theorem collect_exact_linked :
    linkedTree.isDirectory ⟨"src"⟩ = true ∧
      (({} : Collector).collect ⟨"src"⟩).exec { tree := linkedTree } = (.ok [⟨"src/elsewhere/Card.PHP"⟩],
        { tree := linkedTree,
          journal := [.collecting ⟨"src"⟩, .foundFile ⟨"src/elsewhere/Card.PHP"⟩, .collected 1] }) ∧
      ∃ names, ⟨"src/elsewhere/Card.PHP"⟩ = Path.descend ⟨"src"⟩ names ∧ linkedTree.ReachesFile ⟨"src"⟩ names := by
  have hdir : linkedTree.isDirectory ⟨"src"⟩ = true := by decide +kernel
  have hfiles : ({} : Collector).filesBelow linkedTree ⟨"src"⟩ = [⟨"src/elsewhere/Card.PHP"⟩] := by decide +kernel
  obtain ⟨hexec, hmem, -, -⟩ := collect_exact {} (w := { tree := linkedTree }) hdir
  rw [hfiles] at hexec hmem
  obtain ⟨names, hnames, hreaches, -⟩ := (hmem _).1 (List.mem_singleton_self _)
  exact ⟨hdir, hexec, names, hnames, hreaches⟩

/-- A directory with a class, and with a directory that has one too. -/
def nestedTree : Tree :=
  (((Tree.empty.insert ["work"] "in" .directory).insert ["in", "work"] "Card.php" (.file .empty)).insert
    ["in", "work"] "sub" .directory).insert ["sub", "in", "work"] "Deck.php" (.file .empty)

/-- A path of the directory that is hardly short enough. -/
def nestedDir : Path :=
  Path.detour ⟨"in"⟩ 2046

theorem length_bytes_nestedDir : nestedDir.bytes.length = 4094 :=
  Path.length_bytes_detour _ _

theorem leadsTo_nestedDir : nestedTree.LeadsTo nestedDir ["in", "work"] :=
  Tree.LeadsTo.detour (by decide +kernel) (by decide +kernel) (length_bytes_nestedDir.trans_lt (by decide))

theorem isDirectory_nestedDir : nestedTree.isDirectory nestedDir = true :=
  Tree.isDirectory_iff.2 ⟨_, leadsTo_nestedDir, by decide +kernel⟩

/-- With one more name of two bytes the path is too long. -/
theorem le_length_join_nestedDir (name : Bytes) (hname : Tree.isEntryName name = true) (htwo : 2 ≤ name.length) :
    Tree.pathLimit ≤ (nestedDir.join ⟨name⟩).bytes.length := by
  have hjoin := (Path.length_join (p := nestedDir) (Path.isPiece_of_isEntryName hname).isAbsolute_eq).1
  rw [length_bytes_nestedDir] at hjoin
  exact (Nat.add_le_add_left htwo 4094).trans hjoin

/-- The walk passes over the directory `sub`. -/
theorem filesBelow_nestedDir :
    ({} : Collector).filesBelow nestedTree nestedDir = [nestedDir.join ⟨"Card.php"⟩] := by
  have hchildren : nestedTree.children ["in", "work"] =
      ([("Card.php", .file .empty), ("sub", .directory)] : List (Bytes × Node)) := by
    decide +kernel
  have hsub := Tree.isDirectory_eq_false_of_long (t := nestedTree)
    (le_length_join_nestedDir "sub" (by decide) (by decide))
  have hwalk : nestedTree.filesBelow nestedDir = [nestedDir.join ⟨"Card.php"⟩] := by
    rw [Tree.filesBelow_eq_walk leadsTo_nestedDir (by decide +kernel), Tree.walk_eq_flatMap, hchildren]
    simp [Tree.walkEntry, hsub]
  have hmatches : (nestedDir.join ⟨"Card.php"⟩).matchesExtension ({} : Collector).extensions = true :=
    (Path.matchesExtension_join_iff (by decide)).2 ⟨"Card", "php", by decide, by decide, by decide, "php", by simp,
      by decide⟩
  rw [filesBelow, hwalk, List.filter_singleton, hmatches, cond_true]

/-- By names the directory has two classes below it, and none of them is reached by its path. One is found. -/
theorem not_collects_by_path :
    nestedTree.LeadsTo nestedDir ["in", "work"] ∧
      nestedTree.get? ["Card.php", "in", "work"] = some (.file .empty) ∧
      nestedTree.get? ["Deck.php", "sub", "in", "work"] = some (.file .empty) ∧
      nestedTree.isFile (nestedDir.join ⟨"Card.php"⟩) = false ∧
      nestedTree.isFile ((nestedDir.join ⟨"sub"⟩).join ⟨"Deck.php"⟩) = false ∧
      ((({} : Collector).collect nestedDir).exec { tree := nestedTree }).1 = .ok [nestedDir.join ⟨"Card.php"⟩] := by
  have hcard := le_length_join_nestedDir "Card.php" (by decide) (by decide)
  have hsub := le_length_join_nestedDir "sub" (by decide) (by decide)
  have hdeck := hsub.trans
    (Nat.le_of_add_right_le (Path.length_join (p := nestedDir.join ⟨"sub"⟩) (q := ⟨"Deck.php"⟩) (by decide)).1)
  have hcollect := ({} : Collector).exec_collect (w := { tree := nestedTree }) isDirectory_nestedDir
  rw [filesBelow_nestedDir] at hcollect
  exact ⟨leadsTo_nestedDir, by decide +kernel, by decide +kernel, Tree.isFile_eq_false_of_long hcard,
    Tree.isFile_eq_false_of_long hdeck, by rw [hcollect]⟩

end Collector

end GetSet
