import Mathlib.Data.List.Lex
import GetSet.Proofs.Tree.Paths

/-!
# The order of a walk

Paths are ordered name by name, and names as their bytes are (`Path.Before`). The entries of a directory come in the
order of their names, and what is found in an entry has its name where paths into other entries have theirs. So all that
a walk finds is in order (`pairwise_filesBelow`), although only the entries of single directories are sorted.
-/

namespace GetSet

namespace Path

/-- Where the names of two paths first differ the bytes of the name in the first one are less, or the first one ends. -/
def Before (p q : Path) : Prop :=
  List.Lex (fun name name' : Bytes => name < name') p.names q.names

theorem Before.ne {p q : Path} (h : p.Before q) : p ≠ q := by
  rintro rfl
  exact List.lex_irrefl (fun name : Bytes => List.lt_irrefl name) _ h

/-- Of two paths that go different ways from a directory the one with the lesser name comes first. -/
theorem before_descend {p : Path} {name name' : Bytes} {names names' : List Bytes} (hlt : name < name')
    (h : ∀ n ∈ name :: names, Tree.isEntryName n = true) (h' : ∀ n ∈ name' :: names', Tree.isEntryName n = true) :
    (p.descend (name :: names)).Before (p.descend (name' :: names')) := by
  have hnames : List.Lex (fun n n' : Bytes => n < n') (name :: names) (name' :: names') := .rel hlt
  rw [Before, names_descend h, names_descend h']
  exact List.Lex.append_left _ hnames p.names

end Path

namespace Tree

variable {t : Tree} {path : Path} {dir : Location} {seen : List Location}

/-! ## The entries of a directory -/

theorem pairwise_insertByName {e : Bytes × Node} {es : List (Bytes × Node)} (h : es.Pairwise fun e f => e.1 < f.1)
    (hne : ∀ f ∈ es, e.1 ≠ f.1) : (insertByName e es).Pairwise fun e f => e.1 < f.1 := by
  induction es with
  | nil => simp [insertByName]
  | cons f es ih =>
    rw [List.pairwise_cons] at h
    rw [insertByName]
    split
    · next hle =>
      have hlt : e.1 < f.1 := (List.le_iff_lt_or_eq.1 hle).resolve_right (hne f List.mem_cons_self)
      refine List.pairwise_cons.2 ⟨fun g hg => ?_, List.pairwise_cons.2 h⟩
      rcases List.mem_cons.1 hg with rfl | hg
      · exact hlt
      · exact List.lt_trans hlt (h.1 g hg)
    · next hle =>
      refine List.pairwise_cons.2 ⟨fun g hg => ?_, ih h.2 fun g hg => hne g (List.mem_cons_of_mem f hg)⟩
      rcases mem_insertByName.1 hg with rfl | hg
      · exact List.not_le.1 hle
      · exact h.1 g hg

/-- No two entries of a directory have one name. -/
theorem pairwise_ne_childOf? (t : Tree) (dir : Location) :
    (t.entries.filterMap (childOf? dir)).Pairwise fun e f => e.1 ≠ f.1 := by
  rw [List.pairwise_filterMap]
  refine (List.pairwise_map.1 t.distinct).imp ?_
  rintro ⟨l, node⟩ ⟨l', node'⟩ hne e he f hf
  cases l with
  | nil => simp [childOf?] at he
  | cons name above =>
    cases l' with
    | nil => simp [childOf?] at hf
    | cons name' above' =>
      simp only [childOf?, Option.ite_none_right_eq_some, Option.some.injEq] at he hf
      obtain ⟨habove, rfl⟩ := he
      obtain ⟨habove', rfl⟩ := hf
      rintro rfl
      exact hne (by rw [habove, habove'])

/-- The entries of a directory come in the order of their names. -/
theorem pairwise_children (t : Tree) (dir : Location) : (t.children dir).Pairwise fun e f => e.1 < f.1 := by
  have hne := pairwise_ne_childOf? t dir
  rw [children]
  generalize t.entries.filterMap (childOf? dir) = es at hne
  induction es with
  | nil => exact .nil
  | cons e es ih =>
    rw [List.pairwise_cons] at hne
    exact pairwise_insertByName (ih hne.2) fun f hf => hne.1 f (mem_foldr_insertByName.1 hf)

/-! ## The walk -/

/-- A walk is in order: within an entry of a directory, and from one entry to the next. -/
theorem pairwise_walk (hpath : t.LeadsTo path dir) (hdir : t.get? dir = some .directory) :
    (t.walk path dir seen).Pairwise Path.Before := by
  induction hn : t.remaining dir seen using Nat.strongRecOn generalizing path dir seen with
  | ind n ih =>
    subst hn
    rw [walk_eq_flatMap, List.pairwise_flatMap]
    refine ⟨?_, (t.pairwise_children dir).imp_of_mem ?_⟩
    · rintro ⟨name, node⟩ hmem
      have hnode := mem_children.1 hmem
      cases node with
      | file content => exact List.pairwise_singleton _ _
      | directory =>
        simp only [walkEntry]
        split
        · next hsub =>
          obtain ⟨_, hleads, -⟩ := isDirectory_iff.1 hsub
          exact ih _ (remaining_entry seen hnode) (hpath.join hdir hnode (by simp) hleads.followable) hnode rfl
        · exact .nil
      | link target =>
        simp only [walkEntry]
        split
        · exact List.pairwise_singleton _ _
        · next dir' hlocate =>
          have hdir' : t.get? dir' = some .directory := (locate_holds hlocate).1
          split
          · exact .nil
          · next hseen => exact ih _ (remaining_link hdir' hseen) ⟨_, hlocate⟩ hdir' rfl
        · exact .nil
    · rintro ⟨name, node⟩ ⟨name', node'⟩ hmem hmem' hlt p hp q hq
      obtain ⟨names, hnames, rfl⟩ := exists_descends_of_mem_walkEntry hpath hdir (mem_children.1 hmem) hp
      obtain ⟨names', hnames', rfl⟩ := exists_descends_of_mem_walkEntry hpath hdir (mem_children.1 hmem') hq
      exact Path.before_descend hlt hnames.entry hnames'.entry

/-- The files below a directory are in order. -/
theorem pairwise_filesBelow (h : t.isDirectory path = true) : (t.filesBelow path).Pairwise Path.Before := by
  obtain ⟨dir, hpath, hdir⟩ := isDirectory_iff.1 h
  rw [filesBelow_eq_walk hpath hdir]
  exact pairwise_walk hpath hdir

end Tree

end GetSet
