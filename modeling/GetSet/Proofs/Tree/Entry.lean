import GetSet.Proofs.Tree.Reach

/-!
# Entries behind a path

The path of an entry is the path of its directory with the entry's name behind it. Where it leads is what stands at the
entry, whatever the path is followed for, unless the entry is a link (`LeadsInto.locate_join`).
-/

namespace GetSet

/-- Different names behind a path make different paths. -/
theorem Path.join_inj {p : Path} {name name' : Bytes} (h : IsPiece name) (h' : IsPiece name') :
    p.join ⟨name⟩ = p.join ⟨name'⟩ ↔ name = name' := by
  refine ⟨fun heq => ?_, fun heq => by rw [heq]⟩
  simp only [join, h.isAbsolute_eq, h'.isAbsolute_eq, Bool.false_eq_true, if_false] at heq
  split at heq
  · exact List.append_cancel_left (Path.ofBytes.inj heq)
  · exact (List.cons.inj (List.append_cancel_left (Path.ofBytes.inj heq))).2

namespace Tree

variable {t t' : Tree} {p : Path} {dir : Location} {name : Bytes}

theorem pathExists_of_status? {node : Node} (h : t.status? p = some node) : t.pathExists p = true := by
  rw [pathExists, h]
  rfl

theorem pathExists_congr (h : t'.status? p = t.status? p) : t'.pathExists p = t.pathExists p :=
  congrArg Option.isSome h

/-! ## The directory that a path leads into -/

/-- A name that stands behind a path is looked for in a directory: the one that the path leads to, or the working
directory if the path is empty. -/
def LeadsInto (t : Tree) (p : Path) (dir : Location) : Prop :=
  (p.bytes = [] ∧ dir = t.cwd) ∨ (p.bytes ≠ [] ∧ t.LeadsTo p dir ∧ t.get? dir = some .directory)

theorem LeadsInto.grows (h : t.LeadsInto p dir) (hgrows : t.Grows t') : t'.LeadsInto p dir := by
  rcases h with ⟨hempty, rfl⟩ | ⟨hne, hleads, hdir⟩
  · exact Or.inl ⟨hempty, hgrows.cwd_eq.symm⟩
  · exact Or.inr ⟨hne, hleads.grows hgrows, hgrows.directory hdir⟩

/-- The directory is the one that the path led into before, if the path led anywhere. -/
theorem LeadsInto.of_grows (h : t'.LeadsInto p dir) (hgrows : t.Grows t')
    (hp : p.bytes = [] ∨ t.pathExists p = true) : t.LeadsInto p dir := by
  rcases h with ⟨hempty, rfl⟩ | ⟨hne, hleads, hdir⟩
  · exact Or.inl ⟨hempty, hgrows.cwd_eq⟩
  · obtain ⟨l, node, hlocate⟩ := pathExists_iff.1 (hp.resolve_left hne)
    have hl : t.LeadsTo p l := ⟨node, hlocate⟩
    obtain rfl := hleads.unique (hl.grows hgrows)
    obtain ⟨hnode, hlink⟩ := locate_holds hlocate
    refine Or.inr ⟨hne, hl, ?_⟩
    -- a file would still be one
    cases node with
    | directory => exact hnode
    | file content =>
      obtain ⟨content', hfile⟩ := hgrows.file hnode
      rw [hdir] at hfile
      simp at hfile
    | link target => exact absurd rfl (hlink (by decide) target)

/-- If the path of an entry leads somewhere then the path before the name leads into a directory. -/
theorem LeadsTo.exists_leadsInto {l : Location} (hname : Path.IsPiece name) (h : t.LeadsTo (p.join ⟨name⟩) l) :
    ∃ dir, t.LeadsInto p dir := by
  by_cases hempty : p.bytes = []
  · exact ⟨t.cwd, Or.inl ⟨hempty, rfl⟩⟩
  · obtain ⟨dir, hleads, hdir⟩ := h.of_join hempty hname.ne_nil hname.isAbsolute_eq
    exact ⟨dir, Or.inr ⟨hempty, hleads, hdir⟩⟩

/-! ## Where the path of an entry leads -/

theorem LeadsInto.exists_locate (h : t.LeadsInto p dir) (purpose : Purpose) (hname : Path.IsPiece name)
    (hfollowable : Followable (p.join ⟨name⟩)) :
    ∃ links, t.locate purpose (p.join ⟨name⟩) = t.resolve purpose links false dir [name] := by
  rcases h with ⟨hempty, rfl⟩ | ⟨-, hleads, hdir⟩
  · refine ⟨linkLimit, ?_⟩
    have hjoin : p.join ⟨name⟩ = ⟨name⟩ := by
      rw [Path.join, if_neg (by simp [hname.isAbsolute_eq]), if_pos (by simp [hempty]), hempty, List.nil_append]
    rw [locate_of_followable hfollowable, hname.endsInSlash_join, hjoin, start,
      if_neg (by simp [hname.isAbsolute_eq]), hname.names_eq]
  · obtain ⟨links, -, hlocate⟩ := exists_locate_join hleads hdir purpose hname hfollowable
    exact ⟨links, hlocate⟩

/-- A name that can be followed is the name of an entry. -/
theorem LeadsInto.isEntryName_of_locate (h : t.LeadsInto p dir) (hname : Path.IsPiece name)
    (hdots : name ≠ "." ∧ name ≠ "..") {purpose : Purpose} {place : Place}
    (hplace : t.locate purpose (p.join ⟨name⟩) = .ok place) : isEntryName name = true := by
  obtain ⟨links, hlocate⟩ := h.exists_locate purpose hname (followable_of_locate hplace)
  rw [← Bool.not_eq_false]
  intro hentry
  rw [hlocate, resolve_eq_steps, steps, if_neg (by simp [hdots.1]), if_neg (by simp [hdots.2]), if_neg (by simp),
    if_pos (by simp [hentry])] at hplace
  simp at hplace

/-- What stands at a name of a directory. -/
def placeOf (t : Tree) (dir : Location) (name : Bytes) : Place :=
  match t.get? (name :: dir) with
  | some node => .occupied (name :: dir) node
  | none => .vacant dir name

theorem location_placeOf (t : Tree) (dir : Location) (name : Bytes) : (t.placeOf dir name).location = name :: dir := by
  rw [placeOf]
  split <;> rfl

/-- The path of an entry leads to the entry, whatever it is followed for, unless the entry is a link. -/
theorem LeadsInto.locate_join (h : t.LeadsInto p dir) (purpose : Purpose) (hname : isEntryName name = true)
    (hfollowable : Followable (p.join ⟨name⟩)) (hlink : ∀ target, t.get? (name :: dir) ≠ some (.link target)) :
    t.locate purpose (p.join ⟨name⟩) = .ok (t.placeOf dir name) := by
  obtain ⟨links, hlocate⟩ := h.exists_locate purpose (Path.isPiece_of_isEntryName hname) hfollowable
  rw [hlocate, resolve_entry hname, placeOf]
  rcases hnode : t.get? (name :: dir) with _ | _ | content | target
  · rfl
  · rfl
  · rfl
  · exact absurd hnode (hlink target)

/-- The path of an entry names this entry of the directory, if it names anything. -/
theorem LeadsInto.locate_entry (h : t.LeadsInto p dir) (hname : Path.IsPiece name) (hdots : name ≠ "." ∧ name ≠ "..")
    {place : Place} (hplace : t.locate .entry (p.join ⟨name⟩) = .ok place) : place = t.placeOf dir name := by
  have hentry := h.isEntryName_of_locate hname hdots hplace
  obtain ⟨links, hlocate⟩ := h.exists_locate .entry hname (followable_of_locate hplace)
  rw [hlocate, resolve_entry hentry] at hplace
  rw [placeOf]
  rcases hnode : t.get? (name :: dir) with _ | _ | content | target <;>
  · rw [hnode] at hplace
    exact (Except.ok.inj hplace).symm

/-- A path leads to a link if that is not followed. -/
def isLink (t : Tree) (p : Path) : Bool :=
  match t.locate .entry p with
  | .ok (.occupied _ (.link _)) => true
  | _ => false

/-- The path of a link leads to it. -/
theorem LeadsInto.isLink_join (h : t.LeadsInto p dir) (hname : isEntryName name = true)
    (hfollowable : Followable (p.join ⟨name⟩)) {target : Path} (hlink : t.get? (name :: dir) = some (.link target)) :
    t.isLink (p.join ⟨name⟩) = true := by
  obtain ⟨links, hlocate⟩ := h.exists_locate .entry (Path.isPiece_of_isEntryName hname) hfollowable
  rw [isLink, hlocate, resolve_entry hname, hlink]
  rfl

end Tree

end GetSet
