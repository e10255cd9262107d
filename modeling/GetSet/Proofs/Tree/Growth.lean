import GetSet.Tree.Change

/-!
# Trees that grow

A tree grows if directories and files are added to it and if the content of files is replaced; nothing goes, and links
stay as they are and are not joined by new ones. Whatever a path leads to, it still leads there after the tree has
grown (`LeadsTo.grows`). Only a path that came to a missing name may lead somewhere else later
(`locate_agrees`).
-/

namespace GetSet.Tree

/-! ## Paths that can be followed -/

/-- What a path must be like to lead anywhere: not empty, not too long and without a NUL character. -/
structure Followable (p : Path) : Prop where
  noNul : p.bytes.contains 0 = false
  ne_nil : p.bytes ≠ []
  short : p.bytes.length < pathLimit

theorem locate_of_followable {p : Path} (h : Followable p) (t : Tree) (purpose : Purpose) (slash : Bool) :
    t.locate purpose p slash = t.resolve purpose linkLimit slash (start t.cwd p) p.names := by
  rw [locate, if_neg (by rw [h.noNul]; simp), if_neg (by simpa using h.ne_nil),
    if_neg (Nat.not_le.2 h.short)]

theorem followable_of_locate {t : Tree} {p : Path} {purpose : Purpose} {slash : Bool} {place : Place}
    (h : t.locate purpose p slash = .ok place) : Followable p := by
  unfold locate at h
  split at h
  · simp at h
  · next hnul =>
    split at h
    · simp at h
    · next hempty =>
      split at h
      · simp at h
      · next hlong => exact ⟨by simpa using hnul, by simpa using hempty, Nat.not_le.1 hlong⟩

/-! ## Growing -/

/-- A tree that came from another one by adding directories and files and by replacing the content of files. -/
structure Grows (t t' : Tree) : Prop where
  directory : ∀ {l : Location}, t.get? l = some .directory → t'.get? l = some .directory
  file : ∀ {l : Location} {content : ByteArray}, t.get? l = some (.file content) →
    ∃ content', t'.get? l = some (.file content')
  link : ∀ {l : Location} {target : Path}, t.get? l = some (.link target) ↔ t'.get? l = some (.link target)
  cwd_eq : t'.cwd = t.cwd

namespace Grows

theorem refl (t : Tree) : Grows t t where
  directory h := h
  file h := ⟨_, h⟩
  link := Iff.rfl
  cwd_eq := rfl

theorem trans {t t' t'' : Tree} (h : Grows t t') (h' : Grows t' t'') : Grows t t'' where
  directory hl := h'.directory (h.directory hl)
  file hl := by
    obtain ⟨content, hcontent⟩ := h.file hl
    exact h'.file hcontent
  link := h.link.trans h'.link
  cwd_eq := h'.cwd_eq.trans h.cwd_eq

end Grows

/-- Adding directories lets a tree grow. -/
theorem AddsDirectories.grows {t t' : Tree} (h : AddsDirectories t t') : Grows t t' where
  directory {l} hl := by
    rcases h.get?_eq l with heq | ⟨-, hdir⟩
    · rw [heq, hl]
    · exact hdir
  file {l content} hl := by
    rcases h.get?_eq l with heq | ⟨hnone, -⟩
    · exact ⟨content, by rw [heq, hl]⟩
    · rw [hl] at hnone
      simp at hnone
  link {l target} := by
    rcases h.get?_eq l with heq | ⟨hnone, hdir⟩
    · rw [heq]
    · rw [hnone, hdir]
      simp
  cwd_eq := h.cwd_eq

/-- Writing a file lets a tree grow. -/
theorem WrittenAt.grows {t t' : Tree} {l : Location} {content : ByteArray} (h : WrittenAt t t' l content) :
    Grows t t' where
  directory {l'} hl' := by
    by_cases heq : l' = l
    · subst heq
      rcases h.before with hnone | ⟨old, hold⟩
      · simp [hl'] at hnone
      · simp [hl'] at hold
    · rw [h.elsewhere l' heq, hl']
  file {l' content'} hl' := by
    by_cases heq : l' = l
    · exact ⟨content, heq ▸ h.here⟩
    · exact ⟨content', by rw [h.elsewhere l' heq, hl']⟩
  link {l' target} := by
    by_cases heq : l' = l
    · subst heq
      rcases h.before with hnone | ⟨old, hold⟩
      · simp [hnone, h.here]
      · simp [hold, h.here]
    · rw [h.elsewhere l' heq]
  cwd_eq := h.cwd_eq

/-! ## Where paths lead in a tree that has grown -/

/-- How a search for a place ends in a tree that has grown, given how it ended before: in the same way, unless it came
to a missing name. -/
def Agrees : Except SystemError Place → Except SystemError Place → Prop
  | .ok (.occupied l _), r' => ∃ node, r' = .ok (.occupied l node)
  | .ok (.vacant _ _), _ => True
  | .error .notFound, _ => True
  | .error e, r' => r' = .error e

theorem Agrees.error (e : SystemError) : Agrees (.error e) (.error e) := by
  cases e <;> simp [Agrees]

theorem steps_agrees {t t' : Tree} (hgrows : Grows t t') {purpose : Purpose}
    {follow follow' : Location → Path → List Bytes → Bool → Except SystemError Place}
    (hfollow : ∀ dir target rest slash, Agrees (follow dir target rest slash) (follow' dir target rest slash))
    (slash : Bool) (names : List Bytes) (dir : Location) :
    Agrees (steps t purpose follow slash dir names) (steps t' purpose follow' slash dir names) := by
  fun_induction steps t purpose follow slash dir names with
  | case1 dir => exact ⟨.directory, rfl⟩
  | case2 dir name rest hdot ih =>
    rw [steps, if_pos hdot]
    exact ih
  | case3 dir name rest hdot hdots ih =>
    rw [steps, if_neg hdot, if_pos hdots]
    exact ih
  | case4 dir name rest hdot hdots hslash =>
    rw [steps, if_neg hdot, if_neg hdots, if_pos hslash]
    exact .error _
  | case5 dir name rest hdot hdots hslash hname =>
    rw [steps, if_neg hdot, if_neg hdots, if_neg hslash, if_pos hname]
    exact .error _
  | case6 => trivial
  | case7 => trivial
  | case8 dir name rest hdot hdots hslash hname hsub ih =>
    rw [steps, if_neg hdot, if_neg hdots, if_neg hslash, if_neg hname, hgrows.directory hsub]
    exact ih
  | case9 dir name rest hdot hdots hslash hname content hfile hrest =>
    obtain ⟨content', hfile'⟩ := hgrows.file hfile
    rw [steps, if_neg hdot, if_neg hdots, if_neg hslash, if_neg hname, hfile']
    exact ⟨.file content', by simp only [hrest, if_true]⟩
  | case10 dir name rest hdot hdots hslash hname content hfile hrest =>
    obtain ⟨content', hfile'⟩ := hgrows.file hfile
    rw [steps, if_neg hdot, if_neg hdots, if_neg hslash, if_neg hname, hfile']
    show (if (rest.isEmpty && !slash) = true then _ else _) = _
    rw [if_neg hrest]
  | case11 dir name rest hdot hdots hslash hname target hlink hentry =>
    rw [steps, if_neg hdot, if_neg hdots, if_neg hslash, if_neg hname, hgrows.link.1 hlink]
    exact ⟨.link target, by simp only [hentry, if_true]⟩
  | case12 dir name rest hdot hdots hslash hname target hlink hentry =>
    rw [steps, if_neg hdot, if_neg hdots, if_neg hslash, if_neg hname, hgrows.link.1 hlink]
    simp only [hentry, if_false, Bool.false_eq_true]
    exact hfollow _ _ _ _

theorem resolve_agrees {t t' : Tree} (hgrows : Grows t t') (purpose : Purpose) (links : Nat) (slash : Bool)
    (dir : Location) (names : List Bytes) :
    Agrees (t.resolve purpose links slash dir names) (t'.resolve purpose links slash dir names) := by
  induction links generalizing slash dir names with
  | zero => exact steps_agrees hgrows (fun _ _ _ _ => .error _) slash names dir
  | succ links ih => exact steps_agrees hgrows (fun _ _ _ _ => ih _ _ _) slash names dir

/-- In a tree that has grown a path leads where it led before, unless it came to a missing name. -/
theorem locate_agrees {t t' : Tree} (hgrows : Grows t t') (purpose : Purpose) (p : Path) (slash : Bool) :
    Agrees (t.locate purpose p slash) (t'.locate purpose p slash) := by
  unfold locate
  -- what is checked before the names are followed depends on the path alone
  split
  · exact .error _
  · split
    · exact .error _
    · split
      · exact .error _
      · rw [hgrows.cwd_eq]
        exact resolve_agrees hgrows purpose linkLimit slash (start t.cwd p) p.names

/-! ## Where a path leads -/

/-- A path leads to a location through links. -/
def LeadsTo (t : Tree) (p : Path) (l : Location) : Prop :=
  ∃ node, t.locate .look p = .ok (.occupied l node)

/-- Only where a path leads is looked at, not what is there. -/
instance (t : Tree) (p : Path) (l : Location) : Decidable (t.LeadsTo p l) :=
  match h : t.locate .look p with
  | .ok (.occupied l' node) =>
    decidable_of_iff (l' = l) ⟨fun heq => ⟨node, heq ▸ h⟩, fun ⟨_, hnode⟩ => by rw [h] at hnode; cases hnode; rfl⟩
  | .ok (.vacant ..) => .isFalse fun ⟨_, hnode⟩ => nomatch h.symm.trans hnode
  | .error _ => .isFalse fun ⟨_, hnode⟩ => nomatch h.symm.trans hnode

/-- A path leads to one location only. -/
theorem LeadsTo.unique {t : Tree} {p : Path} {l l' : Location} (h : t.LeadsTo p l) (h' : t.LeadsTo p l') :
    l = l' := by
  obtain ⟨node, hnode⟩ := h
  obtain ⟨node', hnode'⟩ := h'
  rw [hnode] at hnode'
  simp only [Except.ok.injEq, Place.occupied.injEq] at hnode'
  exact hnode'.1

/-- Where a path leads it finds the node that is there. -/
theorem LeadsTo.locate_eq {t : Tree} {p : Path} {l : Location} {node : Node} (h : t.LeadsTo p l)
    (hl : t.get? l = some node) : t.locate .look p = .ok (.occupied l node) := by
  obtain ⟨node', hnode'⟩ := h
  have hl' : t.get? l = some node' := (locate_holds hnode').1
  rw [hl] at hl'
  rw [hnode', Option.some.inj hl']

/-- In a tree that has grown a path leads to the location that it led to before. -/
theorem LeadsTo.grows {t t' : Tree} {p : Path} {l : Location} (h : t.LeadsTo p l) (hgrows : Grows t t') :
    t'.LeadsTo p l := by
  obtain ⟨node, hnode⟩ := h
  have hagrees := locate_agrees hgrows .look p p.endsInSlash
  rw [hnode] at hagrees
  exact hagrees

theorem status?_eq_some_iff {t : Tree} {p : Path} {node : Node} :
    t.status? p = some node ↔ ∃ l, t.LeadsTo p l ∧ t.get? l = some node := by
  constructor
  · intro h
    unfold status? at h
    split at h
    · next l node' hlocate =>
      obtain rfl := Option.some.inj h
      exact ⟨l, ⟨_, hlocate⟩, (locate_holds hlocate).1⟩
    · simp at h
  · rintro ⟨l, hleads, hl⟩
    simp [status?, hleads.locate_eq hl]

/-- A path leads to something exactly if there is a location that it leads to. -/
theorem pathExists_iff {t : Tree} {p : Path} : t.pathExists p = true ↔ ∃ l, t.LeadsTo p l := by
  unfold pathExists
  rw [Option.isSome_iff_exists]
  constructor
  · rintro ⟨node, hnode⟩
    obtain ⟨l, hleads, -⟩ := status?_eq_some_iff.1 hnode
    exact ⟨l, hleads⟩
  · rintro ⟨l, node, hnode⟩
    exact ⟨node, status?_eq_some_iff.2 ⟨l, ⟨node, hnode⟩, (locate_holds hnode).1⟩⟩

theorem isDirectory_iff {t : Tree} {p : Path} :
    t.isDirectory p = true ↔ ∃ l, t.LeadsTo p l ∧ t.get? l = some .directory := by
  rw [isDirectory, beq_iff_eq]
  exact status?_eq_some_iff

theorem read_eq_ok_iff {t : Tree} {p : Path} {content : ByteArray} :
    t.read p = .ok content ↔ ∃ l, t.LeadsTo p l ∧ t.get? l = some (.file content) := by
  constructor
  · intro h
    unfold read at h
    split at h
    · next l content' hlocate =>
      obtain rfl := Except.ok.inj h
      exact ⟨l, ⟨_, hlocate⟩, (locate_holds hlocate).1⟩
    all_goals simp at h
  · rintro ⟨l, hleads, hl⟩
    simp [read, hleads.locate_eq hl]

theorem fromUTF8?_toUTF8 (text : String) : String.fromUTF8? text.toUTF8 = some text := by
  unfold String.fromUTF8?
  exact dif_pos text.isValidUTF8

/-- A text can be read from a file that holds its bytes. -/
theorem readText_eq_ok_iff {t : Tree} {p : Path} {text : String} :
    t.readText p = .ok text ↔
      ∃ l content, t.LeadsTo p l ∧ t.get? l = some (.file content) ∧ String.fromUTF8? content = some text := by
  unfold readText
  constructor
  · intro h
    cases hread : t.read p with
    | error e =>
      rw [hread] at h
      exact nomatch h
    | ok content =>
      obtain ⟨l, hleads, hl⟩ := read_eq_ok_iff.1 hread
      rw [hread] at h
      simp only [bind, Except.bind] at h
      split at h
      · next text' htext =>
        obtain rfl := Except.ok.inj h
        exact ⟨l, content, hleads, hl, htext⟩
      · exact nomatch h
  · rintro ⟨l, content, hleads, hl, htext⟩
    rw [read_eq_ok_iff.2 ⟨l, hleads, hl⟩]
    simp only [bind, Except.bind, htext]
    rfl

/-- What exists still exists in a tree that has grown. -/
theorem Grows.pathExists {t t' : Tree} (h : Grows t t') {p : Path} (hp : t.pathExists p = true) :
    t'.pathExists p = true := by
  obtain ⟨l, hleads⟩ := pathExists_iff.1 hp
  exact pathExists_iff.2 ⟨l, hleads.grows h⟩

end GetSet.Tree
