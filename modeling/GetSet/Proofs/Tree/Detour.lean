import GetSet.Proofs.Tree.Paths

/-!
# Detours

Dots behind the path of a directory lead nowhere else, but they make the path longer (`LeadsTo.detour`). So a directory
has paths of nearly every length below the limit, and what stands in it may be listed under a path that is too long to
lead anywhere (`status?_eq_none_of_long`).
-/

namespace GetSet

namespace Path

/-- The path with some dots behind it, each of them behind a slash. -/
def detour (p : Path) (dots : Nat) : Path :=
  ⟨p.bytes ++ (List.replicate dots [slash, dot]).flatten⟩

variable {p : Path} {dots : Nat}

@[simp]
theorem detour_zero (p : Path) : p.detour 0 = p := by
  simp [detour]

theorem detour_succ (p : Path) (dots : Nat) : p.detour (dots + 1) = detour ⟨p.bytes ++ [slash, dot]⟩ dots := by
  simp [detour, List.replicate_succ]

theorem length_bytes_detour (p : Path) (dots : Nat) : (p.detour dots).bytes.length = p.bytes.length + 2 * dots := by
  simp [detour, Nat.mul_comm]

theorem mem_bytes_detour {b : UInt8} (h : b ∈ (p.detour dots).bytes) : b ∈ p.bytes ∨ b = slash ∨ b = dot := by
  rw [detour, List.mem_append, List.mem_flatten] at h
  refine h.imp_right fun ⟨bs, hbs, hb⟩ => ?_
  rw [List.eq_of_mem_replicate hbs] at hb
  simpa using hb

/-- A joined path is as long as both paths, or longer by a slash. -/
theorem length_join {q : Path} (hq : q.isAbsolute = false) :
    p.bytes.length + q.bytes.length ≤ (p.join q).bytes.length ∧
      (p.join q).bytes.length ≤ p.bytes.length + q.bytes.length + 1 := by
  rw [join, if_neg (by simp [hq])]
  split
  · simp
  · simp [Nat.add_assoc]

/-- Joining puts nothing but a slash between two paths. -/
theorem mem_bytes_join {q : Path} {b : UInt8} (h : b ∈ (p.join q).bytes) : b ∈ p.bytes ∨ b = slash ∨ b ∈ q.bytes := by
  rw [join] at h
  split at h
  · exact .inr (.inr h)
  · split at h
    · exact (List.mem_append.1 h).imp_right Or.inr
    · simpa using h

end Path

namespace Tree

variable {t : Tree} {p : Path} {dir : Location} {name : Bytes}

/-- A dot behind the path of a directory leads nowhere else. -/
theorem LeadsTo.dot (h : t.LeadsTo p dir) (hdir : t.get? dir = some .directory)
    (hshort : (p.bytes ++ [Path.slash, Path.dot]).length < pathLimit) :
    t.LeadsTo ⟨p.bytes ++ [Path.slash, Path.dot]⟩ dir := by
  have hfollowable := h.followable
  have hlocate := h.locate_eq hdir
  rw [locate_of_followable hfollowable] at hlocate
  obtain ⟨links, -, heq⟩ := resolve_append .look hlocate
  have hnul : (0 : UInt8) ∉ p.bytes := by simpa using hfollowable.noNul
  have hlonger : Followable ⟨p.bytes ++ [Path.slash, Path.dot]⟩ :=
    ⟨by simp [hnul, Path.slash, Path.dot], by simp, hshort⟩
  have hnames : Path.names ⟨p.bytes ++ [Path.slash, Path.dot]⟩ = p.names ++ [[Path.dot]] :=
    Path.names_append_slash p ⟨[Path.dot]⟩
  have hstart : start t.cwd ⟨p.bytes ++ [Path.slash, Path.dot]⟩ = start t.cwd p := by
    rw [start, start, Path.isAbsolute, Path.isAbsolute, List.head?_append_of_ne_nil _ hfollowable.ne_nil]
  refine ⟨.directory, ?_⟩
  rw [locate_of_followable hlonger, hnames, hstart, heq _ _ (by simp), resolve_eq_steps, steps, if_pos (by decide),
    steps]

/-- A detour leads where the path leads, as long as it is not too long. -/
theorem LeadsTo.detour {dots : Nat} (h : t.LeadsTo p dir) (hdir : t.get? dir = some .directory)
    (hshort : (p.detour dots).bytes.length < pathLimit) : t.LeadsTo (p.detour dots) dir := by
  induction dots generalizing p with
  | zero => simpa using h
  | succ dots ih =>
    rw [Path.detour_succ] at hshort ⊢
    have hlength := Path.length_bytes_detour ⟨p.bytes ++ [Path.slash, Path.dot]⟩ dots
    exact ih (h.dot hdir (by dsimp only at hlength; omega)) hshort

/-- A path that is too long leads nowhere. -/
theorem status?_eq_none_of_long (h : pathLimit ≤ p.bytes.length) : t.status? p = none := by
  rw [Option.eq_none_iff_forall_ne_some]
  intro node hnode
  obtain ⟨l, hleads, -⟩ := status?_eq_some_iff.1 hnode
  exact absurd hleads.followable.short (Nat.not_lt.2 h)

theorem pathExists_eq_false_of_long (h : pathLimit ≤ p.bytes.length) : t.pathExists p = false := by
  rw [pathExists, status?_eq_none_of_long h, Option.isSome_none]

theorem isFile_eq_false_of_long (h : pathLimit ≤ p.bytes.length) : t.isFile p = false := by
  rw [isFile, status?_eq_none_of_long h]

theorem isDirectory_eq_false_of_long (h : pathLimit ≤ p.bytes.length) : t.isDirectory p = false := by
  rw [isDirectory, status?_eq_none_of_long h]
  rfl

end Tree

end GetSet
