import GetSet.Proofs.Tree.Growth

/-!
# Making directories

What making a directory with all that are missing above it leaves behind. Every directory that is new is one that the
path or one of its ancestors leads to, whether it succeeds or fails (`makeDirectories_new`); if it succeeds, the path
leads to a directory (`isDirectory_of_makeDirectories`).
-/

namespace GetSet

theorem Path.exists_ancestors_eq (p : Path) : ∃ above, p.ancestors = p :: above := by
  unfold ancestors
  split <;> exact ⟨_, rfl⟩

namespace Tree

/-! ## One directory -/

/-- A path that led to a free name leads to the directory that was made there. No link stands at the end of such a
path, so that it does not matter whether one would be followed. -/
theorem steps_of_addsDirectories {t t' : Tree} (hadds : AddsDirectories t t') {dir : Location} {name : Bytes}
    (hhere : t'.get? (name :: dir) = some .directory)
    {follow follow' : Location → Path → List Bytes → Bool → Except SystemError Place}
    (hfollow : ∀ d target rest, rest ≠ [] → follow d target rest false = .ok (.vacant dir name) →
      ∀ slash, follow' d target rest slash = .ok (.occupied (name :: dir) .directory))
    {names : List Bytes} {d : Location} (h : steps t .entry follow false d names = .ok (.vacant dir name))
    (slash : Bool) : steps t' .look follow' slash d names = .ok (.occupied (name :: dir) .directory) := by
  fun_induction steps t .entry follow false d names with
  | case1 d => simp at h
  | case2 d n rest hdot ih =>
    rw [steps, if_pos hdot]
    exact ih h
  | case3 d n rest hdot hdots ih =>
    rw [steps, if_neg hdot, if_pos hdots]
    exact ih h
  | case4 => simp at h
  | case5 => simp at h
  | case6 d n rest hdot hdots hslash hname hfree hrest =>
    -- the name that was free
    simp only [Except.ok.injEq, Place.vacant.injEq] at h
    obtain ⟨rfl, rfl⟩ := h
    rw [steps, if_neg hdot, if_neg hdots, if_neg (by simp), if_neg hname, hhere, List.isEmpty_iff.1 hrest]
    show steps t' .look follow' slash (n :: d) [] = _
    rw [steps]
  | case7 => simp at h
  | case8 d n rest hdot hdots hslash hname hsub ih =>
    rw [steps, if_neg hdot, if_neg hdots, if_neg (by simp), if_neg hname, hadds.grows.directory hsub]
    exact ih h
  | case9 => simp at h
  | case10 => simp at h
  | case11 => simp at h
  | case12 d n rest hdot hdots hslash hname target hlink hentry =>
    have hrest : rest ≠ [] := by
      rintro rfl
      simp at hentry
    rw [steps, if_neg hdot, if_neg hdots, if_neg (by simp), if_neg hname, hadds.grows.link.1 hlink]
    show (if (rest.isEmpty && !slash && Purpose.look == .entry) = true then _ else _) = _
    rw [if_neg (by simp)]
    exact hfollow _ _ _ hrest h slash

theorem resolve_of_addsDirectories {t t' : Tree} (hadds : AddsDirectories t t') {dir : Location} {name : Bytes}
    (hhere : t'.get? (name :: dir) = some .directory) {links : Nat} {names : List Bytes} {d : Location}
    (h : t.resolve .entry links false d names = .ok (.vacant dir name)) (slash : Bool) :
    t'.resolve .look links slash d names = .ok (.occupied (name :: dir) .directory) := by
  induction links generalizing slash d names with
  | zero =>
    refine steps_of_addsDirectories hadds hhere ?_ h slash
    intro _ _ _ _ hfollow
    simp at hfollow
  | succ links ih =>
    refine steps_of_addsDirectories hadds hhere ?_ h slash
    intro d' target rest hrest hfollow slash'
    have hempty : rest.isEmpty = false := by simpa using hrest
    rw [hempty] at hfollow ⊢
    exact ih hfollow _

/-- A directory that was made is new, and the path leads to it. -/
theorem leadsTo_of_makeDirectory {t t' : Tree} {p : Path} (h : t.makeDirectory p = .ok t') :
    ∃ l, t'.LeadsTo p l ∧ t'.get? l = some .directory ∧ ∀ l', l' ≠ l → t'.get? l' = t.get? l' := by
  have hadds := addsDirectories_makeDirectory h
  unfold makeDirectory add at h
  split at h
  · simp at h
  · next dir name hlocate =>
    obtain rfl := Except.ok.inj h
    obtain ⟨hdir, hfree, hname⟩ := locate_holds hlocate
    have hget := get?_insert .directory hdir hfree hname
    have hhere : (t.insert dir name .directory).get? (name :: dir) = some .directory := by
      rw [hget, if_pos rfl]
    refine ⟨name :: dir, ⟨.directory, ?_⟩, hhere, fun l' hl' => by rw [hget, if_neg hl']⟩
    have hp := followable_of_locate hlocate
    rw [locate_of_followable hp] at hlocate ⊢
    rw [hadds.cwd_eq]
    exact resolve_of_addsDirectories hadds hhere hlocate _
  · simp at h

/-- Every directory that is there after one was made was there before or is where the path leads. -/
theorem makeDirectory_new {t t' : Tree} {p : Path} (h : t.makeDirectory p = .ok t') {l : Location}
    (hl : t'.get? l = some .directory) : t.get? l = some .directory ∨ t'.LeadsTo p l := by
  obtain ⟨l', hleads, -, helse⟩ := leadsTo_of_makeDirectory h
  by_cases heq : l = l'
  · exact Or.inr (heq ▸ hleads)
  · exact Or.inl ((helse l heq).symm.trans hl)

/-! ## A chain of directories -/

theorem makeChain_new (t : Tree) (chain : List Path) {l : Location}
    (hl : (t.makeChain chain).2.get? l = some .directory) :
    t.get? l = some .directory ∨ ∃ p ∈ chain, (t.makeChain chain).2.LeadsTo p l := by
  fun_induction makeChain t chain with
  | case1 => exact Or.inl hl
  | case2 => exact Or.inl hl
  | case3 p above hp t' h =>
    refine (makeDirectory_new h hl).imp_right fun hleads => ?_
    exact ⟨p, List.mem_cons_self, hleads⟩
  | case4 p above hp h t' hrest t'' hmake ih =>
    rw [hrest] at ih
    rcases makeDirectory_new hmake hl with hold | hleads
    · refine (ih hold).imp_right ?_
      rintro ⟨q, hq, hleads⟩
      exact ⟨q, List.mem_cons_of_mem p hq, hleads.grows (addsDirectories_makeDirectory hmake).grows⟩
    · exact Or.inr ⟨p, List.mem_cons_self, hleads⟩
  | case5 p above hp h t' hrest e hmake ih =>
    rw [hrest] at ih
    refine (ih hl).imp_right ?_
    rintro ⟨q, hq, hleads⟩
    exact ⟨q, List.mem_cons_of_mem p hq, hleads⟩
  | case6 p above hp h failed ih =>
    refine (ih hl).imp_right ?_
    rintro ⟨q, hq, hleads⟩
    exact ⟨q, List.mem_cons_of_mem p hq, hleads⟩
  | case7 => exact Or.inl hl

theorem isDirectory_of_makeChain {t t' : Tree} {p : Path} {above : List Path}
    (h : t.makeChain (p :: above) = (.ok (), t')) (hp : p.bytes ≠ []) : t'.isDirectory p = true := by
  have made : ∀ {t t' : Tree}, t.makeDirectory p = .ok t' → t'.isDirectory p = true := by
    intro t t' hmake
    obtain ⟨l, hleads, hl, -⟩ := leadsTo_of_makeDirectory hmake
    exact isDirectory_iff.2 ⟨l, hleads, hl⟩
  rw [makeChain, if_neg (by simpa using hp)] at h
  split at h
  · next t₁ hmake =>
    obtain ⟨-, rfl⟩ := Prod.mk.inj h
    exact made hmake
  · split at h
    · split at h
      · next t₂ hmake =>
        obtain ⟨-, rfl⟩ := Prod.mk.inj h
        exact made hmake
      · obtain ⟨hok, rfl⟩ := Prod.mk.inj h
        split at hok
        · next hdir => exact hdir
        · simp at hok
    · next failed hfailed =>
      exact absurd h (hfailed _)
  · obtain ⟨hok, rfl⟩ := Prod.mk.inj h
    split at hok
    · next hdir => exact hdir
    · simp at hok

/-! ## A path with its ancestors -/

/-- Every directory that is there afterwards was there before or is where the path or one of its ancestors leads. -/
theorem makeDirectories_new (t : Tree) (p : Path) {l : Location}
    (hl : (t.makeDirectories p).2.get? l = some .directory) :
    t.get? l = some .directory ∨ ∃ q ∈ p.ancestors, (t.makeDirectories p).2.LeadsTo q l :=
  makeChain_new t p.ancestors hl

/-- If making a directory succeeds, the path leads to one, unless it is empty. -/
theorem isDirectory_of_makeDirectories {t t' : Tree} {p : Path} (h : t.makeDirectories p = (.ok (), t'))
    (hp : p.bytes ≠ []) : t'.isDirectory p = true := by
  obtain ⟨above, habove⟩ := p.exists_ancestors_eq
  rw [makeDirectories, habove] at h
  exact isDirectory_of_makeChain h hp

/-- For the empty path there is nothing to make. -/
theorem makeDirectories_empty (t : Tree) {p : Path} (hp : p.bytes = []) : t.makeDirectories p = (.ok (), t) := by
  obtain ⟨above, habove⟩ := p.exists_ancestors_eq
  rw [makeDirectories, habove, makeChain, if_pos (by simpa using hp)]

end Tree

end GetSet
