import GetSet.Proofs.Tree.Growth

/-!
# Paths that go further

A path that goes further than another one leads through the directory that the other one leads to. `resolve_append`
follows the names of the longer path from that directory on, with what is left of the links that may be followed;
`exists_of_resolve_append` says that the longer path leads nowhere if the shorter one does not lead to a directory. For
paths this is `locate_join` and `LeadsTo.of_join`.
-/

namespace GetSet

namespace Path

/-! ## The names of a joined path -/

theorem names_append_slash (p q : Path) : names ⟨p.bytes ++ slash :: q.bytes⟩ = p.names ++ q.names := by
  have hpieces : pieces ⟨p.bytes ++ slash :: q.bytes⟩ = p.pieces ++ q.pieces :=
    List.splitOnP_append_cons p.bytes q.bytes (beq_self_eq_true slash)
  rw [names, hpieces, List.filter_append]
  rfl

/-- A slash at the end of a path adds no name. -/
theorem names_slash (p : Path) : names ⟨p.bytes ++ [slash]⟩ = p.names := by
  have h := names_append_slash p ⟨[]⟩
  rwa [show names ⟨[]⟩ = [] from rfl, List.append_nil] at h

theorem exists_eq_append_slash {p : Path} (h : p.endsInSlash = true) : ∃ q : Path, p.bytes = q.bytes ++ [slash] := by
  rw [endsInSlash, beq_iff_eq] at h
  obtain ⟨bs, hbs⟩ := List.getLast?_eq_some_iff.1 h
  exact ⟨⟨bs⟩, hbs⟩

/-- The names of a joined path are those of both paths. -/
theorem names_join {p q : Path} (hq : q.isAbsolute = false) : (p.join q).names = p.names ++ q.names := by
  rw [join, if_neg (by simp [hq])]
  split
  · next h =>
    rcases Bool.or_eq_true_iff.1 h with hempty | hslash
    · have hp : p = ⟨[]⟩ := congrArg ofBytes (List.isEmpty_iff.1 hempty)
      rw [hp]
      rfl
    · obtain ⟨p', hp'⟩ := exists_eq_append_slash hslash
      have hnames : p.names = p'.names := by
        rw [show p = ⟨p'.bytes ++ [slash]⟩ from congrArg ofBytes hp', names_slash]
      rw [hnames, hp', List.append_assoc, List.singleton_append]
      exact names_append_slash p' q
  · exact names_append_slash p q

/-- A joined path is the first path with something behind it. -/
theorem exists_bytes_join_eq {p q : Path} (hq : q.isAbsolute = false) :
    ∃ rest, (p.join q).bytes = p.bytes ++ rest := by
  rw [join, if_neg (by simp [hq])]
  split
  · exact ⟨q.bytes, rfl⟩
  · exact ⟨slash :: q.bytes, rfl⟩

/-- A path that is not empty starts where the path starts that goes further. -/
theorem isAbsolute_join {p q : Path} (hp : p.bytes ≠ []) (hq : q.isAbsolute = false) :
    (p.join q).isAbsolute = p.isAbsolute := by
  obtain ⟨rest, hrest⟩ := exists_bytes_join_eq (p := p) hq
  obtain ⟨b, bs, hbs⟩ := List.exists_cons_of_ne_nil hp
  simp [isAbsolute, hrest, hbs]

/-- A relative path that is not empty has a name. -/
theorem names_ne_nil {p : Path} (hne : p.bytes ≠ []) (hrel : p.isAbsolute = false) : p.names ≠ [] := by
  obtain ⟨b, bs, hbs⟩ := List.exists_cons_of_ne_nil hne
  have hb : (b == slash) = false := by simpa [isAbsolute, hbs] using hrel
  obtain ⟨piece, pieces, hsplit⟩ := List.exists_cons_of_ne_nil (List.splitOnP_ne_nil (· == slash) bs)
  have hpieces : p.pieces = (b :: piece) :: pieces := by
    rw [Path.pieces, hbs, List.splitOn_eq_splitOnP, List.splitOnP_cons_eq_if_modifyHead, hb, hsplit]
    rfl
  simp [names, hpieces]

/-! ## A name as a path -/

/-- A name is a piece of a path: it is not empty and has no slash. -/
structure IsPiece (name : Bytes) : Prop where
  ne_nil : name ≠ []
  noSlash : slash ∉ name

namespace IsPiece

variable {name : Bytes}

theorem isAbsolute_eq (h : IsPiece name) : isAbsolute ⟨name⟩ = false := by
  rw [isAbsolute, beq_eq_false_iff_ne]
  exact fun hhead => h.noSlash (List.mem_of_mem_head? hhead)

theorem names_eq (h : IsPiece name) : names ⟨name⟩ = [name] := by
  have hsplit : pieces ⟨name⟩ = [name] := List.splitOn_eq_singleton h.noSlash
  simp [names, hsplit, h.ne_nil]

/-- A path that ends in a name ends in no slash. -/
theorem endsInSlash_join {p : Path} (h : IsPiece name) : (p.join ⟨name⟩).endsInSlash = false := by
  have key : ∀ pre : Bytes, endsInSlash ⟨pre ++ name⟩ = false := by
    intro pre
    rw [endsInSlash, beq_eq_false_iff_ne, List.getLast?_append, List.getLast?_eq_some_getLast h.ne_nil, Option.some_or]
    exact fun hlast => h.noSlash (Option.some.inj hlast ▸ List.getLast_mem h.ne_nil)
  rw [join, if_neg (by simp [h.isAbsolute_eq])]
  split
  · exact key p.bytes
  · rw [← List.singleton_append, ← List.append_assoc]
    exact key (p.bytes ++ [slash])

/-- A path with a name behind it starts where the path starts. -/
theorem isAbsolute_join {p : Path} (h : IsPiece name) : (p.join ⟨name⟩).isAbsolute = p.isAbsolute := by
  by_cases hp : p.bytes = []
  · have hp : p = ⟨[]⟩ := congrArg ofBytes hp
    rw [hp, join, if_neg (by simp [h.isAbsolute_eq]), if_pos (by simp)]
    exact h.isAbsolute_eq
  · exact Path.isAbsolute_join hp h.isAbsolute_eq

/-- A path that ends in a name has it as its last name, unless that is a dot or two. -/
theorem fileName?_join {p : Path} (h : IsPiece name) (hdots : name ≠ "." ∧ name ≠ "..") :
    (p.join ⟨name⟩).fileName? = some name := by
  rw [fileName?, names_join h.isAbsolute_eq, h.names_eq, List.filter_append]
  simp [hdots.1, hdots.2]

end IsPiece

/-- The name of an entry is a piece of a path. -/
theorem isPiece_of_isEntryName {name : Bytes} (h : Tree.isEntryName name = true) : IsPiece name := by
  simp only [Tree.isEntryName, Bool.and_eq_true, bne_iff_ne, Bool.not_eq_true', List.contains_eq_mem,
    decide_eq_false_iff_not] at h
  exact ⟨h.1.1.1.1.1, h.1.1.2⟩

theorem noNul_of_isEntryName {name : Bytes} (h : Tree.isEntryName name = true) : (0 : UInt8) ∉ name := by
  simp only [Tree.isEntryName, Bool.and_eq_true, Bool.not_eq_true', List.contains_eq_mem,
    decide_eq_false_iff_not] at h
  exact h.1.2

theorem notDots_of_isEntryName {name : Bytes} (h : Tree.isEntryName name = true) : name ≠ "." ∧ name ≠ ".." := by
  simp only [Tree.isEntryName, Bool.and_eq_true, bne_iff_ne] at h
  exact ⟨h.1.1.1.1.2, h.1.1.1.2⟩

end Path

namespace Tree

variable {t : Tree}

/-! ## Following more names -/

/-- How a link is followed if so many links may be followed in all. -/
def followWith (t : Tree) (purpose : Purpose) :
    Nat → Location → Path → List Bytes → Bool → Except SystemError Place
  | 0, _, _, _, _ => .error .tooManyLinks
  | links + 1, dir, target, rest, slash =>
    t.resolve purpose links (slash || rest.isEmpty && target.endsInSlash) (start dir target) (target.names ++ rest)

theorem resolve_eq_steps (t : Tree) (purpose : Purpose) (links : Nat) (slash : Bool) :
    t.resolve purpose links slash = steps t purpose (followWith t purpose links) slash := by
  cases links <;> rfl

@[simp]
theorem resolve_nil (t : Tree) (purpose : Purpose) (links : Nat) (slash : Bool) (dir : Location) :
    t.resolve purpose links slash dir [] = .ok (.occupied dir .directory) := by
  rw [resolve_eq_steps, steps]

/-- Following a name that is not the last one. -/
theorem steps_inner {purpose : Purpose}
    {follow : Location → Path → List Bytes → Bool → Except SystemError Place} {slash : Bool} {name : Bytes}
    {rest : List Bytes} (hrest : rest ≠ []) (dir : Location) :
    steps t purpose follow slash dir (name :: rest) =
      if name == "." then steps t purpose follow slash dir rest
      else if name == ".." then steps t purpose follow slash dir.tail rest
      else if !isEntryName name then .error .nameTooLong
      else
        match t.get? (name :: dir) with
        | none => .error .notFound
        | some .directory => steps t purpose follow slash (name :: dir) rest
        | some (.file _) => .error .notADirectory
        | some (.link target) => follow dir target rest slash := by
  have hempty : rest.isEmpty = false := by simpa using hrest
  rw [steps]
  rcases t.get? (name :: dir) with _ | _ | _ | _ <;> simp only [hempty, Bool.false_and, Bool.false_eq_true, if_false]

/-- Names are followed from where others lead: what is true of every link is true of all names. Where the others lead
is found by a look, whatever all names are followed for. -/
theorem steps_append {purpose : Purpose} {links : Nat} {slash : Bool} {dir dir' : Location} {names : List Bytes}
    (hfollow : ∀ dir target rest slash,
      followWith t .look links dir target rest slash = .ok (.occupied dir' .directory) →
        ∃ links' ≤ links, ∀ (slash : Bool) (more : List Bytes), more ≠ [] →
          followWith t purpose links dir target (rest ++ more) slash = t.resolve purpose links' slash dir' more)
    (h : steps t .look (followWith t .look links) slash dir names = .ok (.occupied dir' .directory)) :
    ∃ links' ≤ links, ∀ (slash : Bool) (more : List Bytes), more ≠ [] →
      steps t purpose (followWith t purpose links) slash dir (names ++ more) =
        t.resolve purpose links' slash dir' more := by
  fun_induction steps t .look (followWith t .look links) slash dir names with
  | case1 dir =>
    simp only [Except.ok.injEq, Place.occupied.injEq, and_true] at h
    exact ⟨links, Nat.le_refl links, fun slash more _ => by rw [List.nil_append, h, resolve_eq_steps]⟩
  | case2 dir name rest hdot ih =>
    obtain ⟨links', hle, heq⟩ := ih h
    refine ⟨links', hle, fun slash more hmore => ?_⟩
    rw [List.cons_append, steps_inner (by simp [hmore]), if_pos hdot]
    exact heq slash more hmore
  | case3 dir name rest hdot hdots ih =>
    obtain ⟨links', hle, heq⟩ := ih h
    refine ⟨links', hle, fun slash more hmore => ?_⟩
    rw [List.cons_append, steps_inner (by simp [hmore]), if_neg hdot, if_pos hdots]
    exact heq slash more hmore
  | case4 => simp at h
  | case5 => simp at h
  | case6 => simp at h
  | case7 => simp at h
  | case8 dir name rest hdot hdots hslash hname hsub ih =>
    obtain ⟨links', hle, heq⟩ := ih h
    refine ⟨links', hle, fun slash more hmore => ?_⟩
    rw [List.cons_append, steps_inner (by simp [hmore]), if_neg hdot, if_neg hdots, if_neg hname, hsub]
    exact heq slash more hmore
  | case9 => simp at h
  | case10 => simp at h
  | case11 => simp at h
  | case12 dir name rest hdot hdots hslash hname target hlink hentry =>
    obtain ⟨links', hle, heq⟩ := hfollow dir target rest slash h
    refine ⟨links', hle, fun slash more hmore => ?_⟩
    rw [List.cons_append, steps_inner (by simp [hmore]), if_neg hdot, if_neg hdots, if_neg hname, hlink]
    exact heq slash more hmore

/-- If some names lead to a directory, then more names are followed from there on, with the links that are left. -/
theorem resolve_append (purpose : Purpose) {links : Nat} {slash : Bool} {dir dir' : Location} {names : List Bytes}
    (h : t.resolve .look links slash dir names = .ok (.occupied dir' .directory)) :
    ∃ links' ≤ links, ∀ (slash : Bool) (more : List Bytes), more ≠ [] →
      t.resolve purpose links slash dir (names ++ more) = t.resolve purpose links' slash dir' more := by
  induction links generalizing slash dir names with
  | zero =>
    rw [resolve_eq_steps] at h
    simp only [resolve_eq_steps t purpose 0]
    refine steps_append ?_ h
    intro _ _ _ _ hfollow
    simp [followWith] at hfollow
  | succ links ih =>
    rw [resolve_eq_steps] at h
    simp only [resolve_eq_steps t purpose (links + 1)]
    refine steps_append ?_ h
    intro dir target rest slash hfollow
    -- the names of the target come before those that are left
    obtain ⟨links', hle, heq⟩ := ih hfollow
    refine ⟨links', Nat.le_succ_of_le hle, fun slash more hmore => ?_⟩
    have hempty : (rest ++ more).isEmpty = false := by simp [hmore]
    rw [followWith, hempty, Bool.false_and, Bool.or_false, ← List.append_assoc]
    exact heq slash more hmore

theorem exists_of_steps_append {links : Nat} {slash : Bool} {dir : Location} {names more : List Bytes}
    {place : Place} (hmore : more ≠ [])
    (hfollow : ∀ dir target rest, followWith t .look links dir target (rest ++ more) slash = .ok place →
      ∃ dir', ∀ slash, followWith t .look links dir target rest slash = .ok (.occupied dir' .directory))
    (h : steps t .look (followWith t .look links) slash dir (names ++ more) = .ok place) :
    ∃ dir', ∀ slash, steps t .look (followWith t .look links) slash dir names = .ok (.occupied dir' .directory) := by
  induction names generalizing dir with
  | nil => exact ⟨dir, fun slash => by rw [steps]⟩
  | cons name rest ih =>
    rw [List.cons_append, steps_inner (by simp [hmore])] at h
    by_cases hdot : (name == ".") = true
    · rw [if_pos hdot] at h
      obtain ⟨dir', hdir'⟩ := ih h
      exact ⟨dir', fun slash => by rw [steps, if_pos hdot, hdir']⟩
    · rw [if_neg hdot] at h
      by_cases hdots : (name == "..") = true
      · rw [if_pos hdots] at h
        obtain ⟨dir', hdir'⟩ := ih h
        exact ⟨dir', fun slash => by rw [steps, if_neg hdot, if_pos hdots, hdir']⟩
      · rw [if_neg hdots] at h
        by_cases hname : (!isEntryName name) = true
        · rw [if_pos hname] at h
          simp at h
        · rw [if_neg hname] at h
          cases hnode : t.get? (name :: dir) with
          | none =>
            rw [hnode] at h
            simp at h
          | some node =>
            rw [hnode] at h
            cases node with
            | directory =>
              obtain ⟨dir', hdir'⟩ := ih h
              refine ⟨dir', fun slash => ?_⟩
              rw [steps, if_neg hdot, if_neg hdots, if_neg (by simp), if_neg hname, hnode]
              exact hdir' slash
            | file content => simp at h
            | link target =>
              obtain ⟨dir', hdir'⟩ := hfollow dir target rest h
              refine ⟨dir', fun slash => ?_⟩
              rw [steps, if_neg hdot, if_neg hdots, if_neg (by simp), if_neg hname, hnode]
              show (if (rest.isEmpty && !slash && Purpose.look == .entry) = true then _ else _) = _
              rw [if_neg (by simp)]
              exact hdir' slash

/-- If more names lead to something, then the first of them lead to a directory. -/
theorem exists_of_resolve_append {links : Nat} {slash : Bool} {dir : Location} {names more : List Bytes}
    {place : Place} (hmore : more ≠ []) (h : t.resolve .look links slash dir (names ++ more) = .ok place) :
    ∃ dir', ∀ slash, t.resolve .look links slash dir names = .ok (.occupied dir' .directory) := by
  induction links generalizing slash dir names with
  | zero =>
    rw [resolve_eq_steps] at h
    simp only [resolve_eq_steps t .look 0]
    refine exists_of_steps_append hmore ?_ h
    intro _ _ _ hfollow
    simp [followWith] at hfollow
  | succ links ih =>
    rw [resolve_eq_steps] at h
    simp only [resolve_eq_steps t .look (links + 1)]
    refine exists_of_steps_append hmore ?_ h
    intro dir target rest hfollow
    rw [followWith, ← List.append_assoc] at hfollow
    obtain ⟨dir', hdir'⟩ := ih hfollow
    exact ⟨dir', fun slash => hdir' _⟩

theorem steps_eq_or_tooManyLinks {purpose : Purpose}
    {follow follow' : Location → Path → List Bytes → Bool → Except SystemError Place}
    (hfollow : ∀ dir target rest slash, follow dir target rest slash = .error .tooManyLinks ∨
      follow dir target rest slash = follow' dir target rest slash)
    (slash : Bool) (names : List Bytes) (dir : Location) :
    steps t purpose follow slash dir names = .error .tooManyLinks ∨
      steps t purpose follow slash dir names = steps t purpose follow' slash dir names := by
  induction names generalizing dir with
  | nil => exact Or.inr (by rw [steps, steps])
  | cons name rest ih =>
    rw [steps, steps]
    split
    · exact ih dir
    · split
      · exact ih dir.tail
      · split
        · exact Or.inr rfl
        · split
          · exact Or.inr rfl
          · rcases t.get? (name :: dir) with _ | _ | content | target
            · exact Or.inr rfl
            · exact ih (name :: dir)
            · exact Or.inr rfl
            · dsimp only
              split
              · exact Or.inr rfl
              · exact hfollow dir target rest slash

/-- With fewer links a search ends in the same way or because there are too many links. -/
theorem resolve_of_le {purpose : Purpose} {links links' : Nat} (hle : links' ≤ links) (slash : Bool)
    (dir : Location) (names : List Bytes) :
    t.resolve purpose links' slash dir names = .error .tooManyLinks ∨
      t.resolve purpose links' slash dir names = t.resolve purpose links slash dir names := by
  induction links' generalizing links slash dir names with
  | zero =>
    rw [resolve_eq_steps, resolve_eq_steps]
    exact steps_eq_or_tooManyLinks (fun _ _ _ _ => Or.inl rfl) slash names dir
  | succ links' ih =>
    cases links with
    | zero => simp at hle
    | succ links =>
      rw [resolve_eq_steps, resolve_eq_steps]
      exact steps_eq_or_tooManyLinks (fun _ _ _ _ => ih (Nat.le_of_succ_le_succ hle) _ _ _) slash names dir

/-! ## Joined paths -/

theorem Followable.of_join {p q : Path} (hq : q.isAbsolute = false) (hp : p.bytes ≠ [])
    (h : Followable (p.join q)) : Followable p := by
  obtain ⟨rest, hrest⟩ := Path.exists_bytes_join_eq (p := p) hq
  refine ⟨?_, hp, ?_⟩
  · have hnul := h.noNul
    rw [hrest] at hnul
    simp only [List.contains_eq_mem, decide_eq_false_iff_not, List.mem_append, not_or] at hnul ⊢
    exact hnul.1
  · have hshort := h.short
    rw [hrest, List.length_append] at hshort
    omega

/-- A path with the name of an entry behind it can be followed if it is short enough. -/
theorem Followable.join {p : Path} {name : Bytes} (h : Followable p) (hname : isEntryName name = true)
    (hshort : (p.join ⟨name⟩).bytes.length < pathLimit) : Followable (p.join ⟨name⟩) := by
  have hnul : (0 : UInt8) ∉ p.bytes := by simpa using h.noNul
  have hnul' : (0 : UInt8) ∉ name := Path.noNul_of_isEntryName hname
  rw [Path.join, if_neg (by simp [(Path.isPiece_of_isEntryName hname).isAbsolute_eq])] at hshort ⊢
  split at hshort
  · next hjoin =>
    rw [if_pos hjoin]
    exact ⟨by simp [hnul, hnul'], by simp [h.ne_nil], hshort⟩
  · next hjoin =>
    rw [if_neg hjoin]
    exact ⟨by simp [hnul, hnul', Path.slash], by simp, hshort⟩

/-- If a path leads somewhere that goes further than another one, then the other one leads to a directory. -/
theorem LeadsTo.of_join {p q : Path} {l : Location} (hp : p.bytes ≠ []) (hq : q.bytes ≠ [])
    (hrel : q.isAbsolute = false) (h : t.LeadsTo (p.join q) l) :
    ∃ dir, t.LeadsTo p dir ∧ t.get? dir = some .directory := by
  obtain ⟨node, hnode⟩ := h
  have hfollowable := followable_of_locate hnode
  rw [locate_of_followable hfollowable, start, Path.isAbsolute_join hp hrel, Path.names_join hrel] at hnode
  obtain ⟨dir, hdir⟩ := exists_of_resolve_append (Path.names_ne_nil hq hrel) hnode
  have hlocate : t.locate .look p = .ok (.occupied dir .directory) := by
    rw [locate_of_followable (hfollowable.of_join hrel hp)]
    exact hdir _
  exact ⟨dir, ⟨_, hlocate⟩, (locate_holds hlocate).1⟩

/-- A name behind the path of a directory is looked for in that directory, with the links that are left, unless the
longer path cannot be followed. -/
theorem exists_locate_join {p : Path} {dir : Location} {name : Bytes} (hp : t.LeadsTo p dir)
    (hdir : t.get? dir = some .directory) (purpose : Purpose) (hname : Path.IsPiece name)
    (hfollowable : Followable (p.join ⟨name⟩)) :
    ∃ links ≤ linkLimit, t.locate purpose (p.join ⟨name⟩) = t.resolve purpose links false dir [name] := by
  have hlocate := hp.locate_eq hdir
  have hprefix := followable_of_locate hlocate
  have hrel := hname.isAbsolute_eq
  rw [locate_of_followable hprefix] at hlocate
  obtain ⟨links, hle, heq⟩ := resolve_append purpose hlocate
  refine ⟨links, hle, ?_⟩
  rw [locate_of_followable hfollowable, start, Path.isAbsolute_join hprefix.ne_nil hrel, Path.names_join hrel,
    hname.names_eq, hname.endsInSlash_join]
  exact heq false [name] (by simp)

end Tree

end GetSet
