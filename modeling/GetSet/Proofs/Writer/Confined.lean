import GetSet.Writer
import GetSet.Proofs.Action.Reporting
import GetSet.Proofs.Tree.Descent
import GetSet.Proofs.Tree.Directories
import GetSet.Proofs.Tree.Purpose

/-!
# What a writer changes

A writer that turns to some documents changes the files that the paths of these documents lead to, and makes its output
directory and directories above it; nothing else changes, whether it succeeds or fails (`confined_mapM`). A writer that
does not overwrite leaves the files alone that are there already, unless the path of the first document leads to one
through a directory that is made for it (`Reopens`).
-/

namespace GetSet

namespace Writer

variable {w : Writer}

/-! ## The effect of writing -/

/-- Makes the output directory if it is missing. -/
def prepare (w : Writer) (t : Tree) : Except SystemError Unit × Tree :=
  if t.pathExists w.outputDir then (.ok (), t) else t.makeDirectories w.outputDir

/-- What writing a document yields on a tree, and the tree that it leaves: the document is skipped, or the output
directory is made if it is missing and the document's file is written. -/
def deliver (w : Writer) (d : Document) (t : Tree) : Except Fault WriteOutcome × Tree :=
  if w.overwrite = false ∧ t.pathExists (w.targetPath d) = true then (.ok (.skipped (w.targetPath d)), t)
  else
    match w.prepare t with
    | (.error e, t') => (.error (.access w.outputDir e), t')
    | (.ok (), t') =>
      match t'.write (w.targetPath d) d.body.toUTF8 with
      | .ok t'' => (.ok (.written (w.targetPath d)), t'')
      | .error e => (.error (.access (w.targetPath d) e), t')

/-- What is reported while a document is written. -/
def notices (w : Writer) (d : Document) (t : Tree) : List Event :=
  if w.overwrite = false ∧ t.pathExists (w.targetPath d) = true then [.skipped (w.targetPath d)]
  else
    (if t.pathExists w.outputDir then [] else [.creatingDirectory w.outputDir]) ++
      match w.deliver d t with
      | (.ok _, _) => [.written (w.targetPath d)]
      | (.error _, _) => []

theorem exec_write (w : Writer) (d : Document) (ws : Workspace) :
    (w.write d).exec ws =
      ((w.deliver d ws.tree).1, ⟨(w.deliver d ws.tree).2, ws.journal ++ w.notices d ws.tree⟩) := by
  unfold write notices deliver prepare
  generalize d.body.toUTF8 = content
  by_cases hskip : w.overwrite = false ∧ ws.tree.pathExists (w.targetPath d) = true
  · simp [hskip, Except.map]
  · simp only [if_neg hskip]
    by_cases hdir : ws.tree.pathExists w.outputDir = true
    · cases hwrite : ws.tree.write (w.targetPath d) content with
      | error e =>
        simp [hskip, hdir, hwrite]
      | ok t =>
        simp [hskip, hdir, hwrite, Except.map]
    · rcases hmake : ws.tree.makeDirectories w.outputDir with ⟨_ | _, t⟩
      · simp [hskip, hdir, hmake, Action.mapError_error]
      · cases hwrite : t.write (w.targetPath d) content with
        | error e =>
          simp [hskip, hdir, hmake, hwrite, Action.mapError_ok]
        | ok t' =>
          simp [hskip, hdir, hmake, hwrite, Except.map, Action.mapError_ok]

theorem additive_write (w : Writer) (d : Document) : (w.write d).Additive :=
  Action.additive_of_exec (w.deliver d) (w.notices d) (w.exec_write d)

theorem oblivious_write (w : Writer) (d : Document) : (w.write d).Oblivious :=
  (w.additive_write d).oblivious

theorem effect_write (w : Writer) (d : Document) (t : Tree) : (w.write d).effect t = w.deliver d t := by
  rw [Action.effect, Action.runOn, exec_write]

theorem journal_write (w : Writer) (d : Document) (t : Tree) : (w.write d).journal t = w.notices d t := by
  rw [Action.journal, Action.runOn, exec_write, List.nil_append]

theorem addsDirectories_prepare (w : Writer) (t : Tree) : t.AddsDirectories (w.prepare t).2 := by
  unfold prepare
  split
  · exact .refl t
  · exact t.addsDirectories_makeDirectories w.outputDir

/-- Everything that writing a document can do. -/
theorem deliver_cases (w : Writer) (d : Document) (t : Tree) :
    (w.overwrite = false ∧ t.pathExists (w.targetPath d) = true ∧
        w.deliver d t = (.ok (.skipped (w.targetPath d)), t)) ∨
      (∃ e t', w.prepare t = (.error e, t') ∧ w.deliver d t = (.error (.access w.outputDir e), t')) ∨
      (∃ e t', w.prepare t = (.ok (), t') ∧ t'.write (w.targetPath d) d.body.toUTF8 = .error e ∧
        w.deliver d t = (.error (.access (w.targetPath d) e), t')) ∨
      ∃ t' t'', (w.overwrite = false → t.pathExists (w.targetPath d) = false) ∧ w.prepare t = (.ok (), t') ∧
        t'.write (w.targetPath d) d.body.toUTF8 = .ok t'' ∧
        w.deliver d t = (.ok (.written (w.targetPath d)), t'') := by
  unfold deliver
  split
  · next hskip => exact Or.inl ⟨hskip.1, hskip.2, rfl⟩
  · next hskip =>
    rcases hprepare : w.prepare t with ⟨e | _, t'⟩
    · exact Or.inr (Or.inl ⟨e, t', rfl, rfl⟩)
    · dsimp only
      cases hwrite : t'.write (w.targetPath d) d.body.toUTF8 with
      | error e =>
        exact Or.inr (Or.inr (Or.inl ⟨e, t', rfl, hwrite, rfl⟩))
      | ok t'' =>
        refine Or.inr (Or.inr (Or.inr ⟨t', t'', fun hkeep => ?_, rfl, hwrite, rfl⟩))
        simpa [hkeep] using hskip

/-- Everything that writing a document can do if it succeeds. -/
theorem deliver_ok_cases {d : Document} {t t' : Tree} {outcome : WriteOutcome} (h : w.deliver d t = (.ok outcome, t')) :
    (w.overwrite = false ∧ t.pathExists (w.targetPath d) = true ∧ outcome = .skipped (w.targetPath d) ∧ t' = t) ∨
      ∃ t₁, (w.overwrite = false → t.pathExists (w.targetPath d) = false) ∧ w.prepare t = (.ok (), t₁) ∧
        t₁.write (w.targetPath d) d.body.toUTF8 = .ok t' ∧ outcome = .written (w.targetPath d) := by
  rcases w.deliver_cases d t with ⟨hkeep, hexists, heq⟩ | ⟨e, t₁, -, heq⟩ | ⟨e, t₁, -, -, heq⟩ |
    ⟨t₁, t₂, hmissing, hprepare, hwrite, heq⟩
  · obtain ⟨houtcome, rfl⟩ := Prod.mk.inj (heq.symm.trans h)
    exact Or.inl ⟨hkeep, hexists, (Except.ok.inj houtcome).symm, rfl⟩
  · rw [heq] at h
    simp at h
  · rw [heq] at h
    simp at h
  · obtain ⟨houtcome, rfl⟩ := Prod.mk.inj (heq.symm.trans h)
    exact Or.inr ⟨t₁, hmissing, hprepare, hwrite, (Except.ok.inj houtcome).symm⟩

/-- If writing a document fails then the document was not skipped, something could not be accessed, and nothing was done
but to make the output directory. -/
theorem deliver_error {d : Document} {t t' : Tree} {fault : Fault} (h : w.deliver d t = (.error fault, t')) :
    ¬ (w.overwrite = false ∧ t.pathExists (w.targetPath d) = true) ∧ fault.IsAccess ∧ t' = (w.prepare t).2 := by
  unfold deliver at h
  split at h
  · exact nomatch (Prod.mk.inj h).1
  · next hskip =>
    rcases hprepare : w.prepare t with ⟨e | _, t₁⟩
    · rw [hprepare] at h
      obtain ⟨hfault, rfl⟩ := Prod.mk.inj h
      exact ⟨hskip, ⟨_, e, (Except.error.inj hfault).symm⟩, rfl⟩
    · rw [hprepare] at h
      dsimp only at h
      cases hwrite : t₁.write (w.targetPath d) d.body.toUTF8 with
      | error e =>
        rw [hwrite] at h
        obtain ⟨hfault, rfl⟩ := Prod.mk.inj h
        exact ⟨hskip, ⟨_, e, (Except.error.inj hfault).symm⟩, rfl⟩
      | ok t₂ =>
        rw [hwrite] at h
        exact nomatch (Prod.mk.inj h).1

/-! ## Confinement -/

/-- A tree differs from another one as a writer may make it differ with some documents: nothing has gone, every file
that is new or has a new content is one of these documents and its path leads there, and every new directory is the
output directory or one above it. -/
structure Confined (w : Writer) (ds : List Document) (t t' : Tree) : Prop where
  grows : t.Grows t'
  file : ∀ {l : Location} {content : ByteArray}, t'.get? l = some (.file content) →
    t.get? l = some (.file content) ∨ ∃ d ∈ ds, content = d.body.toUTF8 ∧ t'.LeadsTo (w.targetPath d) l
  directory : ∀ {l : Location}, t'.get? l = some .directory →
    t.get? l = some .directory ∨ ∃ p ∈ w.outputDir.ancestors, t'.LeadsTo p l

namespace Confined

variable {ds ds' : List Document} {t t' t'' : Tree}

theorem refl (w : Writer) (ds : List Document) (t : Tree) : w.Confined ds t t where
  grows := .refl t
  file h := Or.inl h
  directory h := Or.inl h

theorem trans (h : w.Confined ds t t') (h' : w.Confined ds' t' t'') : w.Confined (ds ++ ds') t t'' where
  grows := h.grows.trans h'.grows
  file hl := by
    rcases h'.file hl with hl' | ⟨d, hd, hcontent, hleads⟩
    · refine (h.file hl').imp_right ?_
      rintro ⟨d, hd, hcontent, hleads⟩
      exact ⟨d, List.mem_append_left ds' hd, hcontent, hleads.grows h'.grows⟩
    · exact Or.inr ⟨d, List.mem_append_right ds hd, hcontent, hleads⟩
  directory hl := by
    rcases h'.directory hl with hl' | hnew
    · refine (h.directory hl').imp_right ?_
      rintro ⟨p, hp, hleads⟩
      exact ⟨p, hp, hleads.grows h'.grows⟩
    · exact Or.inr hnew

/-- With more documents a writer may do more. -/
theorem mono (h : w.Confined ds t t') (hsub : ds ⊆ ds') : w.Confined ds' t t' where
  grows := h.grows
  file hl := by
    refine (h.file hl).imp_right ?_
    rintro ⟨d, hd, hrest⟩
    exact ⟨d, hsub hd, hrest⟩
  directory := h.directory

end Confined

theorem confined_prepare (w : Writer) (ds : List Document) (t : Tree) : w.Confined ds t (w.prepare t).2 where
  grows := (w.addsDirectories_prepare t).grows
  file {l content} hl := by
    rcases (w.addsDirectories_prepare t).get?_eq l with heq | ⟨-, hdir⟩
    · exact Or.inl (heq ▸ hl)
    · rw [hl] at hdir
      simp at hdir
  directory {l} hl := by
    unfold prepare at hl ⊢
    split at hl
    · exact Or.inl hl
    · next hmissing =>
      rw [if_neg hmissing]
      exact t.makeDirectories_new w.outputDir hl

theorem confined_of_write {d : Document} {t t' : Tree} (h : t.write (w.targetPath d) d.body.toUTF8 = .ok t') :
    w.Confined [d] t t' := by
  obtain ⟨place, -, hlook, hwritten⟩ := Tree.locate_of_write h
  refine ⟨hwritten.grows, ?_, ?_⟩
  · intro l content hl
    by_cases hplace : l = place.location
    · subst hplace
      rw [hwritten.here] at hl
      obtain rfl := Node.file.inj (Option.some.inj hl)
      exact Or.inr ⟨d, List.mem_singleton_self d, rfl, _, hlook⟩
    · exact Or.inl ((hwritten.elsewhere l hplace).symm.trans hl)
  · intro l hl
    by_cases hplace : l = place.location
    · rw [hplace, hwritten.here] at hl
      simp at hl
    · exact Or.inl ((hwritten.elsewhere l hplace).symm.trans hl)

/-- Writing a document changes nothing but its file and the directories for it. -/
theorem confined_deliver (w : Writer) (d : Document) (t : Tree) : w.Confined [d] t (w.deliver d t).2 := by
  have hprepare := w.confined_prepare [] t
  rcases w.deliver_cases d t with ⟨-, -, hd⟩ | ⟨e, t', ht', hd⟩ | ⟨e, t', ht', -, hd⟩ | ⟨t', t'', -, ht', hwrite, hd⟩
  · rw [hd]
    exact .refl w [d] t
  · rw [hd]
    rw [ht'] at hprepare
    exact hprepare.mono (List.nil_subset [d])
  · rw [hd]
    rw [ht'] at hprepare
    exact hprepare.mono (List.nil_subset [d])
  · rw [hd]
    rw [ht'] at hprepare
    exact hprepare.trans (confined_of_write hwrite)

/-- Writing some documents changes nothing but their files and the directories for them. -/
theorem confined_mapM (w : Writer) (ds : List Document) (t : Tree) :
    w.Confined ds t ((ds.mapM w.write).effect t).2 := by
  induction ds generalizing t with
  | nil => exact .refl w [] t
  | cons d ds ih =>
    have hstep := w.confined_deliver d t
    rw [Action.tree_mapM_cons w.oblivious_write, effect_write]
    rcases hd : w.deliver d t with ⟨fault | outcome, t'⟩
    · rw [hd] at hstep
      exact hstep.mono (by simp)
    · rw [hd] at hstep
      exact hstep.trans (ih t')

/-! ## Files that are there already -/

/-- A document's path leads nowhere, but once the output directory is made it leads to a place that was there before.
That happens to an output directory such as `a/../b`: as long as `a` is missing, nothing in `b` is found. -/
def Reopens (w : Writer) (d : Document) (t : Tree) (l : Location) : Prop :=
  t.pathExists (w.targetPath d) = false ∧ (w.prepare t).1 = .ok () ∧ (w.prepare t).2.LeadsTo (w.targetPath d) l

/-- A writer that does not overwrite leaves a file alone exactly if it does not come upon it in this way or if the
content stays the same. -/
theorem deliver_keeps_iff (hkeep : w.overwrite = false) (d : Document) {t : Tree} {l : Location}
    {content : ByteArray} (hl : t.get? l = some (.file content)) :
    (w.deliver d t).2.get? l = some (.file content) ↔ (w.Reopens d t l → content = d.body.toUTF8) := by
  -- making directories leaves the file alone
  have hprepare : (w.prepare t).2.get? l = some (.file content) := by
    rcases (w.addsDirectories_prepare t).get?_eq l with heq | ⟨hnone, -⟩
    · exact heq.trans hl
    · rw [hl] at hnone
      simp at hnone
  by_cases hreopens : w.Reopens d t l
  · obtain ⟨hmissing, hok, hleads⟩ := hreopens
    have hlocate := Tree.locate_write_of_look (hleads.locate_eq hprepare)
    have hpair : w.prepare t = (.ok (), (w.prepare t).2) := by rw [← hok]
    have hdeliver : (w.deliver d t).2 = (w.prepare t).2.replace l d.body.toUTF8 := by
      rw [deliver, if_neg (by simp [hmissing]), hpair]
      dsimp only
      rw [Tree.write, hlocate]
    rw [hdeliver, Tree.get?_replace _ hprepare, if_pos rfl]
    simp only [Option.some.injEq, Node.file.injEq]
    exact ⟨fun h _ => h.symm, fun h => (h ⟨hmissing, hok, hleads⟩).symm⟩
  · refine iff_of_true ?_ (fun h => absurd h hreopens)
    rcases w.deliver_cases d t with ⟨-, -, hd⟩ | ⟨e, t', ht', hd⟩ | ⟨e, t', ht', -, hd⟩ |
      ⟨t', t'', hmissing, ht', hwrite, hd⟩
    · rw [hd]
      exact hl
    · rw [ht'] at hprepare
      rw [hd]
      exact hprepare
    · rw [ht'] at hprepare
      rw [hd]
      exact hprepare
    · rw [ht'] at hprepare
      rw [hd]
      obtain ⟨place, hlocate, -, hwritten⟩ := Tree.locate_of_write hwrite
      have hlook := Tree.locate_look_of_write hlocate
      rw [hwritten.elsewhere l ?_]
      · exact hprepare
      · rintro rfl
        refine hreopens ⟨hmissing hkeep, by rw [ht'], ?_⟩
        rw [ht']
        rcases place with ⟨l, node⟩ | ⟨dir, name⟩
        · exact ⟨node, hlook⟩
        · -- at a free name there is no file
          have hfree := (Tree.locate_holds hlook).2.1
          rw [show t'.get? (name :: dir) = _ from hprepare] at hfree
          simp at hfree

/-! ## When the output directory is there -/

/-- There is no directory to be made any more. -/
def Ready (w : Writer) (t : Tree) : Prop :=
  w.outputDir.bytes = [] ∨ t.pathExists w.outputDir = true

theorem Ready.grows {t t' : Tree} (h : w.Ready t) (hgrows : t.Grows t') : w.Ready t' :=
  h.imp_right fun hexists => hgrows.pathExists hexists

theorem Ready.prepare_eq {t : Tree} (h : w.Ready t) : w.prepare t = (.ok (), t) := by
  unfold prepare
  split
  · rfl
  · next hmissing =>
    rcases h with hempty | hexists
    · exact t.makeDirectories_empty hempty
    · exact absurd hexists hmissing

theorem ready_of_prepare {t t' : Tree} (h : w.prepare t = (.ok (), t')) : w.Ready t' := by
  by_cases hempty : w.outputDir.bytes = []
  · exact Or.inl hempty
  · unfold prepare at h
    split at h
    · next hexists =>
      obtain ⟨-, rfl⟩ := Prod.mk.inj h
      exact Or.inr hexists
    · obtain ⟨l, hleads, -⟩ := Tree.isDirectory_iff.1 (Tree.isDirectory_of_makeDirectories h hempty)
      exact Or.inr (Tree.pathExists_iff.2 ⟨l, hleads⟩)

/-- Nothing more can be found then by making directories. -/
theorem Ready.not_reopens {t : Tree} (h : w.Ready t) (d : Document) (l : Location) : ¬ w.Reopens d t l := by
  rintro ⟨hmissing, -, hleads⟩
  rw [h.prepare_eq] at hleads
  rw [Tree.pathExists_iff.2 ⟨l, hleads⟩] at hmissing
  simp at hmissing

end Writer

/-- The name of the document's file is not empty and leads on from a directory. -/
def Document.IsRelative (d : Document) : Prop :=
  d.fileName ≠ "" ∧ Path.isAbsolute ⟨d.fileName⟩ = false

namespace Writer

variable {w : Writer}

/-- Once a document was written or skipped the output directory is there. -/
theorem ready_of_deliver {d : Document} (hd : d.IsRelative) {t t' : Tree} {outcome : WriteOutcome}
    (h : w.deliver d t = (.ok outcome, t')) : w.Ready t' := by
  rcases deliver_ok_cases h with ⟨-, hexists, -, rfl⟩ | ⟨t₁, -, hprepare, hwrite, -⟩
  · by_cases hempty : w.outputDir.bytes = []
    · exact Or.inl hempty
    · -- the path goes further than that of the output directory
      obtain ⟨l, hleads⟩ := Tree.pathExists_iff.1 hexists
      obtain ⟨dir, hdir, -⟩ := hleads.of_join hempty (by simpa using hd.1) hd.2
      exact Or.inr (Tree.pathExists_iff.2 ⟨dir, hdir⟩)
  · exact (ready_of_prepare hprepare).grows (confined_of_write hwrite).grows

/-- A writer that does not overwrite leaves all files alone if the output directory is there. -/
theorem Ready.mapM_keeps (hkeep : w.overwrite = false) {t : Tree} (h : w.Ready t) (ds : List Document) {l : Location}
    {content : ByteArray} (hl : t.get? l = some (.file content)) :
    ((ds.mapM w.write).effect t).2.get? l = some (.file content) := by
  induction ds generalizing t with
  | nil => exact hl
  | cons d ds ih =>
    have hstep : (w.deliver d t).2.get? l = some (.file content) :=
      (deliver_keeps_iff hkeep d hl).2 fun hreopens => absurd hreopens (h.not_reopens d l)
    have hgrows := (w.confined_deliver d t).grows
    rw [Action.tree_mapM_cons w.oblivious_write, effect_write]
    rcases hd : w.deliver d t with ⟨fault | outcome, t'⟩
    · rw [hd] at hstep
      exact hstep
    · rw [hd] at hstep hgrows
      exact ih (h.grows hgrows) hstep

/-- A writer that does not overwrite leaves a file alone unless it comes upon it with the first document. -/
theorem mapM_keeps_iff (hkeep : w.overwrite = false) {ds : List Document} (hds : ∀ d ∈ ds, d.IsRelative) {t : Tree}
    {l : Location} {content : ByteArray} (hl : t.get? l = some (.file content)) :
    ((ds.mapM w.write).effect t).2.get? l = some (.file content) ↔
      ∀ d ∈ ds.head?, w.Reopens d t l → content = d.body.toUTF8 := by
  cases ds with
  | nil => simpa using hl
  | cons d ds =>
    simp only [List.head?_cons, Option.mem_some_iff, forall_eq']
    rw [← deliver_keeps_iff hkeep d hl, Action.tree_mapM_cons w.oblivious_write, effect_write]
    obtain ⟨content', hcontent'⟩ := (w.confined_deliver d t).grows.file hl
    rcases hd : w.deliver d t with ⟨fault | outcome, t'⟩
    · rfl
    · -- the other documents leave alone what the first one left
      rw [hd] at hcontent'
      have hready := ready_of_deliver (hds d List.mem_cons_self) hd
      have hrest := hready.mapM_keeps hkeep ds hcontent'
      dsimp only at hcontent' ⊢
      rw [hrest, hcontent']

end Writer

end GetSet
