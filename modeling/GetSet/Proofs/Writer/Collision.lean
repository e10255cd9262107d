import GetSet.Proofs.Text.Bytes
import GetSet.Proofs.Tree.Entry
import GetSet.Proofs.Writer.Deliveries

/-!
# Documents with the same target

Several documents can have the same target path. A writer that overwrites leaves the body of the last one there
(`Deliveries.last_wins`). A writer that does not overwrite leaves alone what is there already (`Deliveries.settled`) and
else writes the first one (`Deliveries.first_wins`). What is there is judged when the writer turns to the document; the
output directory has been made by then, unless it is the first document of all (`Deliveries.cases_of_first`).
-/

namespace GetSet

/-- The name of the document's file is the name of an entry, unless it is too long. -/
structure Document.IsPlain (d : Document) : Prop where
  ne_empty : d.fileName ≠ ""
  noSlash : '/' ∉ d.fileName.toList
  notDots : d.fileName ≠ "." ∧ d.fileName ≠ ".."

namespace Document.IsPlain

variable {d : Document}

theorem piece (h : d.IsPlain) : Path.IsPiece d.fileName where
  ne_nil := mt Text.bytes_eq_nil_iff.1 h.ne_empty
  noSlash := mt Text.slash_mem_bytes_iff.1 h.noSlash

theorem bytes_notDots (h : d.IsPlain) : (d.fileName : Bytes) ≠ "." ∧ (d.fileName : Bytes) ≠ ".." :=
  ⟨mt Text.bytes_inj.1 h.notDots.1, mt Text.bytes_inj.1 h.notDots.2⟩

/-- Where a document is there is a directory for it. -/
theorem ready_of_pathExists (h : d.IsPlain) {w : Writer} {t : Tree} (hexists : t.pathExists (w.targetPath d) = true) :
    w.Ready t := by
  obtain ⟨l, hl⟩ := Tree.pathExists_iff.1 hexists
  obtain ⟨dir, ⟨hempty, -⟩ | ⟨-, hleads, -⟩⟩ := hl.exists_leadsInto h.piece
  · exact Or.inl hempty
  · exact Or.inr (Tree.pathExists_iff.2 ⟨dir, hleads⟩)

end Document.IsPlain

namespace Writer

variable {w : Writer}

/-! ## Files in one directory -/

/-- The files of some documents have their places in a directory, and no link is there. -/
structure Shelf (w : Writer) (all : List Document) (dir : Location) (t : Tree) : Prop where
  leadsInto : t.LeadsInto w.outputDir dir
  followable : ∀ d ∈ all, Tree.Followable (w.targetPath d)
  entry : ∀ d ∈ all, Tree.isEntryName d.fileName = true
  noLink : ∀ d ∈ all, ∀ target, t.get? (d.fileName :: dir) ≠ some (.link target)

namespace Shelf

variable {all : List Document} {dir : Location} {t t' : Tree} {d d' : Document}

theorem grows (h : w.Shelf all dir t) (hgrows : t.Grows t') : w.Shelf all dir t' where
  leadsInto := h.leadsInto.grows hgrows
  followable := h.followable
  entry := h.entry
  noLink d hd target hlink := h.noLink d hd target (hgrows.link.2 hlink)

theorem of_grows (h : w.Shelf all dir t') (hgrows : t.Grows t') (hready : w.Ready t) : w.Shelf all dir t where
  leadsInto := h.leadsInto.of_grows hgrows hready
  followable := h.followable
  entry := h.entry
  noLink d hd target hlink := h.noLink d hd target (hgrows.link.1 hlink)

/-- The output directory is there. -/
theorem prepare_eq (h : w.Shelf all dir t) : w.prepare t = (.ok (), t) := by
  refine Ready.prepare_eq ?_
  rcases h.leadsInto with ⟨hempty, -⟩ | ⟨-, hleads, -⟩
  · exact Or.inl hempty
  · exact Or.inr (Tree.pathExists_iff.2 ⟨dir, hleads⟩)

theorem locate_eq (h : w.Shelf all dir t) (purpose : Tree.Purpose) (hd : d ∈ all) :
    t.locate purpose (w.targetPath d) = .ok (t.placeOf dir d.fileName) :=
  h.leadsInto.locate_join purpose (h.entry d hd) (h.followable d hd) (h.noLink d hd)

/-- The path of a document leads to what stands at its name. -/
theorem status?_eq (h : w.Shelf all dir t) (hd : d ∈ all) :
    t.status? (w.targetPath d) = t.get? (d.fileName :: dir) := by
  rw [Tree.status?, h.locate_eq .look hd, Tree.placeOf]
  cases t.get? (d.fileName :: dir) <;> rfl

theorem targetPath_eq_iff (h : w.Shelf all dir t) (hd : d ∈ all) (hd' : d' ∈ all) :
    w.targetPath d' = w.targetPath d ↔ d'.fileName = d.fileName :=
  (Path.join_inj (Path.isPiece_of_isEntryName (h.entry d' hd')) (Path.isPiece_of_isEntryName (h.entry d hd))).trans
    Text.bytes_inj

/-- Writing a document changes what stands at its target and at no other one. -/
theorem status?_of_write (h : w.Shelf all dir t) (hd : d ∈ all) (hd' : d' ∈ all) {content : ByteArray}
    (hwrite : t.write (w.targetPath d) content = .ok t') :
    t'.status? (w.targetPath d') =
      if w.targetPath d' = w.targetPath d then some (.file content) else t.status? (w.targetPath d') := by
  obtain ⟨place, hlocate, -, hwritten⟩ := Tree.locate_of_write hwrite
  obtain rfl := Except.ok.inj ((h.locate_eq .write hd).symm.trans hlocate)
  rw [Tree.location_placeOf] at hwritten
  rw [(h.grows hwritten.grows).status?_eq hd', h.status?_eq hd']
  by_cases heq : d'.fileName = d.fileName
  · rw [if_pos ((h.targetPath_eq_iff hd hd').2 heq), heq]
    exact hwritten.here
  · rw [if_neg fun hpath => heq ((h.targetPath_eq_iff hd hd').1 hpath)]
    exact hwritten.elsewhere _ fun hcons => heq (Text.bytes_inj.1 (List.cons.inj hcons).1)

theorem of_write (h : w.Shelf all dir t) {content : ByteArray} (hwrite : t.write (w.targetPath d) content = .ok t') :
    w.Shelf all dir t' := by
  obtain ⟨_, -, -, hwritten⟩ := Tree.locate_of_write hwrite
  exact h.grows hwritten.grows

end Shelf

namespace Deliveries

variable {all ds written skipped before after : List Document} {dir : Location} {t t' : Tree} {d : Document}

/-! ## All documents -/

/-- Every document is written or left alone. -/
theorem perm (h : w.Deliveries t ds written skipped t') : ds.Perm (written ++ skipped) := by
  induction h with
  | done t => exact .nil
  | written _ _ _ _ ih => exact ih.cons _
  | skipped _ _ _ ih => exact (ih.cons _).trans List.perm_middle.symm

theorem exists_leadsTo (h : w.Deliveries t ds written skipped t') (hd : d ∈ ds) :
    ∃ l, t'.LeadsTo (w.targetPath d) l := by
  induction h with
  | done t => simp at hd
  | written _ _ hwrite hrest ih =>
    rcases List.mem_cons.1 hd with rfl | hd
    · obtain ⟨place, -, hlook, -⟩ := Tree.locate_of_write hwrite
      exact ⟨_, Tree.LeadsTo.grows ⟨_, hlook⟩ hrest.confined.grows⟩
    · exact ih hd
  | skipped _ hexists hrest ih =>
    rcases List.mem_cons.1 hd with rfl | hd
    · obtain ⟨l, hleads⟩ := Tree.pathExists_iff.1 hexists
      exact ⟨l, hleads.grows hrest.confined.grows⟩
    · exact ih hd

/-! ## One target -/

section Target

variable (hshelf : w.Shelf all dir t) (hsub : ds ⊆ all) (hd : d ∈ all)
include hshelf hsub hd

/-- Documents with other targets leave a target alone. -/
theorem keeps (h : w.Deliveries t ds written skipped t') (hother : ∀ d' ∈ ds, w.targetPath d' ≠ w.targetPath d) :
    t'.status? (w.targetPath d) = t.status? (w.targetPath d) := by
  induction h with
  | done t => rfl
  | @written t _ t₂ _ d₁ _ _ _ _ hprepare hwrite _ ih =>
    obtain ⟨hfirst, hrest⟩ := List.forall_mem_cons.1 hother
    obtain ⟨hd₁, hsub⟩ := List.cons_subset.1 hsub
    obtain ⟨-, rfl⟩ := Prod.mk.inj (hshelf.prepare_eq.symm.trans hprepare)
    rw [ih (hshelf.of_write hwrite) hsub hrest, hshelf.status?_of_write hd₁ hd hwrite, if_neg (Ne.symm hfirst)]
  | skipped _ _ _ ih => exact ih hshelf (List.cons_subset.1 hsub).2 (List.forall_mem_cons.1 hother).2

/-- A writer that overwrites leaves the last document with a target there. -/
theorem last_wins (hover : w.overwrite = true) (h : w.Deliveries t ds written skipped t')
    (hds : ds = before ++ d :: after) (hafter : ∀ d' ∈ after, w.targetPath d' ≠ w.targetPath d) :
    t'.status? (w.targetPath d) = some (.file d.body.toUTF8) := by
  induction h generalizing before with
  | done t => simp at hds
  | @written t _ t₂ _ d₁ ds _ _ _ hprepare hwrite hrest ih =>
    obtain ⟨hd₁, hsub⟩ := List.cons_subset.1 hsub
    obtain ⟨-, rfl⟩ := Prod.mk.inj (hshelf.prepare_eq.symm.trans hprepare)
    cases before with
    | nil =>
      obtain ⟨rfl, rfl⟩ := List.cons.inj hds
      rw [keeps (hshelf.of_write hwrite) hsub hd hrest hafter, hshelf.status?_of_write hd hd hwrite, if_pos rfl]
    | cons _ before => exact ih (hshelf.of_write hwrite) hsub (List.cons.inj hds).2
  | skipped hkeep _ _ _ =>
    rw [hover] at hkeep
    simp at hkeep

variable (hkeep : w.overwrite = false)
include hkeep

/-- A writer that does not overwrite leaves alone what is at a target, and writes no document there. -/
theorem settled (h : w.Deliveries t ds written skipped t') (hexists : t.pathExists (w.targetPath d) = true) :
    t'.status? (w.targetPath d) = t.status? (w.targetPath d) ∧
      (written.map w.targetPath).count (w.targetPath d) = 0 := by
  induction h with
  | done t => exact ⟨rfl, rfl⟩
  | @written t _ t₂ _ d₁ _ _ _ hmissing hprepare hwrite _ ih =>
    obtain ⟨hd₁, hsub⟩ := List.cons_subset.1 hsub
    obtain ⟨-, rfl⟩ := Prod.mk.inj (hshelf.prepare_eq.symm.trans hprepare)
    have hne : w.targetPath d₁ ≠ w.targetPath d := by
      intro heq
      rw [← heq, hmissing hkeep] at hexists
      simp at hexists
    have hstatus := hshelf.status?_of_write hd₁ hd hwrite
    rw [if_neg (Ne.symm hne)] at hstatus
    obtain ⟨hsame, hcount⟩ := ih (hshelf.of_write hwrite) hsub ((Tree.pathExists_congr hstatus).trans hexists)
    exact ⟨hsame.trans hstatus, by rw [List.map_cons, List.count_cons_of_ne hne, hcount]⟩
  | skipped _ _ _ ih => exact ih hshelf (List.cons_subset.1 hsub).2 hexists

/-- A writer that does not overwrite writes the first document with a target at which nothing is, and no other one. -/
theorem first_wins (h : w.Deliveries t ds written skipped t') (hmissing : t.pathExists (w.targetPath d) = false)
    (hds : ds = before ++ d :: after) (hbefore : ∀ d' ∈ before, w.targetPath d' ≠ w.targetPath d) :
    t'.status? (w.targetPath d) = some (.file d.body.toUTF8) ∧
      (written.map w.targetPath).count (w.targetPath d) = 1 := by
  induction h generalizing before with
  | done t => simp at hds
  | @written t _ t₂ _ d₁ ds _ _ _ hprepare hwrite hrest ih =>
    obtain ⟨hd₁, hsub⟩ := List.cons_subset.1 hsub
    obtain ⟨-, rfl⟩ := Prod.mk.inj (hshelf.prepare_eq.symm.trans hprepare)
    have hstatus := hshelf.status?_of_write hd₁ hd hwrite
    cases before with
    | nil =>
      obtain ⟨rfl, rfl⟩ := List.cons.inj hds
      rw [if_pos rfl] at hstatus
      obtain ⟨hsame, hcount⟩ :=
        settled (hshelf.of_write hwrite) hsub hd hkeep hrest (Tree.pathExists_of_status? hstatus)
      exact ⟨hsame.trans hstatus, by rw [List.map_cons, List.count_cons_self, hcount]⟩
    | cons _ before =>
      obtain ⟨rfl, hrest⟩ := List.cons.inj hds
      obtain ⟨hne, hbefore⟩ := List.forall_mem_cons.1 hbefore
      rw [if_neg (Ne.symm hne)] at hstatus
      obtain ⟨hbody, hcount⟩ :=
        ih (hshelf.of_write hwrite) hsub ((Tree.pathExists_congr hstatus).trans hmissing) hrest hbefore
      exact ⟨hbody, by rw [List.map_cons, List.count_cons_of_ne hne, hcount]⟩
  | skipped _ hexists hrest ih =>
    cases before with
    | nil =>
      obtain ⟨rfl, -⟩ := List.cons.inj hds
      rw [hmissing] at hexists
      simp at hexists
    | cons _ before =>
      exact ih hshelf (List.cons_subset.1 hsub).2 hmissing (List.cons.inj hds).2 (List.forall_mem_cons.1 hbefore).2

/-- What becomes of a target if the writer does not overwrite and there is a directory for it. -/
theorem resolves (h : w.Deliveries t ds written skipped t') (hds : ds = before ++ d :: after)
    (hbefore : ∀ d' ∈ before, w.targetPath d' ≠ w.targetPath d) :
    if t.pathExists (w.targetPath d) = true then
      t'.status? (w.targetPath d) = t.status? (w.targetPath d) ∧
        (written.map w.targetPath).count (w.targetPath d) = 0
    else
      t'.status? (w.targetPath d) = some (.file d.body.toUTF8) ∧
        (written.map w.targetPath).count (w.targetPath d) = 1 := by
  split
  next hexists => exact settled hshelf hsub hd hkeep h hexists
  next hexists => exact first_wins hshelf hsub hd hkeep h (by simpa using hexists) hds hbefore

end Target

/-! ## From the first document on -/

/-- When a writer has turned to its first document the output directory is made or there is none to be made, and that
is all that has been done before the documents are written. -/
theorem ready_and_grows (h : w.Deliveries t ds written skipped t') (hne : ds ≠ []) (hplain : ∀ d ∈ ds, d.IsPlain) :
    w.Ready (w.prepare t).2 ∧ (w.prepare t).2.Grows t' := by
  cases h with
  | done t => exact absurd rfl hne
  | written _ hprepare hwrite hrest =>
    obtain ⟨_, -, -, hwritten⟩ := Tree.locate_of_write hwrite
    rw [hprepare]
    exact ⟨ready_of_prepare hprepare, hwritten.grows.trans hrest.confined.grows⟩
  | @skipped _ _ d _ _ _ hkeep hexists hrest =>
    have hready := (hplain d List.mem_cons_self).ready_of_pathExists hexists
    rw [hready.prepare_eq]
    exact ⟨hready, hrest.confined.grows⟩

/-- The files of documents that were written or left alone have their places in a directory. -/
theorem exists_shelf (h : w.Deliveries t ds written skipped t') (hplain : ∀ d ∈ ds, d.IsPlain)
    (hlinks : ∀ d ∈ ds, t'.isLink (w.targetPath d) = false) (hd : d ∈ ds) :
    ∃ dir, w.Shelf ds dir (w.prepare t).2 := by
  obtain ⟨hready, hgrows⟩ := h.ready_and_grows (List.ne_nil_of_mem hd) hplain
  obtain ⟨l, hl⟩ := h.exists_leadsTo hd
  obtain ⟨dir, hdir⟩ := hl.exists_leadsInto (hplain d hd).piece
  have hfollowable : ∀ d ∈ ds, Tree.Followable (w.targetPath d) := fun d hd => by
    obtain ⟨l, hl⟩ := h.exists_leadsTo hd
    exact hl.followable
  have hentry : ∀ d ∈ ds, Tree.isEntryName d.fileName = true := fun d hd => by
    obtain ⟨_, _, hlocate⟩ := h.exists_leadsTo hd
    exact hdir.isEntryName_of_locate (hplain d hd).piece (hplain d hd).bytes_notDots hlocate
  have hshelf : w.Shelf ds dir t' := by
    refine ⟨hdir, hfollowable, hentry, fun d hd target hlink => ?_⟩
    have htrue := hdir.isLink_join (hentry d hd) (hfollowable d hd) hlink
    rw [show t'.isLink (w.outputDir.join ⟨d.fileName⟩) = false from hlinks d hd] at htrue
    simp at htrue
  exact ⟨dir, hshelf.of_grows hgrows hready⟩

/-- What becomes of a target if the writer overwrites: the last document with this target is there. -/
theorem status?_of_last (h : w.Deliveries t ds written skipped t') (hplain : ∀ d ∈ ds, d.IsPlain)
    (hlinks : ∀ d ∈ ds, t'.isLink (w.targetPath d) = false) (hover : w.overwrite = true)
    (hds : ds = before ++ d :: after) (hafter : ∀ d' ∈ after, w.targetPath d' ≠ w.targetPath d) :
    t'.status? (w.targetPath d) = some (.file d.body.toUTF8) := by
  have hd : d ∈ ds := by simp [hds]
  obtain ⟨dir, hshelf⟩ := h.exists_shelf hplain hlinks hd
  -- the documents could as well be written when the output directory is there already
  have hall : w.Deliveries (w.prepare t).2 ds written skipped t' := by
    cases h with
    | done t => simp at hd
    | written _ hprepare hwrite hrest =>
      rw [hprepare] at hshelf ⊢
      exact .written (by simp [hover]) hshelf.prepare_eq hwrite hrest
    | skipped hkeep _ _ =>
      rw [hover] at hkeep
      simp at hkeep
  exact last_wins hshelf (List.Subset.refl ds) hd hover hall hds hafter

/-- What becomes of a target if the writer does not overwrite. What is there when the output directory is made is left
alone; the first document is written all the same if its path led nowhere before. Where nothing is, the first document
with this target is written, and no other one. -/
theorem cases_of_first (h : w.Deliveries t ds written skipped t') (hplain : ∀ d ∈ ds, d.IsPlain)
    (hlinks : ∀ d ∈ ds, t'.isLink (w.targetPath d) = false) (hkeep : w.overwrite = false)
    (hds : ds = before ++ d :: after) (hbefore : ∀ d' ∈ before, w.targetPath d' ≠ w.targetPath d) :
    if t.pathExists (w.targetPath d) = true ∨ before ≠ [] ∧ (w.prepare t).2.pathExists (w.targetPath d) = true then
      t'.status? (w.targetPath d) = (w.prepare t).2.status? (w.targetPath d) ∧
        (written.map w.targetPath).count (w.targetPath d) = 0
    else
      t'.status? (w.targetPath d) = some (.file d.body.toUTF8) ∧
        (written.map w.targetPath).count (w.targetPath d) = 1 := by
  have hd : d ∈ ds := by simp [hds]
  obtain ⟨dir, hshelf⟩ := h.exists_shelf hplain hlinks hd
  cases h with
  | done t => simp at hd
  | @written t t₁ t₂ _ d₁ ds written _ hmissing hprepare hwrite hrest =>
    rw [hprepare] at hshelf ⊢
    dsimp only at hshelf ⊢
    have hstatus := hshelf.status?_of_write List.mem_cons_self hd hwrite
    have hshelf₂ := hshelf.of_write hwrite
    have hsub := List.subset_cons_self d₁ ds
    cases before with
    | nil =>
      obtain ⟨rfl, rfl⟩ := List.cons.inj hds
      rw [if_pos rfl] at hstatus
      obtain ⟨hsame, hcount⟩ := settled hshelf₂ hsub hd hkeep hrest (Tree.pathExists_of_status? hstatus)
      rw [if_neg (by simp [hmissing hkeep])]
      exact ⟨hsame.trans hstatus, by rw [List.map_cons, List.count_cons_self, hcount]⟩
    | cons _ before =>
      obtain ⟨rfl, hds'⟩ := List.cons.inj hds
      obtain ⟨hne, hbefore⟩ := List.forall_mem_cons.1 hbefore
      rw [if_neg (Ne.symm hne)] at hstatus
      rw [List.map_cons, List.count_cons_of_ne hne]
      have hresolves := resolves hshelf₂ hsub hd hkeep hrest hds' hbefore
      rw [Tree.pathExists_congr hstatus, hstatus] at hresolves
      -- what is at a target stays there when the output directory is made
      have hstays : t.pathExists (w.targetPath d) = true → t₁.pathExists (w.targetPath d) = true := by
        have hgrows := (w.addsDirectories_prepare t).grows
        rw [hprepare] at hgrows
        exact hgrows.pathExists
      have hiff : t.pathExists (w.targetPath d) = true ∨
          d₁ :: before ≠ [] ∧ t₁.pathExists (w.targetPath d) = true ↔ t₁.pathExists (w.targetPath d) = true :=
        ⟨fun h => h.elim hstays (·.2), fun hexists => Or.inr ⟨by simp, hexists⟩⟩
      simpa only [hiff] using hresolves
  | @skipped _ _ d₁ ds _ _ _ hexists₁ hrest =>
    have hready : w.Ready t := (hplain d₁ List.mem_cons_self).ready_of_pathExists hexists₁
    rw [hready.prepare_eq] at hshelf ⊢
    have hall : w.Deliveries t (d₁ :: ds) written _ t' := .skipped hkeep hexists₁ hrest
    have hresolves := resolves hshelf (List.Subset.refl _) hd hkeep hall hds hbefore
    simpa only [or_iff_left_of_imp fun h : before ≠ [] ∧ t.pathExists (w.targetPath d) = true => h.2] using hresolves

end Deliveries

end Writer

end GetSet
