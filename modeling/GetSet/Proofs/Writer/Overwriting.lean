import GetSet.Proofs.Tree.Rewalk
import GetSet.Proofs.Writer.Deliveries

/-!
# Writers that overwrite

A writer that overwrites writes all of its documents. Where several paths lead to one file, links and dots included, the
last of their documents (`IsLast`) is found there (`Deliveries.get?_of_last`). Documents whose files are there already
can always be written once more, and nothing comes into being then (`mapM_of_isFile`).
-/

namespace GetSet

/-! ## The last element with a property -/

section

variable {α β : Type} {P : α → Prop} {xs : List α} {x y : α}

/-- The last element of a list that has a property. -/
def IsLast (P : α → Prop) (xs : List α) (x : α) : Prop :=
  ∃ before after, xs = before ++ x :: after ∧ P x ∧ ∀ y ∈ after, ¬ P y

theorem IsLast.mem (h : IsLast P xs x) : x ∈ xs := by
  obtain ⟨before, after, rfl, -⟩ := h
  simp

theorem IsLast.prop (h : IsLast P xs x) : P x := by
  obtain ⟨_, _, -, hx, -⟩ := h
  exact hx

theorem isLast_cons : IsLast P (y :: xs) x ↔ IsLast P xs x ∨ x = y ∧ P y ∧ ∀ z ∈ xs, ¬ P z := by
  constructor
  · rintro ⟨before, after, heq, hx, hafter⟩
    cases before with
    | nil =>
      obtain ⟨rfl, rfl⟩ := List.cons.inj heq
      exact Or.inr ⟨rfl, hx, hafter⟩
    | cons _ before => exact Or.inl ⟨before, after, (List.cons.inj heq).2, hx, hafter⟩
  · rintro (⟨before, after, rfl, hx, hafter⟩ | ⟨rfl, hx, hafter⟩)
    · exact ⟨y :: before, after, rfl, hx, hafter⟩
    · exact ⟨[], xs, rfl, hx, hafter⟩

theorem exists_isLast (h : ∃ x ∈ xs, P x) : ∃ x, IsLast P xs x := by
  induction xs with
  | nil => simp at h
  | cons y xs ih =>
    by_cases hrest : ∃ x ∈ xs, P x
    · obtain ⟨x, hx⟩ := ih hrest
      exact ⟨x, isLast_cons.2 (Or.inl hx)⟩
    · obtain ⟨x, hmem, hx⟩ := h
      rcases List.mem_cons.1 hmem with rfl | hmem
      · exact ⟨x, isLast_cons.2 (Or.inr ⟨rfl, hx, fun z hz hP => hrest ⟨z, hz, hP⟩⟩)⟩
      · exact absurd ⟨x, hmem, hx⟩ hrest

/-- There is one at most. -/
theorem IsLast.unique (h : IsLast P xs x) (h' : IsLast P xs y) : x = y := by
  induction xs with
  | nil => simpa using h.mem
  | cons z xs ih =>
    rcases isLast_cons.1 h with hx | ⟨rfl, -, hnone⟩ <;> rcases isLast_cons.1 h' with hy | ⟨rfl, -, hnone'⟩
    · exact ih hx hy
    · exact absurd hx.prop (hnone' x hx.mem)
    · exact absurd hy.prop (hnone y hy.mem)
    · rfl

/-- It is still the last one if others are left out. -/
theorem IsLast.filter (h : IsLast P xs x) (keep : α → Bool) (hx : keep x = true) : IsLast P (xs.filter keep) x := by
  obtain ⟨before, after, rfl, hP, hafter⟩ := h
  refine ⟨before.filter keep, after.filter keep, ?_, hP, fun y hy => hafter y (List.mem_filter.1 hy).1⟩
  rw [List.filter_append, List.filter_cons_of_pos hx]

/-- The last one in the last list that has one is the last one of all. -/
theorem IsLast.flatMap {f : α → List β} {Q : β → Prop} {y : β} (h : IsLast (fun x => ∃ y ∈ f x, Q y) xs x)
    (hy : IsLast Q (f x) y) : IsLast Q (xs.flatMap f) y := by
  obtain ⟨before, after, rfl, -, hafter⟩ := h
  obtain ⟨before', after', heq, hQ, hafter'⟩ := hy
  refine ⟨before.flatMap f ++ before', after' ++ after.flatMap f, by simp [heq], hQ, fun z hz => ?_⟩
  rcases List.mem_append.1 hz with hz | hz
  · exact hafter' z hz
  · obtain ⟨x', hx', hz⟩ := List.mem_flatMap.1 hz
    exact fun hQ => hafter x' hx' ⟨z, hz, hQ⟩

end

namespace Writer

variable {w : Writer} {t t' : Tree}

namespace Deliveries

variable {ds written skipped : List Document} {d : Document}

/-- Nothing is left alone. -/
theorem eq_of_overwrite (hover : w.overwrite = true) (h : w.Deliveries t ds written skipped t') :
    written = ds ∧ skipped = [] := by
  induction h with
  | done t => exact ⟨rfl, rfl⟩
  | written _ _ _ _ ih => exact ⟨by rw [ih.1], ih.2⟩
  | skipped hkeep _ _ _ => simp [hover] at hkeep

theorem isFile_of_mem_written (h : w.Deliveries t ds written skipped t') (hd : d ∈ written) :
    t'.isFile (w.targetPath d) = true := by
  obtain ⟨l, hleads, d', -, hl⟩ := h.exists_file hd
  exact Tree.isFile_iff_leadsTo.2 ⟨l, _, hleads, hl⟩

/-- Once a document was written there is no directory to be made any more. -/
theorem ready_of_mem_written (h : w.Deliveries t ds written skipped t') (hd : d ∈ written) : w.Ready t' := by
  induction h with
  | done t => simp at hd
  | written _ hprepare hwrite hrest _ =>
    exact (ready_of_prepare hprepare).grows ((confined_of_write hwrite).grows.trans hrest.confined.grows)
  | skipped _ _ _ ih => exact ih hd

/-- The last document that is written to a file is found there. -/
theorem get?_of_last (hover : w.overwrite = true) (h : w.Deliveries t ds written skipped t')
    {l : Location} (hlast : IsLast (fun d => t'.LeadsTo (w.targetPath d) l) ds d) :
    t'.get? l = some (.file d.body.toUTF8) := by
  induction h with
  | done t => simpa using hlast.mem
  | @written t t₁ t₂ t' d₁ ds written skipped _ _ hwrite hrest ih =>
    rcases isLast_cons.1 hlast with hlast | ⟨rfl, hleads, hafter⟩
    · exact ih hlast
    · obtain ⟨place, -, hlook, hwritten⟩ := Tree.locate_of_write hwrite
      have hconfined := hrest.confined
      obtain rfl := hleads.unique (Tree.LeadsTo.grows ⟨_, hlook⟩ hconfined.grows)
      -- no later document takes its place
      obtain ⟨content, hcontent⟩ := hconfined.grows.file hwritten.here
      rcases hconfined.file hcontent with hsame | ⟨d', hd', -, hleads'⟩
      · rw [hcontent, ← hsame, hwritten.here]
      · rw [(hrest.eq_of_overwrite hover).1] at hd'
        exact absurd hleads' (hafter d' hd')
  | skipped hkeep _ _ _ => simp [hover] at hkeep

end Deliveries

/-! ## Files that are there already -/

/-- If nothing comes into being then all that changes are the files that documents are written to. -/
theorem Confined.exists_leadsTo_of_ne {ds : List Document} (h : w.Confined ds t t') (hshrinks : t'.Grows t)
    {l : Location} (hne : t'.get? l ≠ t.get? l) : ∃ d ∈ ds, t'.LeadsTo (w.targetPath d) l := by
  rcases hnode : t'.get? l with _ | _ | content | target
  · -- nothing goes either
    refine absurd ?_ hne
    rcases hbefore : t.get? l with _ | _ | content | target
    · exact hnode
    · simp [h.grows.directory hbefore] at hnode
    · obtain ⟨content', hcontent'⟩ := h.grows.file hbefore
      simp [hcontent'] at hnode
    · simp [h.grows.link.1 hbefore] at hnode
  · exact absurd (hnode.trans (hshrinks.directory hnode).symm) hne
  · rcases h.file hnode with hsame | ⟨d, hd, -, hleads⟩
    · exact absurd (hnode.trans hsame.symm) hne
    · exact ⟨d, hd, hleads⟩
  · exact absurd (hnode.trans (hshrinks.link.1 hnode).symm) hne

/-- A file that is there can be written, and nothing comes into being. -/
theorem exists_write_of_isFile {p : Path} (hfile : t.isFile p = true) (content : ByteArray) :
    ∃ t', t.write p content = .ok t' ∧ t'.Grows t := by
  obtain ⟨l, old, hleads, hl⟩ := Tree.isFile_iff_leadsTo.1 hfile
  have hlocate := Tree.locate_write_of_look (hleads.locate_eq hl)
  have hget := Tree.get?_replace content hl
  refine ⟨t.replace l content, by rw [Tree.write, hlocate], ?_, ?_, ?_, rfl⟩
  · intro l' hdir
    rw [hget] at hdir
    split at hdir
    · simp at hdir
    · exact hdir
  · intro l' content' hfile'
    rw [hget] at hfile'
    split at hfile'
    · next heq => exact ⟨old, heq ▸ hl⟩
    · exact ⟨content', hfile'⟩
  · intro l' target
    rw [hget]
    split
    · next heq => simp [heq, hl]
    · rfl

theorem deliver_of_isFile (hover : w.overwrite = true) {d : Document} (hready : w.Ready t)
    (hfile : t.isFile (w.targetPath d) = true) :
    ∃ t', w.deliver d t = (.ok (.written (w.targetPath d)), t') ∧ t'.Grows t := by
  obtain ⟨t', hwrite, hgrows⟩ := exists_write_of_isFile hfile d.body.toUTF8
  refine ⟨t', ?_, hgrows⟩
  rw [deliver, if_neg (by simp [hover]), hready.prepare_eq]
  dsimp only
  rw [hwrite]

/-- Documents whose files are there can be written, and nothing comes into being. -/
theorem mapM_of_isFile (hover : w.overwrite = true) {ds : List Document}
    (h : ∀ d ∈ ds, w.Ready t ∧ t.isFile (w.targetPath d) = true) :
    ∃ outcomes t', (ds.mapM w.write).effect t = (.ok outcomes, t') ∧ t'.Grows t := by
  induction ds generalizing t with
  | nil => exact ⟨[], t, rfl, .refl t⟩
  | cons d ds ih =>
    obtain ⟨⟨hready, hfile⟩, hrest⟩ := List.forall_mem_cons.1 h
    obtain ⟨t₁, hdeliver, hshrinks⟩ := deliver_of_isFile hover hready hfile
    have hgrows := (w.confined_deliver d t).grows
    rw [hdeliver] at hgrows
    dsimp only at hgrows
    obtain ⟨outcomes, t', hmapM, hshrinks'⟩ :=
      ih fun d' hd' => ⟨(hrest d' hd').1.grows hgrows, hgrows.isFile (hrest d' hd').2⟩
    refine ⟨.written (w.targetPath d) :: outcomes, t', ?_, hshrinks'.trans hshrinks⟩
    rw [Action.effect_mapM_cons w.oblivious_write, effect_write, hdeliver]
    dsimp only
    rw [hmapM]

end Writer

end GetSet
