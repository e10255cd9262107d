import GetSet.Proofs.Writer.Confined

/-!
# What the outcome of writing says

A writer skips a document exactly if it does not overwrite and the document's path leads to something, or it has
written the document to its file, or it fails and has made directories at most. Whatever it does, it changes nothing
else (`ChangesOnly`), and what it has written a writer that does not overwrite leaves alone (`write_exact`).
-/

namespace GetSet

namespace Writer

variable {w : Writer} {d : Document} {t t' : Tree}

/-! ## What changes -/

/-- Trees differ at most at some locations and in directories that are new, each of them the output directory or one
above it. -/
structure ChangesOnly (w : Writer) (changed : Location → Prop) (t t' : Tree) : Prop where
  cwd_eq : t'.cwd = t.cwd
  get?_eq : ∀ l, ¬ changed l → t'.get? l = t.get? l ∨
    t.get? l = none ∧ t'.get? l = some .directory ∧ ∃ p ∈ w.outputDir.ancestors, t'.LeadsTo p l

theorem changesOnly_prepare (w : Writer) (t : Tree) : w.ChangesOnly (fun _ => False) t (w.prepare t).2 where
  cwd_eq := (w.addsDirectories_prepare t).cwd_eq
  get?_eq l _ := by
    refine ((w.addsDirectories_prepare t).get?_eq l).imp_right ?_
    rintro ⟨hnone, hdir⟩
    refine ⟨hnone, hdir, ((w.confined_prepare [] t).directory hdir).resolve_left ?_⟩
    rw [hnone]
    exact nofun

/-- The file of a document was written: it is read back, it is new or has taken the place of a file, and nothing else
has changed but for directories that were made for it. -/
structure HasWritten (w : Writer) (d : Document) (t t' : Tree) : Prop where
  read_eq : t'.read (w.targetPath d) = .ok d.body.toUTF8
  before : ∀ l, t'.LeadsTo (w.targetPath d) l → t.get? l = none ∨ ∃ old, t.get? l = some (.file old)
  changesOnly : w.ChangesOnly (t'.LeadsTo (w.targetPath d)) t t'

theorem hasWritten_of_write {t₁ : Tree} (hprepare : w.prepare t = (.ok (), t₁))
    (hwrite : t₁.write (w.targetPath d) d.body.toUTF8 = .ok t') : w.HasWritten d t t' := by
  have hmade := w.changesOnly_prepare t
  rw [hprepare] at hmade
  obtain ⟨place, -, hlook, hwritten⟩ := Tree.locate_of_write hwrite
  have hleads : t'.LeadsTo (w.targetPath d) place.location := ⟨_, hlook⟩
  refine ⟨Tree.read_write hwrite, ?_, hwritten.cwd_eq.trans hmade.cwd_eq, ?_⟩
  · intro l hl
    -- the path leads to no other location than the one that was written
    obtain rfl := hl.unique hleads
    rcases hmade.get?_eq place.location not_false with hsame | ⟨hnone, -⟩
    · rw [← hsame]
      exact hwritten.before
    · exact Or.inl hnone
  · intro l hl
    have helse : t'.get? l = t₁.get? l := hwritten.elsewhere l fun heq => hl (heq ▸ hleads)
    rw [helse]
    refine (hmade.get?_eq l not_false).imp_right ?_
    rintro ⟨hnone, hdir, p, hp, hleads'⟩
    exact ⟨hnone, hdir, p, hp, hleads'.grows hwritten.grows⟩

/-! ## The outcomes -/

/-- A document that was written is there. -/
theorem HasWritten.pathExists (h : w.HasWritten d t t') : t'.pathExists (w.targetPath d) = true := by
  obtain ⟨l, hleads, -⟩ := Tree.read_eq_ok_iff.1 h.read_eq
  exact Tree.pathExists_iff.2 ⟨l, hleads⟩

theorem deliver_of_pathExists (hkeep : w.overwrite = false) (hexists : t.pathExists (w.targetPath d) = true) :
    w.deliver d t = (.ok (.skipped (w.targetPath d)), t) :=
  if_pos ⟨hkeep, hexists⟩

/-- A document is skipped exactly if the writer does not overwrite and the document's path leads to something; then
nothing changes. -/
theorem deliver_eq_skipped_iff {p : Path} :
    w.deliver d t = (.ok (.skipped p), t') ↔
      (w.overwrite = false ∧ t.pathExists (w.targetPath d) = true) ∧ p = w.targetPath d ∧ t' = t := by
  constructor
  · intro h
    rcases deliver_ok_cases h with ⟨hkeep, hexists, houtcome, rfl⟩ | ⟨t₁, -, -, -, houtcome⟩
    · exact ⟨⟨hkeep, hexists⟩, WriteOutcome.skipped.inj houtcome, rfl⟩
    · exact nomatch houtcome
  · rintro ⟨⟨hkeep, hexists⟩, rfl, rfl⟩
    exact deliver_of_pathExists hkeep hexists

theorem hasWritten_of_deliver {p : Path} (h : w.deliver d t = (.ok (.written p), t')) :
    p = w.targetPath d ∧ w.HasWritten d t t' := by
  rcases deliver_ok_cases h with ⟨-, -, houtcome, -⟩ | ⟨t₁, -, hprepare, hwrite, houtcome⟩
  · exact nomatch houtcome
  · exact ⟨WriteOutcome.written.inj houtcome, hasWritten_of_write hprepare hwrite⟩

/-- If writing fails then because the output directory cannot be made or because the file cannot be written. -/
theorem changesOnly_of_deliver {fault : Fault} (h : w.deliver d t = (.error fault, t')) :
    (∃ cause, fault = .access w.outputDir cause ∨ fault = .access (w.targetPath d) cause) ∧
      w.ChangesOnly (fun _ => False) t t' := by
  have hmade := w.changesOnly_prepare t
  rcases w.deliver_cases d t with ⟨-, -, heq⟩ | ⟨e, t₁, hprepare, heq⟩ | ⟨e, t₁, hprepare, -, heq⟩ |
    ⟨t₁, t₂, -, -, -, heq⟩
  · exact nomatch (Prod.mk.inj (heq.symm.trans h)).1
  · obtain ⟨hfault, rfl⟩ := Prod.mk.inj (heq.symm.trans h)
    rw [hprepare] at hmade
    exact ⟨⟨e, Or.inl (Except.error.inj hfault).symm⟩, hmade⟩
  · obtain ⟨hfault, rfl⟩ := Prod.mk.inj (heq.symm.trans h)
    rw [hprepare] at hmade
    exact ⟨⟨e, Or.inr (Except.error.inj hfault).symm⟩, hmade⟩
  · exact nomatch (Prod.mk.inj (heq.symm.trans h)).1

/-- Writing a document does what its outcome says. It is skipped exactly if the writer does not overwrite and its path
leads to something, and then nothing changes. If it was written then the file at its path holds its body, and nothing
else has changed but for directories on the way to the output directory; after that a writer with the same output
directory that does not overwrite skips every document with this file name and changes nothing. If writing fails then
there are new directories on the way to the output directory at most. -/
theorem write_exact (w : Writer) (d : Document) (t : Tree) :
    (∀ p t', (w.write d).effect t = (.ok (.skipped p), t') ↔
      (w.overwrite = false ∧ t.pathExists (w.targetPath d) = true) ∧ p = w.targetPath d ∧ t' = t) ∧
      (∀ p t', (w.write d).effect t = (.ok (.written p), t') →
        p = w.targetPath d ∧ w.HasWritten d t t' ∧
          ∀ (w' : Writer) (d' : Document), w'.outputDir = w.outputDir → w'.overwrite = false →
            d'.fileName = d.fileName → (w'.write d').effect t' = (.ok (.skipped p), t')) ∧
      ∀ fault t', (w.write d).effect t = (.error fault, t') →
        (∃ cause, fault = .access w.outputDir cause ∨ fault = .access (w.targetPath d) cause) ∧
          w.ChangesOnly (fun _ => False) t t' := by
  simp only [effect_write]
  refine ⟨fun _ _ => deliver_eq_skipped_iff, ?_, fun _ _ => changesOnly_of_deliver⟩
  intro p t' h
  obtain ⟨rfl, hwritten⟩ := hasWritten_of_deliver h
  refine ⟨rfl, hwritten, fun w' d' hdir hkeep hname => ?_⟩
  have htarget : w'.targetPath d' = w.targetPath d := by rw [targetPath, targetPath, hdir, hname]
  rw [← htarget]
  exact deliver_of_pathExists hkeep (htarget ▸ hwritten.pathExists)

/-- The directories `a` and `b` are made for a document, which is read back and not written again. -/
theorem write_exact_twice :
    ∃ t', (write ⟨⟨"a/../b"⟩, false⟩ ⟨.interface, "Card.php", "new"⟩).effect Tree.empty =
        (.ok (.written ⟨"a/../b/Card.php"⟩), t') ∧
      t'.read ⟨"a/../b/Card.php"⟩ = .ok "new".toUTF8 ∧ t'.get? ["a", "work"] = some .directory ∧
      (write ⟨⟨"a/../b"⟩, false⟩ ⟨.skeleton, "Card.php", "newer"⟩).effect t' =
        (.ok (.skipped ⟨"a/../b/Card.php"⟩), t') := by
  obtain ⟨-, hwrites, -⟩ := write_exact ⟨⟨"a/../b"⟩, false⟩ ⟨.interface, "Card.php", "new"⟩ Tree.empty
  have houtcome : ((write ⟨⟨"a/../b"⟩, false⟩ ⟨.interface, "Card.php", "new"⟩).effect Tree.empty).1 =
      .ok (.written ⟨"a/../b/Card.php"⟩) := rfl
  have heffect := Prod.ext (y := (_, _)) houtcome rfl
  obtain ⟨-, hwritten, hagain⟩ := hwrites _ _ heffect
  exact ⟨_, heffect, hwritten.read_eq, by decide +kernel, hagain _ _ rfl rfl rfl⟩

end Writer

end GetSet
