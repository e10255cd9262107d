import GetSet.Proofs.Writer.Confined

/-!
# What a writer has done

A writer turns to documents one after the other: it writes the files of some of them and leaves those of the others
alone (`Deliveries`). An action that is to write documents (`Writes`) has done this with all of them if it succeeds. If
it fails it has done it with the first of them, and may have made directories for the next one. Either way it has
reported what it wrote and what it left alone, in order.
-/

namespace GetSet

namespace Event

/-- The path of a file of which an event reports that it was written. -/
def written? : Event → Option Path
  | written path => some path
  | _ => none

/-- The path of a file of which an event reports that it was left alone. -/
def skipped? : Event → Option Path
  | skipped path => some path
  | _ => none

end Event

namespace Writer

variable {w : Writer}

/-! ## Documents one after the other -/

/-- A writer has turned to some documents in order: it has written the files of some of them, after making the output
directory if that was missing, and has left those of the others alone because they existed. -/
inductive Deliveries (w : Writer) : Tree → List Document → List Document → List Document → Tree → Prop where
  | done (t : Tree) : Deliveries w t [] [] [] t
  | written {t t₁ t₂ t' : Tree} {d : Document} {ds written skipped : List Document}
      (hmissing : w.overwrite = false → t.pathExists (w.targetPath d) = false)
      (hprepare : w.prepare t = (.ok (), t₁)) (hwrite : t₁.write (w.targetPath d) d.body.toUTF8 = .ok t₂)
      (hrest : Deliveries w t₂ ds written skipped t') : Deliveries w t (d :: ds) (d :: written) skipped t'
  | skipped {t t' : Tree} {d : Document} {ds written skipped : List Document} (hkeep : w.overwrite = false)
      (hexists : t.pathExists (w.targetPath d) = true) (hrest : Deliveries w t ds written skipped t') :
      Deliveries w t (d :: ds) written (d :: skipped) t'

namespace Deliveries

variable {t t' t'' : Tree} {ds ds' written written' skipped skipped' : List Document}

theorem append (h : w.Deliveries t ds written skipped t') (h' : w.Deliveries t' ds' written' skipped' t'') :
    w.Deliveries t (ds ++ ds') (written ++ written') (skipped ++ skipped') t'' := by
  induction h with
  | done t => exact h'
  | written hmissing hprepare hwrite _ ih => exact .written hmissing hprepare hwrite (ih h')
  | skipped hkeep hexists _ ih => exact .skipped hkeep hexists (ih h')

/-- The files that were written are all that has changed, with directories that were made for them. -/
theorem confined (h : w.Deliveries t ds written skipped t') : w.Confined written t t' := by
  induction h with
  | done t => exact .refl w [] t
  | @written t t₁ _ _ d _ _ _ _ hprepare hwrite _ ih =>
    have hmade := w.confined_prepare [] t
    rw [hprepare] at hmade
    exact (hmade.trans (confined_of_write hwrite)).trans ih
  | skipped _ _ _ ih => exact ih

/-- The file of a document that was written is there, with the body of a document that was written to it. -/
theorem exists_file (h : w.Deliveries t ds written skipped t') {d : Document} (hd : d ∈ written) :
    ∃ l, t'.LeadsTo (w.targetPath d) l ∧ ∃ d' ∈ written, t'.get? l = some (.file d'.body.toUTF8) := by
  induction h with
  | done t => simp at hd
  | @written t t₁ t₂ t' d₁ _ written _ _ _ hwrite hrest ih =>
    rcases List.mem_cons.1 hd with rfl | hd
    · obtain ⟨place, -, hlook, hwritten⟩ := Tree.locate_of_write hwrite
      have hconfined := hrest.confined
      obtain ⟨content, hcontent⟩ := hconfined.grows.file hwritten.here
      refine ⟨place.location, Tree.LeadsTo.grows ⟨_, hlook⟩ hconfined.grows, ?_⟩
      -- a later document may have been written to the same file
      rcases hconfined.file hcontent with hsame | ⟨d', hd', rfl, -⟩
      · rw [hwritten.here] at hsame
        exact ⟨d, List.mem_cons_self, by rw [hcontent, hsame]⟩
      · exact ⟨d', List.mem_cons_of_mem d hd', hcontent⟩
    · obtain ⟨l, hleads, d', hd', hl⟩ := ih hd
      exact ⟨l, hleads, d', List.mem_cons_of_mem d₁ hd', hl⟩
  | skipped _ _ _ ih => exact ih hd

/-- If the output directory is made for one more document then that is all that changes. -/
theorem confined_of_left (h : w.Deliveries t ds written skipped t') (hleft : t'' = t' ∨ t'' = (w.prepare t').2) :
    w.Confined written t t'' := by
  rcases hleft with rfl | rfl
  · exact h.confined
  · rw [← List.append_nil written]
    exact h.confined.trans (w.confined_prepare [] t')

theorem exists_file_of_left (h : w.Deliveries t ds written skipped t') (hleft : t'' = t' ∨ t'' = (w.prepare t').2)
    {d : Document} (hd : d ∈ written) :
    ∃ l, t''.LeadsTo (w.targetPath d) l ∧ ∃ d' ∈ written, t''.get? l = some (.file d'.body.toUTF8) := by
  obtain ⟨l, hleads, d', hd', hl⟩ := h.exists_file hd
  rcases hleft with rfl | rfl
  · exact ⟨l, hleads, d', hd', hl⟩
  · have hadds := w.addsDirectories_prepare t'
    refine ⟨l, hleads.grows hadds.grows, d', hd', ?_⟩
    rcases hadds.get?_eq l with heq | ⟨hnone, -⟩
    · rw [heq, hl]
    · rw [hl] at hnone
      exact nomatch hnone

end Deliveries

/-! ## What is reported -/

/-- A writer has turned to some documents and reported this, among other things: what it wrote and what it left
alone. -/
structure Recorded (w : Writer) (t : Tree) (ds written skipped : List Document) (t' : Tree) (events : List Event) :
    Prop where
  deliveries : w.Deliveries t ds written skipped t'
  written_eq : events.filterMap (·.written?) = written.map w.targetPath
  skipped_eq : events.filterMap (·.skipped?) = skipped.map w.targetPath

/-- A writer was stopped on the way: it has turned to the first of some documents, and may have made directories for
the next one. -/
def Stopped (w : Writer) (t : Tree) (ds : List Document) (t' : Tree) (events : List Event) : Prop :=
  ∃ before written skipped t₁, before <+: ds ∧ w.Recorded t before written skipped t₁ events ∧
    (t' = t₁ ∨ t' = (w.prepare t₁).2)

section Recording

variable {t t₁ t' : Tree} {ds ds' written written' skipped skipped' : List Document} {events events' : List Event}

theorem recorded_of_silent {events : List Event} (hwritten : events.filterMap (·.written?) = [])
    (hskipped : events.filterMap (·.skipped?) = []) (t : Tree) : w.Recorded t [] [] [] t events :=
  ⟨.done t, hwritten, hskipped⟩

theorem Recorded.append (h : w.Recorded t ds written skipped t₁ events)
    (h' : w.Recorded t₁ ds' written' skipped' t' events') :
    w.Recorded t (ds ++ ds') (written ++ written') (skipped ++ skipped') t' (events ++ events') where
  deliveries := h.deliveries.append h'.deliveries
  written_eq := by rw [List.filterMap_append, h.written_eq, h'.written_eq, List.map_append]
  skipped_eq := by rw [List.filterMap_append, h.skipped_eq, h'.skipped_eq, List.map_append]

/-- Documents come before those with which a writer was stopped. -/
theorem Recorded.stopped (h : w.Recorded t ds written skipped t₁ events) (h' : w.Stopped t₁ ds' t' events') :
    w.Stopped t (ds ++ ds') t' (events ++ events') := by
  obtain ⟨before, written', skipped', t₂, hbefore, hrecorded, htree⟩ := h'
  exact ⟨ds ++ before, _, _, t₂, (List.prefix_append_right_inj ds).2 hbefore, h.append hrecorded, htree⟩

/-- More documents make no difference after a writer was stopped. -/
theorem Stopped.append (h : w.Stopped t ds t' events) (ds' : List Document) : w.Stopped t (ds ++ ds') t' events := by
  obtain ⟨before, written, skipped, t₁, hbefore, hrest⟩ := h
  exact ⟨before, written, skipped, t₁, hbefore.trans (List.prefix_append ds ds'), hrest⟩

end Recording

/-! ## Actions that write -/

variable {α β : Type}

/-- An action turns to some documents, whether it succeeds or fails, and records what it does with them. -/
structure Writes (w : Writer) (ds : List Document) (a : Action α) (t : Tree) : Prop where
  recorded : ∀ {x : α} {t' : Tree}, a.effect t = (.ok x, t') →
    ∃ written skipped, w.Recorded t ds written skipped t' (a.journal t)
  stopped : ∀ {fault : Fault} {t' : Tree}, a.effect t = (.error fault, t') → w.Stopped t ds t' (a.journal t)

/-- Whether it succeeds or fails, an action has turned to the first of its documents when it ends, and to all of them if
it succeeds. -/
theorem Writes.exists_recorded {a : Action α} {ds : List Document} {t : Tree} (h : w.Writes ds a t) :
    ∃ before written skipped t₁, before <+: ds ∧ w.Recorded t before written skipped t₁ (a.journal t) ∧
      ((a.effect t).2 = t₁ ∨ (a.effect t).2 = (w.prepare t₁).2) ∧
      ∀ x, (a.effect t).1 = .ok x → before = ds ∧ (a.effect t).2 = t₁ := by
  rcases heffect : a.effect t with ⟨fault | x, t'⟩
  · obtain ⟨before, written, skipped, t₁, hbefore, hrecorded, hleft⟩ := h.stopped heffect
    exact ⟨before, written, skipped, t₁, hbefore, hrecorded, hleft, nofun⟩
  · obtain ⟨written, skipped, hrecorded⟩ := h.recorded heffect
    exact ⟨ds, written, skipped, t', List.prefix_rfl, hrecorded, Or.inl rfl, fun _ _ => ⟨rfl, rfl⟩⟩

/-- An action that leaves the tree as it is and reports nothing about documents. -/
theorem writes_of_silent {a : Action α} {t : Tree} (htree : (a.effect t).2 = t)
    (hwritten : (a.journal t).filterMap (·.written?) = []) (hskipped : (a.journal t).filterMap (·.skipped?) = []) :
    w.Writes [] a t where
  recorded {x t'} h := by
    obtain rfl : t' = t := by rw [← htree, h]
    exact ⟨[], [], recorded_of_silent hwritten hskipped t'⟩
  stopped {fault t'} h := by
    obtain rfl : t' = t := by rw [← htree, h]
    exact ⟨[], [], [], t', List.nil_prefix, recorded_of_silent hwritten hskipped t', Or.inl rfl⟩

theorem writes_pure (x : α) (t : Tree) : w.Writes [] (pure x : Action α) t :=
  writes_of_silent rfl rfl rfl

/-- An action and what it goes on with turn to the documents of both, in order. -/
theorem Writes.bind {a : Action α} {f : α → Action β} (hadd : a.Additive) (hf : ∀ x, (f x).Additive)
    {ds ds' : List Document} {t : Tree} (ha : w.Writes ds a t)
    (hrest : ∀ {x t'}, a.effect t = (.ok x, t') → w.Writes ds' (f x) t') : w.Writes (ds ++ ds') (a >>= f) t := by
  have heffect := Action.effect_bind a (fun x => (hf x).oblivious) t
  have hjournal := Action.journal_bind hadd hf t
  rcases h : a.effect t with ⟨fault | x, t₁⟩
  · rw [h] at heffect hjournal
    have hstopped := (ha.stopped h).append ds'
    rw [← List.append_nil (a.journal t), ← hjournal] at hstopped
    constructor
    · intro y t' hy
      rw [heffect] at hy
      exact nomatch (Prod.mk.inj hy).1
    · intro fault' t' hfault
      rw [heffect] at hfault
      obtain ⟨-, rfl⟩ := Prod.mk.inj hfault
      exact hstopped
  · rw [h] at heffect hjournal
    dsimp only at heffect hjournal
    obtain ⟨written, skipped, hrecorded⟩ := ha.recorded h
    constructor
    · intro y t' hy
      rw [heffect] at hy
      obtain ⟨written', skipped', hrecorded'⟩ := (hrest h).recorded hy
      rw [hjournal]
      exact ⟨_, _, hrecorded.append hrecorded'⟩
    · intro fault t' hfault
      rw [heffect] at hfault
      rw [hjournal]
      exact hrecorded.stopped ((hrest h).stopped hfault)

/-- What comes before the documents and has nothing to do with them. -/
theorem Writes.after_silent {a : Action α} {f : α → Action β} (hadd : a.Additive) (hf : ∀ x, (f x).Additive)
    {ds : List Document} {t : Tree} (ha : w.Writes [] a t)
    (hrest : ∀ {x t'}, a.effect t = (.ok x, t') → w.Writes ds (f x) t') : w.Writes ds (a >>= f) t :=
  ha.bind hadd hf hrest

/-- What comes after the documents and has nothing to do with them. -/
theorem Writes.before_silent {a : Action α} {f : α → Action β} (hadd : a.Additive) (hf : ∀ x, (f x).Additive)
    {ds : List Document} {t : Tree} (ha : w.Writes ds a t) (hrest : ∀ x t', w.Writes [] (f x) t') :
    w.Writes ds (a >>= f) t := by
  rw [← List.append_nil ds]
  exact ha.bind hadd hf fun _ => hrest _ _

theorem writes_write (w : Writer) (d : Document) (t : Tree) : w.Writes [d] (w.write d) t := by
  -- a directory that is made is reported, which has nothing to do with documents
  have hmade : ∀ f : Event → Option Path, (∀ dir, f (.creatingDirectory dir) = none) →
      (if t.pathExists w.outputDir = true then [] else [Event.creatingDirectory w.outputDir]).filterMap f = [] := by
    intro f hf
    split <;> simp [hf]
  constructor
  · intro outcome t' h
    rw [effect_write] at h
    rw [journal_write, notices]
    rcases deliver_ok_cases h with ⟨hkeep, hexists, rfl, rfl⟩ | ⟨t₁, hmissing, hprepare, hwrite, rfl⟩
    · rw [if_pos ⟨hkeep, hexists⟩]
      exact ⟨[], [d], .skipped hkeep hexists (.done t'), rfl, rfl⟩
    · rw [if_neg (by rintro ⟨hkeep, hexists⟩; simp [hmissing hkeep] at hexists), h]
      refine ⟨[d], [], .written hmissing hprepare hwrite (.done t'), ?_, ?_⟩
      · rw [List.filterMap_append, hmade _ fun _ => rfl]
        rfl
      · rw [List.filterMap_append, hmade _ fun _ => rfl]
        rfl
  · intro fault t' h
    rw [effect_write] at h
    obtain ⟨hskip, -, rfl⟩ := deliver_error h
    rw [journal_write, notices, if_neg hskip, h]
    dsimp only
    rw [List.append_nil]
    exact ⟨[], [], [], t, List.nil_prefix,
      recorded_of_silent (hmade _ fun _ => rfl) (hmade _ fun _ => rfl) t, Or.inr rfl⟩

/-- Writing some documents turns to all of them, or to the first of them if it fails. -/
theorem writes_mapM (w : Writer) (ds : List Document) (t : Tree) : w.Writes ds (ds.mapM w.write) t := by
  induction ds generalizing t with
  | nil => exact writes_pure [] t
  | cons d ds ih =>
    have hall := Action.Additive.mapM w.additive_write ds
    rw [List.mapM_cons]
    refine (w.writes_write d t).bind (w.additive_write d) (fun _ => hall.bind fun _ => Action.additive_pure _)
      fun {outcome t'} _ => ?_
    exact (ih t').before_silent hall (fun _ => Action.additive_pure _) fun _ _ => writes_pure _ _

end Writer

end GetSet
