import Mathlib.Algebra.GroupWithZero.Nat
import Mathlib.Algebra.Order.BigOperators.Group.List
import Mathlib.Algebra.Order.Group.Nat
import GetSet.Proofs.Run.Course
import GetSet.Proofs.Stats.Sum

/-!
# Previews

Except for what it counts about writing, the result of a run is fixed by the units that it reads. `previewAll` is that
result for given units. A run that does not write yields the preview of the tree that it starts on
(`Course.eq_preview`); a run that writes yields a preview too if every file that it reads can be read again
(`Course.withoutWrites_eq`).
-/

namespace GetSet

/-! ## Lists that are the same element by element -/

variable {α β : Type} {xs : List α}

theorem eq_of_filter_eq {p p' : α → Bool} (h : xs.filter p = xs.filter p') : ∀ x ∈ xs, p x = p' x := by
  intro x hx
  have hmem : x ∈ xs.filter p ↔ x ∈ xs.filter p' := by rw [h]
  rw [List.mem_filter, List.mem_filter] at hmem
  rw [Bool.eq_iff_iff]
  simpa only [hx, true_and] using hmem

/-- If the same elements have an image and the images are the same list, then every element has the same image. -/
theorem eq_of_filterMap_eq {f f' : α → Option β} (hnone : ∀ x ∈ xs, (f x).isNone = (f' x).isNone)
    (h : xs.filterMap f = xs.filterMap f') : ∀ x ∈ xs, f x = f' x := by
  induction xs with
  | nil => simp
  | cons x xs ih =>
    have hx := hnone x List.mem_cons_self
    have hrest := fun y hy => hnone y (List.mem_cons_of_mem x hy)
    rw [List.filterMap_cons, List.filterMap_cons] at h
    cases hf : f x with
    | none =>
      cases hf' : f' x with
      | none =>
        rw [hf, hf'] at h
        exact List.forall_mem_cons.2 ⟨hf.trans hf'.symm, ih hrest h⟩
      | some y' => simp [hf, hf'] at hx
    | some y =>
      cases hf' : f' x with
      | none => simp [hf, hf'] at hx
      | some y' =>
        rw [hf, hf'] at h
        obtain ⟨rfl, htail⟩ := List.cons.inj h
        exact List.forall_mem_cons.2 ⟨hf.trans hf'.symm, ih hrest htail⟩

/-- Summands that do not become smaller do not become greater either if the sum stays the same. -/
theorem eq_of_sum_eq {f f' : α → Nat} (hle : ∀ x ∈ xs, f x ≤ f' x) (h : (xs.map f).sum = (xs.map f').sum) :
    ∀ x ∈ xs, f x = f' x := by
  intro x hx
  by_contra hne
  have hlt : (xs.map f).sum < (xs.map f').sum :=
    List.sum_lt_sum f f' hle ⟨x, hx, Nat.lt_of_le_of_ne (hle x hx) hne⟩
  omega

/-! ## What is read -/

/-- The unit that is read from a file, if it can be read and declares a class. -/
def Tree.unit? (t : Tree) (path : Path) : Option SourceUnit :=
  (t.unitAt path).toOption.join

theorem Tree.unit?_of_unitAt {t : Tree} {path : Path} {unit : Option SourceUnit} (h : t.unitAt path = .ok unit) :
    t.unit? path = unit := by
  rw [unit?, h]
  rfl

/-- The number of tags that are dropped does not depend on where a text is read from. -/
theorem SourceUnit.droppedProperties_parse? (text : String) (path path' : Path) :
    (parse? text path).map (·.droppedProperties) = (parse? text path').map (·.droppedProperties) := by
  rw [parse?, parse?, ofText?, ofText?, Option.map_map, Option.map_map]
  rfl

/-! ## Results without writing -/

namespace RunResult

/-- The result without what it counts about writing. -/
def withoutWrites (r : RunResult) : RunResult :=
  { r with stats := { r.stats with filesWritten := 0, writtenPaths := [], filesSkipped := 0, skippedPaths := [] } }

theorem withoutWrites_append (r r' : RunResult) : (r ++ r').withoutWrites = r.withoutWrites ++ r'.withoutWrites :=
  rfl

theorem withoutWrites_generated (output : UnitOutput) (dropped : Nat) (outcomes : List WriteOutcome) :
    (ofReports [.generated output dropped outcomes]).withoutWrites = ofReports [.generated output dropped []] := by
  unfold withoutWrites ofReports
  rw [Stats.ofReports_generated, Stats.ofReports_generated]
  rfl

end RunResult

namespace Generator

/-- What is reported about a file for which nothing is written. -/
def preview (g : Generator) (path : Path) : Option SourceUnit → FileReport
  | none => .withoutClass path
  | some unit => .generated (g.output unit) unit.droppedProperties []

/-- The result of a run that reads these units from some files and writes nothing. -/
def previewAll (g : Generator) (read : Path → Option SourceUnit) (paths : List Path) : RunResult :=
  .ofReports (paths.map fun path => g.preview path (read path))

theorem previewAll_append (g : Generator) (read : Path → Option SourceUnit) (ps qs : List Path) :
    g.previewAll read (ps ++ qs) = g.previewAll read ps ++ g.previewAll read qs := by
  rw [previewAll, List.map_append, RunResult.ofReports_append]
  rfl

theorem previewAll_cons (g : Generator) (read : Path → Option SourceUnit) (path : Path) (paths : List Path) :
    g.previewAll read (path :: paths) = .ofReports [g.preview path (read path)] ++ g.previewAll read paths :=
  g.previewAll_append read [path] paths

theorem previewAll_congr (g : Generator) {read read' : Path → Option SourceUnit} {paths : List Path}
    (h : ∀ path ∈ paths, read path = read' path) : g.previewAll read paths = g.previewAll read' paths := by
  have hpreview : ∀ path ∈ paths, g.preview path (read path) = g.preview path (read' path) :=
    fun path hpath => congrArg (g.preview path) (h path hpath)
  rw [previewAll, previewAll, List.map_congr_left hpreview]

/-! ## When two previews are the same -/

/-- The number of tags that are dropped from what was read. -/
def dropped (unit : Option SourceUnit) : Nat :=
  (unit.map (·.droppedProperties)).getD 0

theorem preview_eq_iff {g : Generator} {path : Path} {u u' : Option SourceUnit} :
    g.preview path u = g.preview path u' ↔ u.map g.output = u'.map g.output ∧ dropped u = dropped u' := by
  cases u with
  | none => cases u' <;> simp [preview, dropped]
  | some unit => cases u' <;> simp [preview, dropped]

/-- What a preview says about its files. -/
theorem previewAll_eq (g : Generator) (read : Path → Option SourceUnit) (paths : List Path) :
    (g.previewAll read paths).units = paths.filterMap (fun path => (read path).map g.output) ∧
      (g.previewAll read paths).stats.unitsWithoutClassPaths = paths.filter (fun path => (read path).isNone) ∧
      (g.previewAll read paths).stats.propertiesDropped = (paths.map fun path => dropped (read path)).sum := by
  induction paths with
  | nil => exact ⟨rfl, rfl, rfl⟩
  | cons path paths ih =>
    obtain ⟨hunits, hsilent, hdropped⟩ := ih
    rw [previewAll_cons, RunResult.append_def, Stats.append_def]
    dsimp only
    rw [hunits, hsilent, hdropped]
    cases hread : read path with
    | none => simp [hread, preview, dropped, RunResult.ofReports, Stats.ofReports, Stats.record,
        Stats.recordMissingClass, FileReport.output?]
    | some unit => simp [hread, preview, dropped, RunResult.ofReports, Stats.ofReports, Stats.record,
        Stats.recordOutput, FileReport.output?]

/-- The documents of a unit that is read are previewed. -/
theorem mem_units_previewAll {g : Generator} {read : Path → Option SourceUnit} {paths : List Path} {path : Path}
    {unit : SourceUnit} (hpath : path ∈ paths) (h : read path = some unit) :
    g.output unit ∈ (g.previewAll read paths).units := by
  rw [(g.previewAll_eq read paths).1]
  exact List.mem_filterMap.2 ⟨path, hpath, by rw [h, Option.map_some]⟩

/-- Two readings of a file differ in that one text was replaced by another one. -/
def Replaces (text text' : String) (read read' : Path → Option SourceUnit) (path : Path) : Prop :=
  read path = SourceUnit.parse? text path ∧ read' path = SourceUnit.parse? text' path

theorem Replaces.dropped_eq {text text' : String} {read read' : Path → Option SourceUnit} {path : Path}
    (h : Replaces text text' read read' path) :
    dropped (read path) = dropped (SourceUnit.parse? text ⟨""⟩) ∧
      dropped (read' path) = dropped (SourceUnit.parse? text' ⟨""⟩) := by
  obtain ⟨hread, hread'⟩ := h
  rw [hread, hread', dropped, dropped, dropped, dropped, SourceUnit.droppedProperties_parse? text path ⟨""⟩,
    SourceUnit.droppedProperties_parse? text' path ⟨""⟩]
  exact ⟨rfl, rfl⟩

section

variable {g : Generator} {read read' : Path → Option SourceUnit} {paths : List Path} {text text' : String}

/-- Where a text was replaced the number of dropped tags changes in the same way, so that changes do not cancel out. -/
theorem dropped_eq_of_sum_eq (h : ∀ path ∈ paths, read' path = read path ∨ Replaces text text' read read' path)
    (hsum : (paths.map fun path => dropped (read' path)).sum = (paths.map fun path => dropped (read path)).sum) :
    ∀ path ∈ paths, dropped (read' path) = dropped (read path) := by
  have hchange : ∀ path ∈ paths, dropped (read' path) = dropped (read path) ∨
      (dropped (read path) = dropped (SourceUnit.parse? text ⟨""⟩) ∧
        dropped (read' path) = dropped (SourceUnit.parse? text' ⟨""⟩)) :=
    fun path hpath => (h path hpath).imp (congrArg dropped) Replaces.dropped_eq
  rcases Nat.le_total (dropped (SourceUnit.parse? text' ⟨""⟩)) (dropped (SourceUnit.parse? text ⟨""⟩)) with hle | hle
  · refine eq_of_sum_eq (fun path hpath => ?_) hsum
    rcases hchange path hpath with hsame | ⟨hread, hread'⟩ <;> omega
  · have hsame : ∀ path ∈ paths, dropped (read path) = dropped (read' path) := by
      refine eq_of_sum_eq (fun path hpath => ?_) hsum.symm
      rcases hchange path hpath with hsame | ⟨hread, hread'⟩ <;> omega
    exact fun path hpath => (hsame path hpath).symm

/-- If two readings differ in one text only, then their previews are the same exactly if what is reported about every
single file is the same: the lists of a result keep the order of the files. -/
theorem previewAll_eq_iff (h : ∀ path ∈ paths, read' path = read path ∨ Replaces text text' read read' path) :
    g.previewAll read' paths = g.previewAll read paths ↔
      ∀ path ∈ paths, g.preview path (read' path) = g.preview path (read path) := by
  constructor
  · intro heq
    obtain ⟨hunits, hsilent, hdropped⟩ := g.previewAll_eq read paths
    obtain ⟨hunits', hsilent', hdropped'⟩ := g.previewAll_eq read' paths
    rw [heq] at hunits' hsilent' hdropped'
    have hnone := eq_of_filter_eq (hsilent'.symm.trans hsilent)
    have houtput : ∀ path ∈ paths, (read' path).map g.output = (read path).map g.output :=
      eq_of_filterMap_eq (fun path hpath => by rw [Option.isNone_map, Option.isNone_map, hnone path hpath])
        (hunits'.symm.trans hunits)
    have hcount := dropped_eq_of_sum_eq h (hdropped'.symm.trans hdropped)
    intro path hpath
    exact preview_eq_iff.2 ⟨houtput path hpath, hcount path hpath⟩
  · intro hall
    rw [previewAll, previewAll, List.map_congr_left hall]

end

/-! ## Runs that yield previews -/

variable {g : Generator} {writer : Option Writer} {t t' : Tree} {paths : List Path} {reports : List FileReport}

/-- A run that does not write leaves the tree and previews it; it succeeds only if all files can be read. -/
theorem Course.eq_preview (h : g.Course none t paths reports t') :
    t' = t ∧ RunResult.ofReports reports = g.previewAll t.unit? paths ∧
      ∀ path ∈ paths, ∃ unit, t.unitAt path = .ok unit := by
  suffices hreports : t' = t ∧ reports = (paths.map fun path => g.preview path (t.unit? path)) ∧
      ∀ path ∈ paths, ∃ unit, t.unitAt path = .ok unit from
    ⟨hreports.1, congrArg RunResult.ofReports hreports.2.1, hreports.2.2⟩
  induction h with
  | done t => exact ⟨rfl, rfl, by simp⟩
  | withoutClass hunit _ ih =>
    obtain ⟨rfl, rfl, hread⟩ := ih
    refine ⟨rfl, ?_, List.forall_mem_cons.2 ⟨⟨_, hunit⟩, hread⟩⟩
    rw [List.map_cons, Tree.unit?_of_unitAt hunit, preview]
  | @generated t₁ t₂ _ _ _ _ unit outcomes hunit hwrite _ ih =>
    have hnothing : (writeAll none (g.output unit).documents).effect t₁ = (.ok [], t₁) := rfl
    obtain ⟨houtcomes, rfl⟩ := Prod.mk.inj (hnothing.symm.trans hwrite)
    obtain rfl := Except.ok.inj houtcomes
    obtain ⟨rfl, rfl, hread⟩ := ih
    refine ⟨rfl, ?_, List.forall_mem_cons.2 ⟨⟨_, hunit⟩, hread⟩⟩
    rw [List.map_cons, Tree.unit?_of_unitAt hunit, preview]

/-- A relation between trees that writing the documents of a unit respects. -/
structure Respects (g : Generator) (writer : Option Writer) (R : Tree → Tree → Prop) (sources : List SourceUnit) :
    Prop where
  refl : ∀ t, R t t
  trans : ∀ {t t' t'' : Tree}, R t t' → R t' t'' → R t t''
  step : ∀ unit ∈ sources, ∀ {t t' : Tree} {outcomes : List WriteOutcome},
    (writeAll writer (g.output unit).documents).effect t = (.ok outcomes, t') → R t t'

theorem Respects.tail {R : Tree → Tree → Prop} {unit : SourceUnit} {sources : List SourceUnit}
    (h : g.Respects writer R (unit :: sources)) : g.Respects writer R sources where
  refl := h.refl
  trans := h.trans
  step unit' hunit' := h.step unit' (List.mem_cons_of_mem unit hunit')

/-- What writing the documents of each unit respects a whole run respects. -/
theorem Course.respects {R : Tree → Tree → Prop} (h : g.Course writer t paths reports t')
    (hR : g.Respects writer R (g.sourcesFrom writer t paths)) : R t t' := by
  induction h with
  | done t => exact hR.refl t
  | withoutClass hunit _ ih =>
    rw [sourcesFrom, hunit] at hR
    exact ih hR
  | generated hunit hwrite _ ih =>
    rw [sourcesFrom, hunit] at hR
    dsimp only at hR
    rw [hwrite] at hR
    exact hR.trans (hR.step _ List.mem_cons_self hwrite) (ih hR.tail)

/-- A run yields the preview for the units that it reads, each from the tree as it is by then. -/
theorem Course.withoutWrites_eq {R : Tree → Tree → Prop} {read : Path → Option SourceUnit}
    (h : g.Course writer t paths reports t') (hR : g.Respects writer R (g.sourcesFrom writer t paths))
    (hread : ∀ path ∈ paths, ∀ {s : Tree} {unit : Option SourceUnit}, R t s → R s t' → s.unitAt path = .ok unit →
      read path = unit) :
    (RunResult.ofReports reports).withoutWrites = g.previewAll read paths := by
  induction h with
  | done t => rfl
  | withoutClass hunit hrest ih =>
    rw [sourcesFrom, hunit] at hR
    rw [RunResult.ofReports_cons, RunResult.withoutWrites_append, previewAll_cons,
      hread _ List.mem_cons_self (hR.refl _) (hrest.respects hR) hunit,
      ih hR fun p hp => hread p (List.mem_cons_of_mem _ hp)]
    rfl
  | generated hunit hwrite hrest ih =>
    have hall := (Course.generated hunit hwrite hrest).respects hR
    rw [sourcesFrom, hunit] at hR
    dsimp only at hR
    rw [hwrite] at hR
    have hfirst := hR.step _ List.mem_cons_self hwrite
    rw [RunResult.ofReports_cons, RunResult.withoutWrites_append, previewAll_cons,
      hread _ List.mem_cons_self (hR.refl _) hall hunit, RunResult.withoutWrites_generated]
    congr 1
    refine ih hR.tail fun p hp s unit hs hs' => ?_
    exact hread p (List.mem_cons_of_mem _ hp) (hR.trans hfirst hs) hs'

end Generator

end GetSet
