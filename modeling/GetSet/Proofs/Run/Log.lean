import GetSet.Proofs.Action.Log
import GetSet.Proofs.Run.Accounting
import GetSet.Proofs.Run.Frame
import GetSet.Proofs.Run.Tally

/-!
# The log of a run

The log of a run tells which files the run wrote and which it left alone, in order, also if the run fails
(`generate_log`). What a run that succeeds counts can be read off its log too. Paths without line breaks are needed for
that, so that every event has one line.
-/

namespace GetSet

/-! ## Texts without line breaks -/

namespace Text

theorem not_mem_append {c : Char} {a b : String} (ha : c ∉ a.toList) (hb : c ∉ b.toList) : c ∉ (a ++ b).toList := by
  rw [String.toList_append, List.mem_append]
  exact not_or.2 ⟨ha, hb⟩

/-- A character that is not of a class is not in a text whose characters are. -/
theorem not_mem_of_class {p : Char → Bool} {c : Char} (hc : p c = false) {cs : List Char} (h : ∀ d ∈ cs, p d = true) :
    c ∉ cs :=
  fun hmem => absurd (hc.symm.trans (h c hmem)) (by simp)

theorem newline_not_mem_toString (n : Nat) : '\n' ∉ (toString n).toList := by
  refine not_mem_of_class (p := Char.isDigit) (by decide) fun d hd => ?_
  rw [show toString n = .ofList (Nat.toDigits 10 n) from rfl, String.toList_ofList] at hd
  exact Nat.isDigit_of_mem_toDigits (by decide) (by decide) hd

end Text

open Text in
theorem Stats.newline_not_mem_summary (s : Stats) : '\n' ∉ s.summary.toList := by
  have digits := newline_not_mem_toString
  exact not_mem_append (not_mem_append (not_mem_append (not_mem_append (not_mem_append (not_mem_append (not_mem_append
    (not_mem_append (not_mem_append (digits _) (by decide +kernel)) (digits _)) (by decide +kernel)) (digits _))
    (by decide +kernel)) (digits _)) (by decide +kernel)) (digits _)) (by decide +kernel)

/-! ## Events of one line -/

namespace Event

/-- The text of an event is one line, and the event is not the summary that follows a run. -/
structure IsLine (e : Event) : Prop where
  oneLine : '\n' ∉ e.text.toList
  notSummary : e.isSummary = false

theorem isLine_of_message {e : Event} (hmessage : '\n' ∉ e.message.toList) (hsummary : e.isSummary = false) :
    e.IsLine where
  oneLine := by
    have hword : '\n' ∉ e.level.word.toList := by
      cases e.level <;> decide +kernel
    exact Text.not_mem_append (Text.not_mem_append hword (by decide +kernel)) hmessage
  notSummary := hsummary

end Event

namespace SourceUnit

open Text

theorem newline_not_mem_name {text : String} {path : Path} {unit : SourceUnit} (h : parse? text path = some unit) :
    '\n' ∉ unit.name.toList :=
  not_mem_of_class (by decide) (isIdentifier_of_parse? h).char

/-- What is reported while a unit is read has one line for each event. -/
theorem isLine_of_mem_loadEvents {verbose : Bool} {path : Path} {t : Tree} {e : Event}
    (hpath : Text.newline ∉ path.bytes) (h : e ∈ loadEvents verbose path t) : e.IsLine := by
  have hpath := newline_not_mem_ofBytesLossy hpath
  rcases cases_of_mem_loadEvents h with rfl | ⟨text, unit, hunit, h⟩
  · exact Event.isLine_of_message (not_mem_append (by decide +kernel) hpath) rfl
  · have hname := newline_not_mem_name hunit
    rcases cases_of_mem_events h with ⟨tag, p, htag, hp, rfl⟩ | ⟨tag, htag, rfl⟩ | rfl
    · have htype : '\n' ∉ tag.typeHint.toList := not_mem_of_class (by decide) htag.typeHint
      have hraw : '\n' ∉ tag.rawName.toList := not_mem_of_class (by decide) htag.rawName
      have hpascal : '\n' ∉ p.pascalName.toList :=
        not_mem_of_class (by decide) (Property.spelled_of_ofTag? htag hp).pascalName
      refine Event.isLine_of_message ?_ rfl
      exact not_mem_append (not_mem_append (not_mem_append (not_mem_append (not_mem_append (not_mem_append hname
        (by decide +kernel)) htype) (by decide +kernel)) hraw) (by decide +kernel)) hpascal
    · have hraw : '\n' ∉ tag.rawName.toList := not_mem_of_class (by decide) htag.rawName
      refine Event.isLine_of_message ?_ rfl
      exact not_mem_append (not_mem_append (not_mem_append (not_mem_append (by decide +kernel) hraw)
        (by decide +kernel)) hname) (by decide +kernel)
    · rw [path_of_parse? hunit]
      refine Event.isLine_of_message ?_ rfl
      exact not_mem_append (not_mem_append (not_mem_append (not_mem_append (not_mem_append (by decide +kernel) hname)
        (by decide +kernel)) (newline_not_mem_toString _)) (by decide +kernel)) hpath

end SourceUnit

namespace Writer

theorem cases_of_mem_notices {w : Writer} {d : Document} {t : Tree} {e : Event} (h : e ∈ w.notices d t) :
    e = .skipped (w.targetPath d) ∨ e = .creatingDirectory w.outputDir ∨ e = .written (w.targetPath d) := by
  rw [notices] at h
  split at h
  · exact Or.inl (List.mem_singleton.1 h)
  · refine Or.inr ((List.mem_append.1 h).imp (fun h => ?_) fun h => ?_)
    · split at h
      · simp at h
      · exact List.mem_singleton.1 h
    · split at h
      · exact List.mem_singleton.1 h
      · simp at h

/-- What is reported while a document is written has one line for each event if the document's path has. -/
theorem isLine_of_mem_notices {w : Writer} {d : Document} {t : Tree} {e : Event} (hd : d.IsRelative)
    (htarget : Text.newline ∉ (w.targetPath d).bytes) (h : e ∈ w.notices d t) : e.IsLine := by
  have hdir : Text.newline ∉ w.outputDir.bytes := by
    obtain ⟨rest, hrest⟩ := Path.exists_bytes_join_eq (p := w.outputDir) hd.2
    rw [targetPath, hrest, List.mem_append] at htarget
    exact fun hmem => htarget (Or.inl hmem)
  have hshown := Text.newline_not_mem_ofBytesLossy htarget
  rcases cases_of_mem_notices h with rfl | rfl | rfl
  · exact Event.isLine_of_message (Text.not_mem_append (by decide +kernel) hshown) rfl
  · exact Event.isLine_of_message (Text.not_mem_append (by decide +kernel) (Text.newline_not_mem_ofBytesLossy hdir)) rfl
  · exact Event.isLine_of_message (Text.not_mem_append (by decide +kernel) hshown) rfl

end Writer

namespace Generator

variable {w : Writer}

/-- What is reported about a file has one line for each event. -/
theorem isLine_of_mem_process {g : Generator} {path : Path} {t : Tree} {e : Event} (hpath : Text.newline ∉ path.bytes)
    (htargets : ∀ d ∈ g.documentsAt t path, Text.newline ∉ (w.targetPath d).bytes)
    (h : e ∈ (g.process (some w) path).journal t) : e.IsLine := by
  rw [process_eq] at h
  rcases Action.mem_journal_bind (SourceUnit.additive_load g.verbose path) (g.additive_proceed (some w) path) h with
    h | ⟨unit, t', hload, h⟩
  · rw [SourceUnit.journal_load] at h
    exact SourceUnit.isLine_of_mem_loadEvents hpath h
  · rw [SourceUnit.effect_load] at hload
    obtain ⟨hunit, rfl⟩ := Prod.mk.inj hload
    rw [documentsAt, hunit] at htargets
    obtain ⟨text, -, hparse⟩ := Tree.unitAt_eq_ok_iff.1 hunit
    cases unit with
    | none =>
      obtain rfl := List.mem_singleton.1 h
      have hshown := Text.newline_not_mem_ofBytesLossy hpath
      exact Event.isLine_of_message (Text.not_mem_append (by decide +kernel) hshown) rfl
    | some unit =>
      have hall := additive_writeAll (some w) (g.output unit).documents
      rcases Action.mem_journal_bind (Action.additive_reportAll _)
        (fun _ => hall.bind fun _ => Action.additive_pure _) h with h | ⟨-, t₁, -, h⟩
      · obtain ⟨p, hp, rfl⟩ := List.mem_map.1 h
        have hname := SourceUnit.newline_not_mem_name hparse
        have hpascal : '\n' ∉ p.pascalName.toList :=
          Text.not_mem_of_class (by decide) (SourceUnit.spelled_of_mem_properties hparse hp).pascalName
        refine Event.isLine_of_message ?_ rfl
        exact Text.not_mem_append (Text.not_mem_append (Text.not_mem_append (by decide +kernel) hname)
          (by decide +kernel)) hpascal
      · rcases Action.mem_journal_bind hall (fun _ => Action.additive_pure _) h with h | ⟨outcomes, t₂, -, h⟩
        · obtain ⟨d, hd, t₂, h⟩ := Action.mem_journal_mapM w.additive_write h
          rw [Writer.journal_write] at h
          have hrelative := SourceUnit.isRelative_of_mem_documents (SourceUnit.isIdentifier_of_parse? hparse) hd
          exact Writer.isLine_of_mem_notices hrelative (htargets d hd) h
        · simp at h

/-- What is reported about files is reported about one of them, whose documents are among those of the run. -/
theorem exists_of_mem_processes {g : Generator} {paths : List Path} {t : Tree} {e : Event}
    (h : e ∈ (paths.mapM (g.process (some w))).journal t) :
    ∃ path ∈ paths, ∃ t', e ∈ (g.process (some w) path).journal t' ∧ g.documentsAt t' path ⊆
      (g.sourcesFrom (some w) t paths).flatMap fun unit => (g.output unit).documents := by
  induction paths generalizing t with
  | nil => simp at h
  | cons path paths ih =>
    rw [flatMap_sourcesFrom_cons]
    rw [Action.journal_mapM_cons (g.additive_process (some w)), List.mem_append] at h
    rcases h with h | h
    · exact ⟨path, List.mem_cons_self, t, h, List.subset_append_left _ _⟩
    · rcases hprocess : (g.process (some w) path).effect t with ⟨fault | report, t'⟩
      · rw [hprocess] at h
        simp at h
      · rw [hprocess] at h
        obtain ⟨path', hpath', t₁, hrest, hsub⟩ := ih h
        exact ⟨path', List.mem_cons_of_mem path hpath', t₁, hrest,
          List.Subset.trans hsub (List.subset_append_right _ _)⟩

/-- What a run reports has one line for each event if its paths have no line breaks. -/
theorem isLine_of_mem_run {g : Generator} {t : Tree} {e : Event}
    (hpaths : ∀ path ∈ g.classFiles, Text.newline ∉ path.bytes)
    (htargets : ∀ d ∈ g.documents (some w) t, Text.newline ∉ (w.targetPath d).bytes)
    (h : e ∈ (g.run (some w)).journal t) : e.IsLine := by
  rw [run_eq] at h
  rw [documents, sources] at htargets
  split at h
  · exact absurd h (List.not_mem_nil)
  · next hlacks =>
    rw [if_neg hlacks] at htargets
    have hall := Action.Additive.mapM (g.additive_process (some w)) g.classFiles
    rcases Action.mem_journal_bind (Action.additive_report _) (fun _ => hall.bind additive_summarize) h with
      h | ⟨_, t₁, hreport, h⟩
    · obtain rfl := List.mem_singleton.1 h
      refine Event.isLine_of_message ?_ rfl
      exact Text.not_mem_append (Text.not_mem_append (by decide +kernel) (Text.newline_not_mem_toString _))
        (by decide +kernel)
    · obtain ⟨-, rfl⟩ := Prod.mk.inj hreport
      rcases Action.mem_journal_bind hall additive_summarize h with h | ⟨reports, t₁, -, h⟩
      · obtain ⟨path, hpath, t₁, h, hsub⟩ := exists_of_mem_processes h
        exact isLine_of_mem_process (hpaths path hpath) (fun d hd => htargets d (hsub hd)) h
      · obtain rfl := List.mem_singleton.1 h
        refine Event.isLine_of_message ?_ rfl
        exact Text.not_mem_append (by decide +kernel) (Stats.newline_not_mem_summary _)

/-! ## The log -/

/-- The log of a run that writes tells what the run has done when it ends, whether it succeeds or fails. The run has
turned to the first of its documents, in order: the paths of the `Wrote` lines are those of the documents whose files
it has made or replaced, and the paths of the `Skipping existing file` lines those of the documents whose files it has
left alone. The files that it has written are there, and no other file has changed. If the run succeeds then it has
turned to all documents, and its statistics are what the log tells. -/
theorem generate_log {g : Generator} {t : Tree} (hpaths : ∀ path ∈ g.classFiles, Text.newline ∉ path.bytes)
    (htargets : ∀ d ∈ g.documents (some g.writer) t, Text.newline ∉ (g.writer.targetPath d).bytes) :
    ∃ ds written skipped t₁, ds <+: g.documents (some g.writer) t ∧ g.writer.Deliveries t ds written skipped t₁ ∧
      ((g.generate.effect t).2 = t₁ ∨ (g.generate.effect t).2 = (g.writer.prepare t₁).2) ∧
      g.writer.Confined written t (g.generate.effect t).2 ∧
      (∀ d ∈ written, ∃ l, (g.generate.effect t).2.LeadsTo (g.writer.targetPath d) l ∧
        ∃ d' ∈ written, (g.generate.effect t).2.get? l = some (.file d'.body.toUTF8)) ∧
      Log.shown (Log.mark .info "Wrote ") (Log.lines (g.generate.journal t)) =
        written.map (fun d => (g.writer.targetPath d).text) ∧
      Log.shown (Log.mark .info "Skipping existing file ") (Log.lines (g.generate.journal t)) =
        skipped.map (fun d => (g.writer.targetPath d).text) ∧
      ∀ result, (g.generate.effect t).1 = .ok result →
        ds = g.documents (some g.writer) t ∧
        Log.shown (Log.mark .info "Wrote ") (Log.lines (g.generate.journal t)) =
          result.stats.writtenPaths.map (·.text) ∧
        Log.shown (Log.mark .info "Skipping existing file ") (Log.lines (g.generate.journal t)) =
          result.stats.skippedPaths.map (·.text) ∧
        Log.shown (Log.mark .warn "No class declaration found in ") (Log.lines (g.generate.journal t)) =
          result.stats.unitsWithoutClassPaths.map (·.text) ∧
        Log.count (Log.mark .debug "Dropping property ") (Log.lines (g.generate.journal t)) =
          result.stats.propertiesDropped := by
  have hlines : ∀ e ∈ g.generate.journal t, e.IsLine := fun e he => isLine_of_mem_run hpaths htargets he
  have hone : ∀ e ∈ g.generate.journal t, '\n' ∉ e.text.toList := fun e he => (hlines e he).oneLine
  -- what is read off the log is what the events say
  rw [Log.shown_lines hone fun e he => Event.after?_wrote (hlines e he).notSummary,
    Log.shown_lines hone fun e he => Event.after?_skipping (hlines e he).notSummary,
    Log.shown_lines hone fun e _ => Event.after?_noClass e,
    Log.count_lines hone fun e _ => Event.isSome_after?_dropping e]
  obtain ⟨ds, written, skipped, t₁, hds, hrecorded, hleft, hall⟩ := (g.writes_run g.writer t).exists_recorded
  have hshown : ∀ {ps : List Path} {ds : List Document}, ps = ds.map g.writer.targetPath →
      ps.map (·.text) = ds.map fun d => (g.writer.targetPath d).text := fun h => by rw [h, List.map_map]; rfl
  refine ⟨ds, written, skipped, t₁, hds, hrecorded.deliveries, hleft, hrecorded.deliveries.confined_of_left hleft,
    fun d hd => hrecorded.deliveries.exists_file_of_left hleft hd, hshown hrecorded.written_eq,
    hshown hrecorded.skipped_eq, fun result hresult => ?_⟩
  have htells := tells_run (g := g) (w := g.writer) (t := t) (Prod.ext hresult rfl)
  exact ⟨(hall result hresult).1, congrArg _ htells.writtenPaths_eq.symm, congrArg _ htells.skippedPaths_eq.symm,
    congrArg _ htells.unitsWithoutClassPaths_eq.symm, htells.propertiesDropped_eq.symm⟩

/-- The log of a run over `cardTree` tells the file that it has written and the one that declares no class. -/
theorem generate_log_cards :
    (∀ path ∈ forCards.classFiles, Text.newline ∉ path.bytes) ∧
      (∀ d ∈ forCards.documents (some forCards.writer) cardTree, Text.newline ∉ (forCards.writer.targetPath d).bytes) ∧
      Log.shown (Log.mark .info "Wrote ") (Log.lines (forCards.generate.journal cardTree)) =
        ["output/CardInterface.php"] ∧
      Log.shown (Log.mark .warn "No class declaration found in ") (Log.lines (forCards.generate.journal cardTree)) =
        ["notes.php"] := by
  have hpaths : ∀ path ∈ forCards.classFiles, Text.newline ∉ path.bytes := by decide +kernel
  have htargets : ∀ d ∈ forCards.documents (some forCards.writer) cardTree,
      Text.newline ∉ (forCards.writer.targetPath d).bytes := by decide +kernel
  obtain ⟨_, _, _, _, -, -, -, -, -, -, -, hstats⟩ := generate_log hpaths htargets
  have hok : (forCards.generate.effect cardTree).1.map
      (fun r => (r.stats.writtenPaths, r.stats.unitsWithoutClassPaths)) =
      .ok ([⟨"output/CardInterface.php"⟩], [⟨"notes.php"⟩]) := by decide +kernel
  obtain ⟨result, t', heffect, hpair⟩ := Action.exists_of_map_eq_ok hok
  obtain ⟨-, hwrote, -, hnoClass, -⟩ := hstats result (by rw [heffect])
  obtain ⟨hwritten, hwithout⟩ := Prod.mk.inj hpair
  rw [hwritten] at hwrote
  rw [hwithout] at hnoClass
  exact ⟨hpaths, htargets, hwrote.trans (by simp), hnoClass.trans (by simp)⟩

end Generator

end GetSet
