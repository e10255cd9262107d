import GetSet.Generator

/-!
# Adding statistics

Statistics are added field by field: counts are summed up and lists of paths are put one after the other. What is
counted in two lists of reports is then the sum of what is counted in each (`Stats.ofReports_append`).
-/

namespace GetSet

namespace WriteOutcome

/-- The path of a document that was written. -/
def written? : WriteOutcome → Option Path
  | written path => some path
  | skipped _ => none

/-- The path of a document that was skipped. -/
def skipped? : WriteOutcome → Option Path
  | written _ => none
  | skipped path => some path

end WriteOutcome

namespace Stats

/-- Counts are summed up and lists are put one after the other. -/
instance : Append Stats where
  append s s' :=
    { totalUnits := s.totalUnits + s'.totalUnits
      generatedUnits := s.generatedUnits + s'.generatedUnits
      unitsWithoutClass := s.unitsWithoutClass + s'.unitsWithoutClass
      unitsWithoutClassPaths := s.unitsWithoutClassPaths ++ s'.unitsWithoutClassPaths
      properties := s.properties + s'.properties
      propertiesDropped := s.propertiesDropped + s'.propertiesDropped
      filesWritten := s.filesWritten + s'.filesWritten
      writtenPaths := s.writtenPaths ++ s'.writtenPaths
      filesSkipped := s.filesSkipped + s'.filesSkipped
      skippedPaths := s.skippedPaths ++ s'.skippedPaths }

theorem append_def (s s' : Stats) :
    s ++ s' =
      { totalUnits := s.totalUnits + s'.totalUnits
        generatedUnits := s.generatedUnits + s'.generatedUnits
        unitsWithoutClass := s.unitsWithoutClass + s'.unitsWithoutClass
        unitsWithoutClassPaths := s.unitsWithoutClassPaths ++ s'.unitsWithoutClassPaths
        properties := s.properties + s'.properties
        propertiesDropped := s.propertiesDropped + s'.propertiesDropped
        filesWritten := s.filesWritten + s'.filesWritten
        writtenPaths := s.writtenPaths ++ s'.writtenPaths
        filesSkipped := s.filesSkipped + s'.filesSkipped
        skippedPaths := s.skippedPaths ++ s'.skippedPaths } := rfl

theorem append_empty (s : Stats) : s ++ ({} : Stats) = s := by
  rw [append_def]
  simp

theorem empty_append (s : Stats) : ({} : Stats) ++ s = s := by
  rw [append_def]
  simp

/-! ## Counting one more thing -/

theorem append_recordWrite (s s' : Stats) (outcome : WriteOutcome) :
    (s ++ s').recordWrite outcome = s ++ s'.recordWrite outcome := by
  cases outcome <;> simp [append_def, recordWrite, Nat.add_assoc]

theorem append_foldl_recordWrite (s s' : Stats) (outcomes : List WriteOutcome) :
    outcomes.foldl recordWrite (s ++ s') = s ++ outcomes.foldl recordWrite s' := by
  induction outcomes generalizing s' with
  | nil => rfl
  | cons outcome outcomes ih => rw [List.foldl_cons, append_recordWrite, ih, List.foldl_cons]

/-- What is counted in some outcomes. -/
theorem foldl_recordWrite (outcomes : List WriteOutcome) :
    outcomes.foldl recordWrite {} =
      { filesWritten := (outcomes.filterMap (·.written?)).length
        writtenPaths := outcomes.filterMap (·.written?)
        filesSkipped := (outcomes.filterMap (·.skipped?)).length
        skippedPaths := outcomes.filterMap (·.skipped?) } := by
  induction outcomes with
  | nil => rfl
  | cons outcome outcomes ih =>
    rw [List.foldl_cons, ← append_empty (recordWrite {} outcome), append_foldl_recordWrite, ih]
    cases outcome <;> simp [append_def, recordWrite, WriteOutcome.written?, WriteOutcome.skipped?, Nat.add_comm]

/-- Counting one more file can be put off until the statistics are added. -/
theorem append_record (s s' : Stats) (report : FileReport) : (s ++ s').record report = s ++ s'.record report := by
  cases report with
  | withoutClass path => simp [append_def, record, recordMissingClass, Nat.add_assoc]
  | generated output dropped outcomes =>
    rw [record, record, ← append_foldl_recordWrite]
    congr 1
    simp [append_def, recordOutput, Nat.add_assoc]

/-! ## Reports -/

/-- The statistics of two lists of reports are added. -/
theorem ofReports_append (reports reports' : List FileReport) :
    ofReports (reports ++ reports') = ofReports reports ++ ofReports reports' := by
  have go : ∀ s s' : Stats, reports'.foldl record (s ++ s') = s ++ reports'.foldl record s' := by
    intro s s'
    induction reports' generalizing s' with
    | nil => rfl
    | cons report reports' ih => rw [List.foldl_cons, append_record, ih, List.foldl_cons]
  rw [ofReports, List.foldl_append, ← append_empty (reports.foldl record {}), go]
  rfl

/-- What is counted for one file that documents were generated for. -/
theorem ofReports_generated (output : UnitOutput) (dropped : Nat) (outcomes : List WriteOutcome) :
    ofReports [.generated output dropped outcomes] =
      { totalUnits := 1
        generatedUnits := 1
        properties := output.accessorPairs
        propertiesDropped := dropped
        filesWritten := (outcomes.filterMap (·.written?)).length
        writtenPaths := outcomes.filterMap (·.written?)
        filesSkipped := (outcomes.filterMap (·.skipped?)).length
        skippedPaths := outcomes.filterMap (·.skipped?) } := by
  rw [ofReports, List.foldl_cons, List.foldl_nil, record, ← append_empty (recordOutput _ output dropped),
    append_foldl_recordWrite, foldl_recordWrite]
  simp [append_def, recordOutput]

end Stats

namespace RunResult

/-- The units of one result come after those of the other, and the statistics are added. -/
instance : Append RunResult where
  append r r' := { units := r.units ++ r'.units, stats := r.stats ++ r'.stats }

theorem append_def (r r' : RunResult) : r ++ r' = { units := r.units ++ r'.units, stats := r.stats ++ r'.stats } :=
  rfl

theorem append_assoc (r r' r'' : RunResult) : r ++ r' ++ r'' = r ++ (r' ++ r'') := by
  simp [append_def, Stats.append_def, Nat.add_assoc]

theorem append_right_inj {r r' r'' : RunResult} : r ++ r' = r ++ r'' ↔ r' = r'' := by
  obtain ⟨units', stats'⟩ := r'
  obtain ⟨units'', stats''⟩ := r''
  cases stats'
  cases stats''
  simp [append_def, Stats.append_def]

theorem append_left_inj {r r' r'' : RunResult} : r' ++ r = r'' ++ r ↔ r' = r'' := by
  obtain ⟨units', stats'⟩ := r'
  obtain ⟨units'', stats''⟩ := r''
  cases stats'
  cases stats''
  simp [append_def, Stats.append_def]

/-- The results of two lists of reports are put together. -/
theorem ofReports_append (reports reports' : List FileReport) :
    ofReports (reports ++ reports') = ofReports reports ++ ofReports reports' := by
  rw [append_def, ofReports, Stats.ofReports_append, List.filterMap_append]
  rfl

theorem ofReports_cons (report : FileReport) (reports : List FileReport) :
    ofReports (report :: reports) = ofReports [report] ++ ofReports reports :=
  ofReports_append [report] reports

end RunResult

end GetSet
