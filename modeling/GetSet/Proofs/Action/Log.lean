import Mathlib.Data.List.Basic
import GetSet.Command.Run
import GetSet.Proofs.Source.Reading
import GetSet.Proofs.Writer.Deliveries

/-!
# Reading a log

A log has the lines of the texts of events. Who reads it finds the lines of a level that begin in some way, such as
`INFO Wrote `, and takes the rest for a path as it is shown. As long as the text of every event is one line this finds
the events of one kind and no other ones (`Log.shown_lines`).
-/

namespace GetSet

/-! ## Lines that begin in some way -/

namespace Text

/-- What follows the beginning of a text. -/
def after? (start text : String) : Option String :=
  (start.toList.isPrefixOf? text.toList).map .ofList

/-- Two texts differ at some character. -/
def differ (a b : String) : Bool :=
  (a.toList.zip b.toList).any fun pair => pair.1 != pair.2

theorem isPrefixOf?_append_append (a s cs : List Char) : (a ++ s).isPrefixOf? (a ++ cs) = s.isPrefixOf? cs := by
  induction a with
  | nil => rfl
  | cons c a ih => simp [List.isPrefixOf?, ih]

theorem isPrefixOf?_of_differ {a b : List Char} (h : ((a.zip b).any fun pair => pair.1 != pair.2) = true)
    (s cs : List Char) : (a ++ s).isPrefixOf? (b ++ cs) = none := by
  induction a generalizing b with
  | nil => simp at h
  | cons c a ih =>
    cases b with
    | nil => simp at h
    | cons d b =>
      by_cases hc : c = d
      · subst hc
        have hrest : ((a.zip b).any fun pair => pair.1 != pair.2) = true := by simpa using h
        simp [List.isPrefixOf?, ih hrest]
      · simp [List.isPrefixOf?, hc]

theorem after?_append_append (a start text : String) : after? (a ++ start) (a ++ text) = after? start text := by
  rw [after?, String.toList_append, String.toList_append, isPrefixOf?_append_append, after?]

theorem after?_append (start rest : String) : after? start (start ++ rest) = some rest := by
  have h := after?_append_append start "" rest
  rw [String.append_empty] at h
  rw [h, after?]
  simp [List.isPrefixOf?]

/-- A text that begins in another way. -/
theorem after?_of_differ {a b : String} (h : differ a b = true) (start : String) {text : String}
    (htext : b.toList <+: text.toList) : after? (a ++ start) text = none := by
  obtain ⟨cs, hcs⟩ := htext
  rw [after?, String.toList_append, ← hcs, isPrefixOf?_of_differ h, Option.map_none]

theorem prefix_append {a b : String} (h : a.toList <+: b.toList) (c : String) : a.toList <+: (b ++ c).toList := by
  rw [String.toList_append]
  exact h.trans (List.prefix_append _ _)

end Text

namespace Log

/-- The lines that events leave in a log. -/
def lines (events : List Event) : List String :=
  events.flatMap fun e => Command.linesOf e.text

/-- How lines begin that report an event of a level whose message begins in some way. -/
def mark (level : Level) (start : String) : String :=
  level.word ++ " " ++ start

/-- The paths that are shown in the lines that begin with a mark, which are all that follows it. -/
def shown (mark : String) (log : List String) : List String :=
  log.filterMap (Text.after? mark)

/-- The number of lines that begin with a mark. -/
def count (mark : String) (log : List String) : Nat :=
  log.countP fun line => (Text.after? mark line).isSome

example : shown (mark .info "Wrote ") ["INFO Generating interfaces for 1 files", "INFO Wrote CardInterface.php"] =
    ["CardInterface.php"] := by decide +kernel

/-- Only events of the level have lines with its mark. -/
theorem after?_mark (level level' : Level) (start message : String) :
    Text.after? (mark level start) (level'.word ++ " " ++ message) =
      if level' = level then Text.after? start message else none := by
  split
  · next h => rw [h, mark, Text.after?_append_append]
  · next h =>
    have hword : Text.differ (level.word ++ " ") (level'.word ++ " ") = true := by
      revert h
      cases level <;> cases level' <;> decide +kernel
    exact Text.after?_of_differ hword start (Text.prefix_append List.prefix_rfl message)

end Log

namespace Event

/-- How the message of an event begins, whatever the event is about. -/
def opening : Event → String
  | addingInput _ => "Adding "
  | registered _ => "Adding "
  | parsing _ => "Parsing file: "
  | property .. => ""
  | dropped .. => "Dropping property "
  | classFound .. => "Found class "
  | noClass _ => "No class declaration found in "
  | synthesizing .. => "Synthesizing accessors for "
  | generating _ => "Generating interfaces for "
  | finished _ => "Generation finished: "
  | skipped _ => "Skipping existing file "
  | creatingDirectory _ => "Creating directory: "
  | written _ => "Wrote "
  | loadingTemplates _ => "Loading templates from "
  | loadedTemplate _ => "Loaded template "
  | collecting _ => "Collecting files from directory: "
  | foundFile _ => "Found file: "
  | collected _ => "Collected "
  | summary _ => ""

theorem opening_isPrefix (e : Event) : e.opening.toList <+: e.message.toList := by
  -- what stands behind the opening is put together from one to five texts
  have one := @Text.prefix_append
  cases e with
  | property | summary => exact List.nil_prefix
  | generating | collected => exact one (one List.prefix_rfl _) _
  | synthesizing => exact one (one (one List.prefix_rfl _) _) _
  | dropped =>
    have hstart : "Dropping property ".toList <+: "Dropping property $".toList := by decide +kernel
    exact one (one (one (one hstart _) _) _) _
  | classFound => exact one (one (one (one (one List.prefix_rfl _) _) _) _) _
  | _ => exact one List.prefix_rfl _

/-! ## What marks an event -/

section Marks

variable {e : Event} {level : Level} {start : String}

theorem after?_mark (level : Level) (start : String) (e : Event) :
    Text.after? (Log.mark level start) e.text = if e.level = level then Text.after? start e.message else none :=
  Log.after?_mark level e.level start e.message

/-- An event has no line with the mark of other levels or other messages. -/
theorem after?_of_opening (h : (e.level != level || Text.differ start e.opening) = true) :
    Text.after? (Log.mark level start) e.text = none := by
  rw [after?_mark]
  split
  · next hlevel =>
    have hdiffer : Text.differ start e.opening = true := by simpa [hlevel] using h
    have hnone := Text.after?_of_differ hdiffer "" e.opening_isPrefix
    rwa [String.append_empty] at hnone
  · rfl

theorem after?_of_message {rest : String} (hlevel : e.level = level) (hmessage : e.message = start ++ rest) :
    Text.after? (Log.mark level start) e.text = some rest := by
  rw [after?_mark, if_pos hlevel, hmessage, Text.after?_append]

end Marks

/-- An event is the summary that follows a run. -/
def isSummary : Event → Bool
  | summary _ => true
  | _ => false

/-- The mark of a file that was written is on no other event. -/
theorem after?_wrote {e : Event} (h : e.isSummary = false) :
    Text.after? (Log.mark .info "Wrote ") e.text = e.written?.map (·.text) := by
  cases e with
  | summary stats => simp [isSummary] at h
  | written path =>
    have hlevel : (written path).level = .info := rfl
    have hmessage : (written path).message = "Wrote " ++ path.text := rfl
    rw [after?_of_message hlevel hmessage]
    rfl
  | _ =>
    rw [after?_of_opening]
    · rfl
    · dsimp only [level, opening]
      decide +kernel

/-- The mark of a file that was left alone is on no other event. -/
theorem after?_skipping {e : Event} (h : e.isSummary = false) :
    Text.after? (Log.mark .info "Skipping existing file ") e.text = e.skipped?.map (·.text) := by
  cases e with
  | summary stats => simp [isSummary] at h
  | skipped path =>
    have hlevel : (skipped path).level = .info := rfl
    have hmessage : (skipped path).message = "Skipping existing file " ++ path.text := rfl
    rw [after?_of_message hlevel hmessage]
    rfl
  | _ =>
    rw [after?_of_opening]
    · rfl
    · dsimp only [level, opening]
      decide +kernel

/-- The mark of a file that declares no class is on no other event. -/
theorem after?_noClass (e : Event) :
    Text.after? (Log.mark .warn "No class declaration found in ") e.text = e.noClass?.map (·.text) := by
  cases e with
  | noClass path =>
    have hlevel : (noClass path).level = .warn := rfl
    have hmessage : (noClass path).message = "No class declaration found in " ++ path.text := rfl
    rw [after?_of_message hlevel hmessage]
    rfl
  | _ =>
    rw [after?_of_opening]
    · rfl
    · dsimp only [level, opening]
      decide +kernel

/-- The mark of a tag that is dropped is on no other event. -/
theorem isSome_after?_dropping (e : Event) :
    (Text.after? (Log.mark .debug "Dropping property ") e.text).isSome = e.isDropped := by
  cases e with
  | dropped name tag =>
    have hlevel : (dropped name tag).level = .debug := rfl
    have hstart : "Dropping property $" = "Dropping property " ++ "$" := by decide +kernel
    have hmessage : (dropped name tag).message =
        "Dropping property " ++ ("$" ++ (tag.rawName ++ (" in " ++ (name ++ ": no usable accessor name")))) := by
      rw [← String.append_assoc, ← hstart, ← String.append_assoc, ← String.append_assoc, ← String.append_assoc]
      rfl
    rw [after?_of_message hlevel hmessage]
    rfl
  | _ =>
    rw [after?_of_opening]
    · rfl
    · dsimp only [level, opening]
      decide +kernel

end Event

/-! ## Logs of one line for each event -/

theorem Command.linesOf_of_not_mem {text : String} (h : '\n' ∉ text.toList) : linesOf text = [text] := by
  rw [linesOf, Text.lines, List.splitOn_eq_singleton h, List.map_singleton, String.ofList_toList]

namespace Log

variable {events : List Event}

/-- A log has one line for each event if no text of an event is broken into lines. -/
theorem lines_eq_map (h : ∀ e ∈ events, '\n' ∉ e.text.toList) : lines events = events.map (·.text) := by
  induction events with
  | nil => rfl
  | cons e events ih =>
    have hrest := ih fun e' he' => h e' (List.mem_cons_of_mem e he')
    rw [lines, List.flatMap_cons, Command.linesOf_of_not_mem (h e List.mem_cons_self), List.map_cons]
    exact congrArg _ hrest

/-- The paths behind a mark are those of the events that it marks. -/
theorem shown_lines (h : ∀ e ∈ events, '\n' ∉ e.text.toList) {mark : String} {path? : Event → Option Path}
    (hmark : ∀ e ∈ events, Text.after? mark e.text = (path? e).map (·.text)) :
    shown mark (lines events) = (events.filterMap path?).map (·.text) := by
  rw [lines_eq_map h, shown, List.filterMap_map, List.map_filterMap]
  exact List.filterMap_congr hmark

theorem count_lines (h : ∀ e ∈ events, '\n' ∉ e.text.toList) {mark : String} {isMarked : Event → Bool}
    (hmark : ∀ e ∈ events, (Text.after? mark e.text).isSome = isMarked e) :
    count mark (lines events) = events.countP isMarked := by
  rw [lines_eq_map h, count, List.countP_map]
  exact List.countP_congr fun e he => by rw [Function.comp_apply, hmark e he]

end Log

end GetSet
