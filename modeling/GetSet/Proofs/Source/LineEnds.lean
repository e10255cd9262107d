import GetSet.Proofs.Source.Append
import GetSet.Proofs.Source.Unit
import GetSet.Proofs.Text.Run

/-!
# Styles of line ends

A line may end with a line feed alone or with any number of carriage returns before it. What is read from a text does
not depend on this (`read_lineEnds`). No part of a tag or of a declaration is a carriage return, and none begins or ends
otherwise for standing next to one: so tags and declarations overlook a single carriage return before a line feed
(`OverlooksReturns`), and therefore any number of them.
-/

namespace GetSet

/-! ## Carriage returns before line feeds -/

namespace Text

/-- Deletes every carriage return behind which there are only carriage returns up to a line feed. -/
def dropReturns : List Char → List Char
  | [] => []
  | c :: cs =>
    if c == '\r' && (cs.dropWhile (· == '\r')).head? == some '\n' then dropReturns cs else c :: dropReturns cs

example : dropReturns "a\r\r\nb\r\n\rc\r".toList = "a\nb\n\rc\r".toList := by decide

/-- What is found in a text stays the same if a line loses a carriage return at its end. -/
def OverlooksReturns {α : Type} (f : List Char → α) : Prop :=
  ∀ cs ds, f (cs ++ '\r' :: '\n' :: ds) = f (cs ++ '\n' :: ds)

namespace OverlooksReturns

variable {α : Type} {f : List Char → α}

/-- Of the carriage returns before a line feed the last one is taken away instead of the first. -/
theorem of_dropWhile (h : OverlooksReturns f) {cs : List Char}
    (hnewline : (cs.dropWhile (· == '\r')).head? = some '\n') (before : List Char) :
    f (before ++ '\r' :: cs) = f (before ++ cs) := by
  obtain ⟨rest, hrest⟩ := List.head?_eq_some_iff.1 hnewline
  have hrun := isRun_takeWhile (· == '\r') cs
  rw [hrest] at hrun
  have hreturns : cs.takeWhile (· == '\r') = List.replicate (cs.takeWhile (· == '\r')).length '\r' :=
    List.eq_replicate_of_mem fun c hc => by simpa using hrun.char c hc
  generalize (cs.takeWhile (· == '\r')).length = n at hreturns
  obtain rfl : cs = List.replicate n '\r' ++ '\n' :: rest := by rw [← hreturns, hrun.append_eq]
  calc f (before ++ '\r' :: (List.replicate n '\r' ++ '\n' :: rest))
      = f ((before ++ List.replicate n '\r') ++ '\r' :: '\n' :: rest) := by
        rw [List.append_assoc, ← List.cons_append, ← List.replicate_succ, List.replicate_succ', List.append_assoc]
        rfl
    _ = f ((before ++ List.replicate n '\r') ++ '\n' :: rest) := h _ _
    _ = f (before ++ (List.replicate n '\r' ++ '\n' :: rest)) := by rw [List.append_assoc]

theorem append_dropReturns (h : OverlooksReturns f) (before cs : List Char) :
    f (before ++ dropReturns cs) = f (before ++ cs) := by
  fun_induction dropReturns cs generalizing before with
  | case1 => rfl
  | case2 c cs hreturn ih =>
    rw [Bool.and_eq_true, beq_iff_eq, beq_iff_eq] at hreturn
    obtain ⟨rfl, hnewline⟩ := hreturn
    rw [ih, h.of_dropWhile hnewline]
  | case3 c cs _ ih =>
    have hkept := ih (before ++ [c])
    rwa [List.append_assoc, List.append_assoc] at hkept

theorem append_unifyLineEnds (h : OverlooksReturns f) (before cs : List Char) :
    f (before ++ unifyLineEnds cs) = f (before ++ cs) := by
  fun_induction unifyLineEnds cs generalizing before with
  | case1 cs ih =>
    have hkept := ih (before ++ ['\n'])
    rw [List.append_assoc, List.append_assoc] at hkept
    exact hkept.trans (h before cs).symm
  | case2 c cs _ ih =>
    have hkept := ih (before ++ [c])
    rwa [List.append_assoc, List.append_assoc] at hkept
  | case3 => rfl

/-- Texts are alike that have the same lines, whatever ends them. -/
theorem congr (h : OverlooksReturns f) {cs ds : List Char} (heq : dropReturns cs = dropReturns ds) : f cs = f ds :=
  calc f cs = f (dropReturns cs) := (h.append_dropReturns [] cs).symm
    _ = f (dropReturns ds) := by rw [heq]
    _ = f ds := h.append_dropReturns [] ds

end OverlooksReturns

end Text

/-! ## Tags and declarations -/

open Text (OverlooksReturns dropReturns withUnixLineEnds)

theorem Tag.overlooksReturns_scanFrom (atBoundary : Bool) : OverlooksReturns (scanFrom atBoundary) := by
  intro cs ds
  have hnewline : scanFrom (isBoundary '\r') ('\n' :: ds) = scanFrom (isBoundary '\n') ds :=
    scanFrom_append_stop isForeign_newline _ [] ds
  rw [scanFrom_append_stop isForeign_return, scanFrom_append_stop isForeign_newline, hnewline]

theorem Declaration.overlooksReturns_lines :
    OverlooksReturns fun cs => (Text.lines cs).findSome? ofLine? := by
  intro cs ds
  show (Text.lines (cs ++ '\r' :: '\n' :: ds)).findSome? ofLine? = (Text.lines (cs ++ '\n' :: ds)).findSome? ofLine?
  rw [show cs ++ '\r' :: '\n' :: ds = (cs ++ ['\r']) ++ '\n' :: ds by simp, Text.lines_append, Text.lines_append,
    List.findSome?_append, List.findSome?_append, findSome?_lines_append_singleton isForeign_return]

/-- Tags are the same with Unix line ends. -/
theorem Tag.scan_withUnixLineEnds (text : String) : scan (withUnixLineEnds text) = scan text := by
  rw [scan, withUnixLineEnds, String.toList_ofList]
  exact (overlooksReturns_scanFrom true).append_unifyLineEnds [] text.toList

/-- The first declaration is the same with Unix line ends. -/
theorem Declaration.className?_withUnixLineEnds (text : String) :
    className? (withUnixLineEnds text) = className? text := by
  rw [className?, withUnixLineEnds, String.toList_ofList]
  exact congrArg _ (overlooksReturns_lines.append_unifyLineEnds [] text.toList)

namespace SourceUnit

/-- Carriage returns at the ends of lines make no difference to the unit of a text. -/
theorem parse?_eq_ofText? (text : String) (path : Path) : parse? text path = ofText? text path := by
  rw [parse?, ofText?, ofText?, readings, readings, Declaration.className?_withUnixLineEnds, Tag.scan_withUnixLineEnds]

/-- What is reported of a text depends on its tags. -/
theorem events_congr {text text' : String} (h : Tag.scan text = Tag.scan text') (unit : SourceUnit) (verbose : Bool) :
    unit.events verbose text = unit.events verbose text' := by
  rw [events, events, readings, readings, h]

/-- Texts that only differ in the number of carriage returns at the ends of their lines have the same class and the same
tags. The same unit is read from them, and the same is reported meanwhile. -/
theorem read_lineEnds {text text' : String} (h : dropReturns text.toList = dropReturns text'.toList) (path : Path) :
    Declaration.className? text = Declaration.className? text' ∧
      Tag.scan text = Tag.scan text' ∧
      parse? text path = parse? text' path ∧
      ∀ verbose w, (read verbose text path).exec w = (read verbose text' path).exec w := by
  have hclass : Declaration.className? text = Declaration.className? text' := by
    rw [Declaration.className?, Declaration.className?]
    exact congrArg _ (Declaration.overlooksReturns_lines.congr h)
  have hscan : Tag.scan text = Tag.scan text' := (Tag.overlooksReturns_scanFrom true).congr h
  have hparse : parse? text path = parse? text' path := by
    rw [parse?_eq_ofText?, parse?_eq_ofText?, ofText?, ofText?, readings, readings, hclass, hscan]
  have hunix : Tag.scan (withUnixLineEnds text) = Tag.scan (withUnixLineEnds text') := by
    rw [Tag.scan_withUnixLineEnds, Tag.scan_withUnixLineEnds, hscan]
  refine ⟨hclass, hscan, hparse, fun verbose w => ?_⟩
  simp only [exec_read, readEvents, hparse, events_congr hunix]

/-- One line end with two carriage returns and one with one, against none and two. -/
theorem read_lineEnds_card :
    dropReturns "@property $a\r\r\nclass Card\r\n".toList = dropReturns "@property $a\nclass Card\r\r\n".toList ∧
      Declaration.className? "@property $a\r\r\nclass Card\r\n" = some "Card" ∧
      Tag.scan "@property $a\r\r\nclass Card\r\n" = [⟨"", "a"⟩] ∧
      parse? "@property $a\r\r\nclass Card\r\n" ⟨"Card.php"⟩ =
        some { path := ⟨"Card.php"⟩, name := "Card", properties := [⟨"", "a", "A", "a"⟩], droppedProperties := 0 } := by
  have hends : dropReturns "@property $a\r\r\nclass Card\r\n".toList =
      dropReturns "@property $a\nclass Card\r\r\n".toList := by decide
  obtain ⟨hclass, hscan, hparse, -⟩ := read_lineEnds hends ⟨"Card.php"⟩
  rw [hclass, hscan, hparse]
  exact ⟨hends, by decide, by decide, by decide⟩

end SourceUnit

end GetSet
