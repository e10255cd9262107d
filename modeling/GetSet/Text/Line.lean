/-!
# Lines

A text is a sequence of lines separated by line feeds. Files written on other systems end a line with a carriage
return and a line feed; `unifyLineEnds` turns every such pair into the line feed alone, so that all other
definitions know one line end only.

The functions on `List Char` do the work; those on `String` wrap them.
-/

namespace GetSet.Text

/-- The lines of a text: what stands before, between and after its line feeds. -/
def lines (cs : List Char) : List (List Char) :=
  cs.splitOn '\n'

/-- Lines put back together give the text. -/
theorem intercalate_lines (cs : List Char) : ['\n'].intercalate (lines cs) = cs :=
  List.intercalate_splitOn '\n'

/-- The lines of two texts with a line feed between them. -/
theorem lines_append (cs ds : List Char) : lines (cs ++ '\n' :: ds) = lines cs ++ lines ds :=
  List.splitOnP_append_cons cs ds (by decide)

/-- Replaces every carriage return and line feed by the line feed. -/
def unifyLineEnds : List Char → List Char
  | '\r' :: '\n' :: cs => '\n' :: unifyLineEnds cs
  | c :: cs => c :: unifyLineEnds cs
  | [] => []

/-- A text without carriage returns is left as it is. -/
theorem unifyLineEnds_eq_self {cs : List Char} (h : '\r' ∉ cs) : unifyLineEnds cs = cs := by
  fun_induction unifyLineEnds cs with
  | case1 cs ih => simp at h
  | case2 c cs _ ih => simp [ih (fun hc => h (List.mem_cons_of_mem _ hc))]
  | case3 => rfl

/-- The text with every carriage return and line feed replaced by the line feed. -/
def withUnixLineEnds (text : String) : String :=
  .ofList (unifyLineEnds text.toList)

end GetSet.Text
