import Mathlib.Data.List.TakeWhile
import GetSet.Text.Blank

/-!
# Runs of characters

Names, types and what separates them are runs of characters of one class. `IsRun` says where the run at the front of a
text, or of bytes, ends, and ties it to the two halves that `takeWhile` and `dropWhile` give.
-/

namespace GetSet.Text

/-! ## Longest runs -/

section Runs

variable {α : Type}

/-- A text is cut where the characters of a class at its front end. -/
structure IsRun (p : α → Bool) (cs run rest : List α) : Prop where
  append_eq : run ++ rest = cs
  char : ∀ c ∈ run, p c = true
  ends : ∀ c ∈ rest.head?, p c = false

variable {p : α → Bool} {cs run rest : List α}

theorem isRun_takeWhile (p : α → Bool) (cs : List α) : IsRun p cs (cs.takeWhile p) (cs.dropWhile p) where
  append_eq := List.takeWhile_append_dropWhile
  char _ hc := List.mem_takeWhile_imp hc
  ends c hc := by
    have hhead := List.head?_dropWhile_not p cs
    rw [Option.mem_def.1 hc] at hhead
    exact hhead

theorem IsRun.takeWhile_eq (h : IsRun p cs run rest) : cs.takeWhile p = run := by
  rw [← h.append_eq, List.takeWhile_append_of_pos h.char]
  cases hrest : rest with
  | nil => simp
  | cons c rest' => simp [h.ends c (by simp [hrest])]

theorem IsRun.dropWhile_eq (h : IsRun p cs run rest) : cs.dropWhile p = rest := by
  rw [← h.append_eq, List.dropWhile_append_of_pos h.char]
  cases hrest : rest with
  | nil => rfl
  | cons c rest' => simp [h.ends c (by simp [hrest])]

end Runs

variable {cs : List Char}

/-! ## Texts that are written out -/

/-- What holds of some characters holds of the text of these characters. A text that is written out is one of these, and
its characters need not be read out of its bytes then. -/
theorem holds_toList_ofList {P : List Char → Prop} (h : P cs) : P (String.ofList cs).toList := by
  rwa [String.toList_ofList]

/-! ## Gaps -/

/-- One or more spaces and tabs. -/
structure IsGap (cs : List Char) : Prop where
  ne_nil : cs ≠ []
  char : ∀ c ∈ cs, c = ' ' ∨ c = '\t'

theorem isSpacing_iff {c : Char} : isSpacing c = true ↔ c = ' ' ∨ c = '\t' := by
  simp [isSpacing]

/-- A gap ends where something else begins. -/
theorem IsGap.isRun {gap : List Char} (h : IsGap gap) (hrest : ∀ c ∈ rest.head?, isSpacing c = false) :
    IsRun isSpacing (gap ++ rest) gap rest :=
  ⟨rfl, fun c hc => isSpacing_iff.2 (h.char c hc), hrest⟩

end GetSet.Text
