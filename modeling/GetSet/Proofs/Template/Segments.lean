import GetSet.Proofs.Template.Frame

/-!
# Templates around the slots of a key

The slot of a key may stand any number of times in a template (`occurrences`). What surrounds these slots does not
depend on the value of the key, so that a template is rendered to some texts, one more than there are slots, with the
value between them (`exists_segments`). The value of a key whose slot stands nowhere does not matter
(`render_eq_of_lacks`).
-/

namespace GetSet.Template

/-! ## Counting slots -/

/-- The number of positions of a text at which the slot of a key stands. -/
def slotCount (text : List Char) (key : String) : Nat :=
  (List.range text.length).countP fun i => Occurs text i key

/-- The number of times that the slot of a key stands in a template. -/
def occurrences (t : Template) (key : String) : Nat :=
  slotCount t.text.toList key

/-- The slot of a key stands nowhere in a template. -/
def Lacks (t : Template) (key : String) : Prop :=
  ∀ i, ¬ Occurs t.text.toList i key

instance (t : Template) (key : String) : Decidable (t.Lacks key) :=
  decidable_of_iff (∀ i ∈ List.range t.text.toList.length, ¬ Occurs t.text.toList i key)
    ⟨fun h i hslot => h i (List.mem_range.2 hslot.lt_length) hslot, fun h i _ => h i⟩

/-- The slots that begin in the first part of a text and those of the second part, if no slot lies across. -/
theorem slotCount_append (front cs : List Char) (key : String) :
    slotCount (front ++ cs) key =
      ((List.range front.length).countP fun i => Occurs (front ++ cs) i key) + slotCount cs key := by
  rw [slotCount, List.length_append, List.range_add, List.countP_append, List.countP_map]
  congr 2
  funext i
  exact decide_eq_decide.2 occurs_append_iff

/-- A slot at the front of a text is counted once, if it is that of the key. -/
theorem slotCount_slot {key' : String} (hkey' : IsKey key') (rest : List Char) (key : String) :
    slotCount ((slotText key').toList ++ rest) key = (if key' = key then 1 else 0) + slotCount rest key := by
  have hpos := length_slotText_pos key'
  obtain ⟨n, hn⟩ := Nat.exists_eq_succ_of_ne_zero (Nat.ne_of_gt hpos)
  have hzero : Occurs ((slotText key').toList ++ rest) 0 key ↔ key' = key := by
    refine ⟨fun h => (eq_of_occurs_slot hkey' h hpos).2.symm, ?_⟩
    rintro rfl
    exact ⟨hkey', List.prefix_append _ _⟩
  have hlater : ((List.range n).map Nat.succ).countP
      (fun i => decide (Occurs ((slotText key').toList ++ rest) i key)) = 0 := by
    rw [List.countP_eq_zero]
    intro i hi hslot
    obtain ⟨j, hj, rfl⟩ := List.mem_map.1 hi
    have hlt := List.mem_range.1 hj
    have hlength : Nat.succ j < (slotText key').length := by omega
    exact Nat.succ_ne_zero j (eq_of_occurs_slot hkey' (of_decide_eq_true hslot) hlength).1
  rw [slotCount_append, String.length_toList, hn, List.range_succ_eq_map, List.countP_cons, hlater]
  simp only [hzero, decide_eq_true_eq, Nat.zero_add]

/-- A character that begins no slot is not counted. -/
theorem slotCount_char {c : Char} {rest : List Char} (hnone : slot? (c :: rest) = none) (key : String) :
    slotCount (c :: rest) key = slotCount rest key := by
  have hfree := not_occurs_zero hnone key
  have happend := slotCount_append [c] rest key
  have hcount : (List.range [c].length).countP (fun i => decide (Occurs ([c] ++ rest) i key)) = 0 := by
    simp [hfree]
  rw [hcount, Nat.zero_add] at happend
  exact happend

/-- A text is split into as many slots of a key as stand in it. -/
theorem count_split (text : List Char) (key : String) : (split text).count (.slot key) = slotCount text key := by
  fun_induction split text with
  | case1 text key' rest hslot ih =>
    obtain ⟨hkey', rfl⟩ := slot?_eq_some_iff.1 hslot
    rw [slotCount_slot hkey', ← ih, List.count_cons, Nat.add_comm]
    simp
  | case2 => rfl
  | case3 c rest hnone ih =>
    rw [slotCount_char hnone, ← ih, List.count_cons_of_ne (by simp)]

theorem count_pieces (t : Template) (key : String) : t.pieces.count (.slot key) = t.occurrences key :=
  count_split t.text.toList key

/-! ## Values that do not matter -/

/-- The slot of a key that is among the pieces stands in the template. -/
theorem not_lacks_of_mem_pieces {t : Template} {key : String} (h : .slot key ∈ t.pieces) : ¬ t.Lacks key := by
  obtain ⟨i, hi⟩ := exists_occurs_of_mem_split h
  exact fun hlacks => hlacks i hi

/-- The value of a key whose slot stands nowhere makes no difference. -/
theorem render_eq_of_lacks {t : Template} {key : String} (hlacks : t.Lacks key) {b b' : Bindings}
    (h : ∀ other, other ≠ key → b.get? other = b'.get? other) : t.render b = t.render b' := by
  rw [render, render]
  congr 1
  refine flatMap_render_congr fun other hother => h other ?_
  rintro rfl
  exact not_lacks_of_mem_pieces hother hlacks

/-- A key whose slot stands nowhere may be bound to anything. -/
theorem render_bind_of_lacks {t : Template} {key : String} (hlacks : t.Lacks key) (b : Bindings) (value : String) :
    t.render (b.bind key value) = t.render b :=
  render_eq_of_lacks hlacks fun _ hother => Bindings.get?_bind_of_ne b value hother

/-! ## Segments -/

/-- Pieces are written as texts that do not depend on the value of a key, with this value between them. -/
theorem exists_segments_of_pieces (ps : List Piece) (key : String) (base : Bindings) :
    ∃ segments : List String, segments.length = ps.count (.slot key) + 1 ∧
      ∀ (b : Bindings) (value : String), b.get? key = some value →
        (∀ other, other ≠ key → b.get? other = base.get? other) →
          String.ofList (ps.flatMap (Piece.render b)) = value.intercalate segments := by
  induction ps with
  | nil => exact ⟨[""], rfl, fun b value _ _ => by simp⟩
  | cons piece ps ih =>
    obtain ⟨segments, hlength, hrender⟩ := ih
    obtain ⟨first, later, rfl⟩ := List.exists_cons_of_length_eq_add_one hlength
    by_cases hpiece : piece = .slot key
    · -- the value stands in front of what follows
      subst hpiece
      refine ⟨"" :: first :: later, by rw [List.length_cons, hlength, List.count_cons_self], ?_⟩
      intro b value hvalue hbase
      rw [List.flatMap_cons, String.ofList_append, render_slot hvalue, hrender b value hvalue hbase]
      simp
    · -- what is written for the piece is put in front of the first text
      refine ⟨(String.ofList (Piece.render base piece) ++ first) :: later, ?_, ?_⟩
      · rw [List.count_cons_of_ne hpiece, ← hlength]
        rfl
      · intro b value hvalue hbase
        have hsame : Piece.render b piece = Piece.render base piece := by
          cases piece with
          | char c => rfl
          | slot other => simp only [Piece.render, hbase other fun heq => hpiece (congrArg Piece.slot heq)]
        rw [List.flatMap_cons, String.ofList_append, hsame, hrender b value hvalue hbase]
        simp

/-- A template is rendered to texts that do not depend on the value of a key, one more than its slot stands in the
template, with this value between them. -/
theorem exists_segments (t : Template) (key : String) (base : Bindings) :
    ∃ segments : List String, segments.length = t.occurrences key + 1 ∧
      ∀ (b : Bindings) (value : String), b.get? key = some value →
        (∀ other, other ≠ key → b.get? other = base.get? other) → t.render b = value.intercalate segments := by
  obtain ⟨segments, hlength, hrender⟩ := exists_segments_of_pieces t.pieces key base
  exact ⟨segments, by rw [hlength, count_pieces], hrender⟩

end GetSet.Template
