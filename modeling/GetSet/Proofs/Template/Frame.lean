import GetSet.Proofs.Template.Substitution

/-!
# Templates as frames

Where the slot of a key stands, a text is split into what is before the slot, the slot and what is behind it
(`split_append_slot`). So a template in which a slot stands once is a frame around the value of its key
(`exists_frame`), and one in which two slots stand once is a frame around two values (`exists_frame_two`): what
surrounds the values does not depend on them.
-/

namespace GetSet.Template

/-! ## Splitting at a slot -/

/-- The slot of a key stands at one position of a template and at no other one. -/
def OccursOnce (t : Template) (key : String) : Prop :=
  ∃ i, Occurs t.text.toList i key ∧ ∀ j, Occurs t.text.toList j key → j = i

theorem Occurs.lt_length {text : List Char} {i : Nat} {key : String} (h : Occurs text i key) : i < text.length := by
  have hpos := length_slotText_pos key
  have hle := h.stands.length_le
  rw [String.length_toList, List.length_drop] at hle
  omega

instance (t : Template) (key : String) : Decidable (t.OccursOnce key) :=
  decidable_of_iff (∃ i ∈ List.range t.text.toList.length, Occurs t.text.toList i key ∧
      ∀ j ∈ List.range t.text.toList.length, Occurs t.text.toList j key → j = i)
    ⟨fun ⟨i, _, h, hunique⟩ => ⟨i, h, fun j hj => hunique j (List.mem_range.2 hj.lt_length) hj⟩,
      fun ⟨i, h, hunique⟩ => ⟨i, List.mem_range.2 h.lt_length, h, fun j _ => hunique j⟩⟩

/-- A slot in the first part of a text stands in the whole text. -/
theorem Occurs.append_right {front : List Char} {i : Nat} {key : String} (h : Occurs front i key) (cs : List Char) :
    Occurs (front ++ cs) i key := by
  refine ⟨h.isKey, ?_⟩
  rw [List.drop_append_of_le_length (Nat.le_of_lt h.lt_length)]
  exact h.stands.trans (List.prefix_append _ _)

/-- A slot at the front of a text that has a slot behind its first part is a slot of that part. -/
theorem slot?_append_slot {front cs : List Char} {key : String} (hkey : IsKey key) (hne : front ≠ [])
    (hnone : slot? front = none) : slot? (front ++ ((slotText key).toList ++ cs)) = none := by
  rw [Option.eq_none_iff_forall_ne_some]
  rintro ⟨key', rest⟩ hslot
  obtain ⟨hkey', hrest⟩ := slot?_eq_some_iff.1 hslot
  have hhere : Occurs (front ++ ((slotText key).toList ++ cs)) 0 (.ofList key') :=
    ⟨hkey', rest, by rw [List.drop_zero, hrest]⟩
  have hbehind : Occurs (front ++ ((slotText key).toList ++ cs)) front.length key :=
    ⟨hkey, by rw [List.drop_left]; exact List.prefix_append _ _⟩
  have hle := hhere.add_le hbehind (List.length_pos_iff.2 hne)
  -- the slot ends within the first part
  have hprefix : (slotText (.ofList key')).toList <+: front := by
    have hfront : front <+: front ++ ((slotText key).toList ++ cs) := List.prefix_append _ _
    rw [hrest] at hfront
    refine List.prefix_of_prefix_length_le (List.prefix_append _ rest) hfront ?_
    rw [String.length_toList]
    omega
  obtain ⟨rest', rfl⟩ := hprefix
  rw [slot?_eq_some_iff.2 ⟨hkey', rfl⟩] at hnone
  simp at hnone

/-- A text is split at every slot that stands in it. -/
theorem split_append_slot {key : String} (hkey : IsKey key) (front cs : List Char) :
    split (front ++ ((slotText key).toList ++ cs)) = split front ++ .slot key :: split cs := by
  fun_induction split front with
  | case1 front key' rest hslot ih =>
    obtain ⟨hkey', rfl⟩ := slot?_eq_some_iff.1 hslot
    rw [List.append_assoc, split_slot hkey', ih]
    rfl
  | case2 => exact split_slot hkey cs
  | case3 c front hslot ih =>
    have hnone : slot? (c :: front ++ ((slotText key).toList ++ cs)) = none :=
      slot?_append_slot hkey (List.cons_ne_nil c front) hslot
    rw [List.cons_append] at hnone ⊢
    rw [split_cons hnone, ih]
    rfl

/-- A slot among the pieces of a text stands in the text. -/
theorem exists_occurs_of_mem_split {cs : List Char} {key : String} (h : .slot key ∈ split cs) :
    ∃ i, Occurs cs i key := by
  fun_induction split cs with
  | case1 cs key' rest hslot ih =>
    obtain ⟨hkey', rfl⟩ := slot?_eq_some_iff.1 hslot
    rcases List.mem_cons.1 h with heq | hmem
    · obtain rfl := Piece.slot.inj heq
      exact ⟨0, hkey', List.prefix_append _ _⟩
    · obtain ⟨i, hi⟩ := ih hmem
      exact ⟨_, occurs_append_iff.2 hi⟩
  | case2 => simp at h
  | case3 c rest hslot ih =>
    obtain ⟨i, hi⟩ := ih (by simpa using h)
    have hslot : Occurs ([c] ++ rest) ([c].length + i) key := occurs_append_iff.2 hi
    exact ⟨_, hslot⟩

/-- A slot that stands once in a template is one of its pieces once. -/
theorem exists_pieces_eq {t : Template} {key : String} (h : t.OccursOnce key) :
    ∃ before after, t.pieces = before ++ .slot key :: after ∧ .slot key ∉ before ∧ .slot key ∉ after := by
  obtain ⟨i, ⟨hkey, rest, hrest⟩, hunique⟩ := h
  rw [pieces]
  generalize t.text.toList = text at hrest hunique ⊢
  have htext : text = text.take i ++ ((slotText key).toList ++ rest) := by rw [hrest, List.take_append_drop]
  have hi : i = (text.take i).length := by
    have hlt := Occurs.lt_length ⟨hkey, rest, hrest⟩
    rw [List.length_take]
    omega
  generalize text.take i = front at htext hi
  subst htext
  refine ⟨split front, split rest, split_append_slot hkey front rest, fun hmem => ?_, fun hmem => ?_⟩
  · obtain ⟨j, hj⟩ := exists_occurs_of_mem_split hmem
    have hlt := hj.lt_length
    have heq := hunique j (hj.append_right _)
    omega
  · obtain ⟨j, hj⟩ := exists_occurs_of_mem_split hmem
    have heq := hunique _ (occurs_append_iff.2 (occurs_append_iff.2 hj))
    have hpos := length_slotText_pos key
    rw [String.length_toList] at heq
    omega

/-! ## Frames -/

/-- What is written for pieces depends on the values of their keys only. -/
theorem flatMap_render_congr {b b' : Bindings} {ps : List Piece}
    (h : ∀ key, .slot key ∈ ps → b.get? key = b'.get? key) :
    ps.flatMap (Piece.render b) = ps.flatMap (Piece.render b') := by
  rw [List.flatMap_def, List.flatMap_def]
  congr 1
  refine List.map_congr_left fun piece hpiece => ?_
  cases piece with
  | slot key => simp only [Piece.render, h key hpiece]
  | char c => rfl

theorem render_slot {b : Bindings} {key value : String} (h : b.get? key = some value) :
    Piece.render b (.slot key) = value.toList := by
  rw [Piece.render, h, Option.getD_some]

/-- A template in which the slot of a key stands once is a frame around the value of that key. -/
theorem exists_frame {t : Template} {key : String} (h : t.OccursOnce key) (base : Bindings) :
    ∃ pre post : String, ∀ (b : Bindings) (value : String), b.get? key = some value →
      (∀ other, other ≠ key → b.get? other = base.get? other) → t.render b = pre ++ value ++ post := by
  obtain ⟨before, after, hsplit, hbefore, hafter⟩ := exists_pieces_eq h
  refine ⟨.ofList (before.flatMap (Piece.render base)), .ofList (after.flatMap (Piece.render base)), ?_⟩
  intro b value hvalue hbase
  have hsame : ∀ ps : List Piece, .slot key ∉ ps → ps.flatMap (Piece.render b) = ps.flatMap (Piece.render base) := by
    refine fun ps hps => flatMap_render_congr fun other hother => hbase other ?_
    rintro rfl
    exact hps hother
  rw [render, hsplit, List.flatMap_append, List.flatMap_cons, render_slot hvalue, hsame before hbefore,
    hsame after hafter]
  simp [String.ofList_append, String.append_assoc]

/-- Of two different elements that both stand in a list one stands before the other. -/
theorem exists_between {α : Type} {x y : α} {before after before' after' : List α} (hne : x ≠ y)
    (h : before ++ x :: after = before' ++ y :: after') :
    (∃ mid, before' = before ++ x :: mid ∧ after = mid ++ y :: after') ∨
      ∃ mid, before = before' ++ y :: mid ∧ after' = mid ++ x :: after := by
  rcases List.append_eq_append_iff.1 h with ⟨mid, rfl, htail⟩ | ⟨mid, rfl, htail⟩
  · cases mid with
    | nil => exact absurd (List.cons.inj htail).1 hne
    | cons z mid =>
      obtain ⟨rfl, rfl⟩ := List.cons.inj htail
      exact Or.inl ⟨mid, rfl, rfl⟩
  · cases mid with
    | nil => exact absurd (List.cons.inj htail).1.symm hne
    | cons z mid =>
      obtain ⟨rfl, rfl⟩ := List.cons.inj htail
      exact Or.inr ⟨mid, rfl, rfl⟩

/-- A template in which a slot stands once, and behind it another one once, is a frame around two values. -/
theorem exists_frame_ordered {t : Template} {key key' : String} {before mid after : List Piece}
    (hsplit : t.pieces = before ++ .slot key :: (mid ++ .slot key' :: after))
    (hfree : ∀ ps ∈ [before, mid, after], .slot key ∉ ps ∧ .slot key' ∉ ps) (base : Bindings) :
    ∃ pre between post : String, ∀ (b : Bindings) (value value' : String), b.get? key = some value →
      b.get? key' = some value' → (∀ other, other ≠ key → other ≠ key' → b.get? other = base.get? other) →
        t.render b = pre ++ value ++ between ++ value' ++ post := by
  refine ⟨.ofList (before.flatMap (Piece.render base)), .ofList (mid.flatMap (Piece.render base)),
    .ofList (after.flatMap (Piece.render base)), fun b value value' hvalue hvalue' hbase => ?_⟩
  have hsame : ∀ ps ∈ [before, mid, after], ps.flatMap (Piece.render b) = ps.flatMap (Piece.render base) := by
    refine fun ps hps => flatMap_render_congr fun other hother => hbase other ?_ ?_
    · rintro rfl
      exact (hfree ps hps).1 hother
    · rintro rfl
      exact (hfree ps hps).2 hother
  rw [render, hsplit, List.flatMap_append, List.flatMap_cons, List.flatMap_append, List.flatMap_cons,
    render_slot hvalue, render_slot hvalue', hsame before (by simp), hsame mid (by simp), hsame after (by simp)]
  simp [String.ofList_append, String.append_assoc]

/-- Two values in a frame; `swapped` tells whether the second one stands first. -/
def fillTwo (swapped : Bool) (pre between post first second : String) : String :=
  if swapped then pre ++ second ++ between ++ first ++ post else pre ++ first ++ between ++ second ++ post

/-- A template in which two slots each stand once is a frame around the values of their keys. -/
theorem exists_frame_two {t : Template} {key key' : String} (hne : key ≠ key') (h : t.OccursOnce key)
    (h' : t.OccursOnce key') (base : Bindings) :
    ∃ (swapped : Bool) (pre between post : String), ∀ (b : Bindings) (value value' : String),
      b.get? key = some value → b.get? key' = some value' →
        (∀ other, other ≠ key → other ≠ key' → b.get? other = base.get? other) →
          t.render b = fillTwo swapped pre between post value value' := by
  obtain ⟨before, after, hsplit, hbefore, hafter⟩ := exists_pieces_eq h
  obtain ⟨before', after', hsplit', hbefore', hafter'⟩ := exists_pieces_eq h'
  have hslot : Piece.slot key ≠ .slot key' := fun heq => hne (Piece.slot.inj heq)
  rcases exists_between hslot (hsplit.symm.trans hsplit') with ⟨mid, rfl, rfl⟩ | ⟨mid, rfl, rfl⟩
  · simp only [List.mem_append, List.mem_cons, not_or] at hbefore' hafter
    obtain ⟨pre, between, post, hrender⟩ := exists_frame_ordered (t := t) hsplit
      (by simp [hbefore, hbefore'.1, hafter.1, hbefore'.2.2, hafter.2.2, hafter']) base
    exact ⟨false, pre, between, post, hrender⟩
  · simp only [List.mem_append, List.mem_cons, not_or] at hbefore hafter'
    obtain ⟨pre, between, post, hrender⟩ := exists_frame_ordered (t := t) hsplit'
      (by simp [hbefore', hbefore.1, hafter'.1, hbefore.2.2, hafter'.2.2, hafter]) base
    exact ⟨true, pre, between, post, fun b value value' hvalue hvalue' hbase =>
      hrender b value' value hvalue' hvalue fun other hne' hne => hbase other hne hne'⟩

end GetSet.Template
