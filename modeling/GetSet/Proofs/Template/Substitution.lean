import GetSet.Proofs.Text.Run
import GetSet.Template.Basic

/-!
# Rendering is simultaneous substitution

The slot of a key may stand at any position of a text (`Occurs`). Slots never overlap, so it can be said for every
position apart what is written for it (`Writes`): the value of a bound key where its slot begins, nothing for the rest
of that slot, and every other character as it is. `render_exact` says that rendering, which reads a text once from left
to right and goes on behind each slot, writes just that.
-/

namespace GetSet

/-! ## Bound values -/

namespace Bindings

/-- The last pair with a key has a value. -/
def BoundLast (pairs : List (String × String)) (key value : String) : Prop :=
  ∃ before after, pairs = before ++ (key, value) :: after ∧ ∀ pair ∈ after, pair.1 ≠ key

theorem entries_ofList (pairs : List (String × String)) : (ofList pairs).entries = pairs.reverse := by
  have hfold : ∀ b : Bindings, (pairs.foldl (fun b pair => b.bind pair.1 pair.2) b).entries =
      pairs.reverse ++ b.entries := by
    induction pairs with
    | nil => exact fun b => rfl
    | cons pair pairs ih =>
      intro b
      rw [List.foldl_cons, ih, List.reverse_cons, List.append_assoc]
      rfl
  rw [ofList, hfold, List.append_nil]

/-- The value of a key is the one that was bound last. -/
theorem get?_ofList_eq_some_iff {pairs : List (String × String)} {key value : String} :
    (ofList pairs).get? key = some value ↔ BoundLast pairs key value := by
  rw [get?, entries_ofList, List.lookup_eq_some_iff]
  constructor
  · rintro ⟨after, before, hpairs, hafter⟩
    refine ⟨before.reverse, after.reverse, ?_, fun pair hpair => ?_⟩
    · rw [← List.reverse_reverse pairs, hpairs]
      simp
    · exact Ne.symm (bne_iff_ne.1 (hafter pair (List.mem_reverse.1 hpair)))
  · rintro ⟨before, after, rfl, hafter⟩
    refine ⟨after.reverse, before.reverse, by simp, fun pair hpair => ?_⟩
    exact bne_iff_ne.2 (Ne.symm (hafter pair (List.mem_reverse.1 hpair)))

theorem BoundLast.unique {pairs : List (String × String)} {key value value' : String}
    (h : BoundLast pairs key value) (h' : BoundLast pairs key value') : value = value' := by
  have hget := get?_ofList_eq_some_iff.2 h
  rw [get?_ofList_eq_some_iff.2 h'] at hget
  exact (Option.some.inj hget).symm

/-- All bindings come from pairs that are bound one after the other. -/
theorem exists_eq_ofList (b : Bindings) : ∃ pairs, b = ofList pairs := by
  refine ⟨b.entries.reverse, ?_⟩
  have hentries := entries_ofList b.entries.reverse
  rw [List.reverse_reverse] at hentries
  cases b
  exact congrArg mk hentries.symm

end Bindings

namespace Template

open Bindings (BoundLast get?_ofList_eq_some_iff)
open Text (IsRun isRun_takeWhile)

/-! ## Where slots stand -/

/-- A key: not empty and without braces. -/
structure IsKey (key : String) : Prop where
  ne_empty : key ≠ ""
  char : ∀ c ∈ key.toList, c ≠ '\x7b' ∧ c ≠ '\x7d'

theorem isBrace_eq_false_iff {c : Char} : isBrace c = false ↔ c ≠ '\x7b' ∧ c ≠ '\x7d' := by
  simp [isBrace]

theorem isKey_iff {key : String} : IsKey key ↔ key ≠ "" ∧ key.toList.all (!isBrace ·) = true := by
  have hchars : key.toList.all (!isBrace ·) = true ↔ ∀ c ∈ key.toList, c ≠ '\x7b' ∧ c ≠ '\x7d' := by
    simp only [List.all_eq_true, Bool.not_eq_true', isBrace_eq_false_iff]
  rw [hchars]
  exact ⟨fun h => ⟨h.ne_empty, h.char⟩, fun h => ⟨h.1, h.2⟩⟩

instance (key : String) : Decidable (IsKey key) :=
  decidable_of_iff _ isKey_iff.symm

/-- The slot of a key stands at a position of a text. -/
structure Occurs (text : List Char) (i : Nat) (key : String) : Prop where
  isKey : IsKey key
  stands : (slotText key).toList <+: text.drop i

instance (text : List Char) (i : Nat) (key : String) : Decidable (Occurs text i key) :=
  decidable_of_iff (IsKey key ∧ (slotText key).toList <+: text.drop i)
    ⟨fun h => ⟨h.1, h.2⟩, fun h => ⟨h.isKey, h.stands⟩⟩

theorem toList_slotText (key : String) :
    (slotText key).toList = '\x7b' :: '\x7b' :: (key.toList ++ ['\x7d', '\x7d']) := by
  simp [slotText]

theorem length_slotText_pos (key : String) : 0 < (slotText key).length := by
  rw [← String.length_toList, toList_slotText]
  exact Nat.succ_pos _

/-- A slot is read where one stands. -/
theorem slot?_eq_some_iff {cs key rest : List Char} :
    slot? cs = some (key, rest) ↔ IsKey (.ofList key) ∧ cs = (slotText (.ofList key)).toList ++ rest := by
  have htext : (slotText (.ofList key)).toList ++ rest = '\x7b' :: '\x7b' :: (key ++ '\x7d' :: '\x7d' :: rest) := by
    simp [toList_slotText]
  rw [htext]
  constructor
  · intro h
    refine ⟨?_, eq_of_slot? h⟩
    unfold slot? at h
    split at h
    · next cs =>
      have hrun := isRun_takeWhile (!isBrace ·) cs
      split at h
      · next c key' rest' htake hdrop =>
        obtain ⟨rfl, rfl⟩ := Prod.mk.inj (Option.some.inj h)
        refine ⟨by simp, fun d hd => isBrace_eq_false_iff.1 ?_⟩
        rw [String.toList_ofList, ← htake] at hd
        simpa using hrun.char d hd
      · simp at h
    · simp at h
  · rintro ⟨hkey, rfl⟩
    have hrun : IsRun (!isBrace ·) (key ++ '\x7d' :: '\x7d' :: rest) key ('\x7d' :: '\x7d' :: rest) := by
      refine ⟨rfl, fun c hc => ?_, fun c hc => ?_⟩
      · simpa using isBrace_eq_false_iff.2 (hkey.char c (by rwa [String.toList_ofList]))
      · obtain rfl : '\x7d' = c := by simpa using hc
        rfl
    obtain ⟨c, cs, rfl⟩ : ∃ c cs, key = c :: cs := by
      refine List.exists_cons_of_ne_nil ?_
      rintro rfl
      exact hkey.ne_empty rfl
    rw [slot?, hrun.takeWhile_eq, hrun.dropWhile_eq]
    rfl

theorem split_of_slot? {cs key rest : List Char} (h : slot? cs = some (key, rest)) :
    split cs = .slot (.ofList key) :: split rest := by
  rw [split]
  split
  · next h' =>
    rw [h] at h'
    obtain ⟨rfl, rfl⟩ := Prod.mk.inj (Option.some.inj h')
    rfl
  · next h' =>
    rw [h] at h'
    simp at h'

theorem split_cons {c : Char} {cs : List Char} (h : slot? (c :: cs) = none) :
    split (c :: cs) = .char c :: split cs := by
  rw [split]
  split
  · next h' =>
    rw [h] at h'
    simp at h'
  · rfl

/-- The slot of a key. -/
theorem split_slot {key : String} (hkey : IsKey key) (rest : List Char) :
    split ((slotText key).toList ++ rest) = .slot key :: split rest := by
  have hslot := slot?_eq_some_iff.2
    ⟨by rwa [String.ofList_toList], (rfl : (slotText (.ofList key.toList)).toList ++ rest = _)⟩
  rw [String.ofList_toList] at hslot
  rw [split_of_slot? hslot, String.ofList_toList]

theorem occurs_zero_iff {cs : List Char} {key : String} :
    Occurs cs 0 key ↔ ∃ rest, slot? cs = some (key.toList, rest) := by
  constructor
  · rintro ⟨hkey, rest, hrest⟩
    rw [List.drop_zero] at hrest
    exact ⟨rest, slot?_eq_some_iff.2 ⟨by rwa [String.ofList_toList], by rw [String.ofList_toList, hrest]⟩⟩
  · rintro ⟨rest, hslot⟩
    obtain ⟨hkey, hcs⟩ := slot?_eq_some_iff.1 hslot
    rw [String.ofList_toList] at hkey hcs
    exact ⟨hkey, rest, by rw [List.drop_zero, hcs]⟩

/-- Where no slot is read none stands. -/
theorem not_occurs_zero {cs : List Char} (hnone : slot? cs = none) (key : String) : ¬ Occurs cs 0 key := by
  intro hslot
  obtain ⟨rest, hslot⟩ := occurs_zero_iff.1 hslot
  rw [hnone] at hslot
  simp at hslot

theorem occurs_append_iff {front cs : List Char} {i : Nat} {key : String} :
    Occurs (front ++ cs) (front.length + i) key ↔ Occurs cs i key := by
  have hdrop : (front ++ cs).drop (front.length + i) = cs.drop i := by
    rw [← List.drop_drop, List.drop_left]
  constructor
  · rintro ⟨hkey, hstands⟩
    exact ⟨hkey, hdrop ▸ hstands⟩
  · rintro ⟨hkey, hstands⟩
    exact ⟨hkey, hdrop.symm ▸ hstands⟩

/-- What a slot says about the characters of the text. -/
theorem Occurs.getElem?_eq {text : List Char} {i m : Nat} {key : String} (h : Occurs text i key)
    (hm : m < (slotText key).length) : text[i + m]? = (slotText key).toList[m]? := by
  obtain ⟨rest, hrest⟩ := h.stands
  rw [← List.getElem?_drop, ← hrest, List.getElem?_append_left (by rwa [String.length_toList])]

/-- Only the first two characters of a slot are opening braces. -/
theorem IsKey.ne_brace {key : String} (h : IsKey key) {m : Nat} (hm : 2 ≤ m) :
    (slotText key).toList[m]? ≠ some '\x7b' := by
  obtain ⟨n, rfl⟩ := Nat.exists_eq_add_of_le' hm
  rw [toList_slotText, List.getElem?_cons_succ, List.getElem?_cons_succ]
  intro hbrace
  rcases List.mem_append.1 (List.mem_of_getElem? hbrace) with hmem | hmem
  · exact (h.char _ hmem).1 rfl
  · simp at hmem

/-- Slots do not overlap: one that begins behind another begins behind its end. -/
theorem Occurs.add_le {text : List Char} {i j : Nat} {key key' : String} (h : Occurs text i key)
    (h' : Occurs text j key') (hlt : i < j) : i + (slotText key).length ≤ j := by
  by_contra hinside
  -- two opening braces stand at `j`, and one of them behind the opening braces of the slot at `i`
  have hlength : 4 < (slotText key).length := by
    have hpos : 0 < key.toList.length := List.length_pos_iff.2 fun hnil =>
      h.isKey.ne_empty (String.toList_eq_nil_iff.1 hnil)
    rw [← String.length_toList, toList_slotText]
    simp only [List.length_cons, List.length_append, List.length_nil]
    omega
  have hlength' := length_slotText_pos key'
  have hfirst : text[j]? = some '\x7b' := by
    have hget := h'.getElem?_eq (m := 0) hlength'
    rwa [toList_slotText] at hget
  have hsecond : text[j + 1]? = some '\x7b' := by
    have hone : 1 < (slotText key').length := by
      rw [← String.length_toList, toList_slotText]
      simp
    have hget := h'.getElem?_eq hone
    rwa [toList_slotText] at hget
  by_cases hnext : j = i + 1
  · subst hnext
    rw [Nat.add_assoc, h.getElem?_eq (by omega)] at hsecond
    exact h.isKey.ne_brace (Nat.le_refl 2) hsecond
  · obtain ⟨m, rfl⟩ := Nat.exists_eq_add_of_lt hlt
    rw [Nat.add_assoc, h.getElem?_eq (by omega)] at hfirst
    exact h.isKey.ne_brace (by omega) hfirst

theorem Occurs.key_unique {text : List Char} {i : Nat} {key key' : String} (h : Occurs text i key)
    (h' : Occurs text i key') : key = key' := by
  have hzero : ∀ {key}, Occurs text i key → Occurs (text.drop i) 0 key :=
    fun h => ⟨h.isKey, by rw [List.drop_zero]; exact h.stands⟩
  obtain ⟨rest, hslot⟩ := occurs_zero_iff.1 (hzero h)
  obtain ⟨rest', hslot'⟩ := occurs_zero_iff.1 (hzero h')
  rw [hslot] at hslot'
  exact String.toList_inj.1 (Prod.mk.inj (Option.some.inj hslot')).1

/-! ## What is written for a position -/

variable {pairs : List (String × String)}

/-- What is written for the character at a position if all slots of bound keys are replaced at once. -/
inductive Writes (pairs : List (String × String)) (text : List Char) : Nat → List Char → Prop where
  | value {i : Nat} {key value : String} (hslot : Occurs text i key) (hbound : BoundLast pairs key value) :
      Writes pairs text i value.toList
  | nothing {i j : Nat} {key value : String} (hslot : Occurs text j key) (hbound : BoundLast pairs key value)
      (hbehind : j < i) (hinside : i < j + (slotText key).length) : Writes pairs text i []
  | char {i : Nat} {c : Char} (hchar : text[i]? = some c)
      (hfree : ∀ j key value, Occurs text j key → BoundLast pairs key value → j ≤ i →
        j + (slotText key).length ≤ i) : Writes pairs text i [c]

/-- For every character of a text there is what is written for it. -/
structure Substitution (pairs : List (String × String)) (text : List Char) (written : List (List Char)) : Prop where
  length_eq : written.length = text.length
  writes : ∀ i cs, written[i]? = some cs → Writes pairs text i cs

theorem Writes.unique {text cs cs' : List Char} {i : Nat} (h : Writes pairs text i cs)
    (h' : Writes pairs text i cs') : cs = cs' := by
  have hlength := fun key => length_slotText_pos key
  cases h with
  | @value key value hslot hbound =>
    cases h' with
    | @value key' value' hslot' hbound' =>
      obtain rfl := hslot.key_unique hslot'
      rw [hbound.unique hbound']
    | nothing hslot' _ hbehind hinside =>
      have hle := hslot'.add_le hslot hbehind
      omega
    | char _ hfree =>
      have hle := hfree i key value hslot hbound (Nat.le_refl i)
      have hpos := hlength key
      omega
  | @nothing j key value hslot hbound hbehind hinside =>
    cases h' with
    | value hslot' _ =>
      have hle := hslot.add_le hslot' hbehind
      omega
    | nothing => rfl
    | char _ hfree =>
      have hle := hfree j key value hslot hbound (Nat.le_of_lt hbehind)
      omega
  | char hchar hfree =>
    cases h' with
    | @value key value hslot hbound =>
      have hle := hfree i key value hslot hbound (Nat.le_refl i)
      have hpos := hlength key
      omega
    | @nothing j key value hslot hbound hbehind hinside =>
      have hle := hfree j key value hslot hbound (Nat.le_of_lt hbehind)
      omega
    | char hchar' _ =>
      rw [hchar] at hchar'
      rw [Option.some.inj hchar']

theorem Substitution.unique {text : List Char} {written written' : List (List Char)}
    (h : Substitution pairs text written) (h' : Substitution pairs text written') : written = written' := by
  have hlength : written.length = written'.length := h.length_eq.trans h'.length_eq.symm
  refine List.ext_getElem hlength fun i hi hi' => ?_
  exact (h.writes i _ (List.getElem?_eq_getElem hi)).unique (h'.writes i _ (List.getElem?_eq_getElem hi'))

/-! ## Substituting from left to right -/

/-- No slot that begins in the first part of a text goes on into the second. -/
def Separates (front cs : List Char) : Prop :=
  ∀ j key, Occurs (front ++ cs) j key → j < front.length → j + (slotText key).length ≤ front.length

theorem Writes.append {front text cs : List Char} {i : Nat} (hfront : Separates front text)
    (h : Writes pairs text i cs) : Writes pairs (front ++ text) (front.length + i) cs := by
  cases h with
  | value hslot hbound => exact .value (occurs_append_iff.2 hslot) hbound
  | nothing hslot hbound hbehind hinside =>
    exact .nothing (occurs_append_iff.2 hslot) hbound (by omega) (by omega)
  | char hchar hfree =>
    refine .char ?_ fun j key value hslot hbound hle => ?_
    · rwa [List.getElem?_append_right (Nat.le_add_right _ _), Nat.add_sub_cancel_left]
    · by_cases hj : j < front.length
      · have hends := hfront j key hslot hj
        omega
      · obtain ⟨j', rfl⟩ := Nat.exists_eq_add_of_le (Nat.not_lt.1 hj)
        have hends := hfree j' key value (occurs_append_iff.1 hslot) hbound (by omega)
        omega

/-- The second part of a text is substituted as if it stood alone. -/
theorem Substitution.append {front cs : List Char} {written written' : List (List Char)} (hfront : Separates front cs)
    (hlength : written.length = front.length)
    (hwrites : ∀ i out, written[i]? = some out → Writes pairs (front ++ cs) i out)
    (h : Substitution pairs cs written') : Substitution pairs (front ++ cs) (written ++ written') where
  length_eq := by rw [List.length_append, List.length_append, hlength, h.length_eq]
  writes i out hout := by
    by_cases hi : i < written.length
    · rw [List.getElem?_append_left hi] at hout
      exact hwrites i out hout
    · obtain ⟨k, rfl⟩ := Nat.exists_eq_add_of_le (Nat.not_lt.1 hi)
      rw [List.getElem?_append_right (Nat.le_add_right _ _), Nat.add_sub_cancel_left] at hout
      rw [hlength]
      exact (h.writes k out hout).append hfront

/-- A slot at the front of a text is the only one that begins in it. -/
theorem eq_of_occurs_slot {key key' : String} {rest : List Char} {j : Nat} (hkey : IsKey key)
    (h : Occurs ((slotText key).toList ++ rest) j key') (hj : j < (slotText key).toList.length) :
    j = 0 ∧ key' = key := by
  have hslot : Occurs ((slotText key).toList ++ rest) 0 key := ⟨hkey, List.prefix_append _ _⟩
  rw [String.length_toList] at hj
  rcases Nat.eq_zero_or_pos j with rfl | hpos
  · exact ⟨rfl, h.key_unique hslot⟩
  · have hle := hslot.add_le h hpos
    omega

theorem separates_slot {key : String} (hkey : IsKey key) (rest : List Char) :
    Separates (slotText key).toList rest := by
  intro j key' hslot hj
  obtain ⟨rfl, rfl⟩ := eq_of_occurs_slot hkey hslot hj
  rw [String.length_toList]
  omega

/-- A slot is substituted: by the value of its key, or by itself if the key is not bound. -/
theorem Substitution.slot {key : String} {rest : List Char} {written : List (List Char)} (hkey : IsKey key)
    (h : Substitution pairs rest written) :
    ∃ front, Substitution pairs ((slotText key).toList ++ rest) (front ++ written) ∧
      front.flatten = (((Bindings.ofList pairs).get? key).getD (slotText key)).toList := by
  have hfront := separates_slot hkey rest
  have hslot : Occurs ((slotText key).toList ++ rest) 0 key := ⟨hkey, List.prefix_append _ _⟩
  cases hget : (Bindings.ofList pairs).get? key with
  | some value =>
    have hbound := get?_ofList_eq_some_iff.1 hget
    have hpos := length_slotText_pos key
    refine ⟨value.toList :: List.replicate ((slotText key).length - 1) [], h.append hfront ?_ fun i out hout => ?_, ?_⟩
    · rw [List.length_cons, List.length_replicate, String.length_toList]
      omega
    · cases i with
      | zero =>
        obtain rfl := Option.some.inj hout
        exact .value hslot hbound
      | succ i =>
        rw [List.getElem?_cons_succ] at hout
        obtain ⟨hi, rfl⟩ := List.getElem?_eq_some_iff.1 hout
        rw [List.length_replicate] at hi
        rw [List.getElem_replicate]
        exact .nothing hslot hbound (Nat.succ_pos i) (by omega)
    · simp
  | none =>
    have hunbound : ∀ value, ¬ BoundLast pairs key value := by
      intro value hbound
      rw [get?_ofList_eq_some_iff.2 hbound] at hget
      simp at hget
    refine ⟨(slotText key).toList.map ([·]), h.append hfront (List.length_map _) fun i out hout => ?_, ?_⟩
    · rw [List.getElem?_map, Option.map_eq_some_iff] at hout
      obtain ⟨c, hc, rfl⟩ := hout
      obtain ⟨hi, -⟩ := List.getElem?_eq_some_iff.1 hc
      refine .char (by rwa [List.getElem?_append_left hi]) fun j key' value hslot' hbound hle => ?_
      obtain ⟨-, rfl⟩ := eq_of_occurs_slot hkey hslot' (Nat.lt_of_le_of_lt hle hi)
      exact absurd hbound (hunbound value)
    · simp [← List.flatMap_def]

/-- A character that begins no slot stays as it is. -/
theorem Substitution.char {c : Char} {rest : List Char} {written : List (List Char)}
    (hnone : slot? (c :: rest) = none) (h : Substitution pairs rest written) :
    Substitution pairs (c :: rest) ([c] :: written) := by
  have hfree := not_occurs_zero hnone
  have hfront : Separates [c] rest := by
    intro j key hslot hj
    obtain rfl : j = 0 := by simpa using hj
    exact absurd hslot (hfree key)
  have hlength : [[c]].length = [c].length := rfl
  refine h.append hfront hlength fun i out hout => ?_
  obtain ⟨rfl, rfl⟩ : i = 0 ∧ [c] = out := by
    cases i with
    | zero => simpa using hout
    | succ i => simp at hout
  refine .char rfl fun j key value hslot _ hle => ?_
  obtain rfl : j = 0 := Nat.le_zero.1 hle
  exact absurd hslot (hfree key)

/-- The pieces of a text, rendered one after the other, are a substitution. -/
theorem exists_substitution (pairs : List (String × String)) (text : List Char) :
    ∃ written, Substitution pairs text written ∧
      written.flatten = (split text).flatMap (Piece.render (.ofList pairs)) := by
  fun_induction split text with
  | case1 text key rest hslot ih =>
    obtain ⟨written, hwritten, hflatten⟩ := ih
    obtain ⟨hkey, rfl⟩ := slot?_eq_some_iff.1 hslot
    obtain ⟨front, hfront, hvalue⟩ := Substitution.slot hkey hwritten
    refine ⟨front ++ written, hfront, ?_⟩
    rw [List.flatten_append, hvalue, hflatten]
    rfl
  | case2 => exact ⟨[], ⟨rfl, by simp⟩, rfl⟩
  | case3 c rest hslot ih =>
    obtain ⟨written, hwritten, hflatten⟩ := ih
    exact ⟨[c] :: written, hwritten.char hslot, by rw [List.flatten_cons, hflatten]; rfl⟩

theorem eq_render_iff {t : Template} {out : String} :
    out = t.render (.ofList pairs) ↔
      ∃ written, Substitution pairs t.text.toList written ∧ out.toList = written.flatten := by
  obtain ⟨written, hwritten, hflatten⟩ := exists_substitution pairs t.text.toList
  have hrender : (t.render (.ofList pairs)).toList = written.flatten := by
    rw [render, String.toList_ofList, hflatten]
    rfl
  constructor
  · rintro rfl
    exact ⟨written, hwritten, hrender⟩
  · rintro ⟨written', hwritten', hout⟩
    rw [hwritten'.unique hwritten, ← hrender] at hout
    exact String.toList_inj.1 hout

/-! ## What a substitution depends on -/

/-- Two lists of pairs bind the same values to the keys whose slots stand in a text. -/
def AgreeOn (text : List Char) (pairs pairs' : List (String × String)) : Prop :=
  ∀ i key, Occurs text i key → ∀ value, BoundLast pairs key value ↔ BoundLast pairs' key value

theorem Writes.congr {pairs' : List (String × String)} {text cs : List Char} {i : Nat}
    (hagree : AgreeOn text pairs pairs') (h : Writes pairs text i cs) : Writes pairs' text i cs := by
  cases h with
  | value hslot hbound => exact .value hslot ((hagree _ _ hslot _).1 hbound)
  | nothing hslot hbound hbehind hinside => exact .nothing hslot ((hagree _ _ hslot _).1 hbound) hbehind hinside
  | char hchar hfree =>
    exact .char hchar fun j key value hslot hbound => hfree j key value hslot ((hagree j key hslot value).2 hbound)

theorem render_congr {t : Template} {pairs' : List (String × String)} (h : AgreeOn t.text.toList pairs pairs') :
    t.render (.ofList pairs) = t.render (.ofList pairs') := by
  obtain ⟨written, hwritten, hout⟩ := eq_render_iff.1 (rfl : t.render (.ofList pairs) = _)
  exact eq_render_iff.2 ⟨written, ⟨hwritten.length_eq, fun i cs hcs => (hwritten.writes i cs hcs).congr h⟩, hout⟩

/-- Rendering replaces all slots of bound keys at once. Slots never overlap, and for every position of the text it is
determined what is written for it: the value that was bound last to a key where the slot of that key begins, nothing
for the other characters of the slot, and every other character itself. Hence rendering depends on the values of those
keys only whose slots stand in the text, and leaves a text as it is in which no slot of a bound key stands. -/
theorem render_exact (t : Template) :
    (∀ i j key key', Occurs t.text.toList i key → Occurs t.text.toList j key' →
      (i = j → key = key') ∧ (i < j → i + (slotText key).length ≤ j)) ∧
    (∀ b : Bindings, ∃ pairs, b = .ofList pairs) ∧
    ∀ pairs : List (String × String),
      (∀ out : String, out = t.render (.ofList pairs) ↔
        ∃ written, Substitution pairs t.text.toList written ∧ out.toList = written.flatten) ∧
      (∀ pairs', AgreeOn t.text.toList pairs pairs' → t.render (.ofList pairs) = t.render (.ofList pairs')) ∧
      ((∀ i key value, Occurs t.text.toList i key → ¬ BoundLast pairs key value) →
        t.render (.ofList pairs) = t.text) := by
  refine ⟨fun i j key key' hslot hslot' => ⟨?_, hslot.add_le hslot'⟩, Bindings.exists_eq_ofList,
    fun pairs => ⟨fun out => eq_render_iff, fun pairs' => render_congr, fun hfree => ?_⟩⟩
  · rintro rfl
    exact hslot.key_unique hslot'
  · -- the same is bound as if nothing were
    have hagree : AgreeOn t.text.toList pairs [] := by
      intro i key hslot value
      refine ⟨fun hbound => absurd hbound (hfree i key value hslot), ?_⟩
      rintro ⟨before, after, hnil, -⟩
      simp at hnil
    rw [render_congr hagree]
    exact render_empty t

end Template

end GetSet
