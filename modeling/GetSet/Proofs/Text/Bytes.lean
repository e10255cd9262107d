import Mathlib.Data.String.Basic
import GetSet.Path

/-!
# The bytes of a text

A byte below 128 is in the encoding of a text exactly if it is a character of the text (`mem_bytes_iff`). So a text has
a slash or a dot where its bytes have one. What bytes are shown as has a line break only if the bytes have one, whether
they are a text or not (`newline_not_mem_ofBytesLossy`).
-/

namespace GetSet.Text

theorem bytes_eq_flatMap (s : String) : bytes s = s.toList.flatMap String.utf8EncodeChar := by
  show s.toByteArray.data.toList = _
  rw [← String.utf8Encode_toList, List.utf8Encode, List.data_toByteArray]

/-- A byte below 128 is in the encoding of one character only. -/
theorem mem_utf8EncodeChar_iff {c : Char} {b : UInt8} (hb : b < 128) :
    b ∈ String.utf8EncodeChar c ↔ b.toNat = c.toNat := by
  have hb : b.toNat < 128 := hb
  have hc : c.toNat = c.val.toNat := rfl
  rw [hc, String.utf8EncodeChar]
  generalize c.val.toNat = v
  -- the cases are the lengths of the encoding; if there are more bytes than one, all of them are greater
  repeat' split
  all_goals
    simp only [List.mem_cons, List.not_mem_nil, or_false, ← UInt8.toNat_inj, UInt8.toNat_ofNat']
    omega

theorem mem_bytes_iff {s : String} {c : Char} {b : UInt8} (hb : b < 128) (hc : c.toNat = b.toNat) :
    b ∈ bytes s ↔ c ∈ s.toList := by
  rw [bytes_eq_flatMap, List.mem_flatMap]
  constructor
  · rintro ⟨d, hd, hmem⟩
    obtain rfl : d = c := Char.toNat_inj.1 (((mem_utf8EncodeChar_iff hb).1 hmem).symm.trans hc.symm)
    exact hd
  · exact fun hmem => ⟨c, hmem, (mem_utf8EncodeChar_iff hb).2 hc.symm⟩

@[simp]
theorem slash_mem_bytes_iff {s : String} : Path.slash ∈ bytes s ↔ '/' ∈ s.toList :=
  mem_bytes_iff (by decide) (by decide)

@[simp]
theorem dot_mem_bytes_iff {s : String} : Path.dot ∈ bytes s ↔ '.' ∈ s.toList :=
  mem_bytes_iff (by decide) (by decide)

/-- A text whose first character is no slash is no absolute path. -/
theorem isAbsolute_eq_false {s : String} {c : Char} {cs : List Char} (hs : s.toList = c :: cs) (hc : c ≠ '/') :
    Path.isAbsolute ⟨s⟩ = false := by
  rw [Path.isAbsolute, beq_eq_false_iff_ne]
  intro hhead
  have hfirst : (String.utf8EncodeChar c).head? = some Path.slash := by
    rwa [bytes_eq_flatMap, hs, List.flatMap_cons, List.head?_append_of_ne_nil _ String.utf8EncodeChar_ne_nil] at hhead
  exact hc (Char.toNat_inj.1 ((mem_utf8EncodeChar_iff (by decide)).1 (List.mem_of_mem_head? hfirst)).symm)

/-! ## Line breaks -/

/-- Ends a line. -/
def newline : UInt8 := 0x0a

theorem newline_ne_ofNat {n : Nat} (hn : 128 ≤ n) : '\n' ≠ .ofNat n := by
  intro h
  by_cases hvalid : n.isValidChar
  · have hnat : 10 = n := congrArg Char.toNat (h.trans (dif_pos hvalid))
    omega
  · exact absurd (h.trans (dif_neg hvalid)) (by decide)

theorem between_iff {least greatest b : UInt8} :
    between least greatest b = true ↔ least.toNat ≤ b.toNat ∧ b.toNat ≤ greatest.toNat := by
  simp [between, UInt8.le_iff_toNat_le]

/-- Two bytes encode no character that one byte encodes. -/
theorem le_of_two {a : UInt8} (b : UInt8) (ha : between 0xc2 0xdf a = true) : 128 ≤ bits a 5 * 64 + bits b 6 := by
  have ha : 194 ≤ a.toNat ∧ a.toNat ≤ 223 := between_iff.1 ha
  show 128 ≤ a.toNat % 32 * 64 + _
  omega

theorem le_of_three {a b : UInt8} (c : UInt8) (ha : between 0xe0 0xef a = true) (hb : isSecondOfThree a b = true) :
    128 ≤ (bits a 4 * 64 + bits b 6) * 64 + bits c 6 := by
  have ha : 224 ≤ a.toNat ∧ a.toNat ≤ 239 := between_iff.1 ha
  have hb : a.toNat = 224 → 160 ≤ b.toNat ∧ b.toNat ≤ 191 := by
    intro h
    obtain rfl : a = 0xe0 := UInt8.toNat_inj.1 h
    exact between_iff.1 hb
  show 128 ≤ (a.toNat % 16 * 64 + b.toNat % 64) * 64 + _
  omega

theorem le_of_four {a b : UInt8} (c d : UInt8) (ha : between 0xf0 0xf4 a = true) (hb : isSecondOfFour a b = true) :
    128 ≤ ((bits a 3 * 64 + bits b 6) * 64 + bits c 6) * 64 + bits d 6 := by
  have ha : 240 ≤ a.toNat ∧ a.toNat ≤ 244 := between_iff.1 ha
  have hb : a.toNat = 240 → 144 ≤ b.toNat ∧ b.toNat ≤ 191 := by
    intro h
    obtain rfl : a = 0xf0 := UInt8.toNat_inj.1 h
    exact between_iff.1 hb
  show 128 ≤ ((a.toNat % 8 * 64 + b.toNat % 64) * 64 + _) * 64 + _
  omega

theorem newline_mem_of_mem_decodeLossy {bs : Bytes} (h : '\n' ∈ decodeLossy bs) : newline ∈ bs := by
  have hreplacement : '\n' ≠ replacement := by decide
  -- the named cases are those of a whole character, of one to four bytes; else there is a replacement character
  fun_induction decodeLossy bs with
  | case2 a rest hone ih =>
    rcases List.mem_cons.1 h with heq | h
    · have hone : a.toNat < 128 := hone
      have ha : 10 = a.toNat := congrArg Char.toNat (heq.trans (dif_pos (Or.inl (by omega))))
      exact List.mem_cons.2 (Or.inl (UInt8.toNat_inj.1 ha))
    · exact List.mem_cons_of_mem a (ih h)
  | case3 a _ ha b _ _ ih => simp_all [newline_ne_ofNat (le_of_two b ha)]
  | case6 a _ _ ha b hb c _ _ ih => simp_all [newline_ne_ofNat (le_of_three c ha hb)]
  | case11 a _ _ _ ha b hb c _ d _ _ ih => simp_all [newline_ne_ofNat (le_of_four c d ha hb)]
  | _ => simp_all only [List.mem_cons, false_or, or_true, List.not_mem_nil]

theorem newline_not_mem_ofBytesLossy {bs : Bytes} (h : newline ∉ bs) : '\n' ∉ (ofBytesLossy bs).toList := by
  rw [ofBytesLossy]
  split
  · next htext =>
    rw [ofBytes?_eq_some_iff.1 htext] at h
    exact mt (mem_bytes_iff (by decide) (by decide)).2 h
  · rw [String.toList_ofList]
    exact mt newline_mem_of_mem_decodeLossy h

end GetSet.Text
