/-!
# ASCII characters

The classes of ASCII characters as ranges of characters, and what a change of case makes of a letter.
-/

namespace GetSet.Text

variable {c : Char}

/-! ## Classes -/

theorem isUpper_iff : c.isUpper = true ↔ 'A' ≤ c ∧ c ≤ 'Z' :=
  decide_eq_true_iff

theorem isLower_iff : c.isLower = true ↔ 'a' ≤ c ∧ c ≤ 'z' := by
  have hbounds : c.isLower = (decide ('a' ≤ c) && decide (c ≤ 'z')) := rfl
  rw [hbounds, Bool.and_eq_true, decide_eq_true_iff, decide_eq_true_iff]

theorem isDigit_iff : c.isDigit = true ↔ '0' ≤ c ∧ c ≤ '9' := by
  have hbounds : c.isDigit = (decide ('0' ≤ c) && decide (c ≤ '9')) := rfl
  rw [hbounds, Bool.and_eq_true, decide_eq_true_iff, decide_eq_true_iff]

theorem isAlpha_iff : c.isAlpha = true ↔ ('A' ≤ c ∧ c ≤ 'Z') ∨ ('a' ≤ c ∧ c ≤ 'z') := by
  have hclasses : c.isAlpha = (c.isUpper || c.isLower) := rfl
  rw [hclasses, Bool.or_eq_true, isUpper_iff, isLower_iff]

theorem isAlphanum_iff :
    c.isAlphanum = true ↔ ('A' ≤ c ∧ c ≤ 'Z') ∨ ('a' ≤ c ∧ c ≤ 'z') ∨ ('0' ≤ c ∧ c ≤ '9') := by
  have hclasses : c.isAlphanum = (c.isAlpha || c.isDigit) := rfl
  rw [hclasses, Bool.or_eq_true, isAlpha_iff, isDigit_iff, or_assoc]

/-! ## Case -/

theorem le_iff_toNat_le {d : Char} : c ≤ d ↔ c.toNat ≤ d.toNat :=
  UInt32.le_iff_toNat_le

theorem toNat_toLower (c : Char) :
    c.toLower.toNat = if 'A' ≤ c ∧ c ≤ 'Z' then c.toNat + 32 else c.toNat := by
  delta Char.toLower
  split
  · next h =>
    have hupper : c.toNat ≤ 90 := le_iff_toNat_le.1 h.2
    have hshift : ('a'.val - 'A'.val).toNat = 32 := rfl
    rw [if_pos ⟨h.1, h.2⟩, Char.toNat_mk, UInt32.toNat_add, hshift, Char.toNat_val]
    omega
  · next h => exact (if_neg h).symm

theorem toNat_toUpper (c : Char) :
    c.toUpper.toNat = if 'a' ≤ c ∧ c ≤ 'z' then c.toNat - 32 else c.toNat := by
  delta Char.toUpper
  split
  · next h =>
    have hlower : 97 ≤ c.toNat := le_iff_toNat_le.1 h.1
    have hlower' : c.toNat ≤ 122 := le_iff_toNat_le.1 h.2
    have hshift : ('A'.val - 'a'.val).toNat = 2 ^ 32 - 32 := rfl
    rw [if_pos ⟨h.1, h.2⟩, Char.toNat_mk, UInt32.toNat_add, hshift, Char.toNat_val]
    omega
  · next h => exact (if_neg h).symm

end GetSet.Text
