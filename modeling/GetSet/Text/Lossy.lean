import GetSet.Text.Bytes

/-!
# Reading damaged UTF-8

Bytes that are not the encoding of a text can still be shown: every longest piece that could begin the encoding of
a character but does not complete it, and every byte that cannot begin one, counts as one replacement character.
-/

namespace GetSet.Text

/-- Stands for bytes that encode no character. -/
def replacement : Char := '\ufffd'

/-- Whether a byte lies in a range. -/
def between (least greatest : UInt8) (b : UInt8) : Bool :=
  least ≤ b && b ≤ greatest

/-- The bytes that go on with a character. -/
def isTail (b : UInt8) : Bool :=
  between 0x80 0xbf b

/-- The range of the second byte of a character of three bytes: no shorter encoding would do, and the character is no
surrogate. -/
def isSecondOfThree (first : UInt8) : UInt8 → Bool :=
  if first == 0xe0 then between 0xa0 0xbf else if first == 0xed then between 0x80 0x9f else isTail

/-- The range of the second byte of a character of four bytes: no shorter encoding would do, and the character is not
beyond the last one. -/
def isSecondOfFour (first : UInt8) : UInt8 → Bool :=
  if first == 0xf0 then between 0x90 0xbf else if first == 0xf4 then between 0x80 0x8f else isTail

/-- The bits of a byte that belong to a character. -/
def bits (b : UInt8) (count : Nat) : Nat :=
  b.toNat % Nat.pow 2 count

/-- The characters that bytes encode, with replacement characters for those that encode none. -/
def decodeLossy : Bytes → List Char
  | [] => []
  | a :: rest =>
    if a < 0x80 then .ofNat a.toNat :: decodeLossy rest
    else if between 0xc2 0xdf a then
      match rest with
      | b :: rest' =>
        if isTail b then .ofNat (bits a 5 * 64 + bits b 6) :: decodeLossy rest'
        else replacement :: decodeLossy (b :: rest')
      | [] => [replacement]
    else if between 0xe0 0xef a then
      match rest with
      | b :: rest' =>
        if isSecondOfThree a b then
          match rest' with
          | c :: rest'' =>
            if isTail c then .ofNat ((bits a 4 * 64 + bits b 6) * 64 + bits c 6) :: decodeLossy rest''
            else replacement :: decodeLossy (c :: rest'')
          | [] => [replacement]
        else replacement :: decodeLossy (b :: rest')
      | [] => [replacement]
    else if between 0xf0 0xf4 a then
      match rest with
      | b :: rest' =>
        if isSecondOfFour a b then
          match rest' with
          | c :: rest'' =>
            if isTail c then
              match rest'' with
              | d :: rest''' =>
                if isTail d then
                  .ofNat (((bits a 3 * 64 + bits b 6) * 64 + bits c 6) * 64 + bits d 6) :: decodeLossy rest'''
                else replacement :: decodeLossy (d :: rest''')
              | [] => [replacement]
            else replacement :: decodeLossy (c :: rest'')
          | [] => [replacement]
        else replacement :: decodeLossy (b :: rest')
      | [] => [replacement]
    else replacement :: decodeLossy rest

example : decodeLossy [0x61, 0xc3, 0xa9, 0xff, 0xe2, 0x82, 0x62] = ['a', 'é', '\ufffd', '\ufffd', 'b'] := by decide
example : decodeLossy [0xf0, 0x9f, 0x99, 0x82, 0xed, 0xa0] = ['🙂', '\ufffd', '\ufffd'] := by decide

/-- The text that bytes encode, with replacement characters where they encode none. -/
def ofBytesLossy (bs : Bytes) : String :=
  match ofBytes? bs with
  | some text => text
  | none => .ofList (decodeLossy bs)

/-- The encoding of a text is read as that text. -/
@[simp]
theorem ofBytesLossy_bytes (s : String) : ofBytesLossy (bytes s) = s := by
  rw [ofBytesLossy, ofBytes?_bytes]

end GetSet.Text
