import GetSet.Toml.Reader

/-!
# Numbers of TOML

Whole numbers have a sign and digits in base 10, or digits in base 2, 8 or 16 after a prefix; between two digits one
underscore may stand. They must fit into 64 bits. Other numbers have a fraction, an exponent or both, or are infinite
or no number at all; what is too great for a double is refused unless it is negative.
-/

namespace GetSet.Toml

/-! ## Digits -/

/-- The digits at the front of a text, in which single underscores may stand between two of them. -/
def digitRun (isDigit : Char → Bool) : List Char → List Char × List Char
  | '_' :: d :: cs =>
    if isDigit d then
      let (digits, rest) := digitRun isDigit cs
      (d :: digits, rest)
    else
      ([], '_' :: d :: cs)
  | c :: cs =>
    if isDigit c then
      let (digits, rest) := digitRun isDigit cs
      (c :: digits, rest)
    else
      ([], c :: cs)
  | [] => ([], [])

/-- A run of digits that begins with a digit. -/
def digits? (isDigit : Char → Bool) : Reader (List Char)
  | c :: cs => if isDigit c then some (digitRun isDigit (c :: cs)) else none
  | [] => none

/-- The number that digits stand for in a base. -/
def valueOf (base : Nat) (digits : List Char) : Nat :=
  digits.foldl
    (fun n c => base * n + (if c.isDigit then c.toNat - 48 else if c.isUpper then c.toNat - 55 else c.toNat - 87)) 0

/-- The digits of base 16. -/
def isHexDigit (c : Char) : Bool :=
  c.isDigit || ('a' ≤ c && c ≤ 'f') || ('A' ≤ c && c ≤ 'F')

/-- A sign, if there is one; it tells whether it is a minus. -/
def sign : List Char → Bool × List Char
  | '-' :: cs => (true, cs)
  | '+' :: cs => (false, cs)
  | cs => (false, cs)

/-- The digits of a whole number in base 10: more than one only if the first is not zero. -/
def wholeDigits? : Reader (List Char)
  | '0' :: cs => some (['0'], cs)
  | cs => digits? Char.isDigit cs

/-! ## Whole numbers -/

/-- One more than the greatest whole number. -/
def wholeLimit : Nat := Nat.pow 2 63

/-- Digits in some base after a prefix. -/
def prefixed? (base : Nat) (isDigit : Char → Bool) (cs : List Char) : Option (List Char) := do
  let (digits, rest) ← digits? isDigit cs
  if valueOf base digits < wholeLimit then some rest else none

/-- What follows a whole number. -/
def whole? (cs : List Char) : Option (List Char) :=
  match cs with
  | '0' :: 'x' :: rest => prefixed? 16 isHexDigit rest
  | '0' :: 'o' :: rest => prefixed? 8 (fun c => '0' ≤ c && c ≤ '7') rest
  | '0' :: 'b' :: rest => prefixed? 2 (fun c => c == '0' || c == '1') rest
  | _ => do
    let (negative, unsigned) := sign cs
    let (digits, rest) ← wholeDigits? unsigned
    if valueOf 10 digits < if negative then wholeLimit + 1 else wholeLimit then some rest else none

/-! ## Other numbers -/

/-- The least number that a double cannot hold: half a step above the greatest one that it can. -/
def doubleLimit : Nat := Nat.pow 2 1024 - Nat.pow 2 970

/-- Whether `mantissa * 10 ^ exponent` fits into a double. Sizes that are far off are told by their number of digits. -/
def fitsDouble (mantissa : List Char) (exponent : Int) : Bool :=
  let m := valueOf 10 mantissa
  -- the number lies between `10 ^ (size - 1)` and `10 ^ size`
  let size := (Nat.toDigits 10 m).length + exponent
  if m == 0 || size < 300 then true
  else if 320 < size then false
  else if 0 ≤ exponent then m * Nat.pow 10 exponent.toNat < doubleLimit
  else m < doubleLimit * Nat.pow 10 (-exponent).toNat

/-- A fraction: a point and digits. -/
def fraction? : Reader (List Char)
  | '.' :: cs => digits? Char.isDigit cs
  | _ => none

/-- An exponent: the letter, a sign and digits. -/
def exponent? : Reader Int
  | c :: cs =>
    if c == 'e' || c == 'E' then
      let (negative, unsigned) := sign cs
      (digits? Char.isDigit unsigned).map fun (digits, rest) =>
        (if negative then -(valueOf 10 digits : Int) else valueOf 10 digits, rest)
    else
      none
  | [] => none

/-- What follows a number with a fraction or an exponent. -/
def decimal? (cs : List Char) : Option (List Char) := do
  let (negative, unsigned) := sign cs
  let (whole, afterWhole) ← wholeDigits? unsigned
  let (fraction, afterFraction) := (fraction? afterWhole).getD ([], afterWhole)
  let (exponent, rest) ←
    match exponent? afterFraction with
    | some (exponent, rest) => some (exponent, rest)
    | none => if fraction.isEmpty then none else some (0, afterFraction)
  if negative || fitsDouble (whole ++ fraction) (exponent - fraction.length) then some rest else none

/-- What follows an infinite number or what is no number. -/
def special? (cs : List Char) : Option (List Char) :=
  let unsigned := (sign cs).2
  (word? "inf" unsigned).or (word? "nan" unsigned)

/-- What follows any number. -/
def number? (cs : List Char) : Option (List Char) :=
  ((decimal? cs).or (special? cs)).or (whole? cs)

end GetSet.Toml
