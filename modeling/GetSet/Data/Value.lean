/-!
# Structured data

Options, properties and statistics are exchanged as structured data: null, truth values, decimal numbers, texts, arrays
and objects. `Value.pretty` writes a value as JSON on indented lines.
-/

namespace GetSet

/-- A number in decimal: `mantissa` with the point put before the last `places` digits. -/
structure Number where
  mantissa : Int
  places : Nat := 0
deriving DecidableEq, Repr, Inhabited

namespace Number

/-- The greatest integer that is not above the number. -/
def floor (n : Number) : Int :=
  n.mantissa / Int.pow 10 n.places

/-- A natural number is a number without a point. -/
instance : Coe Nat Number where
  coe n := { mantissa := n }

/-- Where an integer is needed what stands behind the point is dropped. -/
instance : Coe Number Int where
  coe := floor

/-- The number as it is written: without an exponent if it is an integer. -/
def text (n : Number) : String :=
  if (n : Int) * Int.pow 10 n.places = n.mantissa then toString (n : Int)
  else toString n.mantissa ++ "e-" ++ toString n.places

example : text { mantissa := -70, places := 1 } = "-7" := by decide
example : text { mantissa := 75, places := 1 } = "75e-1" := by decide

end Number

/-- A piece of structured data. The fields of an object are in order. -/
inductive Value where
  | null
  | bool (b : Bool)
  | number (n : Number)
  | string (s : String)
  | array (items : List Value)
  | object (fields : List (String × Value))
deriving Repr, Inhabited

namespace Value

/-! ## Reading -/

/-- The truth value. -/
def bool? : Value → Option Bool
  | .bool b => some b
  | _ => none

/-- The text. -/
def string? : Value → Option String
  | .string s => some s
  | _ => none

/-! ## Writing -/

/-- A digit of a number in base 16. -/
def hexDigit (n : Nat) : Char :=
  if n < 10 then Char.ofNat (48 + n) else Char.ofNat (87 + n)

/-- A character as it is written between quotes: quotes, backslashes and control characters are escaped. -/
def escape (c : Char) : List Char :=
  match c with
  | '"' => ['\\', '"']
  | '\\' => ['\\', '\\']
  | '\n' => ['\\', 'n']
  | '\r' => ['\\', 'r']
  | '\t' => ['\\', 't']
  | '\x08' => ['\\', 'b']
  | '\x0c' => ['\\', 'f']
  | c => if c.toNat < 32 then ['\\', 'u', '0', '0', hexDigit (c.toNat / 16), hexDigit (c.toNat % 16)] else [c]

/-- A text between quotes. -/
def quote (s : String) : String :=
  .ofList ('"' :: (s.toList.flatMap escape ++ ['"']))

/-- A line break and the indentation of a level. -/
def newline (level : Nat) : String :=
  .ofList ('\n' :: List.replicate (2 * level) ' ')

mutual

/-- A value whose first line is already indented to a level. -/
def prettyAt (level : Nat) : Value → String
  | .null => "null"
  | .bool b => if b then "true" else "false"
  | .number n => n.text
  | .string s => quote s
  | .array [] => "[]"
  | .array (v :: vs) =>
    "[" ++ newline (level + 1) ++ prettyAt (level + 1) v ++ prettyItems level vs ++ newline level ++ "]"
  | .object [] => "\x7b\x7d"
  | .object (f :: fs) =>
    "\x7b" ++ newline (level + 1) ++ prettyField level f ++ prettyFields level fs ++ newline level ++ "\x7d"

/-- The further items of an array. -/
def prettyItems (level : Nat) : List Value → String
  | [] => ""
  | v :: vs => "," ++ newline (level + 1) ++ prettyAt (level + 1) v ++ prettyItems level vs

/-- One field of an object. -/
def prettyField (level : Nat) : String × Value → String
  | (key, v) => quote key ++ ": " ++ prettyAt (level + 1) v

/-- The further fields of an object. -/
def prettyFields (level : Nat) : List (String × Value) → String
  | [] => ""
  | f :: fs => "," ++ newline (level + 1) ++ prettyField level f ++ prettyFields level fs

end

/-- The value as JSON, with two spaces for each level. -/
def pretty (v : Value) : String :=
  prettyAt 0 v

end Value

end GetSet
