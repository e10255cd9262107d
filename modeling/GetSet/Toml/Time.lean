import GetSet.Toml.Reader

/-!
# Dates and times of TOML

A date is a day of some month of some year; the number of days of February follows the Gregorian calendar. A time of
day has seconds, up to 60 of them, and may have a fraction. A time may follow a date, and an offset from universal time
may follow both.
-/

namespace GetSet.Toml

/-- A number of exactly `count` digits from a range. -/
def fixed? (count least greatest : Nat) (cs : List Char) : Option (Nat × List Char) :=
  let digits := cs.take count
  if digits.length = count && digits.all Char.isDigit then
    let n := digits.foldl (fun n c => 10 * n + (c.toNat - 48)) 0
    if least ≤ n && n ≤ greatest then some (n, cs.drop count) else none
  else
    none

/-- What follows a character at the front of a text. -/
def char? (accepted : Char → Bool) : List Char → Option (List Char)
  | c :: cs => if accepted c then some cs else none
  | [] => none

/-- The number of days of a month. -/
def daysIn (year month : Nat) : Nat :=
  if month == 2 then if year % 4 == 0 && (year % 100 != 0 || year % 400 == 0) then 29 else 28
  else if month == 4 || month == 6 || month == 9 || month == 11 then 30
  else 31

/-- What follows a date. -/
def date? (cs : List Char) : Option (List Char) := do
  let (year, cs) ← fixed? 4 0 9999 cs
  let cs ← char? (· == '-') cs
  let (month, cs) ← fixed? 2 1 12 cs
  let cs ← char? (· == '-') cs
  let (_, cs) ← fixed? 2 1 (daysIn year month) cs
  return cs

/-- What follows a fraction of a second, if there is one. -/
def skipFraction : List Char → List Char
  | '.' :: c :: cs => if c.isDigit then cs.dropWhile Char.isDigit else '.' :: c :: cs
  | cs => cs

/-- What follows a time of day. -/
def clock? (cs : List Char) : Option (List Char) := do
  let (_, cs) ← fixed? 2 0 23 cs
  let cs ← char? (· == ':') cs
  let (_, cs) ← fixed? 2 0 59 cs
  let cs ← char? (· == ':') cs
  let (_, cs) ← fixed? 2 0 60 cs
  return skipFraction cs

/-- What follows an offset from universal time. -/
def offset? : List Char → Option (List Char)
  | c :: cs =>
    if c == 'Z' || c == 'z' then some cs
    else if c == '+' || c == '-' then do
      let (_, cs) ← fixed? 2 0 23 cs
      let cs ← char? (· == ':') cs
      let (_, cs) ← fixed? 2 0 59 cs
      return cs
    else none
  | [] => none

/-- What follows a time of day after a date. -/
def clockAfterDate? (cs : List Char) : Option (List Char) := do
  let cs ← clock? (← char? (fun c => c == 'T' || c == 't' || c == ' ') cs)
  return (offset? cs).getD cs

/-- What follows a date, a time of day or both. -/
def time? (cs : List Char) : Option (List Char) :=
  match date? cs with
  | some cs => some ((clockAfterDate? cs).getD cs)
  | none => clock? cs

end GetSet.Toml
