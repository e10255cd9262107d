import GetSet.Toml.Reader

/-!
# Strings of TOML

A string stands between double quotes, where backslashes escape characters, or between single quotes, where they do
not. Between triple quotes of either kind a string may have line breaks, which count as line feeds; one right after
the opening quotes is left out, and one or two quotes may stand inside or directly before the closing ones.
-/

namespace GetSet.Toml

/-! ## Escapes -/

/-- The value of a digit in base 16. -/
def hexValue? (c : Char) : Option Nat :=
  if c.isDigit then some (c.toNat - 48)
  else if 'a' ≤ c && c ≤ 'f' then some (c.toNat - 87)
  else if 'A' ≤ c && c ≤ 'F' then some (c.toNat - 55)
  else none

/-- The character that a number of digits in base 16 stand for. -/
def codePoint? (digits : List Char) : Option Char := do
  let n ← digits.foldlM (fun n c => (hexValue? c).map (16 * n + ·)) 0
  if n.isValidChar then some (.ofNat n) else none

/-- The escaped character after a backslash. -/
def escaped? : Reader Char
  | 'b' :: cs => some ('\x08', cs)
  | 'f' :: cs => some ('\x0c', cs)
  | 'n' :: cs => some ('\n', cs)
  | 'r' :: cs => some ('\r', cs)
  | 't' :: cs => some ('\t', cs)
  | '"' :: cs => some ('"', cs)
  | '\\' :: cs => some ('\\', cs)
  | 'u' :: cs => if 4 ≤ cs.length then (codePoint? (cs.take 4)).map (·, cs.drop 4) else none
  | 'U' :: cs => if 8 ≤ cs.length then (codePoint? (cs.take 8)).map (·, cs.drop 8) else none
  | _ => none

theorem length_of_escaped? {cs rest : List Char} {c : Char} (h : escaped? cs = some (c, rest)) :
    rest.length < cs.length := by
  unfold escaped? at h
  split at h
  case h_8 =>
    split at h
    · obtain ⟨_, _, heq⟩ := Option.map_eq_some_iff.1 h
      obtain ⟨-, rfl⟩ := Prod.mk.inj heq
      rw [List.length_drop, List.length_cons]
      omega
    · simp at h
  case h_9 =>
    split at h
    · obtain ⟨_, _, heq⟩ := Option.map_eq_some_iff.1 h
      obtain ⟨-, rfl⟩ := Prod.mk.inj heq
      rw [List.length_drop, List.length_cons]
      omega
    · simp at h
  case h_10 => simp at h
  all_goals
    obtain ⟨-, rfl⟩ := Prod.mk.inj (Option.some.inj h)
    simp

/-! ## Strings on one line -/

/-- The rest of a string after an opening double quote. -/
def basicBody? (cs : List Char) : Option (List Char × List Char) :=
  match cs with
  | '"' :: rest => some ([], rest)
  | '\\' :: rest =>
    match _h : escaped? rest with
    | some (c, rest') => (basicBody? rest').map fun (body, rest) => (c :: body, rest)
    | none => none
  | c :: rest => if isPrintable c then (basicBody? rest).map fun (body, rest) => (c :: body, rest) else none
  | [] => none
termination_by cs.length
decreasing_by
  · have := length_of_escaped? _h
    simp
    omega
  · simp

/-- The rest of a string after an opening single quote. -/
def literalBody? : List Char → Option (List Char × List Char)
  | '\'' :: rest => some ([], rest)
  | c :: rest => if isPrintable c then (literalBody? rest).map fun (body, rest) => (c :: body, rest) else none
  | [] => none

/-! ## Strings on several lines -/

/-- What follows a line break right after the opening quotes. -/
def skipFirstNewline (cs : List Char) : List Char :=
  (newline? cs).getD cs

/-- The quotes that stand directly after three closing ones, at most two, belong to the string. -/
def closing (quote : Char) : List Char → List Char × List Char
  | c :: d :: rest =>
    if c == quote then if d == quote then ([quote, quote], rest) else ([quote], d :: rest) else ([], c :: d :: rest)
  | [c] => if c == quote then ([quote], []) else ([], [c])
  | [] => ([], [])

/-- What follows a line break and all blanks around it. -/
def continuation? (cs : List Char) : Option (List Char) :=
  (newline? (skipSpacing cs)).map skipBlankLines

/-- The rest of a string after three opening double quotes. A backslash before a line break leaves out all blanks up to
the next character. -/
def multilineBasicBody? (cs : List Char) : Option (List Char × List Char) :=
  match cs with
  | '"' :: '"' :: '"' :: rest => some (closing '"' rest)
  | '\r' :: '\n' :: rest => (multilineBasicBody? rest).map fun (body, rest) => ('\n' :: body, rest)
  | '\\' :: rest =>
    match continuation? rest with
    | some rest' => if _h : rest'.length ≤ rest.length then multilineBasicBody? rest' else none
    | none =>
      match _h : escaped? rest with
      | some (c, rest') => (multilineBasicBody? rest').map fun (body, rest) => (c :: body, rest)
      | none => none
  | c :: rest =>
    if c == '\n' || isPrintable c then (multilineBasicBody? rest).map fun (body, rest) => (c :: body, rest) else none
  | [] => none
termination_by cs.length
decreasing_by
  · simp only [List.length_cons]
    omega
  · simp only [List.length_cons]
    omega
  · have := length_of_escaped? _h
    simp only [List.length_cons]
    omega
  · simp only [List.length_cons]
    omega

/-- The rest of a string after three opening single quotes. -/
def multilineLiteralBody? : List Char → Option (List Char × List Char)
  | '\'' :: '\'' :: '\'' :: rest => some (closing '\'' rest)
  | '\r' :: '\n' :: rest => (multilineLiteralBody? rest).map fun (body, rest) => ('\n' :: body, rest)
  | c :: rest =>
    if c == '\n' || isPrintable c then (multilineLiteralBody? rest).map fun (body, rest) => (c :: body, rest)
    else none
  | [] => none

/-! ## All strings -/

/-- A string on one line. -/
def lineString? : Reader String
  | '"' :: cs => (basicBody? cs).map fun (body, rest) => (.ofList body, rest)
  | '\'' :: cs => (literalBody? cs).map fun (body, rest) => (.ofList body, rest)
  | _ => none

/-- Any string. -/
def string? : Reader String
  | '"' :: '"' :: '"' :: cs =>
    (multilineBasicBody? (skipFirstNewline cs)).map fun (body, rest) => (.ofList body, rest)
  | '\'' :: '\'' :: '\'' :: cs =>
    (multilineLiteralBody? (skipFirstNewline cs)).map fun (body, rest) => (.ofList body, rest)
  | cs => lineString? cs

end GetSet.Toml
