import GetSet.Text.Uppercase

/-!
# Names

A property is written in any style, `expiry_month`, `expiry-month`, `expiryMonth` or `EXPIRY`, and is called two
things in generated code: the accessor suffix is its Pascal form (`ExpiryMonth`), field and parameter are its camel
form (`expiryMonth`). `Name.normalize?` finds both in four passes over the characters, each a structural recursion:

* `joinWords` — a separator and the lowercase letter after it become that letter in uppercase
* `lowerRuns` — in a run of uppercase letters all but the first become lowercase
* `titleCase` — the first character and each one after a non-letter become uppercase
* a filter — only ASCII letters, digits and underscores stay

A name without a letter or digit is no name.
-/

namespace GetSet

open Text

/-- The two forms of a property's name. -/
structure Name where
  /-- Accessor suffix, `ExpiryMonth`. -/
  pascal : String
  /-- Field and parameter name, `expiryMonth`. -/
  camel : String
deriving DecidableEq, Repr

namespace Name

/-! ## The passes -/

/-- Drops a non-letter that stands before a lowercase letter and raises that letter. -/
def joinWords : List Char → List Char
  | c :: d :: cs =>
    if !c.isAlpha && d.isLower then d.toUpper :: joinWords cs else c :: joinWords (d :: cs)
  | cs => cs

/-- Lowers every uppercase letter that directly follows an uppercase letter; `inRun` tells whether one stands before
the first character. -/
def lowerRuns (inRun : Bool) : List Char → List Char
  | [] => []
  | c :: cs =>
    if c.isUpper then (if inRun then c.toLower else c) :: lowerRuns true cs else c :: lowerRuns false cs

/-- Raises every character that follows a non-letter; `atStart` tells whether the first character counts as one. -/
def titleCase (atStart : Bool) : List Char → List Char
  | [] => []
  | c :: cs => (if atStart then uppercase c else [c]) ++ titleCase (!c.isAlpha) cs

/-- The characters a name may have: ASCII letters, digits and the underscore. -/
def isNameChar (c : Char) : Bool :=
  c.isAlphanum || c == '_'

/-- The Pascal form of a raw name; without a letter or digit in it, it is no name yet. -/
def pascalChars (raw : List Char) : List Char :=
  (titleCase true (lowerRuns false (joinWords raw))).filter isNameChar

/-- Lowers the first character. -/
def lowerFirst : List Char → List Char
  | [] => []
  | c :: cs => c.toLower :: cs

/-! ## The normal form -/

/-- Both forms of a raw name, if a letter or a digit is left of it. -/
def normalize? (raw : String) : Option Name :=
  let pascal := pascalChars raw.toList
  if pascal.any Char.isAlphanum then
    some { pascal := .ofList pascal, camel := .ofList (lowerFirst pascal) }
  else
    none

example : normalize? "expiry_month" = some ⟨"ExpiryMonth", "expiryMonth"⟩ := by decide
example : normalize? "ABCName" = some ⟨"Abcname", "abcname"⟩ := by decide
example : normalize? "issue_number_2" = some ⟨"IssueNumber_2", "issueNumber_2"⟩ := by decide
example : normalize? "___" = none := by decide

/-- Every character of the Pascal form may stand in a name. -/
theorem isNameChar_of_mem_pascalChars {raw : List Char} {c : Char} (h : c ∈ pascalChars raw) :
    isNameChar c = true :=
  (List.mem_filter.1 h).2

/-- The camel form is the Pascal form with its first character lowered. -/
theorem camel_eq_lowerFirst {raw : String} {name : Name} (h : normalize? raw = some name) :
    name.camel.toList = lowerFirst name.pascal.toList := by
  simp only [normalize?] at h
  split at h
  · obtain rfl := Option.some.inj h
    simp
  · exact absurd h (by simp)

/-- A raw name is rejected exactly when no letter or digit is left of it. -/
theorem normalize?_eq_none_iff {raw : String} :
    normalize? raw = none ↔ ∀ c ∈ pascalChars raw.toList, c.isAlphanum = false := by
  simp [normalize?]

end Name

end GetSet
