import GetSet.Declaration
import GetSet.Path
import GetSet.Property

/-!
# Source units

A source unit is what a file tells the generator: the first class that it declares and the properties that its
tags name. A tag whose name cannot be normalized is dropped and counted.
-/

namespace GetSet

/-- A class and the properties declared with it. -/
structure SourceUnit where
  /-- The file it comes from. -/
  path : Path
  /-- The first class that the file declares. -/
  name : String
  /-- In the order of the file, repeated ones included. -/
  properties : List Property
  /-- The number of tags without a usable name. -/
  droppedProperties : Nat
deriving DecidableEq, Repr

namespace SourceUnit

/-- The tags of a text, each with the property that it declares, if any. -/
def readings (text : String) : List (Tag × Option Property) :=
  (Tag.scan text).map fun tag => (tag, Property.ofTag? tag)

/-- The unit that a text with line feeds only declares, if it declares a class. -/
def ofText? (text : String) (path : Path) : Option SourceUnit :=
  (Declaration.className? text).map fun name =>
    { path, name
      properties := (readings text).filterMap (·.2)
      droppedProperties := (readings text).countP (·.2.isNone) }

/-- The unit that the content of a file declares, whatever its line ends. -/
def parse? (content : String) (path : Path) : Option SourceUnit :=
  ofText? (Text.withUnixLineEnds content) path

/-- Every tag is kept or dropped. -/
theorem length_properties_add_droppedProperties {text : String} {path : Path} {unit : SourceUnit}
    (h : ofText? text path = some unit) :
    unit.properties.length + unit.droppedProperties = (Tag.scan text).length := by
  simp only [ofText?, Option.map_eq_some_iff] at h
  obtain ⟨name, -, rfl⟩ := h
  have count : ∀ rs : List (Tag × Option Property),
      (rs.filterMap (·.2)).length + rs.countP (·.2.isNone) = rs.length := by
    intro rs
    induction rs with
    | nil => rfl
    | cons r rs ih =>
      obtain ⟨a, _ | p⟩ := r <;> simp <;> omega
  have total := count (readings text)
  rwa [show (readings text).length = (Tag.scan text).length from List.length_map _] at total

end SourceUnit

end GetSet
