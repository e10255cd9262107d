import GetSet.Path

/-!
# Options

What a generation may be told: where the files go, whether they replace existing ones, and which types and classes
are generated.
-/

namespace GetSet

/-- The options of a generation. -/
structure Options where
  /-- Directory that generated files are written into. -/
  outputDir : Path := ⟨"output"⟩
  /-- Whether files that exist already are replaced. -/
  overwriteFiles : Bool := false
  /-- Whether setter parameters carry the declared type. -/
  argumentTypes : Bool := false
  /-- Whether getters return the declared type and setters the object. -/
  returnTypes : Bool := false
  /-- Whether skeleton classes are generated too. -/
  generateClasses : Bool := false
  /-- Extension of generated files, without the dot. -/
  extension : String := "php"
deriving DecidableEq, Repr, Inhabited

end GetSet
