import GetSet.Template.Basic

/-!
# Template sets

A generation uses up to four templates: one for a method and one for the whole document, each for interfaces and for
skeleton classes. The built-in ones are written out here.
-/

namespace GetSet

/-- The templates of skeleton classes. -/
structure SkeletonTemplates where
  method : Template
  document : Template
deriving DecidableEq, Repr

/-- The templates of a generation. Those of skeleton classes may be missing if none are generated. -/
structure TemplateSet where
  interfaceMethod : Template
  interfaceDocument : Template
  skeleton : Option SkeletonTemplates
deriving DecidableEq, Repr

namespace TemplateSet

open Template (slotText)

/-- The built-in template of a method that an interface declares. -/
def builtinInterfaceMethod : Template where
  text :=
    "    " ++ slotText "PHPDOC" ++ "\n    public function " ++ slotText "FUNCTION_NAME" ++
    "(" ++ slotText "ARGUMENTS" ++ ")" ++ slotText "RETURN_TYPE" ++ ";"

/-- The built-in template of an interface. -/
def builtinInterfaceDocument : Template where
  text :=
    "<?php\n\n// Interface generated by interface-gen\n// Do not use without reviewing first!\n\n" ++
    "interface " ++ slotText "INTERFACE_NAME" ++ "\n\x7b\n\n" ++ slotText "FUNCTIONS" ++ "\n\n\x7d\n"

/-- The built-in template of a method that a skeleton class implements. -/
def builtinClassMethod : Template where
  text :=
    "    " ++ slotText "PHPDOC" ++ "\n    public function " ++ slotText "FUNCTION_NAME" ++
    "(" ++ slotText "ARGUMENTS" ++ ")" ++ slotText "RETURN_TYPE" ++
    "\n    \x7b\n        " ++ slotText "FUNCTION" ++ "\n    \x7d"

/-- The built-in template of a skeleton class. -/
def builtinClassDocument : Template where
  text :=
    "<?php\n\n// Class generated by interface-gen\n// Do not use without reviewing first!\n\n" ++
    "class " ++ slotText "CLASS_NAME" ++ " implements " ++ slotText "INTERFACE_NAME" ++ "\n\x7b\n\n" ++
    slotText "PROPERTIES" ++ "\n\n" ++ slotText "FUNCTIONS" ++ "\n\n\x7d\n"

/-- The templates that are used unless others are given. -/
def builtin : TemplateSet where
  interfaceMethod := builtinInterfaceMethod
  interfaceDocument := builtinInterfaceDocument
  skeleton := some { method := builtinClassMethod, document := builtinClassDocument }

end TemplateSet

end GetSet
