/-!
Import sites: the places where a source file names another module.
-/

namespace ImportLint

/-- An import specifier and the place of its opening quote; lines and columns count from one. -/
structure ImportSite where
  line : Nat
  column : Nat
  specifier : String
  deriving DecidableEq, Repr

end ImportLint
