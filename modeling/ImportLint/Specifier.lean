import ImportLint.Path.Normal

/-!
Resolution of import specifiers.  A specifier that starts with `.` is relative to the directory of
the importing file; every other specifier stands for itself.
-/

namespace ImportLint.Specifier

open ImportLint.Path

/-- The text before the last `/` of a path, if it has one. -/
def parentDir? (path : List Char) : Option (List Char) :=
  if path.contains '/' then
    some ((path.reverse.dropWhile (· ≠ '/')).drop 1).reverse
  else none

/-- The path text that a relative specifier stands for, before normalization. -/
def joined (source specifier : List Char) : List Char :=
  match parentDir? source with
  | some directory => directory ++ '/' :: specifier
  | none => specifier

/-- The path that a specifier in the file `source` stands for. -/
def resolveChars (source specifier : List Char) : List Char :=
  if specifier.head? = some '.' then normalize (joined source specifier) else specifier

/-- The path that a specifier in the file `source` stands for. -/
def resolve (source specifier : String) : String :=
  String.ofList (resolveChars source.toList specifier.toList)

end ImportLint.Specifier
