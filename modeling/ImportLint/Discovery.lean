import ImportLint.Path.Component
import ImportLint.Script.Import
import ImportLint.Walk

/-!
The files of a check: those of a walk that are scripts by their extensions and that no glob leaves
out, in the order of paths.
-/

namespace ImportLint

/-- A file to be checked. -/
structure SourceFile where
  path : String
  bytes : ByteArray
  /-- How its text is read. -/
  dialect : Script.Dialect

/-- The script at an entry of a walk, if there is one.  A path that is too long leads to no file. -/
def WalkEntry.sourceFile? (entry : WalkEntry) : Option SourceFile :=
  if Disk.isTooLong entry.path then none
  else
    match entry.node, Script.Dialect.ofExtension? (Path.extension entry.path) with
    | .file bytes, some dialect => some ⟨entry.path, bytes, dialect⟩
    | _, _ => none

/-- Globs that leave files out, of which one is enough. -/
abbrev ExcludeSet := List Glob

namespace ExcludeSet

/-- Compiles globs in order, up to the first failure.  `*` and `?` match slashes too. -/
def compile : List String → Except Glob.Error ExcludeSet
  | [] => .ok []
  | pattern :: rest =>
    match Glob.compile .wholePath pattern with
    | .error cause => .error cause
    | .ok glob =>
      match compile rest with
      | .error cause => .error cause
      | .ok globs => .ok (glob :: globs)

/-- Whether a path is left out. -/
def leavesOut (set : ExcludeSet) (path : String) : Bool := set.any (·.isMatch path)

end ExcludeSet

namespace SourceFile

/-- The path below the root, as policies and globs know it. -/
def localPath (root : String) (file : SourceFile) : String :=
  Path.forwardSlashes (Path.relativeTo root file.path)

/-- Whether one file is not behind another. -/
def before (left right : SourceFile) : Bool :=
  (compare (Path.key left.path) (Path.key right.path)).isLE

end SourceFile

/-- The files of a check among the entries of a walk. -/
def discover (root : String) (exclude : ExcludeSet) (entries : List WalkEntry) : List SourceFile :=
  ((entries.filterMap WalkEntry.sourceFile?).filter fun file =>
    !exclude.leavesOut (file.localPath root)).mergeSort SourceFile.before

end ImportLint
