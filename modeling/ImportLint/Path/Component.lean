import ImportLint.Path.Segments

/-!
Paths as the file system reads them.  A path is a sequence of components: repeated slashes count
once, a `.` counts only at the front of a relative path, and a slash at the end says nothing.  Paths
are compared component by component, so that `a/b` comes before `a-b`.
-/

namespace ImportLint.Path

/-- One step of a path. -/
inductive Component where
  /-- The root directory, in front of an absolute path. -/
  | root
  /-- A `.` in front of a relative path. -/
  | here
  /-- A `..`. -/
  | up
  /-- The name of a file or a directory. -/
  | name (segment : Segment)
  deriving DecidableEq, Repr

/-- The component that a segment behind the first one stands for, if it stands for one. -/
def Component.ofSegment? (segment : Segment) : Option Component :=
  if segment = [] ∨ segment = ['.'] then none
  else if segment = ['.', '.'] then some .up
  else some (.name segment)

/-- The components of a path text. -/
def components (path : List Char) : List Component :=
  match splitSlash path with
  | [] => []
  | [[]] => []
  | [] :: segments => .root :: segments.filterMap Component.ofSegment?
  | ['.'] :: segments => .here :: segments.filterMap Component.ofSegment?
  | segments => segments.filterMap Component.ofSegment?

/-- The text of a component. -/
def Component.text : Component → Segment
  | .root => ['/']
  | .here => ['.']
  | .up => ['.', '.']
  | .name segment => segment

/-- The place of a component in the order of components: the root, then `.`, then `..`, then the
names in the order of their characters. -/
def Component.key : Component → List Nat
  | .root => [0]
  | .here => [1]
  | .up => [2]
  | .name segment => 3 :: segment.map Char.toNat

/-- The place of a path in the order of paths. -/
def key (path : String) : List (List Nat) :=
  (components path.toList).map Component.key

/-- Whether a path starts at the root. -/
def isAbsolute (path : String) : Bool :=
  path.toList.head? == some '/'

/-- The path `tail` seen from the directory `base`. -/
def join (base tail : String) : String :=
  if isAbsolute tail then tail
  else if base.isEmpty ∨ base.endsWith "/" then base ++ tail
  else base ++ "/" ++ tail

/-- The text of a sequence of components, with one slash between neighbours. -/
def Component.join : List Component → List Char
  | [] => []
  | .root :: rest => '/' :: joinSlash (rest.map Component.text)
  | steps => joinSlash (steps.map Component.text)

/-- The last component, if it is a name. -/
def fileName? (path : String) : Option Segment :=
  match (components path.toList).getLast? with
  | some (.name segment) => some segment
  | _ => none

/-- The part of a file name from its last dot on, unless that dot is its first character. -/
def dottedExtension (name : Segment) : Segment :=
  if !name.contains '.' then []
  else
    let tail := name.reverse.takeWhile (· ≠ '.')
    if tail.length + 1 = name.length then [] else '.' :: tail.reverse

/-- The extension of a path with its dot, or the empty text. -/
def extension (path : String) : String :=
  match fileName? path with
  | some name => String.ofList (dottedExtension name)
  | none => ""

/-- What is left of a list behind a given front, if it starts with it. -/
def dropFront? [DecidableEq α] : List α → List α → Option (List α)
  | [], steps => some steps
  | _ :: _, [] => none
  | step :: front, next :: steps => if step = next then dropFront? front steps else none

/-- The path below `base`, or the path itself if it is not below it. -/
def relativeTo (base path : String) : String :=
  match dropFront? (components base.toList) (components path.toList) with
  | some steps => String.ofList (Component.join steps)
  | none => path

/-- A path with every backslash turned into a slash. -/
def forwardSlashes (path : String) : String :=
  path.map fun c => if c = '\\' then '/' else c

end ImportLint.Path
