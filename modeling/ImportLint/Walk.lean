import ImportLint.Ignore.Scope

/-!
Walks through a directory and everything below it that no ignore file leaves out.  The root itself is
never left out, and the ignore files of the directories above it hold too.
-/

namespace ImportLint

open ImportLint.Path (Segment)

/-- A file or a directory that a walk came to. -/
structure WalkEntry where
  /-- Its path, which starts as the root of the walk is spelled. -/
  path : String
  node : Node

/-- Why a walk could not be made. -/
inductive WalkError where
  /-- The root leads nowhere. -/
  | rootMissing (root : String) (fault : DiskFault)
  /-- Ignore files above the root have faults; each comes with its path and the number of its line. -/
  | badIgnoreFiles (faults : List (String × Nat × Ignore.LineFault))
  /-- A directory whose path is too long to be opened. -/
  | tooDeep (path : String)
  deriving DecidableEq, Repr

/-- The wording of what went wrong at a path. -/
def WalkError.faultText (path : String) (fault : DiskFault) : String :=
  path ++ ": IO error for operation on " ++ path ++ ": " ++ fault.message

/-- The wording of a failure. -/
def WalkError.message : WalkError → String
  | .rootMissing root fault => faultText root fault
  | .tooDeep path => faultText path .nameTooLong
  | .badIgnoreFiles faults =>
    "\n".intercalate <| faults.map fun (path, number, fault) =>
      path ++ ": line " ++ toString number ++ ": " ++ fault.message

namespace Walk

/-- The absolute path that names lead along. -/
def truePath (names : List Segment) : List Char := '/' :: Path.joinSlash names

mutual

/-- The entries from a node on.  `path` is its path as spelled, `names` leads to it. -/
def entries (reach : Ignore.Reach) (path : String) (names : List Segment) : Node → List WalkEntry
  | .file bytes => [⟨path, .file bytes⟩]
  | .directory children =>
    ⟨path, .directory children⟩ ::
      below (reach.enter (.directory children) path.toList) path names children

/-- The entries from the children of a directory on that no ignore file leaves out. -/
def below (reach : Ignore.Reach) (path : String) (names : List Segment) :
    List (Segment × Node) → List WalkEntry
  | [] => []
  | (name, child) :: rest =>
    let childPath := Path.join path (String.ofList name)
    let childNames := names ++ [name]
    let others := below reach path names rest
    if reach.verdict? childPath.toList (truePath childNames) (!child.isFile) = some .leftOut then
      others
    else entries reach childPath childNames child ++ others

end

/-- The directories on the way to a node, the nearest one first, each with the names that lead to it.
The node itself is none of them. -/
def above (root : Node) (names : List Segment) : List (List Segment × Node) :=
  (List.range names.length).reverse.filterMap fun count =>
    (root.at? (names.take count)).map fun node => (names.take count, node)

/-- The faults of the ignore files of a directory, kind by kind. -/
def faults (kinds : List Ignore.Kind) (names : List Segment) (directory : Node) :
    List (String × Nat × Ignore.LineFault) :=
  kinds.flatMap fun kind =>
    (Ignore.ruleList kind directory (truePath names)).toldFaults.map fun (number, fault) =>
      (String.ofList (truePath (names ++ kind.names)), number, fault)

/-- Entries, unless one of them is a directory that cannot be opened. -/
def opened (entries : List WalkEntry) : Except WalkError (List WalkEntry) :=
  match entries.find? fun entry => !entry.node.isFile && Disk.isTooLong entry.path with
  | some entry => .error (.tooDeep entry.path)
  | none => .ok entries

end Walk

/-- The path of standard input, which is no file to be walked to. -/
def standardInput : List Path.Component := [.name ['-']]

/-- Everything that a walk from `root` comes to, or its first failure. -/
def Disk.walk (disk : Disk) (respectVersionControl : Bool) (root : String) :
    Except WalkError (List WalkEntry) :=
  if Path.components root.toList = standardInput then .ok []
  else
    match disk.locate root with
    | .error fault => .error (.rootMissing root fault)
    | .ok ⟨_, .file bytes⟩ => .ok [⟨root, .file bytes⟩]
    | .ok ⟨names, .directory children⟩ =>
      let kinds := Ignore.kinds respectVersionControl
      let around := Walk.above disk.root names
      match around.reverse.flatMap fun (names, node) => Walk.faults kinds names node with
      | [] =>
        let levels := around.map fun (names, node) =>
          Ignore.level kinds node (Walk.truePath names)
        Walk.opened (Walk.entries ⟨kinds, [], levels⟩ root names (.directory children))
      | faults => .error (.badIgnoreFiles faults)

end ImportLint
