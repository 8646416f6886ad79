import ImportLint.Ignore.Rule
import ImportLint.Path.Component

/-!
The reach of ignore files.  Every directory can have three of them, and what they say holds for
everything below it, unless a directory further down says otherwise.
-/

namespace ImportLint.Ignore

open ImportLint.Path (Segment)

/-- A text without a given front, or as it is where it has none. -/
def withoutFront (front text : List Char) : List Char :=
  (Path.dropFront? front text).getD text

/-- The `./` that can be in front of a path. -/
def hereFront : List Char := ['.', '/']

/-- Rules and the path of the directory they hold in. -/
structure Scope where
  base : List Char
  rules : List Rule

namespace Scope

/-- A path as the rules see it: without the directory they hold in.  What is compared is the spelling,
so a path that is spelled another way stays as it is. -/
def localPath (scope : Scope) (path : List Char) : List Char :=
  let path := withoutFront hereFront path
  if Path.components scope.base = [.here] ∨ !path.contains '/' then path
  else
    match Path.dropFront? scope.base path with
    | some rest => withoutFront ['/'] rest
    | none => path

/-- What the last rule that matches a path says. -/
def verdict? (scope : Scope) (path : List Char) (isDirectory : Bool) : Option Verdict :=
  let subject := String.ofList (scope.localPath path)
  (scope.rules.reverse.find? fun rule =>
    (!rule.onlyDirectories || isDirectory) && rule.glob.isMatch subject).map (·.verdict)

end Scope

/-- The kinds of ignore files.  What an earlier kind says goes before what a later one says. -/
inductive Kind where
  /-- The ignore file of any tool. -/
  | tools
  /-- The ignore file of version control. -/
  | versioned
  /-- The ignore file that version control keeps to itself. -/
  | unversioned
  deriving DecidableEq, Repr

/-- The names that lead to a file of this kind from its directory. -/
def Kind.names : Kind → List Segment
  | .tools => [".ignore".toList]
  | .versioned => [".gitignore".toList]
  | .unversioned => [".git".toList, "info".toList, "exclude".toList]

/-- The kinds that are read. -/
def kinds (respectVersionControl : Bool) : List Kind :=
  if respectVersionControl then [.tools, .versioned, .unversioned] else [.tools]

/-- The path of an ignore file in a directory of a given path. -/
def Kind.path (kind : Kind) (directory : List Char) : String :=
  Path.join (String.ofList directory) (String.ofList (Path.joinSlash kind.names))

/-- The rules of a kind that a directory of a given path has.  An ignore file whose path is too long
is not there. -/
def ruleList (kind : Kind) (directory : Node) (path : List Char) : RuleList :=
  if Disk.isTooLong (kind.path path) then ⟨[], []⟩
  else
    match directory.at? kind.names with
    | some (.file bytes) => .ofBytes bytes
    | _ => ⟨[], []⟩

/-- The scope of a kind in a directory of a given path. -/
def scope (kind : Kind) (directory : Node) (path : List Char) : Scope :=
  ⟨withoutFront hereFront path, (ruleList kind directory path).rules⟩

/-- What the ignore files of one directory say, by their kinds. -/
abbrev Level := List (Kind × Scope)

/-- The ignore files of a directory of a given path. -/
def level (kinds : List Kind) (directory : Node) (path : List Char) : Level :=
  kinds.map fun kind => (kind, scope kind directory path)

/-- The directories whose ignore files hold, the nearest ones first.  Those from the root of a walk on
know it by its spelling, those above it know true paths. -/
structure Reach where
  kinds : List Kind
  below : List Level
  above : List Level

namespace Reach

/-- What one kind of ignore files says: the nearest directory that says anything decides. -/
def kindVerdict? (reach : Reach) (path truePath : List Char) (isDirectory : Bool) (kind : Kind) :
    Option Verdict :=
  let ask := fun path (level : Level) =>
    (level.lookup kind).bind fun scope => scope.verdict? path isDirectory
  (reach.below.findSome? (ask (withoutFront hereFront path))).or
    (reach.above.findSome? (ask truePath))

/-- What the ignore files say about a path. -/
def verdict? (reach : Reach) (path truePath : List Char) (isDirectory : Bool) : Option Verdict :=
  reach.kinds.findSome? (reach.kindVerdict? path truePath isDirectory)

/-- The reach of a directory, with what holds around it. -/
def enter (reach : Reach) (directory : Node) (path : List Char) : Reach :=
  { reach with below := level reach.kinds directory path :: reach.below }

end Reach

end ImportLint.Ignore
