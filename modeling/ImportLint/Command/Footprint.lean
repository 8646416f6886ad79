import ImportLint.Command.Run

/-!
What a run looks at, so that no more of a disk has to be known than that.
-/

namespace ImportLint.Command

/-- The places where a run looks for a configuration, or writes one. -/
def Request.configPaths (request : Request) (environment : Environment) : List String :=
  Template.fileName ::
    match request.config with
    | some path => [path]
    | none =>
      (ConfigSource.candidates request.task.project environment.sharedDirectory).filterMap
        ConfigSource.path?

/-- The root of the walk of a run, once its configuration is known. -/
def Request.walkRoot? (request : Request) (disk : Disk) (environment : Environment) :
    Option String :=
  match request.task, (request.source disk environment).load disk with
  | .check path _ _, .ok config => some (Path.join path config.analyzer.root)
  | _, _ => none

/-- The names that a path leads to if every `..` takes back the name before it. -/
def lexicalNames (here : List Path.Segment) (path : String) : List Path.Segment :=
  let segments := Path.splitSlash path.toList
  Path.reduce true (if Path.isAbsolute path then segments else here ++ segments)

/-- The ignore files that can be in the directories that lead to a path. -/
def ignoreFiles (names : List Path.Segment) : List (List Path.Segment) :=
  (List.range names.length).flatMap fun count =>
    (Ignore.kinds true).map fun kind => names.take count ++ kind.names

end ImportLint.Command
