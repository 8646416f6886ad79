import ImportLint.Config.Decode
import ImportLint.Disk
import ImportLint.Path.Component

/-!
Where a configuration comes from.  One that is named goes before those of the project, and those
before the one that is kept for all projects.  What has been chosen is read, and nothing else if that
fails.
-/

namespace ImportLint

/-- Where a configuration was found. -/
inductive ConfigSource where
  /-- Where it was said to be, which may be nowhere. -/
  | named (path : String)
  | project (path : String)
  | shared (path : String)
  | missing
  deriving DecidableEq, Repr

namespace ConfigSource

/-- The path of a configuration. -/
def path? : ConfigSource → Option String
  | .named path => some path
  | .project path => some path
  | .shared path => some path
  | .missing => none

/-- Whether a configuration is the one that is kept for all projects. -/
def isShared : ConfigSource → Bool
  | .shared _ => true
  | _ => false

/-- The names that a configuration can have in a project, in the order they are looked for. -/
def projectNames : List String := ["import-patterns.toml", ".import-patterns.toml"]

/-- The name of the configuration that is kept for all projects. -/
def sharedName : String := "config.toml"

/-- The places where a configuration is looked for, in order. -/
def candidates (project : String) (sharedDirectory : Option String) : List ConfigSource :=
  (projectNames.map fun name => .project (Path.join project name))
    ++ (sharedDirectory.map fun directory => .shared (Path.join directory sharedName)).toList

/-- Whether there is something at the place of a configuration. -/
def isThere (disk : Disk) (source : ConfigSource) : Bool :=
  source.path?.any disk.exists?

/-- Looks for a configuration.  A path that is named is taken as it is; else it is the first place
where there is something. -/
def find (disk : Disk) (project : String) (named sharedDirectory : Option String) : ConfigSource :=
  match named with
  | some path => .named path
  | none => ((candidates project sharedDirectory).find? (isThere disk)).getD .missing

end ConfigSource

/-- Why a configuration could not be loaded. -/
inductive LoadFailure where
  | missing
  | unreadable (path : String) (fault : DiskFault)
  | invalid (path : String) (cause : Config.ParseError)
  deriving DecidableEq, Repr

/-- The wording of a failure, followed by that of its causes. -/
def LoadFailure.chain : LoadFailure → List String
  | .missing =>
    ["No import-patterns.toml found. Run \x60import-patterns init\x60 to create one."]
  | .unreadable path fault =>
    ["Failed to load " ++ path, "Failed to read config file " ++ path ++ ": " ++ fault.message,
      fault.message]
  | .invalid path cause => ["Failed to load " ++ path, cause.message]

/-- Loads the configuration that was found. -/
def ConfigSource.load (disk : Disk) (source : ConfigSource) : Except LoadFailure Config :=
  match source.path? with
  | none => .error .missing
  | some path =>
    match disk.readText path with
    | .error fault => .error (.unreadable path fault)
    | .ok text =>
      match Config.parse text with
      | .error cause => .error (.invalid path cause)
      | .ok config => .ok config

end ImportLint
