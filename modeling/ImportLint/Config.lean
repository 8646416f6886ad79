import ImportLint.Policy

/-!
Configurations: what a run of the linter is told, and what it assumes where it is told nothing.
-/

namespace ImportLint

/-- Which files are looked at. -/
structure FileSettings where
  /-- The directory that file paths are relative to. -/
  root : String
  /-- Globs of files to leave out. -/
  exclude : List String
  /-- Whether ignore files of version control apply. -/
  respectGitignore : Bool
  deriving DecidableEq, Repr

/-- A configuration. -/
structure Config where
  /-- The severity of every finding. -/
  severity : Severity
  /-- Where the layout is documented. -/
  docs : Option String
  /-- Whether a file that cannot be read as a script ends the run. -/
  failOnParseError : Bool
  analyzer : FileSettings
  policies : List PolicyEntry
  deriving DecidableEq, Repr

/-- The files that are looked at by default: all but those of installed packages. -/
def FileSettings.default : FileSettings := ⟨".", ["**/node_modules/**"], true⟩

/-- The configuration of an empty document. -/
def Config.default : Config := ⟨.error, none, false, .default, []⟩

/-- Why a configuration gives no policies. -/
inductive ConfigError where
  | noPolicies
  | policy (cause : PolicyError)
  deriving DecidableEq, Repr

/-- The wording of a failure. -/
def ConfigError.message : ConfigError → String
  | .noPolicies => "no [[policies]] defined"
  | .policy cause => cause.message

/-- The wording of a failure, followed by that of its cause. -/
def ConfigError.chain : ConfigError → List String
  | .noPolicies => [ConfigError.message .noPolicies]
  | .policy cause => cause.chain

/-- The policies of a configuration, of which there has to be one. -/
def Config.policySet (config : Config) : Except ConfigError PolicySet :=
  if config.policies = [] then .error .noPolicies
  else
    match PolicySet.compile config.policies with
    | .ok set => .ok set
    | .error cause => .error (.policy cause)

end ImportLint
