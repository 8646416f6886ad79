import ImportLint.Command.Arguments
import ImportLint.Command.Outcome
import ImportLint.Config.Source
import ImportLint.Config.Template
import ImportLint.Lint
import ImportLint.PolicyTable

/-!
Runs of the program, from its arguments to its outcome.
-/

namespace ImportLint.Command

/-- The directory of the configuration that is kept for all projects. -/
def Environment.sharedDirectory (environment : Environment) : Option String :=
  environment.configDirectory.or
    (environment.home.map fun home => Path.join home ".import-patterns")

/-- The directory whose configuration is used. -/
def Task.project : Task → String
  | .check path _ _ => path
  | _ => "."

/-- The configuration that a run uses. -/
def Request.source (request : Request) (disk : Disk) (environment : Environment) : ConfigSource :=
  ConfigSource.find disk request.task.project request.config environment.sharedDirectory

/-- What is told about a configuration before it is loaded. -/
def sourceEvents (source : ConfigSource) : List Event :=
  match source with
  | .shared path => [.sharedConfig path]
  | _ => []

/-- The outcome of a check whose files have been found. -/
def runCheck (disk : Disk) (format : OutputFormat) (events : List Event) (check : Check) :
    Outcome :=
  let events := events ++ [.checking check.files.length check.checker.policies.size]
  match check.run with
  | .error failure => .failed disk events failure.chain
  | .ok report =>
    { code := if report.hasErrors then 1 else 0
      output := report.print format
      events := events ++ [.complete report.violations.length report.filesChecked]
      failure := none
      disk := disk }

/-- Loads a configuration and goes on with it. -/
def withConfig (disk : Disk) (source : ConfigSource) (next : List Event → Config → Outcome) :
    Outcome :=
  let events := sourceEvents source
  match source.load disk with
  | .error failure => .failed disk events failure.chain
  | .ok config => next events config

/-- Checks a project. -/
def checkProject (disk : Disk) (source : ConfigSource) (path : String) (format : OutputFormat)
    (exclude : List String) : Outcome :=
  withConfig disk source fun events config =>
    match disk.check path config exclude with
    | .error failure => .failed disk events failure.chain
    | .ok check => runCheck disk format events check

/-- Lists the policies of a configuration. -/
def listPolicies (disk : Disk) (source : ConfigSource) (file : Option String) : Outcome :=
  withConfig disk source fun events config =>
    match config.policySet with
    | .error cause => .failed disk events (LintFailure.chain (.invalidConfig cause))
    | .ok policies => { Outcome.success disk (policies.table file) with events := events }

/-- Writes the configuration that a project starts with. -/
def writeTemplate (disk : Disk) (force : Bool) : Outcome :=
  match Template.write force disk with
  | .error failure => .failed disk [] failure.chain
  | .ok after => .success after Template.notice

/-- Does what was asked for. -/
def Request.run (request : Request) (disk : Disk) (environment : Environment) : Outcome :=
  match request.task with
  | .check path format exclude =>
    checkProject disk (request.source disk environment) path format exclude
  | .listPolicies file => listPolicies disk (request.source disk environment) file
  | .writeTemplate force => writeTemplate disk force

/-- The name and the version of the program. -/
def versionText : String := "import-patterns 0.1.0\n"

/-- How the program is used. -/
def usageText : String :=
  "Usage: import-patterns [OPTIONS] <COMMAND>\n\n"
    ++ "Commands:\n"
    ++ "  check [PATH]          Check imports of every source file under PATH\n"
    ++ "  list-policies [FILE]  List configured policies in match order\n"
    ++ "  init                  Initialize configuration file\n\n"
    ++ "Options:\n"
    ++ "  -v, --verbose             Enable verbose output\n"
    ++ "  -c, --config <CONFIG>     Path to configuration file\n"
    ++ "  -f, --format <FORMAT>     check: text, json or compact\n"
    ++ "  -e, --exclude <EXCLUDE>   check: exclude patterns, can be given again\n"
    ++ "      --force               init: overwrite existing config\n"
    ++ "  -h, --help                Print help\n"
    ++ "  -V, --version             Print version\n"

/-- The outcome of arguments that give nothing to do. -/
def Stop.outcome (disk : Disk) : Stop → Outcome
  | .usage => ⟨2, "", [], none, disk⟩
  | .version => .success disk versionText
  | .help => .success disk usageText

/-- A whole run of the program. -/
def run (disk : Disk) (environment : Environment) (arguments : List String) : Outcome :=
  match Request.read environment arguments with
  | .error stop => stop.outcome disk
  | .ok request => request.run disk environment

end ImportLint.Command
