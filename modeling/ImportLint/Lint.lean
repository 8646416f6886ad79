import ImportLint.Checker
import ImportLint.Config
import ImportLint.Discovery
import ImportLint.Report

/-!
Checks of a whole project: the files that a configuration speaks about are found, read and judged one
by one, and the findings are put in order.  The first failure ends the check.
-/

namespace ImportLint

/-- Why a check could not be made. -/
inductive LintFailure where
  | invalidConfig (cause : ConfigError)
  | invalidExclude (cause : Glob.Error)
  | walk (cause : WalkError)
  | unreadable (path : String) (fault : DiskFault)
  deriving DecidableEq, Repr

/-- The wording of a failure, followed by that of its causes. -/
def LintFailure.chain : LintFailure → List String
  | .invalidConfig cause => "Config validation failed" :: cause.chain
  | .invalidExclude cause =>
    ["Invalid exclude pattern", "bad glob '" ++ cause.pattern ++ "'", cause.message]
  | .walk cause => [cause.message]
  | .unreadable path fault => ["Failed to read " ++ path, fault.message]

/-- A check whose files have been found. -/
structure Check where
  checker : Checker
  root : String
  files : List SourceFile

namespace Check

/-- The findings about one file. -/
def fileViolations (check : Check) (file : SourceFile) (text : String) : List Violation :=
  check.checker.check (Path.relativeTo check.root file.path) (Script.imports file.dialect text)

/-- The findings about files, one after the other. -/
def violations (check : Check) : List SourceFile → Except LintFailure (List Violation)
  | [] => .ok []
  | file :: rest =>
    match decodeText file.bytes with
    | .error fault => .error (.unreadable file.path fault)
    | .ok text =>
      match check.violations rest with
      | .error cause => .error cause
      | .ok later => .ok (check.fileViolations file text ++ later)

/-- The outcome of the check. -/
def run (check : Check) : Except LintFailure Report :=
  match check.violations check.files with
  | .error cause => .error cause
  | .ok found => .ok (Report.sort ⟨found, check.files.length⟩)

end Check

/-- What judges the files of a project. -/
def Config.checker (config : Config) : Except ConfigError Checker :=
  match config.policySet with
  | .error cause => .error cause
  | .ok policies => .ok ⟨policies, config.severity, config.docs⟩

/-- Finds the files below `path` that a configuration speaks about.  `exclude` are further globs of
files to leave out. -/
def Disk.check (disk : Disk) (path : String) (config : Config) (exclude : List String) :
    Except LintFailure Check :=
  match config.checker with
  | .error cause => .error (.invalidConfig cause)
  | .ok checker =>
    match ExcludeSet.compile (config.analyzer.exclude ++ exclude) with
    | .error cause => .error (.invalidExclude cause)
    | .ok excluded =>
      let root := Path.join path config.analyzer.root
      match disk.walk config.analyzer.respectGitignore root with
      | .error cause => .error (.walk cause)
      | .ok entries => .ok ⟨checker, root, discover root excluded entries⟩

/-- Checks the project below `path`. -/
def Disk.lint (disk : Disk) (path : String) (config : Config) (exclude : List String) :
    Except LintFailure Report :=
  match disk.check path config exclude with
  | .error cause => .error cause
  | .ok check => check.run

end ImportLint
