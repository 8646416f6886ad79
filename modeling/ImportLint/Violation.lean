/-!
Violations: what a check reports about one file or one import.
-/

namespace ImportLint

/-- How grave a violation is. -/
inductive Severity where
  | info
  | warning
  | error
  deriving DecidableEq, Repr

/-- The place of a severity, from the mildest to the gravest. -/
def Severity.rank : Severity → Nat
  | .info => 0
  | .warning => 1
  | .error => 2

/-- The written name of a severity. -/
def Severity.name : Severity → String
  | .info => "info"
  | .warning => "warning"
  | .error => "error"

/-- All severities, from the mildest to the gravest. -/
def Severity.all : List Severity := [.info, .warning, .error]

/-- The severity of a given name. -/
def Severity.ofName? (name : String) : Option Severity :=
  Severity.all.find? (·.name == name)

/-- A place in a source file; lines and columns count from one. -/
structure Location where
  file : String
  line : Nat
  column : Nat
  deriving DecidableEq, Repr

/-- The first place of a file. -/
def Location.fileStart (file : String) : Location := ⟨file, 1, 1⟩

/-- What a violation is about. -/
inductive ViolationKind where
  /-- An import that matches none of the restrictions of its policy. -/
  | badImport
  /-- A file that no policy covers. -/
  | badFilename
  deriving DecidableEq, Repr

/-- The code of a kind. -/
def ViolationKind.code : ViolationKind → String
  | .badImport => "IMP001"
  | .badFilename => "IMP002"

/-- The written name of a kind. -/
def ViolationKind.name : ViolationKind → String
  | .badImport => "badImport"
  | .badFilename => "badFilename"

/-- All kinds. -/
def ViolationKind.all : List ViolationKind := [.badImport, .badFilename]

/-- The kind of a given name. -/
def ViolationKind.ofName? (name : String) : Option ViolationKind :=
  ViolationKind.all.find? (·.name == name)

/-- One finding.  Only `badImport` and `badFilename` build findings whose parts fit together; a
finding that was read back may say anything. -/
structure Violation where
  kind : ViolationKind
  code : String
  rule : String
  severity : Severity
  location : Location
  message : String
  /-- The patterns that were allowed, for a rejected import. -/
  restrictions : Option (List String)
  /-- Where the layout is documented. -/
  docRef : Option String
  deriving DecidableEq, Repr

/-- The name of the rule behind every finding. -/
def ruleName : String := "import-patterns"

/-- Patterns as alternatives in one line. -/
def alternatives (patterns : List String) : String :=
  " or ".intercalate patterns

/-- The finding about an import that `restrictions` do not allow. -/
def Violation.badImport (location : Location) (restrictions : List String) : Violation :=
  { kind := .badImport
    code := ViolationKind.badImport.code
    rule := ruleName
    severity := .error
    location := location
    message := "import violates '" ++ alternatives restrictions ++ "' restrictions"
    restrictions := some restrictions
    docRef := none }

/-- The finding about a file that no policy covers. -/
def Violation.badFilename (file : String) : Violation :=
  { kind := .badFilename
    code := ViolationKind.badFilename.code
    rule := ruleName
    severity := .error
    location := .fileStart file
    message := "missing definition in import policies for this file"
    restrictions := none
    docRef := none }

/-- A finding in one line. -/
def Violation.display (violation : Violation) : String :=
  violation.location.file ++ ":" ++ toString violation.location.line ++ ":"
    ++ toString violation.location.column ++ ": " ++ violation.severity.name
    ++ " [" ++ violation.code ++ "] " ++ violation.message
    ++ match violation.docRef with
      | some reference => " (see: " ++ reference ++ ")"
      | none => ""

end ImportLint
