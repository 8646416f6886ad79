import ImportLint.Path.Component
import ImportLint.Violation

/-!
Reports: the findings of a whole run, their order and their counts.
-/

namespace ImportLint

/-- The findings of a run and the number of files it looked at. -/
structure Report where
  violations : List Violation
  filesChecked : Nat
  deriving DecidableEq, Repr

namespace Report

/-- A report about nothing. -/
def empty : Report := ⟨[], 0⟩

/-- Whether some finding is at least as grave as the threshold. -/
def hasAtLeast (report : Report) (threshold : Severity) : Bool :=
  report.violations.any fun violation => threshold.rank ≤ violation.severity.rank

/-- Whether some finding is an error. -/
def hasErrors (report : Report) : Bool := report.hasAtLeast .error

/-- How many findings have a severity. -/
def severityCount (report : Report) (severity : Severity) : Nat :=
  report.violations.countP (·.severity = severity)

/-- How many findings are about imports. -/
def badImportCount (report : Report) : Nat :=
  report.violations.countP (·.kind = .badImport)

/-- How many findings are about files without a policy. -/
def badFilenameCount (report : Report) : Nat :=
  report.violations.length - report.badImportCount

end Report

/-- The order of places: by the components of the file, then by line, then by column. -/
def Location.order (left right : Location) : Ordering :=
  (compare (Path.key left.file) (Path.key right.file)).then
    ((compare left.line right.line).then (compare left.column right.column))

/-- Whether the place of one finding is not behind that of another. -/
def Violation.placedBefore (left right : Violation) : Bool :=
  (left.location.order right.location).isLE

/-- Sorts the findings by their places; findings at one place keep their order. -/
def Report.sort (report : Report) : Report :=
  { report with violations := report.violations.mergeSort Violation.placedBefore }

end ImportLint
