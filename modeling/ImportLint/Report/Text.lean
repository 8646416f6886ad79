import ImportLint.Report.Json

/-!
The printed forms of a report: coloured text, indented JSON, or one line for each finding.
-/

namespace ImportLint

/-- The forms in which a report can be printed. -/
inductive OutputFormat where
  | text
  | json
  | compact
  deriving DecidableEq, Repr

/-- The written name of a format. -/
def OutputFormat.name : OutputFormat → String
  | .text => "text"
  | .json => "json"
  | .compact => "compact"

/-- The format of a given name. -/
def OutputFormat.ofName? (name : String) : Option OutputFormat :=
  [OutputFormat.text, .json, .compact].find? (·.name == name)

/-- The colours of a terminal that are used. -/
inductive Colour where
  | red
  | green
  | yellow
  | blue
  deriving DecidableEq, Repr

/-- The control sequence that switches to a colour. -/
def Colour.on : Colour → String
  | .red => "\x1b[31m"
  | .green => "\x1b[32m"
  | .yellow => "\x1b[33m"
  | .blue => "\x1b[34m"

/-- A text in a colour. -/
def Colour.paint (colour : Colour) (text : String) : String :=
  colour.on ++ text ++ "\x1b[0m"

/-- The colour of a severity. -/
def Severity.colour : Severity → Colour
  | .error => .red
  | .warning => .yellow
  | .info => .blue

/-- A finding in full. -/
def Violation.paragraph (violation : Violation) : String :=
  violation.code ++ " " ++ violation.kind.name ++ " at " ++ violation.location.file ++ ":"
    ++ toString violation.location.line ++ ":" ++ toString violation.location.column ++ "\n  "
    ++ violation.severity.colour.paint violation.severity.name ++ ": " ++ violation.message ++ "\n"
    ++ (match violation.docRef with
      | some reference => "  = see: " ++ reference ++ "\n"
      | none => "")
    ++ "\n"

namespace Report

/-- The colour of the last line: that of the gravest finding that is more than an information. -/
def summaryColour (report : Report) : Colour :=
  if 0 < report.severityCount .error then .red
  else if 0 < report.severityCount .warning then .yellow
  else .green

/-- The last line. -/
def summary (report : Report) : String :=
  "Found " ++ toString (report.severityCount .error) ++ " error(s), "
    ++ toString (report.severityCount .warning) ++ " warning(s), "
    ++ toString (report.severityCount .info) ++ " info(s) in " ++ toString report.filesChecked
    ++ " file(s) (" ++ toString report.badImportCount ++ " disallowed import(s), "
    ++ toString report.badFilenameCount ++ " unconfigured file(s))"

/-- The findings in full, and a summary. -/
def fullText (report : Report) : String :=
  String.join (report.violations.map Violation.paragraph)
    ++ report.summaryColour.paint report.summary ++ "\n"

/-- The findings, one in a line. -/
def compactText (report : Report) : String :=
  String.join (report.violations.map fun violation => violation.display ++ "\n")

/-- The printed form of a report. -/
def print (report : Report) : OutputFormat → String
  | .text => report.fullText
  | .json => report.toJson.pretty ++ "\n"
  | .compact => report.compactText

end Report

end ImportLint
