import ImportLint.Disk

/-!
The configuration that a project starts with.
-/

namespace ImportLint

/-- The lines of the configuration that a project starts with. -/
def Config.templateLines : List String :=
  ["# import-patterns configuration",
    "#",
    "# Every source file must be covered by exactly one policy: the first",
    "# [[policies]] entry whose \x60target\x60 glob matches the file path governs it.",
    "# Files that no target matches are reported as unconfigured.",
    "#",
    "# An import is allowed when its resolved path matches at least one of the",
    "# policy's \x60restrictions\x60. Relative specifiers (\"./x\", \"../x\") are resolved",
    "# against the importing file's directory; bare specifiers (\"react\", \"fs\")",
    "# are matched as written.",
    "",
    "# severity = \"error\"",
    "# docs = \"https://example.com/source-organization\"",
    "",
    "[analyzer]",
    "root = \".\"",
    "exclude = [\"**/node_modules/**\", \"**/out/**\", \"**/dist/**\"]",
    "",
    "[[policies]]",
    "target = \"src/common/**\"",
    "restrictions = \"src/common/**\"",
    "",
    "[[policies]]",
    "target = \"src/browser/**\"",
    "restrictions = [\"src/common/**\", \"src/browser/**\"]",
    "",
    "[[policies]]",
    "target = \"src/node/**\"",
    "restrictions = [\"src/common/**\", \"src/node/**\", \"\x7bfs,path,os\x7d\"]"]

/-- The text of the configuration that a project starts with. -/
def Config.template : String :=
  String.join (Config.templateLines.map (· ++ "\n"))

namespace Template

/-- The name of the file that the template is written to. -/
def fileName : String := "import-patterns.toml"

/-- Why the template was not written. -/
inductive Failure where
  /-- There is something of that name already. -/
  | taken
  | unwritable (fault : DiskFault)
  deriving DecidableEq, Repr

/-- The wording of a failure. -/
def Failure.chain : Failure → List String
  | .taken =>
    ["Configuration file already exists at " ++ fileName ++ ". Use --force to overwrite."]
  | .unwritable fault => [fault.message]

/-- Writes the template into the working directory.  What is there already is only replaced by
force. -/
def write (force : Bool) (disk : Disk) : Except Failure Disk :=
  if disk.exists? fileName ∧ !force then .error .taken
  else
    match disk.write fileName.toList Config.template.toUTF8 with
    | .error fault => .error (.unwritable fault)
    | .ok disk => .ok disk

/-- What is told when the template has been written. -/
def notice : String :=
  "Created import-patterns.toml\n\nNext steps:\n"
    ++ "  1. Edit [[policies]] to describe your source layout\n"
    ++ "  2. Run: import-patterns check\n"

end Template

end ImportLint
