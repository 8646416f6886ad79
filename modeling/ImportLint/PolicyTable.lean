import ImportLint.Path.Component
import ImportLint.Policy

/-!
Tables of policies, one row for each in the order of their declaration, with a mark at the one that
governs a given file.
-/

namespace ImportLint

namespace PolicyTable

/-- A text with blanks behind it up to a width. -/
def padded (width : Nat) (text : String) : String :=
  text ++ String.ofList (List.replicate (width - text.length) ' ')

/-- One line of a table. -/
def row (mark number target restrictions : String) : String :=
  mark ++ "  " ++ padded 4 number ++ " " ++ padded 32 target ++ " " ++ restrictions ++ "\n"

/-- The lines above the policies. -/
def header : String :=
  row " " "#" "Target" "Restrictions" ++ String.ofList (List.replicate 80 '-') ++ "\n"

/-- The row of the policy at place `index`. -/
def policyRow (selected : Option Nat) (index : Nat) (policy : Policy) : String :=
  row (if selected = some index then "*" else " ") (toString index) policy.entry.target
    (alternatives policy.entry.restrictions)

/-- The rows of policies from place `index` on. -/
def rowsFrom (selected : Option Nat) (index : Nat) : List Policy → List String
  | [] => []
  | policy :: rest => policyRow selected index policy :: rowsFrom selected (index + 1) rest

/-- What is said about a file below the table. -/
def remark (file : String) : Option Nat → String
  | some index => "\n" ++ file ++ " is governed by policy #" ++ toString index ++ "\n"
  | none => "\n" ++ file ++ " matches no policy target and would be reported as badFilename\n"

end PolicyTable

/-- The table of policies, with a remark about a file if one is given. -/
def PolicySet.table (set : PolicySet) (path : Option String) : String :=
  let file := path.map Path.forwardSlashes
  let selected := file.bind set.position?
  PolicyTable.header ++ String.join (PolicyTable.rowsFrom selected 0 set.policies)
    ++ (file.map fun file => PolicyTable.remark file selected).getD ""

end ImportLint
