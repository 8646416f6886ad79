import ImportLint.Disk

/-!
What a run of the program leaves behind: its output, what it tells on the way, its failure and its
exit code.
-/

namespace ImportLint.Command

/-- What is told on the way. -/
inductive Event where
  /-- The configuration is the one that is kept for all projects. -/
  | sharedConfig (path : String)
  | checking (files policies : Nat)
  | complete (violations files : Nat)
  deriving DecidableEq, Repr

/-- The wording of an event. -/
def Event.message : Event → String
  | .sharedConfig path => "Using global config: " ++ path
  | .checking files policies =>
    "Checking " ++ toString files ++ " files against " ++ toString policies ++ " policies"
  | .complete violations files =>
    "Check complete: " ++ toString violations ++ " violations in " ++ toString files ++ " files"

/-- The line of an event in the log. -/
def Event.line (event : Event) : String := "INFO " ++ event.message

/-- A text whose lines behind the first one are set off. -/
def hanging (indent text : String) : String :=
  String.ofList (text.toList.flatMap fun c => if c = '\n' then c :: indent.toList else [c])

/-- A number set off to the right in five places. -/
def placed (n : Nat) : String :=
  let digits := toString n
  String.ofList (List.replicate (5 - digits.length) ' ') ++ digits

/-- Causes from number `n` on, one after the other. -/
def numbered (n : Nat) : List String → List String
  | [] => []
  | cause :: rest => (placed n ++ ": " ++ hanging "       " cause) :: numbered (n + 1) rest

/-- A failure with its causes.  They are numbered if there is more than one. -/
def failureText : List String → String
  | [] => "Error: "
  | [outermost] => "Error: " ++ outermost
  | [outermost, cause] =>
    "Error: " ++ outermost ++ "\n\nCaused by:\n    " ++ hanging "    " cause
  | outermost :: causes =>
    "Error: " ++ outermost ++ "\n\nCaused by:\n" ++ "\n".intercalate (numbered 0 causes)

/-- The outcome of a run. -/
structure Outcome where
  code : Nat
  /-- What is written to standard output. -/
  output : String
  events : List Event
  /-- The wording of a failure, followed by that of its causes. -/
  failure : Option (List String)
  /-- The disk afterwards. -/
  disk : Disk

namespace Outcome

/-- The outcome of a run that went well. -/
def success (disk : Disk) (output : String) : Outcome := ⟨0, output, [], none, disk⟩

/-- The outcome of a run that failed. -/
def failed (disk : Disk) (events : List Event) (chain : List String) : Outcome :=
  ⟨1, "", events, some chain, disk⟩

end Outcome

end ImportLint.Command
