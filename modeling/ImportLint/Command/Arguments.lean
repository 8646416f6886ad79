import ImportLint.Report.Text

/-!
The arguments of the program.  They are read from left to right; some options belong to the program
and stand before or behind the name of a command, the others belong to one command.  What is wrong
first decides, and so does a question for the version or for help.
-/

namespace ImportLint.Command

/-- What the environment says. -/
structure Environment where
  /-- The home directory. -/
  home : Option String
  /-- A configuration, which an option goes before. -/
  config : Option String
  /-- The directory of the configuration that is kept for all projects. -/
  configDirectory : Option String
  deriving DecidableEq, Repr

/-- What the program is to do. -/
inductive Task where
  | check (path : String) (format : OutputFormat) (exclude : List String)
  | listPolicies (file : Option String)
  | writeTemplate (force : Bool)
  deriving DecidableEq, Repr

/-- What the arguments say. -/
structure Request where
  task : Task
  config : Option String
  deriving DecidableEq, Repr

/-- Why the arguments give nothing to do. -/
inductive Stop where
  | usage
  | version
  | help
  deriving DecidableEq, Repr

/-- The parts of a command line: the front, and what is behind the name of a command. -/
inductive Part where
  | front
  | check
  | listPolicies
  | init
  deriving DecidableEq, Repr

/-- The commands by their names. -/
def commands : List (String × Part) :=
  [("check", .check), ("list-policies", .listPolicies), ("init", .init)]

/-- Options that stand alone. -/
inductive Switch where
  | verbose
  | force
  | version
  | help
  deriving DecidableEq, Repr

/-- Options with a value. -/
inductive Setting where
  | config
  | format
  | exclude
  deriving DecidableEq, Repr

/-- An option and its names; not every one has a short name. -/
structure Flag where
  short : Option Char
  long : String
  kind : Switch ⊕ Setting

/-- The options that can stand in every part. -/
def sharedFlags : List Flag :=
  [⟨some 'v', "verbose", .inl .verbose⟩, ⟨some 'c', "config", .inr .config⟩,
    ⟨some 'h', "help", .inl .help⟩]

/-- The options that can stand in one part. -/
def Part.flags : Part → List Flag
  | .front => ⟨some 'V', "version", .inl .version⟩ :: sharedFlags
  | .check =>
    ⟨some 'f', "format", .inr .format⟩ :: ⟨some 'e', "exclude", .inr .exclude⟩ :: sharedFlags
  | .listPolicies => sharedFlags
  | .init => ⟨none, "force", .inl .force⟩ :: sharedFlags

/-- The option of a short name. -/
def Part.shortOption? (part : Part) (name : Char) : Option (Switch ⊕ Setting) :=
  (part.flags.find? fun flag => flag.short = some name).map Flag.kind

/-- The option of a long name. -/
def Part.longOption? (part : Part) (name : List Char) : Option (Switch ⊕ Setting) :=
  (part.flags.find? fun flag => flag.long.toList = name).map Flag.kind

/-- Whether one argument that is no option can stand in a part. -/
def Part.hasOperand : Part → Bool
  | .check => true
  | .listPolicies => true
  | _ => false

/-- What one part says. -/
structure Given where
  verbose : Bool
  force : Bool
  config : Option String
  format : Option OutputFormat
  exclude : List String
  operand : Option String
  deriving DecidableEq, Repr

namespace Given

/-- A part that says nothing. -/
def nothing : Given := ⟨false, false, none, none, [], none⟩

/-- Reads an option that stands alone, which can be said once. -/
def turnOn (given : Given) : Switch → Except Stop Given
  | .verbose => if given.verbose then .error .usage else .ok { given with verbose := true }
  | .force => if given.force then .error .usage else .ok { given with force := true }
  | .version => .error .version
  | .help => .error .help

/-- Reads an option with its value.  Only globs to exclude can be given again, and a path is not
empty. -/
def put (given : Given) (value : String) : Setting → Except Stop Given
  | .config =>
    if given.config.isSome ∨ value = "" then .error .usage
    else .ok { given with config := some value }
  | .format =>
    if given.format.isSome then .error .usage
    else
      match OutputFormat.ofName? value with
      | some format => .ok { given with format := some format }
      | none => .error .usage
  | .exclude => .ok { given with exclude := given.exclude ++ [value] }

/-- Reads an argument that is no option. -/
def putOperand (given : Given) (part : Part) (value : String) : Except Stop Given :=
  if !part.hasOperand ∨ given.operand.isSome ∨ value = "" then .error .usage
  else .ok { given with operand := some value }

/-- Reads arguments none of which is an option. -/
def putOperands (given : Given) (part : Part) : List String → Except Stop Given
  | [] => .ok given
  | value :: rest => do (← given.putOperand part value).putOperands part rest

end Given

/-- Whether an argument can be the value of the option before it. -/
def isValue (argument : String) : Bool :=
  argument.toList.head? != some '-' || argument == "-"

/-- An option read, and the setting whose value is to come, if any. -/
abbrev Step := Except Stop (Given × Option Setting)

/-- Reads short options that stand together.  A value can stand right behind its option, and `=`
between them. -/
def readShort (part : Part) (given : Given) : List Char → Step
  | [] => .ok (given, none)
  | c :: rest =>
    match part.shortOption? c with
    | none => .error .usage
    | some (.inl switch) => do readShort part (← given.turnOn switch) rest
    | some (.inr setting) =>
      match rest with
      | [] => .ok (given, some setting)
      | '=' :: value => do return (← given.put (String.ofList value) setting, none)
      | value => do return (← given.put (String.ofList value) setting, none)

/-- Reads a long option, whose value can stand behind `=`. -/
def readLong (part : Part) (given : Given) (text : List Char) : Step :=
  let name := text.takeWhile (· ≠ '=')
  let value? := if text.contains '=' then some (text.drop (name.length + 1)) else none
  match part.longOption? name, value? with
  | some (.inl switch), none => do return (← given.turnOn switch, none)
  | some (.inr setting), none => .ok (given, some setting)
  | some (.inr setting), some value => do return (← given.put (String.ofList value) setting, none)
  | _, _ => .error .usage

/-- What a part says, and the part behind it with its arguments. -/
abbrev Reading := Except Stop (Given × Option (Part × List String))

/-- What becomes of an argument of the front that is no option: the name of a command, or a question
for help about commands. -/
def readCommand (given : Given) (name : String) (rest : List String) : Reading :=
  match commands.lookup name with
  | some part => .ok (given, some (part, rest))
  | none =>
    match name, rest with
    | "help", [] => .error .help
    | "help", [about] =>
      if (commands.lookup about).isSome ∨ about = "help" then .error .help else .error .usage
    | _, _ => .error .usage

/-- Reads the arguments of a part.  `pending` is the setting whose value is to come. -/
def readPart (part : Part) (given : Given) (pending : Option Setting) : List String → Reading
  | [] => if pending.isSome then .error .usage else .ok (given, none)
  | argument :: rest =>
    match pending with
    | some setting =>
      if isValue argument then do readPart part (← given.put argument setting) none rest
      else .error .usage
    | none =>
      match argument.toList with
      | ['-', '-'] => do return (← given.putOperands part rest, none)
      | '-' :: '-' :: text => do
        let (given, pending) ← readLong part given text
        readPart part given pending rest
      | '-' :: c :: text => do
        let (given, pending) ← readShort part given (c :: text)
        readPart part given pending rest
      | _ =>
        if part = .front then readCommand given argument rest
        else do readPart part (← given.putOperand part argument) none rest

/-- The configuration that is named.  The option behind the command goes before the one in front of
it, and both before the environment, which is looked at where an option is missing. -/
def namedConfig (environment : Environment) (front back : Given) : Except Stop (Option String) :=
  if environment.config = some "" ∧ (front.config.isNone ∨ back.config.isNone) then .error .usage
  else .ok ((back.config.or front.config).or environment.config)

/-- The task of a command. -/
def Part.task (given : Given) : Part → Except Stop Task
  | .front => .error .usage
  | .check =>
    .ok (.check (given.operand.getD ".") (given.format.getD .text) given.exclude)
  | .listPolicies => .ok (.listPolicies given.operand)
  | .init => .ok (.writeTemplate given.force)

/-- Reads the arguments of the program. -/
def Request.read (environment : Environment) (arguments : List String) : Except Stop Request := do
  match ← readPart .front .nothing none arguments with
  | (_, none) => .error .usage
  | (front, some (part, rest)) =>
    let (back, _) ← readPart part .nothing none rest
    let config ← namedConfig environment front back
    return ⟨← part.task back, config⟩

end ImportLint.Command
