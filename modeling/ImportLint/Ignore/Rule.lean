import ImportLint.Disk
import ImportLint.Glob.Pattern
import ImportLint.Text.WhiteSpace

/-!
Rules of ignore files.  A line is a glob that leaves files and directories out, or takes them back in
where it starts with `!`.  A glob without a slash speaks about names at any depth, one with a slash
about paths from the directory of the file on, and a slash at its end confines it to directories.
-/

namespace ImportLint.Ignore

/-- What a rule says about a path that it matches. -/
inductive Verdict where
  | leftOut
  | takenIn
  deriving DecidableEq, Repr

/-- A rule of an ignore file. -/
structure Rule where
  glob : Glob
  verdict : Verdict
  /-- Whether the rule is about directories alone. -/
  onlyDirectories : Bool

/-- A line without the marks that are no part of its glob. -/
structure Line where
  text : List Char
  verdict : Verdict
  /-- Whether a slash stood in front. -/
  anchored : Bool
  onlyDirectories : Bool

namespace Line

/-- Reads the marks in front.  A backslash keeps `!` and `#` from being ones. -/
def ofFront : List Char → Line
  | '\\' :: '!' :: rest => ⟨'!' :: rest, .leftOut, false, false⟩
  | '\\' :: '#' :: rest => ⟨'#' :: rest, .leftOut, false, false⟩
  | '!' :: '/' :: rest => ⟨rest, .takenIn, true, false⟩
  | '!' :: rest => ⟨rest, .takenIn, false, false⟩
  | '/' :: rest => ⟨rest, .leftOut, true, false⟩
  | text => ⟨text, .leftOut, false, false⟩

/-- Reads the slash at the end, which goes together with a backslash that keeps it from being one. -/
def readEnd (line : Line) : Line :=
  match line.text.reverse with
  | '/' :: '\\' :: rest => { line with text := rest.reverse, onlyDirectories := true }
  | '/' :: rest => { line with text := rest.reverse, onlyDirectories := true }
  | _ => line

/-- The marks of a line read off. -/
def read (text : List Char) : Line := (ofFront text).readEnd

/-- The front of a glob for names at any depth. -/
def anyDepth : List Char := ['*', '*', '/']

/-- The end of a glob for everything in a directory. -/
def everythingIn : List Char := ['/', '*', '*']

/-- The glob of a line. -/
def glob (line : Line) : List Char :=
  let deep :=
    if !line.anchored ∧ !line.text.contains '/' ∧ line.text ≠ ['*', '*'] then
      anyDepth ++ line.text
    else line.text
  if everythingIn.isSuffixOf deep then deep ++ ['/', '*'] else deep

end Line

/-- A line without its blanks at the end, of which a backslash keeps the last one. -/
def trimmed (text : List Char) : List Char :=
  if ['\\', ' '].isSuffixOf text then text else Text.trimEnd text

/-- The rule of a line, if there is one: an empty line and one that starts with `#` say nothing. -/
def Rule.ofLine? (text : List Char) : Except Glob.Error (Option Rule) :=
  if text.head? = some '#' then .ok none
  else
    let text := trimmed text
    if text = [] then .ok none
    else
      let line := Line.read text
      match Glob.parse true line.glob with
      | .error fault => .error ⟨String.ofList text, fault⟩
      | .ok tokens =>
        .ok (some ⟨⟨String.ofList line.glob, Glob.lower .component tokens⟩, line.verdict,
          line.onlyDirectories⟩)

/-- What can be wrong with a line. -/
inductive LineFault where
  | badGlob (cause : Glob.Error)
  /-- The line is no text; nothing behind it is read. -/
  | notText
  deriving DecidableEq, Repr

/-- The wording of a fault. -/
def LineFault.message : LineFault → String
  | .badGlob cause => cause.message
  | .notText => DiskFault.message .notText

/-- An ignore file that has been read: its rules in order, and its faults by the numbers of their
lines. -/
structure RuleList where
  rules : List Rule
  faults : List (Nat × LineFault)

/-- Bytes cut behind every byte that ends a line, which is left out. -/
def splitLines : List UInt8 → List (List UInt8)
  | [] => [[]]
  | byte :: rest =>
    if byte = 10 then [] :: splitLines rest
    else
      match splitLines rest with
      | [] => [[byte]]
      | line :: lines => (byte :: line) :: lines

/-- A line without the carriage return at its end. -/
def withoutReturn (line : List Char) : List Char :=
  if line.getLast? = some '\r' then line.dropLast else line

/-- Reads lines from number `number` on. -/
def RuleList.ofLines (number : Nat) : List (List UInt8) → RuleList
  | [] => ⟨[], []⟩
  | bytes :: rest =>
    match String.fromUTF8? ⟨bytes.toArray⟩ with
    | none => ⟨[], [(number, .notText)]⟩
    | some text =>
      let chars := withoutReturn text.toList
      let chars := if number = 1 then chars.dropWhile (· = Char.ofNat 0xFEFF) else chars
      let later := ofLines (number + 1) rest
      match Rule.ofLine? chars with
      | .error cause => { later with faults := (number, .badGlob cause) :: later.faults }
      | .ok none => later
      | .ok (some rule) => { later with rules := rule :: later.rules }

/-- Reads an ignore file. -/
def RuleList.ofBytes (bytes : ByteArray) : RuleList := ofLines 1 (splitLines bytes.data.toList)

/-- The faults that are told.  A file that is no text ends early, and that alone is not told. -/
def RuleList.toldFaults (list : RuleList) : List (Nat × LineFault) :=
  match list.faults with
  | [(_, .notText)] => []
  | faults => faults

end ImportLint.Ignore
