import ImportLint.Decode.Error
import ImportLint.Json.Reader
import ImportLint.Report

/-!
Reports as JSON: `Report.toJson` writes one, `Report.ofJsonText` reads one back.  A record may also be
read from the list of its fields, unknown fields are skipped, and the first complaint in the order of
the text is the one reported.
-/

namespace ImportLint

/-- Why a text does not hold a report. -/
inductive Report.ReadError where
  /-- The text is no JSON. -/
  | notJson
  /-- The text is JSON, but not a report. -/
  | shape (cause : Decode.Error)
  deriving DecidableEq, Repr

namespace Report

/-- The result of reading. -/
abbrev Reading (α : Type) := Except ReadError α

/-- The numbers that a count can hold. -/
def countEnd : Nat := Nat.pow 2 64

/-- What a JSON value is, for a message about its type; `none` for what is no JSON. -/
def found? : Json → Option Decode.Found
  | .null => some .null
  | .boolean value => some (.boolean value)
  | .text value => some (.text value)
  | .array _ => some .sequence
  | .object _ => some .map
  | .brokenText => none
  | .cut => none
  | .number value =>
    if value.whole ∧ !value.literal.negative ∧ value.literal.digits < countEnd then
      some (.integer value.literal.digits)
    else if value.whole ∧ value.literal.negative ∧ value.literal.digits ≠ 0
        ∧ value.literal.digits ≤ Nat.pow 2 63 then
      some (.integer (-(value.literal.digits : Int)))
    else
      match value.literal.nearest with
      | .infinite _ => none
      | near => some (.floating (Decimal.Notation.scientific.text near))

/-- The complaint that a value has the wrong type. -/
def wrongType (value : Json) (expected : String) : Reading α :=
  match found? value with
  | some found => .error (.shape (.invalidType found expected))
  | none => .error .notJson

/-- Reads a text. -/
def readText (expected : String) : Json → Reading String
  | .text value => .ok value
  | value => wrongType value expected

/-- Reads a count. -/
def readCount (value : Json) : Reading Nat :=
  match found? value with
  | some (.integer (.ofNat n)) => .ok n
  | some (.integer n) => .error (.shape (.invalidValue (.integer n) "usize"))
  | _ => wrongType value "usize"

/-- Reads one of several names, which may also be the only key of an object that holds nothing. -/
def readChoice (ofName? : String → Option α) (names : List String) : Json → Reading α
  | .text name =>
    match ofName? name with
    | some choice => .ok choice
    | none => .error (.shape (.unknownVariant name names))
  | .object ((name, value) :: rest) =>
    if name = "" ∧ !value.isComplete then .error .notJson
    else
      match ofName? name with
      | none => .error (.shape (.unknownVariant name names))
      | some choice =>
        match value with
        | .null => if rest.isEmpty then .ok choice else .error .notJson
        | value => wrongType value "unit"
  | _ => .error .notJson

/-- Reads the items of a list in order. -/
def readItems (readItem : Json → Reading α) : List Json → Reading (List α)
  | [] => .ok []
  | item :: items =>
    match readItem item with
    | .error cause => .error cause
    | .ok first =>
      match readItems readItem items with
      | .error cause => .error cause
      | .ok rest => .ok (first :: rest)

/-- Reads a list. -/
def readList (readItem : Json → Reading α) : Json → Reading (List α)
  | .array items => readItems readItem items
  | value => wrongType value "a sequence"

/-- Reads a value that may be null. -/
def readOptional (readSome : Json → Reading α) : Json → Reading (Option α)
  | .null => .ok none
  | value => (readSome value).map some

/-- Reads a field that must not have been read before. -/
def readField (name : String) (slot : Option α) (read : Json → Reading α) (value : Json) :
    Reading (Option α) :=
  if slot.isSome then .error (.shape (.duplicateField name)) else (read value).map some

/-- A field that must be there. -/
def required (name : String) : Option α → Reading α
  | some value => .ok value
  | none => .error (.shape (.missingField name))

/-- Skips the value of an unknown field. -/
def skip (value : Json) (draft : α) : Reading α :=
  if value.isComplete then .ok draft else .error .notJson

/-- Reads the members of an object in order into a draft. -/
def readMembers (readMember : α → String → Json → Reading α) (draft : α) :
    List (String × Json) → Reading α
  | [] => .ok draft
  | (name, value) :: members =>
    match readMember draft name value with
    | .error cause => .error cause
    | .ok next => readMembers readMember next members

/-- Reads the fields of a record from the front of a list, in the order of their names. -/
def readFields (readMember : α → String → Json → Reading α) (expected : String) (count : Nat)
    (draft : α) : (names : List String) → (items : List Json) → Reading α
  | [], [] => .ok draft
  | [], _ :: _ => .error .notJson
  | _ :: _, [] => .error (.shape (.invalidLength count expected))
  | name :: names, item :: items =>
    match readMember draft name item with
    | .error cause => .error cause
    | .ok next => readFields readMember expected (count + 1) next names items

/-- Reads a record from an object or from the list of its fields.  `finish` completes a draft that
was read from an object. -/
def readRecord (title : String) (names : List String) (empty : α)
    (readMember : α → String → Json → Reading α) (finish : α → Reading β) : Json → Reading β
  | .object members =>
    match readMembers readMember empty members with
    | .error cause => .error cause
    | .ok draft => finish draft
  | .array items =>
    let expected := "struct " ++ title ++ " with " ++ toString names.length ++ " elements"
    match readFields readMember expected 0 empty names items with
    | .error cause => .error cause
    | .ok draft => finish draft
  | value => wrongType value ("struct " ++ title)

/-- A location of which some fields have been read. -/
structure LocationDraft where
  file : Option String
  line : Option Nat
  column : Option Nat

/-- Reads one field of a location. -/
def LocationDraft.read (draft : LocationDraft) (name : String) (value : Json) :
    Reading LocationDraft :=
  match name with
  | "file" => do
    return { draft with file := ← readField name draft.file (readText "path string") value }
  | "line" => do return { draft with line := ← readField name draft.line readCount value }
  | "column" => do return { draft with column := ← readField name draft.column readCount value }
  | _ => skip value draft

/-- A location all of whose fields have been read. -/
def LocationDraft.finish (draft : LocationDraft) : Reading Location := do
  let file ← required "file" draft.file
  let line ← required "line" draft.line
  let column ← required "column" draft.column
  return ⟨file, line, column⟩

/-- Reads a location. -/
def readLocation : Json → Reading Location :=
  readRecord "Location" ["file", "line", "column"] ⟨none, none, none⟩ LocationDraft.read
    LocationDraft.finish

/-- A violation of which some fields have been read. -/
structure ViolationDraft where
  kind : Option ViolationKind
  code : Option String
  rule : Option String
  severity : Option Severity
  location : Option Location
  message : Option String
  restrictions : Option (Option (List String))
  docRef : Option (Option String)

/-- A violation of which nothing has been read. -/
def ViolationDraft.empty : ViolationDraft := ⟨none, none, none, none, none, none, none, none⟩

/-- Reads one field of a violation. -/
def ViolationDraft.read (draft : ViolationDraft) (name : String) (value : Json) :
    Reading ViolationDraft :=
  match name with
  | "kind" => do
    let read := readChoice ViolationKind.ofName? (ViolationKind.all.map (·.name))
    return { draft with kind := ← readField name draft.kind read value }
  | "code" => do
    return { draft with code := ← readField name draft.code (readText "a string") value }
  | "rule" => do
    return { draft with rule := ← readField name draft.rule (readText "a string") value }
  | "severity" => do
    let read := readChoice Severity.ofName? (Severity.all.map (·.name))
    return { draft with severity := ← readField name draft.severity read value }
  | "location" => do
    return { draft with location := ← readField name draft.location readLocation value }
  | "message" => do
    return { draft with message := ← readField name draft.message (readText "a string") value }
  | "restrictions" => do
    let read := readOptional (readList (readText "a string"))
    return { draft with restrictions := ← readField name draft.restrictions read value }
  | "doc_ref" => do
    let read := readOptional (readText "a string")
    return { draft with docRef := ← readField name draft.docRef read value }
  | _ => skip value draft

/-- A violation all of whose fields have been read; the last two may be missing. -/
def ViolationDraft.finish (draft : ViolationDraft) : Reading Violation := do
  let kind ← required "kind" draft.kind
  let code ← required "code" draft.code
  let rule ← required "rule" draft.rule
  let severity ← required "severity" draft.severity
  let location ← required "location" draft.location
  let message ← required "message" draft.message
  return ⟨kind, code, rule, severity, location, message, draft.restrictions.getD none,
    draft.docRef.getD none⟩

/-- Reads a violation. -/
def readViolation : Json → Reading Violation :=
  readRecord "Violation"
    ["kind", "code", "rule", "severity", "location", "message", "restrictions", "doc_ref"]
    ViolationDraft.empty ViolationDraft.read ViolationDraft.finish

/-- A report of which some fields have been read. -/
structure Draft where
  violations : Option (List Violation)
  filesChecked : Option Nat

/-- Reads one field of a report. -/
def Draft.read (draft : Draft) (name : String) (value : Json) : Reading Draft :=
  match name with
  | "violations" => do
    let read := readList readViolation
    return { draft with violations := ← readField name draft.violations read value }
  | "files_checked" => do
    return { draft with filesChecked := ← readField name draft.filesChecked readCount value }
  | _ => skip value draft

/-- A report all of whose fields have been read. -/
def Draft.finish (draft : Draft) : Reading Report := do
  let violations ← required "violations" draft.violations
  let filesChecked ← required "files_checked" draft.filesChecked
  return ⟨violations, filesChecked⟩

/-- Reads a report from a JSON value. -/
def ofJson : Json → Reading Report :=
  readRecord "LintResult" ["violations", "files_checked"] ⟨none, none⟩ Draft.read Draft.finish

/-- Reads a report from a whole text. -/
def ofJsonText (text : String) : Reading Report :=
  let (value, clean) := Json.read text.toList
  match ofJson value with
  | .error cause => .error cause
  | .ok report => if clean then .ok report else .error .notJson

end Report

/-- A location as JSON. -/
def Location.toJson (location : Location) : Json :=
  .object
    [("file", .text location.file), ("line", .ofNat location.line),
      ("column", .ofNat location.column)]

/-- A violation as JSON; what it does not have is left out. -/
def Violation.toJson (violation : Violation) : Json :=
  .object
    ([("kind", .text violation.kind.name), ("code", .text violation.code),
        ("rule", .text violation.rule), ("severity", .text violation.severity.name),
        ("location", violation.location.toJson), ("message", .text violation.message)]
      ++ (match violation.restrictions with
        | some patterns => [("restrictions", .array (patterns.map .text))]
        | none => [])
      ++ match violation.docRef with
        | some reference => [("doc_ref", .text reference)]
        | none => [])

/-- A report as JSON. -/
def Report.toJson (report : Report) : Json :=
  .object
    [("violations", .array (report.violations.map Violation.toJson)),
      ("files_checked", .ofNat report.filesChecked)]

end ImportLint
