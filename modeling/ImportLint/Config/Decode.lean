import ImportLint.Config
import ImportLint.Decode.Error
import ImportLint.Toml.Document
import ImportLint.Toml.Excerpt

/-!
Configurations from TOML documents.  The entries of a document are decoded in their order, and the
first complaint is reported, with the stretch of the text that it is about.  Keys that are not known
are skipped, and keys that are not there leave the default.
-/

namespace ImportLint

namespace Config

open ImportLint.Toml

/-- A complaint, and the stretch of the text that it is about. -/
structure Fault where
  cause : Decode.Error
  span : Option Span
  deriving DecidableEq, Repr

/-- The result of decoding. -/
abbrev Decoded (α : Type) := Except Fault α

/-- A complaint about an item. -/
def complain (item : Item) (cause : Decode.Error) : Decoded α :=
  .error ⟨cause, item.span?⟩

/-- Gives a complaint that is about no stretch yet the stretch of what is around it. -/
def within (span : Option Span) : Decoded α → Decoded α
  | .ok value => .ok value
  | .error fault => .error { fault with span := fault.span.or span }

/-- What an item is, for a message about its type. -/
def found : Item → Decode.Found
  | .scalar _ (.text value) => .text value
  | .scalar _ (.integer value) => .integer value
  | .scalar _ (.floating value) => .floating (Decimal.Notation.plain.text value)
  | .scalar _ (.boolean value) => .boolean value
  | .scalar _ .moment => .map
  | .array _ _ => .sequence
  | .table _ _ _ => .map
  | .tables _ => .sequence

/-- The complaint that an item has the wrong type. -/
def wrongType (item : Item) (expected : String) : Decoded α :=
  complain item (.invalidType (found item) expected)

/-- Decodes a text. -/
def decodeText (expected : String) : Item → Decoded String
  | .scalar _ (.text value) => .ok value
  | item => wrongType item expected

/-- Decodes a truth value. -/
def decodeFlag : Item → Decoded Bool
  | .scalar _ (.boolean value) => .ok value
  | item => wrongType item "a boolean"

/-- Decodes items in order. -/
def decodeItems (decode : Item → Decoded α) : List Item → Decoded (List α)
  | [] => .ok []
  | item :: items => do
    let first ← decode item
    let rest ← decodeItems decode items
    return first :: rest

/-- Decodes a list. -/
def decodeList (decode : Item → Decoded α) : Item → Decoded (List α)
  | .array _ items => decodeItems decode items
  | .tables items => decodeItems decode items
  | item => wrongType item "a sequence"

/-- What a scalar is called where a table was expected. -/
def scalarName : Scalar → String
  | .text _ => "string"
  | .integer _ => "integer"
  | .floating _ => "float"
  | .boolean _ => "boolean"
  | .moment => "datetime"

/-- Decodes what stands behind the name of a choice in a table, which is nothing. -/
def decodeNothing : Item → Decoded Unit
  | .table _ _ [] => .ok ()
  | .array _ [] => .ok ()
  | .tables [] => .ok ()
  | .table span form entries => complain (.table span form entries) (.choiceNotEmpty "table")
  | .scalar span value => complain (.scalar span value) (.choiceWithContent (scalarName value))
  | item => complain item (.choiceNotEmpty "array")

/-- The severity of a name. -/
def severityOf (name : String) (span : Option Span) : Decoded Severity :=
  match Severity.ofName? name with
  | some severity => .ok severity
  | none => .error ⟨.unknownVariant name (Severity.all.map (·.name)), span⟩

/-- Decodes a severity, which is a name or a table with the name as its only key. -/
def decodeSeverity : Item → Decoded Severity
  | .scalar span (.text name) => severityOf name (some span)
  | .table _ _ [(key, value)] => do
    let severity ← severityOf key.name (some key.span)
    decodeNothing value
    return severity
  | .table span form [] => complain (.table span form []) .choiceWithoutKey
  | .table span form entries => complain (.table span form entries) .choiceWithManyKeys
  | item => complain item .notAChoice

/-- Decodes entries in order into a draft. -/
def decodeEntries (decode : α → String → Item → Decoded α) (draft : α) :
    List Entry → Decoded α
  | [] => .ok draft
  | (key, item) :: entries => do
    let next ← within (item.span?.or (some key.span)) (decode draft key.name item)
    decodeEntries decode next entries

/-- Decodes the fields of a record from the front of a list, in the order of their names.  The list
may be shorter or longer; the answer tells how many fields there were. -/
def decodeFields (decode : α → String → Item → Decoded α) (draft : α) (count : Nat) :
    (names : List String) → List Item → Decoded (α × Nat)
  | name :: names, item :: items => do
    let next ← within item.span? (decode draft name item)
    decodeFields decode next (count + 1) names items
  | _, _ => .ok (draft, count)

/-- Decodes one field of the file settings. -/
def decodeFileSetting (settings : FileSettings) (name : String) (item : Item) :
    Decoded FileSettings :=
  match name with
  | "root" => do return { settings with root := ← decodeText "path string" item }
  | "exclude" => do
    return { settings with exclude := ← decodeList (decodeText "a string") item }
  | "respect_gitignore" => do return { settings with respectGitignore := ← decodeFlag item }
  | _ => .ok settings

/-- The names of the file settings. -/
def fileSettingNames : List String := ["root", "exclude", "respect_gitignore"]

/-- Decodes file settings, from a table or from the list of their fields. -/
def decodeFileSettings (item : Item) : Decoded FileSettings :=
  let ofList (items : List Item) : Decoded FileSettings := do
    let (settings, _) ← decodeFields decodeFileSetting .default 0 fileSettingNames items
    return settings
  match item with
  | .table _ _ entries => decodeEntries decodeFileSetting .default entries
  | .array _ items => ofList items
  | .tables items => ofList items
  | .scalar _ .moment => .ok .default
  | item => wrongType item "struct AnalyzerConfig"

/-- Decodes the restrictions of a policy: one text, or a list of texts. -/
def decodeRestrictions (item : Item) : Decoded (List String) :=
  match item with
  | .scalar _ (.text pattern) => .ok [pattern]
  | item =>
    match decodeList (decodeText "a string") item with
    | .ok patterns => .ok patterns
    | .error _ => complain item (.noShapeFits "OneOrMany")

/-- A policy of which some fields have been decoded. -/
structure PolicyDraft where
  target : Option String
  restrictions : Option (List String)

/-- Decodes one field of a policy. -/
def decodePolicyField (draft : PolicyDraft) (name : String) (item : Item) :
    Decoded PolicyDraft :=
  match name with
  | "target" => do return { draft with target := some (← decodeText "a string" item) }
  | "restrictions" => do return { draft with restrictions := some (← decodeRestrictions item) }
  | _ => .ok draft

/-- A policy all of whose fields have been decoded. -/
def PolicyDraft.finish (draft : PolicyDraft) : Except Decode.Error PolicyEntry :=
  match draft.target, draft.restrictions with
  | some target, some restrictions => .ok ⟨target, restrictions⟩
  | none, _ => .error (.missingField "target")
  | some _, none => .error (.missingField "restrictions")

/-- The names of the fields of a policy. -/
def policyFieldNames : List String := ["target", "restrictions"]

/-- Decodes a policy, from a table or from the list of its fields. -/
def decodePolicy (item : Item) : Decoded PolicyEntry :=
  let finish (draft : PolicyDraft) : Decoded PolicyEntry :=
    match draft.finish with
    | .ok entry => .ok entry
    | .error cause => complain item cause
  let ofList (items : List Item) : Decoded PolicyEntry := do
    let (draft, count) ← decodeFields decodePolicyField ⟨none, none⟩ 0 policyFieldNames items
    match draft.finish with
    | .ok entry => return entry
    | .error _ =>
      complain item (.invalidLength count "struct PolicyEntry with 2 elements")
  match item with
  | .table _ _ entries => do finish (← decodeEntries decodePolicyField ⟨none, none⟩ entries)
  | .array _ items => ofList items
  | .tables items => ofList items
  | .scalar _ .moment => finish ⟨none, none⟩
  | item => wrongType item "struct PolicyEntry"

/-- Decodes one field of a configuration. -/
def decodeField (config : Config) (name : String) (item : Item) : Decoded Config :=
  match name with
  | "severity" => do return { config with severity := ← decodeSeverity item }
  | "docs" => do return { config with docs := some (← decodeText "a string" item) }
  | "fail_on_parse_error" => do return { config with failOnParseError := ← decodeFlag item }
  | "analyzer" => do return { config with analyzer := ← decodeFileSettings item }
  | "policies" => do return { config with policies := ← decodeList decodePolicy item }
  | _ => .ok config

/-- Decodes the entries of a document. -/
def decode (entries : List Entry) : Decoded Config :=
  decodeEntries decodeField .default entries

/-- Why a text is no configuration. -/
inductive ParseError where
  /-- The text is no TOML. -/
  | notToml
  /-- The text is TOML, but a part of it is not what it should be. -/
  | shape (text : String) (fault : Fault)
  deriving DecidableEq, Repr

/-- The wording of a failure. -/
def ParseError.message : ParseError → String
  | .notToml => "Failed to parse config: TOML parse error"
  | .shape text fault =>
    "Failed to parse config: "
      ++ match fault.span with
        | some span => excerpt text.toList span fault.cause.message
        | none => fault.cause.message ++ "\n"

/-- Reads a configuration. -/
def parse (text : String) : Except ParseError Config :=
  match Toml.parse text with
  | some (.table _ _ entries) =>
    match decode entries with
    | .ok config => .ok config
    | .error fault => .error (.shape text fault)
  | _ => .error .notToml

end Config

end ImportLint
