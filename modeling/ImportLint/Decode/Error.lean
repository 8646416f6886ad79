import ImportLint.Text.Quoted

/-!
Failures of decoding: why well-formed data does not have the expected shape.
-/

namespace ImportLint.Decode

/-- What was found in the data, as far as messages tell. -/
inductive Found where
  | null
  | boolean (value : Bool)
  | integer (value : Int)
  /-- A number with a point or an exponent, already written out. -/
  | floating (text : String)
  | text (value : String)
  | sequence
  | map
  deriving DecidableEq, Repr

/-- The wording for what was found. -/
def Found.describe : Found → String
  | .null => "null"
  | .boolean value => "boolean \x60" ++ toString value ++ "\x60"
  | .integer value => "integer \x60" ++ toString value ++ "\x60"
  | .floating digits => "floating point \x60" ++ digits ++ "\x60"
  | .text value => "string " ++ Text.quoted value
  | .sequence => "sequence"
  | .map => "map"

/-- Why data could not be decoded. -/
inductive Error where
  /-- A value of the wrong type. -/
  | invalidType (found : Found) (expected : String)
  /-- A value of the right type out of its range. -/
  | invalidValue (found : Found) (expected : String)
  /-- A record written as a list that is too short. -/
  | invalidLength (length : Nat) (expected : String)
  | missingField (name : String)
  | duplicateField (name : String)
  | unknownVariant (name : String) (expected : List String)
  /-- A value that fits none of several shapes. -/
  | noShapeFits (shapes : String)
  /-- A named choice that is neither a text nor a table. -/
  | notAChoice
  /-- A named choice written as a table without a key. -/
  | choiceWithoutKey
  /-- A named choice written as a table with several keys. -/
  | choiceWithManyKeys
  /-- A named choice with something inside that is no table. -/
  | choiceWithContent (found : String)
  /-- A named choice with a table or an array inside that is not empty. -/
  | choiceNotEmpty (shape : String)
  deriving DecidableEq, Repr

/-- A name between backquotes. -/
def backquoted (name : String) : String := "\x60" ++ name ++ "\x60"

/-- The names that would have been accepted. -/
def oneOf : List String → String
  | [] => "there are no variants"
  | [name] => "expected " ++ backquoted name
  | [first, second] => "expected " ++ backquoted first ++ " or " ++ backquoted second
  | names => "expected one of " ++ ", ".intercalate (names.map backquoted)

/-- The wording of a failure. -/
def Error.message : Error → String
  | .invalidType found expected => "invalid type: " ++ found.describe ++ ", expected " ++ expected
  | .invalidValue found expected =>
    "invalid value: " ++ found.describe ++ ", expected " ++ expected
  | .invalidLength length expected =>
    "invalid length " ++ toString length ++ ", expected " ++ expected
  | .missingField name => "missing field " ++ backquoted name
  | .duplicateField name => "duplicate field " ++ backquoted name
  | .unknownVariant name expected => "unknown variant " ++ backquoted name ++ ", " ++ oneOf expected
  | .noShapeFits shapes => "data did not match any variant of untagged enum " ++ shapes
  | .notAChoice => "wanted string or table"
  | .choiceWithoutKey => "wanted exactly 1 element, found 0 elements"
  | .choiceWithManyKeys => "wanted exactly 1 element, more than 1 element"
  | .choiceWithContent found => "expected table, found " ++ found
  | .choiceNotEmpty shape => "expected empty " ++ shape

end ImportLint.Decode
