import ImportLint.Decimal.Notation
import ImportLint.Text.Quoted

/-!
JSON values and their indented text.
-/

namespace ImportLint

/-- A JSON number as written. -/
structure Json.Number where
  literal : Decimal.Literal
  /-- Whether it has neither a point nor an exponent. -/
  whole : Bool
  deriving DecidableEq, Repr

/-- A JSON value, as far as a text holds one. -/
inductive Json where
  | null
  | boolean (value : Bool)
  | number (value : Json.Number)
  | text (value : String)
  /-- A string that holds half of a surrogate pair, so that it is no text. -/
  | brokenText
  | array (items : List Json)
  /-- An object with its members in order, repeated keys included. -/
  | object (members : List (String × Json))
  /-- The place where a text stops being JSON; nothing behind it is read. -/
  | cut
  deriving Repr

namespace Json

/-- A natural number. -/
def ofNat (n : Nat) : Json := .number ⟨⟨false, n, 0⟩, true⟩

/-- One character of a JSON string. -/
def escapeChar (c : Char) : List Char :=
  if c = '"' then ['\\', '"']
  else if c = '\\' then ['\\', '\\']
  else if c = '\n' then ['\\', 'n']
  else if c = '\r' then ['\\', 'r']
  else if c = '\t' then ['\\', 't']
  else if c.toNat = 8 then ['\\', 'b']
  else if c.toNat = 12 then ['\\', 'f']
  else if c.toNat < 32 then
    ['\\', 'u', '0', '0', Nat.digitChar (c.toNat / 16), Nat.digitChar (c.toNat % 16)]
  else [c]

/-- A JSON string. -/
def writeText (text : String) : List Char :=
  '"' :: text.toList.flatMap escapeChar ++ ['"']

/-- A JSON number. -/
def Number.write (number : Number) : List Char :=
  (if number.literal.negative then ['-'] else []) ++ Nat.toDigits 10 number.literal.digits
    ++ (if number.literal.place = 0 then [] else 'e' :: (toString number.literal.place).toList)

/-- A new line, indented by two blanks for each level. -/
def newLine (level : Nat) : List Char :=
  '\n' :: List.replicate (2 * level) ' '

mutual

/-- The text of a value at a level of indentation. -/
def write (level : Nat) : Json → List Char
  | .null => ['n', 'u', 'l', 'l']
  | .boolean true => ['t', 'r', 'u', 'e']
  | .boolean false => ['f', 'a', 'l', 's', 'e']
  | .number value => value.write
  | .text value => writeText value
  | .brokenText => []
  | .cut => []
  | .array [] => ['[', ']']
  | .array (item :: items) =>
    '[' :: newLine (level + 1) ++ write (level + 1) item ++ writeItems (level + 1) items
      ++ newLine level ++ [']']
  | .object [] => ['{', '}']
  | .object ((key, value) :: members) =>
    '{' :: newLine (level + 1) ++ writeText key ++ [':', ' '] ++ write (level + 1) value
      ++ writeMembers (level + 1) members ++ newLine level ++ ['}']

/-- The items behind the first one, each on a line of its own. -/
def writeItems (level : Nat) : List Json → List Char
  | [] => []
  | item :: items => ',' :: newLine level ++ write level item ++ writeItems level items

/-- The members behind the first one, each on a line of its own. -/
def writeMembers (level : Nat) : List (String × Json) → List Char
  | [] => []
  | (key, value) :: members =>
    ',' :: newLine level ++ writeText key ++ [':', ' '] ++ write level value
      ++ writeMembers level members

end

/-- The indented text of a value. -/
def pretty (value : Json) : String := String.ofList (value.write 0)

end Json

end ImportLint
