import ImportLint.Json.Value

/-!
Reading JSON.  A text that is no JSON is read as far as it is: the value then ends in `Json.cut`, so
that a decoder that walks it in order meets its own complaints and the end of the text in the order
in which they stand.
-/

namespace ImportLint.Json

/-- A blank between tokens. -/
def isBlank (c : Char) : Bool := c == ' ' || c == '\n' || c == '\t' || c == '\r'

/-- The text behind leading blanks. -/
def skipBlanks (source : List Char) : List Char := source.dropWhile isBlank

/-- The value of a hexadecimal digit. -/
def hexValue? (c : Char) : Option Nat :=
  if '0' ≤ c ∧ c ≤ '9' then some (c.toNat - '0'.toNat)
  else if 'a' ≤ c ∧ c ≤ 'f' then some (c.toNat - 'a'.toNat + 10)
  else if 'A' ≤ c ∧ c ≤ 'F' then some (c.toNat - 'A'.toNat + 10)
  else none

/-- The value of four hexadecimal digits. -/
def hexValue4? (a b c d : Char) : Option Nat := do
  let a ← hexValue? a
  let b ← hexValue? b
  let c ← hexValue? c
  let d ← hexValue? d
  return ((a * 16 + b) * 16 + c) * 16 + d

/-- The character of a one-letter escape. -/
def unescape? (c : Char) : Option Char :=
  if c = '"' ∨ c = '\\' ∨ c = '/' then some c
  else if c = 'b' then some (Char.ofNat 8)
  else if c = 'f' then some (Char.ofNat 12)
  else if c = 'n' then some '\n'
  else if c = 'r' then some '\r'
  else if c = 't' then some '\t'
  else none

/-- Whether a number is the first half of a surrogate pair. -/
def isHighHalf (n : Nat) : Bool := 0xD800 ≤ n && n < 0xDC00

/-- Whether a number is the second half of a surrogate pair. -/
def isLowHalf (n : Nat) : Bool := 0xDC00 ≤ n && n < 0xE000

/-- What has been read of a string. -/
structure TextState where
  /-- The characters, the latest first. -/
  chars : List Char
  /-- Whether all of them are characters, and not halves of them. -/
  whole : Bool
  /-- The half of a pair that still waits for the other one. -/
  high : Option Nat

/-- A string of which nothing has been read. -/
def TextState.empty : TextState := ⟨[], true, none⟩

/-- Reads a character; a half that waits stays alone. -/
def TextState.push (state : TextState) (c : Char) : TextState :=
  ⟨c :: state.chars, state.whole && state.high.isNone, none⟩

/-- Reads a number written in an escape. -/
def TextState.pushCode (state : TextState) (n : Nat) : TextState :=
  match state.high with
  | some high =>
    if isLowHalf n then
      ⟨Char.ofNat (0x10000 + (high - 0xD800) * 0x400 + (n - 0xDC00)) :: state.chars,
        state.whole, none⟩
    else ⟨state.chars, false, none⟩
  | none =>
    if isHighHalf n then { state with high := some n }
    else if isLowHalf n then { state with whole := false }
    else state.push (Char.ofNat n)

/-- The string that has been read. -/
def TextState.finish (state : TextState) : Json :=
  if state.whole && state.high.isNone then .text (String.ofList state.chars.reverse)
  else .brokenText

/-- Reads a string behind its opening quote: the string and the text behind it, if it ends. -/
def readText : List Char → TextState → Json × Option (List Char)
  | [], _ => (.cut, none)
  | '"' :: rest, state => (state.finish, some rest)
  | '\\' :: 'u' :: a :: b :: c :: d :: rest, state =>
    match hexValue4? a b c d with
    | some n => readText rest (state.pushCode n)
    | none => (.cut, none)
  | '\\' :: c :: rest, state =>
    match unescape? c with
    | some value => readText rest (state.push value)
    | none => (.cut, none)
  | c :: rest, state =>
    if c.toNat < 32 ∨ c = '\\' then (.cut, none) else readText rest (state.push c)

/-- The number that decimal digits write. -/
def digitsValue (digits : List Char) : Nat :=
  digits.foldl (fun n c => n * 10 + (c.toNat - '0'.toNat)) 0

/-- The digits at the front of a text, and the rest. -/
def takeDigits (source : List Char) : List Char × List Char :=
  (source.takeWhile Char.isDigit, source.dropWhile Char.isDigit)

/-- Reads the exponent of a number, if there is one. -/
def readExponent (source : List Char) : Option (Option Int × List Char) :=
  match source with
  | e :: rest =>
    if e = 'e' ∨ e = 'E' then
      let (negative, rest) :=
        match rest with
        | '-' :: rest => (true, rest)
        | '+' :: rest => (false, rest)
        | rest => (false, rest)
      match takeDigits rest with
      | ([], _) => none
      | (digits, rest) =>
        let value := (digitsValue digits : Int)
        some (some (if negative then -value else value), rest)
    else some (none, source)
  | [] => some (none, [])

/-- Reads a number behind its sign: the number and the text behind it. -/
def readNumber (negative : Bool) (source : List Char) : Json × Option (List Char) :=
  match takeDigits source with
  | ([], _) => (.cut, none)
  | ('0' :: _ :: _, _) => (.cut, none)
  | (whole, rest) =>
    let fraction : Option (Option (List Char) × List Char) :=
      match rest with
      | '.' :: rest =>
        match takeDigits rest with
        | ([], _) => none
        | (digits, rest) => some (some digits, rest)
      | rest => some (none, rest)
    match fraction with
    | none => (.cut, none)
    | some (fraction, rest) =>
      match readExponent rest with
      | none => (.cut, none)
      | some (exponent, rest) =>
        let digits := fraction.getD []
        (.number
          { literal :=
              ⟨negative, digitsValue (whole ++ digits), exponent.getD 0 - (digits.length : Int)⟩
            whole := fraction.isNone && exponent.isNone },
          some rest)

/-- Reads a fixed word. -/
def readWord (word : String) (value : Json) (source : List Char) : Json × Option (List Char) :=
  if word.toList.isPrefixOf source then (value, some (source.drop word.length)) else (.cut, none)

mutual

/-- Reads one value: the value and the text behind it, if it ends.  The fuel bounds the depth and
the length of what is read. -/
def readValue : Nat → List Char → Json × Option (List Char)
  | 0, _ => (.cut, none)
  | fuel + 1, source =>
    match skipBlanks source with
    | [] => (.cut, none)
    | '"' :: rest => readText rest .empty
    | '[' :: rest =>
      match skipBlanks rest with
      | ']' :: rest => (.array [], some rest)
      | rest =>
        let (items, rest) := readItems fuel rest
        (.array items, rest)
    | '{' :: rest =>
      match skipBlanks rest with
      | '}' :: rest => (.object [], some rest)
      | rest =>
        let (members, rest) := readMembers fuel rest
        (.object members, rest)
    | '-' :: rest => readNumber true rest
    | 'n' :: rest => readWord "ull" .null rest
    | 't' :: rest => readWord "rue" (.boolean true) rest
    | 'f' :: rest => readWord "alse" (.boolean false) rest
    | rest => readNumber false rest

/-- Reads the items of an array, of which there is at least one. -/
def readItems : Nat → List Char → List Json × Option (List Char)
  | 0, _ => ([.cut], none)
  | fuel + 1, source =>
    match readValue fuel source with
    | (item, none) => ([item], none)
    | (item, some rest) =>
      match skipBlanks rest with
      | ']' :: rest => ([item], some rest)
      | ',' :: rest =>
        match skipBlanks rest with
        | ']' :: _ => ([item, .cut], none)
        | rest =>
          let (items, rest) := readItems fuel rest
          (item :: items, rest)
      | _ => ([item, .cut], none)

/-- Reads the members of an object, of which there is at least one.  A key that is no text ends the
object like a value that is none. -/
def readMembers : Nat → List Char → List (String × Json) × Option (List Char)
  | 0, _ => ([("", .cut)], none)
  | fuel + 1, source =>
    match skipBlanks source with
    | '"' :: rest =>
      match readText rest .empty with
      | (.text key, some rest) =>
        match skipBlanks rest with
        | ':' :: rest =>
          match readValue fuel rest with
          | (value, none) => ([(key, value)], none)
          | (value, some rest) =>
            match skipBlanks rest with
            | '}' :: rest => ([(key, value)], some rest)
            | ',' :: rest =>
              let (members, rest) := readMembers fuel rest
              ((key, value) :: members, rest)
            | _ => ([(key, value), ("", .cut)], none)
        | _ => ([(key, .cut)], none)
      | _ => ([("", .cut)], none)
    | _ => ([("", .cut)], none)

end

/-- Reads a whole text: its value, and whether nothing but blanks is behind it. -/
def read (source : List Char) : Json × Bool :=
  match readValue (source.length + 1) source with
  | (value, some rest) => (value, (skipBlanks rest).isEmpty)
  | (value, none) => (value, false)

mutual

/-- Whether a value was read to its end. -/
def isComplete : Json → Bool
  | .cut => false
  | .array items => allComplete items
  | .object members => membersComplete members
  | _ => true

/-- Whether all items were read to their end. -/
def allComplete : List Json → Bool
  | [] => true
  | item :: items => item.isComplete && allComplete items

/-- Whether all members were read to their end. -/
def membersComplete : List (String × Json) → Bool
  | [] => true
  | (_, value) :: members => value.isComplete && membersComplete members

end

end ImportLint.Json
