import ImportLint.Text.Utf8
import ImportLint.Toml.Item

/-!
The lexical part of TOML: blanks, comments, strings, numbers, dates and keys.
-/

namespace ImportLint.Toml

/-- A place in a text. -/
structure Place where
  offset : Nat
  /-- The text from here on. -/
  rest : List Char

/-- Reads from a place on, or refuses. -/
abbrev Scanner := StateT Place Option

namespace Scanner

/-- Refuses. -/
def refuse : Scanner α := fun _ => none

/-- The text from here on. -/
def rest : Scanner (List Char) := fun place => some (place.rest, place)

/-- The offset of this place. -/
def offset : Scanner Nat := fun place => some (place.offset, place)

/-- The next character, if there is one. -/
def peek? : Scanner (Option Char) := do return (← rest).head?

/-- Moves over characters. -/
def skip (count : Nat) : Scanner Unit := fun place =>
  some ((), ⟨place.offset + count, place.rest.drop count⟩)

/-- Reads one character. -/
def next : Scanner Char := fun place =>
  match place.rest with
  | c :: rest => some (c, ⟨place.offset + 1, rest⟩)
  | [] => none

/-- Reads one character of a class. -/
def oneOf (accepts : Char → Bool) : Scanner Char := do
  let c ← next
  if accepts c then return c else refuse

/-- Reads a given character. -/
def expect (c : Char) : Scanner Unit := do
  let _ ← oneOf (· == c)

/-- Reads the characters of a class at the front. -/
def takeWhile (accepts : Char → Bool) : Scanner (List Char) := fun place =>
  let taken := place.rest.takeWhile accepts
  some (taken, ⟨place.offset + taken.length, place.rest.drop taken.length⟩)

/-- Whether a text stands here. -/
def stands (text : List Char) : Scanner Bool := do return text.isPrefixOf (← rest)

/-- Reads with one scanner, or with another one where the first refuses. -/
def orElse (first second : Scanner α) : Scanner α := fun place =>
  match first place with
  | some result => some result
  | none => second place

/-- Reads what a scanner reads, and where. -/
def spanned (scanner : Scanner α) : Scanner (α × Span) := do
  let start ← offset
  let value ← scanner
  return (value, ⟨start, ← offset⟩)

end Scanner

open Scanner

/-- A blank within a line. -/
def isBlank (c : Char) : Bool := c == ' ' || c == '\t'

/-- A character that may stand in a comment or a text in quotes: no control character but the
tabulator. -/
def isPrintable (c : Char) : Bool := c == '\t' || (0x20 ≤ c.toNat && c.toNat != 0x7F)

/-- Skips blanks within a line. -/
def blanks : Scanner Unit := do
  let _ ← takeWhile isBlank

/-- Reads the end of a line. -/
def lineEnd : Scanner Unit := do
  match ← next with
  | '\n' => return
  | '\r' => expect '\n'
  | _ => refuse

/-- Skips a comment, if one stands here. -/
def comment : Scanner Unit := do
  if (← peek?) == some '#' then
    let _ ← takeWhile isPrintable

/-- Reads the rest of a line that holds nothing more. -/
def lineRest : Scanner Unit := do
  blanks
  comment
  if (← peek?).isSome then lineEnd

/-- Skips blanks, comments and ends of lines. -/
def gapLines : (fuel : Nat) → Scanner Unit
  | 0 => return
  | fuel + 1 => do
    blanks
    comment
    match ← peek? with
    | some '\n' => lineEnd; gapLines fuel
    | some '\r' => lineEnd; gapLines fuel
    | _ => return

/-- Skips blanks, comments and ends of lines. -/
def gaps : Scanner Unit := do gapLines ((← rest).length + 1)

/-- The value of a digit in a base up to sixteen. -/
def digitValue? (base : Nat) (c : Char) : Option Nat :=
  let value :=
    if '0' ≤ c ∧ c ≤ '9' then c.toNat - '0'.toNat
    else if 'a' ≤ c ∧ c ≤ 'f' then c.toNat - 'a'.toNat + 10
    else if 'A' ≤ c ∧ c ≤ 'F' then c.toNat - 'A'.toNat + 10
    else 16
  if value < base then some value else none

/-- The number that digits stand for. -/
def numberOf (base : Nat) (digits : List Char) : Nat :=
  digits.foldl (fun n c => n * base + (digitValue? base c).getD 0) 0

/-- Reads a given number of digits. -/
def digits (base : Nat) (count : Nat) : Scanner Nat := do
  let taken := (← rest).take count
  if taken.length = count ∧ taken.all fun c => (digitValue? base c).isSome then
    skip count
    return numberOf base taken
  else refuse

/-- Reads the character that is written by its code in a given number of digits. -/
def codeEscape (count : Nat) : Scanner Char := do
  let code ← digits 16 count
  if code.isValidChar then return Char.ofNat code else refuse

/-- Reads an escape behind its backslash. -/
def escape : Scanner Char := do
  match ← next with
  | 'b' => return Char.ofNat 8
  | 't' => return '\t'
  | 'n' => return '\n'
  | 'f' => return Char.ofNat 12
  | 'r' => return '\r'
  | '"' => return '"'
  | '\\' => return '\\'
  | 'u' => codeEscape 4
  | 'U' => codeEscape 8
  | _ => refuse

/-- Reads a text in double quotes up to the closing one. -/
def quotedTail : (fuel : Nat) → (chars : List Char) → Scanner (List Char)
  | 0, _ => refuse
  | fuel + 1, chars => do
    let c ← next
    if c = '"' then return chars.reverse
    else if c = '\\' then
      let c ← escape
      quotedTail fuel (c :: chars)
    else if isPrintable c then quotedTail fuel (c :: chars)
    else refuse

/-- Reads a text in single quotes up to the closing one. -/
def literalTail : Scanner (List Char) := do
  let chars ← takeWhile fun c => isPrintable c && c != '\x27'
  expect '\x27'
  return chars

/-- Reads the quotes that may close a text in three quotes, of which up to two more belong to the
text.  The answer is what belongs to the text, and whether it is closed. -/
def closingQuotes (quote : Char) : Scanner (List Char × Bool) := do
  let count := ((← rest).takeWhile (· = quote)).length
  if count < 3 then
    skip count
    return (List.replicate count quote, false)
  else
    skip (min count 5)
    return (List.replicate (min count 5 - 3) quote, true)

/-- Skips the end of a line behind a backslash, and all blanks and ends of lines behind it. -/
def foldedLine : Scanner Unit := do
  blanks
  lineEnd
  let _ ← takeWhile fun c => isBlank c || c == '\n' || c == '\r'

/-- Reads a text in three double quotes up to the closing ones. -/
def longQuotedTail : (fuel : Nat) → (chars : List Char) → Scanner (List Char)
  | 0, _ => refuse
  | fuel + 1, chars => do
    match ← peek? with
    | none => refuse
    | some '"' =>
      let (quotes, closed) ← closingQuotes '"'
      let chars := quotes ++ chars
      if closed then return chars.reverse else longQuotedTail fuel chars
    | some '\\' =>
      skip 1
      match ← peek? with
      | some c =>
        if isBlank c || c == '\n' || c == '\r' then
          foldedLine
          longQuotedTail fuel chars
        else
          let c ← escape
          longQuotedTail fuel (c :: chars)
      | none => refuse
    | some c =>
      if isPrintable c then
        skip 1
        longQuotedTail fuel (c :: chars)
      else
        lineEnd
        longQuotedTail fuel ('\n' :: chars)

/-- Reads a text in three single quotes up to the closing ones. -/
def longLiteralTail : (fuel : Nat) → (chars : List Char) → Scanner (List Char)
  | 0, _ => refuse
  | fuel + 1, chars => do
    match ← peek? with
    | none => refuse
    | some '\x27' =>
      let (quotes, closed) ← closingQuotes '\x27'
      let chars := quotes ++ chars
      if closed then return chars.reverse else longLiteralTail fuel chars
    | some c =>
      if isPrintable c then
        skip 1
        longLiteralTail fuel (c :: chars)
      else
        lineEnd
        longLiteralTail fuel ('\n' :: chars)

/-- Skips the end of a line right behind three opening quotes. -/
def openingLine : Scanner Unit := do
  match ← peek? with
  | some '\n' => lineEnd
  | some '\r' => lineEnd
  | _ => return

/-- Reads a text in quotes of one line. -/
def shortText : Scanner String := do
  match ← next with
  | '"' => return String.ofList (← quotedTail ((← rest).length + 1) [])
  | '\x27' => return String.ofList (← literalTail)
  | _ => refuse

/-- Reads a text in quotes. -/
def text : Scanner String := do
  if ← stands ['"', '"', '"'] then
    skip 3
    openingLine
    return String.ofList (← longQuotedTail ((← rest).length + 1) [])
  else if ← stands ['\x27', '\x27', '\x27'] then
    skip 3
    openingLine
    return String.ofList (← longLiteralTail ((← rest).length + 1) [])
  else shortText

/-- Reads digits with single underscores between them. -/
def groupedDigits (base : Nat) : Scanner (List Char) := do
  let taken ← takeWhile fun c => (digitValue? base c).isSome || c == '_'
  let digits := taken.filter (· != '_')
  let wellPlaced := taken.head?.any (· != '_') && taken.getLast?.any (· != '_')
    && (taken.zip (taken.drop 1)).all fun (a, b) => a != '_' || b != '_'
  if wellPlaced then return digits else refuse

/-- Reads a sign: whether it is a minus. -/
def sign : Scanner Bool := do
  match ← peek? with
  | some '+' => skip 1; return false
  | some '-' => skip 1; return true
  | _ => return false

/-- Whether digits are a decimal number without needless zeros in front. -/
def isPlainDecimal (digits : List Char) : Bool :=
  digits.length == 1 || digits.head? != some '0'

/-- The first number that is too large for an integer. -/
def integerEnd : Nat := Nat.pow 2 63

/-- Reads an integer, which has to fit into 64 bits. -/
def integer : Scanner Scalar := do
  let based := fun (base : Nat) => do
    skip 2
    let value := numberOf base (← groupedDigits base)
    if value < integerEnd then return .integer value else refuse
  if ← stands ['0', 'x'] then based 16
  else if ← stands ['0', 'o'] then based 8
  else if ← stands ['0', 'b'] then based 2
  else
    let negative ← sign
    let digits ← groupedDigits 10
    let value : Int := numberOf 10 digits
    let value := if negative then -value else value
    if isPlainDecimal digits ∧ -(integerEnd : Int) ≤ value ∧ value < integerEnd then
      return .integer value
    else refuse

/-- Reads the exponent of a number, if one stands here. -/
def exponent? : Scanner (Option Int) := do
  match ← peek? with
  | some 'e' => skip 1
  | some 'E' => skip 1
  | _ => return none
  let negative ← sign
  let value : Int := numberOf 10 (← groupedDigits 10)
  return some (if negative then -value else value)

/-- Reads a number with a point or an exponent, or one of the words for what is no number. -/
def floating : Scanner Scalar := do
  let negative ← sign
  if ← stands ['i', 'n', 'f'] then
    skip 3
    return .floating (.infinite negative)
  else if ← stands ['n', 'a', 'n'] then
    skip 3
    return .floating .notANumber
  else
    let whole ← groupedDigits 10
    if !isPlainDecimal whole then refuse
    else
      let fraction ← do
        if (← peek?) == some '.' then
          skip 1
          pure (some (← groupedDigits 10))
        else pure none
      let exponent ← exponent?
      if fraction.isNone ∧ exponent.isNone then refuse
      else
        let fraction := fraction.getD []
        let literal : Decimal.Literal :=
          ⟨negative, numberOf 10 (whole ++ fraction), exponent.getD 0 - fraction.length⟩
        match literal.nearest with
        | .infinite false => refuse
        | value => return .floating value

/-- The number of days of a month. -/
def daysIn (year month : Nat) : Nat :=
  if month = 2 then
    if year % 4 = 0 ∧ (year % 100 ≠ 0 ∨ year % 400 = 0) then 29 else 28
  else if month = 4 ∨ month = 6 ∨ month = 9 ∨ month = 11 then 30
  else 31

/-- Reads a date. -/
def date : Scanner Unit := do
  let year ← digits 10 4
  expect '-'
  let month ← digits 10 2
  expect '-'
  let day ← digits 10 2
  if 1 ≤ month ∧ month ≤ 12 ∧ 1 ≤ day ∧ day ≤ daysIn year month then return else refuse

/-- Reads hours and minutes. -/
def hoursAndMinutes : Scanner Unit := do
  let hour ← digits 10 2
  expect ':'
  let minute ← digits 10 2
  if hour < 24 ∧ minute < 60 then return else refuse

/-- Reads a time of day. -/
def timeOfDay : Scanner Unit := do
  hoursAndMinutes
  expect ':'
  let second ← digits 10 2
  if 60 < second then refuse
  else if (← peek?) == some '.' then
    skip 1
    let fraction ← takeWhile Char.isDigit
    if fraction.isEmpty then refuse

/-- Reads the offset of a time from the universal one, if it stands here. -/
def zone : Scanner Unit := do
  match ← peek? with
  | some 'Z' => skip 1
  | some 'z' => skip 1
  | some '+' => skip 1; hoursAndMinutes
  | some '-' => skip 1; hoursAndMinutes
  | _ => return

/-- Reads a date, a time of day, or both. -/
def moment : Scanner Scalar :=
  let dated : Scanner Scalar := do
    date
    Scanner.orElse
      (do
        let _ ← oneOf fun c => c == 'T' || c == 't' || c == ' '
        timeOfDay
        zone)
      (return)
    return .moment
  dated.orElse (do timeOfDay; return .moment)

/-- Reads a value that holds no others. -/
def scalar : Scanner Scalar := do
  match ← peek? with
  | none => refuse
  | some c =>
    if c = '"' ∨ c = '\x27' then return .text (← text)
    else if ← stands ['t', 'r', 'u', 'e'] then
      skip 4
      return .boolean true
    else if ← stands ['f', 'a', 'l', 's', 'e'] then
      skip 5
      return .boolean false
    else moment.orElse (floating.orElse integer)

/-- Whether a character can stand in a key without quotes. -/
def isKeyChar (c : Char) : Bool :=
  c.isAlphanum || c == '_' || c == '-'

/-- Reads a key without dots. -/
def simpleKey : Scanner Key := do
  let (name, span) ← spanned <| do
    match ← peek? with
    | none => refuse
    | some c =>
      if c = '"' ∨ c = '\x27' then shortText
      else
        let chars ← takeWhile isKeyChar
        if chars.isEmpty then refuse else return String.ofList chars
  return ⟨name, span⟩

/-- Reads the parts of a key behind its first one. -/
def keyTail : (fuel : Nat) → Scanner (List Key)
  | 0 => refuse
  | fuel + 1 => do
    blanks
    if (← peek?) == some '.' then
      skip 1
      blanks
      let key ← simpleKey
      let keys ← keyTail fuel
      return key :: keys
    else return []

/-- How deep arrays, tables in braces and keys can be nested. -/
def depthEnd : Nat := 80

/-- Reads a key: the parts before its last one, and the last one. -/
def key : Scanner (List Key × Key) := do
  blanks
  let first ← simpleKey
  let keys ← keyTail (depthEnd - 1)
  match (first :: keys).reverse with
  | last :: path => return (path.reverse, last)
  | [] => refuse

end ImportLint.Toml
