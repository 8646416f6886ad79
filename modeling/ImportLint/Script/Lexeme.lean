/-!
The lexemes of scripts: which characters make up names, blanks and comments, and how long the lexeme
at the front of a text is.
-/

namespace ImportLint.Script

/-- Whether a character separates lexemes. -/
def isBlank (c : Char) : Bool :=
  let n := c.toNat
  n == 0x20 || (0x09 ≤ n && n ≤ 0x0D) || n == 0x85 || n == 0xA0 || n == 0x1680
    || (0x2000 ≤ n && n ≤ 0x200B) || n == 0x2028 || n == 0x2029 || n == 0x202F || n == 0x205F
    || n == 0x2060 || n == 0x3000 || n == 0xFEFF

/-- Whether a character ends a line comment. -/
def endsLine (c : Char) : Bool :=
  c == '\n' || c == '\r' || c.toNat == 0x2028 || c.toNat == 0x2029

/-- The characters of operators, brackets and quotes. -/
def marks : List Char :=
  [':', ';', '\x60', '"', '\x27', '@', '#', '.', ',', '|', '^', '&', '<', '=', '>', '+', '-', '*',
    '/', '\\', '%', '?', '!', '~', '(', ')', '[', ']', '{', '}']

/-- Whether a character can stand in a name behind the first one. -/
def isNamePart (c : Char) : Bool :=
  0x1F < c.toNat && !isBlank c && !marks.contains c

/-- Whether a character can begin a name. -/
def isNameStart (c : Char) : Bool := isNamePart c && !c.isDigit

/-- Whether a character is a digit in base sixteen. -/
def isHexDigit (c : Char) : Bool :=
  c.isDigit || ('a' ≤ c && c ≤ 'f') || ('A' ≤ c && c ≤ 'F')

/-- How much of an escape in a name is still to come. -/
inductive NameEscape where
  | none
  /-- Digits in braces, and the closing brace. -/
  | braces
  /-- This many digits and one more. -/
  | digits (more : Nat)

/-- The number of characters of a name at the front of a text. -/
def nameTail : NameEscape → List Char → Nat
  | .none, '\\' :: 'u' :: '{' :: rest => nameTail .braces rest + 3
  | .none, '\\' :: 'u' :: rest => nameTail (.digits 3) rest + 2
  | .none, c :: rest => if isNamePart c then nameTail .none rest + 1 else 0
  | .braces, c :: rest =>
    if c = '}' then nameTail .none rest + 1
    else if isHexDigit c then nameTail .braces rest + 1
    else 0
  | .digits more, c :: rest =>
    if isHexDigit c then
      match more with
      | 0 => nameTail .none rest + 1
      | more + 1 => nameTail (.digits more) rest + 1
    else 0
  | _, [] => 0

/-- The length of the name at the front of a text; zero if there is none. -/
def nameLength : List Char → Nat
  | [] => 0
  | c :: rest => if isNameStart c || c == '\\' then nameTail .none (c :: rest) else 0

/-- The name at the front of a text. -/
def nameAt (text : List Char) : String :=
  String.ofList (text.take (nameLength text))

/-- The length of the numeral at the front of a text, behind its first digit or point.  A sign
belongs to it behind the exponent mark of a decimal numeral. -/
def numeralTail (hex : Bool) : List Char → Nat
  | [] => 0
  | c :: rest =>
    if (c = 'e' ∨ c = 'E') ∧ !hex then
      match rest with
      | '+' :: rest => numeralTail hex rest + 2
      | '-' :: rest => numeralTail hex rest + 2
      | rest => numeralTail hex rest + 1
    else if c = '.' ∨ isNamePart c then numeralTail hex rest + 1
    else 0

/-- The length of the numeral at the front of a text; zero if there is none. -/
def numeralLength : List Char → Nat
  | '.' :: c :: rest => if c.isDigit then numeralTail false rest + 2 else 0
  | '0' :: x :: rest =>
    if x = 'x' ∨ x = 'X' then numeralTail true rest + 2 else numeralTail false (x :: rest) + 1
  | c :: rest => if c.isDigit then numeralTail false rest + 1 else 0
  | [] => 0

/-- What the reader of blanks and comments is in. -/
inductive Gap where
  | blanks
  | lineComment
  /-- A block comment that began at `start`; before it, `fresh` told whether a line had ended. -/
  | blockComment (start : Nat) (fresh : Bool)

/-- The number of characters of blanks and comments at the front of a text, and whether a line ends
among them.  A block comment without an end is none. -/
def gap : Gap → (count : Nat) → (fresh : Bool) → List Char → Nat × Bool
  | .blanks, count, fresh, '/' :: '/' :: rest => gap .lineComment (count + 2) fresh rest
  | .blanks, count, fresh, '/' :: '*' :: rest => gap (.blockComment count fresh) (count + 2) fresh rest
  | .blanks, count, fresh, c :: rest =>
    if isBlank c then gap .blanks (count + 1) (fresh || endsLine c) rest else (count, fresh)
  | .lineComment, count, fresh, c :: rest =>
    if endsLine c then gap .blanks (count + 1) true rest
    else gap .lineComment (count + 1) fresh rest
  | .blockComment _ _, count, fresh, '*' :: '/' :: rest => gap .blanks (count + 2) fresh rest
  | .blockComment start before, count, fresh, c :: rest =>
    gap (.blockComment start before) (count + 1) (fresh || endsLine c) rest
  | .blockComment start before, _, _, [] => (start, before)
  | _, count, fresh, [] => (count, fresh)

/-- The number of characters of blanks and comments at the front of a text. -/
def gapLength (text : List Char) : Nat := (gap .blanks 0 false text).1

/-- The number of characters before the closing quote of a string, if it is closed.  A line that
ends without a backslash may be followed by nothing but blanks and the quote. -/
def stringBody (quote : Char) : (ended : Bool) → List Char → (count : Nat) → Option Nat
  | _, [], _ => none
  | false, ['\\'], _ => none
  | false, '\\' :: '\r' :: '\n' :: rest, count => stringBody quote false rest (count + 3)
  | false, '\\' :: _ :: rest, count => stringBody quote false rest (count + 2)
  | false, c :: rest, count =>
    if c = quote then some count
    else stringBody quote (c == '\n' || c == '\r') rest (count + 1)
  | true, c :: rest, count =>
    if c = quote then some count
    else if isBlank c then stringBody quote true rest (count + 1)
    else none

/-- The number of characters of a string before the end of its line. -/
def stringLine (quote : Char) : List Char → (count : Nat) → Nat
  | [], count => count
  | ['\\'], count => count
  | '\\' :: '\r' :: '\n' :: rest, count => stringLine quote rest (count + 3)
  | '\\' :: _ :: rest, count => stringLine quote rest (count + 2)
  | c :: rest, count =>
    if c = '\n' ∨ c = '\r' then count else stringLine quote rest (count + 1)

/-- Marks and words that can follow an expression, so that a string before them may be taken to end
without its quote. -/
def canFollowString (text : List Char) : Bool :=
  match text with
  | [] => false
  | c :: _ =>
    [';', ')', ',', ']', '}', ':', '.', '?', '=', '+', '-', '*', '/', '%', '<', '>', '&', '|', '^',
        '!', '(', '[', '{'].contains c
      || ["as", "satisfies", "in", "of", "instanceof", "extends", "with", "assert",
        "from"].contains (nameAt text)

/-- The length of the string at the front of a text, and whether it is closed. -/
def stringLength? : List Char → Option (Nat × Bool)
  | [] => none
  | quote :: rest =>
    if quote = '"' ∨ quote = '\x27' then
      match stringBody quote false rest 0 with
      | some count => some (count + 2, true)
      | none =>
        let count := stringLine quote rest 0
        let next := rest.drop count
        if canFollowString (next.drop (gapLength next)) then some (count + 1, false) else none
    else none

/-- The length of a regular expression behind its first slash, up to its last one; `inSet` tells
whether a set in brackets is open. -/
def patternTail? (inSet : Bool) : List Char → (count : Nat) → Option Nat
  | [], _ => none
  | ['\\'], _ => none
  | '\\' :: c :: rest, count => if c = '\n' then none else patternTail? inSet rest (count + 2)
  | c :: rest, count =>
    if c = '\n' then none
    else if inSet then patternTail? (c != ']') rest (count + 1)
    else if c = '/' then some (count + 1)
    else patternTail? (c == '[') rest (count + 1)

/-- The length of the regular expression at the front of a text, with its flags. -/
def patternLength? : List Char → Option Nat
  | '/' :: rest =>
    match patternTail? false rest 1 with
    | some count =>
      if count < 3 then none
      else some (count + ((rest.drop (count - 1)).takeWhile Char.isAlpha).length)
    | none => none
  | _ => none

/-- The number of characters of a template up to its end or its next substitution. -/
def templateText : List Char → (count : Nat) → Nat
  | [], count => count
  | '\\' :: _ :: rest, count => templateText rest (count + 2)
  | '$' :: '{' :: _, count => count
  | c :: rest, count => if c = '\x60' then count else templateText rest (count + 1)

/-- The length of an element name or an attribute name, in which dashes may stand. -/
def tagNameLength (text : List Char) : Nat :=
  match text with
  | [] => 0
  | c :: _ =>
    if isNameStart c then (text.takeWhile fun c => isNamePart c || c == '-').length else 0

/-- The length of an attribute text in quotes. -/
def attributeLength? : List Char → Option Nat
  | quote :: rest =>
    if quote = '"' ∨ quote = '\x27' then
      let count := (rest.takeWhile (· ≠ quote)).length
      if count < rest.length then some (count + 2) else none
    else none
  | [] => none

/-- The length of a comment that a `<!--` or a `-->` opens, up to the end of its line. -/
def markupCommentLength? (text : List Char) : Option Nat :=
  if ['<', '!', '-', '-'].isPrefixOf text || ['-', '-', '>'].isPrefixOf text then
    some (text.takeWhile fun c => c ≠ '\n' && c.toNat ≠ 0x2028 && c.toNat ≠ 0x2029).length
  else none

/-- The length of the line in front that names an interpreter. -/
def interpreterLength (text : List Char) : Nat :=
  if ['#', '!'].isPrefixOf text then (text.takeWhile (· ≠ '\n')).length else 0

end ImportLint.Script
