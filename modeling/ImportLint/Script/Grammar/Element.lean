import ImportLint.Script.Grammar.Level

/-!
The grammar of elements such as `<a b="c">text {value}</a>`.  Between the tags, blanks and quotes are
text, and only braces and tags are not.
-/

namespace ImportLint.Script.Level

open Rule

variable {source : List Char}

/-- A part of the name of an element or an attribute. -/
def tagName : Rule source :=
  lexeme (fun rest => some (.name, tagNameLength rest)) false

/-- The name of an element. -/
def elementName : Rule source :=
  sequence [tagName, many (sequence [firstOf [mark ".", mark ":"], tagName])]

/-- A value in braces. -/
def container (level : Level source) (tight : Bool) : Rule source :=
  sequence
    [mark "\x7b", optional (mark "..."), optional (level.rule .expression),
      if tight then tightMark "\x7d" else mark "\x7d"]

/-- An attribute. -/
def elementAttribute (level : Level source) : Rule source :=
  firstOf
    [level.container false,
      sequence
        [tagName, optional (sequence [mark ":", tagName]),
          optional
            (sequence
              [mark "=",
                firstOf
                  [lexeme (fun rest => (attributeLength? rest).map fun count => (.literal, count))
                      false,
                    level.container false, level.rule (.element false)]])]]

/-- The text between two tags or braces. -/
def elementText : Rule source :=
  lexeme
    (fun rest => some (.literal, (rest.takeWhile fun c => c ≠ '<' && c ≠ '{').length))
    true

/-- What stands between the tags of an element, and its closing tag, which may be missing. -/
def elementBody (level : Level source) (close : Rule source) : Rule source :=
  sequence
    [many
        (firstOf
          [elementText, level.container true,
            look fun cursor =>
              if cursor.hasMark "<" && !(cursor.afterMark "<").hasMark "/" then
                level.rule (.element true)
              else refuse]),
      optional (sequence [mark "<", mark "/", optional elementName, close])]

/-- An element. -/
def elementRule (level : Level source) (tight : Bool) : Rule source :=
  let close : Rule source := if tight then tightMark ">" else mark ">"
  branch .group <|
    sequence
      [mark "<",
        firstOf
          [sequence [tightMark ">", level.elementBody close],
            sequence
              [elementName, optional level.typeArguments, many level.elementAttribute,
                firstOf
                  [sequence [mark "/", close], sequence [tightMark ">", level.elementBody close]]]]]

end ImportLint.Script.Level
