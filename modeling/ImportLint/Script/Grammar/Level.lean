import ImportLint.Script.Yield

/-!
The parts that the grammars of types, expressions and statements share.  A grammar is written one
level at a time: whatever can be nested is read by the rules of the level further in.
-/

namespace ImportLint.Script

/-- The constructs that can be nested. -/
inductive Goal where
  | statement
  /-- Expressions with commas between them. -/
  | expression
  /-- An expression without commas.  It is `annotated` where a colon behind parentheses may begin
  the type of an arrow function. -/
  | assignment (annotated : Bool)
  /-- An operand with what is applied to it. -/
  | applied
  /-- What is made new. -/
  | creation
  /-- A type.  Where the arrow of a function may stand behind it, it is not `functional`: what is in
  parentheses at its end is no list of parameters. -/
  | type (functional : Bool)
  /-- An element such as `<a/>`.  Behind a tight one, blanks are not skipped. -/
  | element (tight : Bool)

/-- The rules of one level. -/
structure Level (source : List Char) where
  rule : Goal → Rule source
  /-- Whether elements are expressions, which excludes type assertions in angle brackets. -/
  elements : Bool

namespace Level

open Rule

variable {source : List Char}

/-- An expression without commas. -/
def assignment (level : Level source) : Rule source := level.rule (.assignment true)

/-- A type that ends where it can go no further. -/
def type (level : Level source) : Rule source := level.rule (.type true)

/-- Whether the mark stands here and none of the others, which it may be the front of. -/
def isMark (text : String) (longer : List String) (cursor : Cursor source) : Bool :=
  cursor.hasMark text && !longer.any cursor.hasMark

/-- A mark that is not the front of a longer one. -/
def markNot (text : String) (longer : List String) : Rule source :=
  look fun cursor => if isMark text longer cursor then mark text else refuse

/-- One of several words. -/
def wordOf (words : List String) : Rule source :=
  look fun cursor => if cursor.hasWordOf words then name else refuse

/-- Any lexeme at all. -/
def anything : Rule source :=
  firstOf
    [name, string, numeral,
      lexeme (fun rest => if rest.isEmpty then none else some (.mark, 1)) false]

/-- Any lexeme but a closing brace. -/
def anythingInside : Rule source :=
  look fun cursor => if cursor.hasMark "\x7d" then refuse else anything

/-- Statements in braces. -/
def block (level : Level source) : Rule source :=
  branch .group <|
    between "\x7b" "\x7d" (many (firstOf [level.rule .statement, anythingInside]))

/-- Type arguments in angle brackets. -/
def typeArguments (level : Level source) : Rule source :=
  enclosed "<" ">" (sequence [level.type, separated (level.type)])

/-- One type parameter. -/
def typeParameter (level : Level source) : Rule source :=
  sequence
    [many (look fun cursor =>
        if cursor.hasWordOf ["const", "in", "out"] && cursor.afterName.hasName
            && !cursor.afterName.hasWord "extends" then name
        else refuse),
      name, optional (sequence [word "extends", level.type]),
      optional (sequence [mark "=", level.type])]

/-- Type parameters in angle brackets. -/
def typeParameters (level : Level source) : Rule source :=
  enclosed "<" ">" (separated level.typeParameter)

/-- A type behind a colon; the type may be missing. -/
def annotation (level : Level source) : Rule source :=
  sequence [mark ":", optional (level.type)]

/-- A name with a number sign in front. -/
def privateName : Rule source := sequence [tightMark "#", name]

/-- Arguments in parentheses, one node each. -/
def arguments (level : Level source) : Rule source :=
  branch .group <|
    between "(" ")"
      (separated (bundle (sequence [optional (mark "..."), level.assignment])))

theorem arguments_admitted (level : Level source) :
    level.arguments.Yields fun child => Role.Admits .arguments child.2 :=
  yields_branch fun children => ⟨children, rfl⟩

/-- Arguments of a call. -/
def callArguments (level : Level source) : Rule source :=
  withRole .arguments level.arguments level.arguments_admitted

/-- The call of `import`. -/
def importCall (level : Level source) : Rule source :=
  look fun cursor =>
    if cursor.hasWord "import" && cursor.afterName.hasMark "(" then
      branch .call <|
        sequence
          [withRole .callee
              (lexeme (fun rest => some (.importWord, nameLength rest)) false),
            level.callArguments]
    else refuse

/-- A decorator. -/
def decorator (level : Level source) : Rule source :=
  sequence
    [mark "@",
      chain (firstOf [name, level.arguments])
        (firstOf
          [sequence [mark ".", optional (firstOf [name, privateName])],
            sequence [optional level.typeArguments, level.callArguments]])]

/-- Whether a question mark marks something as optional, and begins no alternative. -/
def isOptionMark (cursor : Cursor source) : Bool :=
  isMark "?" ["?.", "??"] cursor
    && (let next := cursor.afterMark "?"
      next.hasMark ")" || next.hasMark "," || next.hasMark ":" || next.hasMark "=")

/-- Something in parentheses: an expression, or the parameters of a function, which are written like
expressions but for their modifiers and types. -/
def parameter (level : Level source) : Rule source :=
  sequence
    [many level.decorator,
      many (look fun cursor =>
        let next := cursor.afterName
        if cursor.hasWordOf ["public", "private", "protected", "readonly", "override"]
            && (next.hasName || next.hasMark "\x7b" || next.hasMark "[" || next.hasMark "...") then
          name
        else refuse),
      optional (mark "..."), optional level.assignment,
      optional (look fun cursor => if isOptionMark cursor then mark "?" else refuse),
      optional level.annotation,
      optional (sequence [markNot "=" ["=>", "=="], level.assignment])]

/-- Expressions or parameters in parentheses. -/
def parentheses (level : Level source) : Rule source :=
  branch .group (between "(" ")" (separated level.parameter))

/-- A function from its parameters on. -/
def functionTail (level : Level source) : Rule source :=
  sequence
    [optional level.typeParameters,
      look fun cursor => if cursor.hasMark "(" then level.parentheses else done,
      look fun cursor => if cursor.hasMark ":" then level.annotation else done,
      look fun cursor => if cursor.hasMark "\x7b" then level.block else done]

/-- A key in brackets. -/
def computedKey (level : Level source) : Rule source :=
  between "[" "]" (sequence [level.rule .expression, optional level.annotation])

/-- The key of a member. -/
def key (level : Level source) : Rule source :=
  firstOf [name, string, numeral, privateName, level.computedKey]

/-- Whether the word that stands here modifies the member behind it, and is not its name. -/
def isModifier (words : List String) (cursor : Cursor source) : Bool :=
  cursor.hasWordOf words
    && (let next := cursor.afterName
      next.hasName || next.hasMark "[" || next.hasMark "#" || next.hasMark "\""
        || next.hasMark "\x27" || next.hasMark "*" || 0 < numeralLength next.rest)

/-- The words that can modify a member. -/
def modifierWords : List String :=
  ["async", "get", "set", "static", "readonly", "public", "private", "protected", "override",
    "abstract", "declare", "accessor"]

/-- A modifier of a member. -/
def modifier : Rule source :=
  look fun cursor =>
    if isModifier modifierWords cursor then name
    else if isMark "*" [] cursor then mark "*"
    else refuse

/-- The text of a template up to its end or its next substitution. -/
def templateChunk : Rule source :=
  lexeme (fun rest => some (.literal, templateText rest 0)) true

/-- A template, given what stands in its substitutions. -/
def template (substitution : Rule source) : Rule source :=
  branch .group <|
    sequence
      [tightMark "\x60",
        many (firstOf
          [templateChunk, sequence [mark "$\x7b", optional substitution, tightMark "\x7d"]]),
        optional (mark "\x60")]

end Level

end ImportLint.Script
