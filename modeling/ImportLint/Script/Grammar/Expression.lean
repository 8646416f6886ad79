import ImportLint.Script.Grammar.Level

/-!
The grammar of expressions.  Operators are read without precedence, since it makes no difference to
what is called; what is applied to an operand is nested.
-/

namespace ImportLint.Script.Level

open Rule

variable {source : List Char}

/-- Words that begin no operand. -/
def nonOperandWords : List String :=
  ["in", "instanceof", "else", "case", "default", "extends", "return", "if", "for", "while", "do",
    "switch", "try", "catch", "finally", "throw", "var", "const", "break", "continue", "debugger",
    "with", "export", "enum", "import"]

/-- The operators between two operands, each before those that are a front of it. -/
def operators : List String :=
  [">>>=", "===", "!==", "**=", "<<=", ">>=", ">>>", "&&=", "||=", "??=", "==", "!=", "<=", ">=",
    "&&", "||", "??", "<<", ">>", "+=", "-=", "*=", "/=", "%=", "&=", "|=", "^=", "**", "<", ">",
    "+", "-", "*", "/", "%", "&", "|", "^", "="]

/-- The operator that stands here, if one does. -/
def operatorAt? (cursor : Cursor source) : Option String :=
  if ["=>", "++", "--"].any cursor.hasMark then none else operators.find? cursor.hasMark

/-- A member of an object. -/
def objectMember (level : Level source) : Rule source :=
  firstOf
    [sequence [mark "...", level.assignment],
      sequence
        [many modifier, level.key,
          look fun cursor =>
            if cursor.hasMark "(" || cursor.hasMark "<" then level.functionTail
            else if cursor.hasMark ":" then sequence [mark ":", optional level.assignment]
            else if isMark "=" ["=>", "=="] cursor then sequence [mark "=", level.assignment]
            else done]]

/-- An object. -/
def object (level : Level source) : Rule source :=
  branch .group (between "\x7b" "\x7d" (separated level.objectMember))

/-- An array. -/
def array (level : Level source) : Rule source :=
  branch .group (between "[" "]" (separated (sequence [optional (mark "..."), level.assignment])))

/-- A function from its keyword on. -/
def function (level : Level source) : Rule source :=
  sequence [word "function", optional (mark "*"), optional name, level.functionTail]

/-- What a class extends or implements. -/
def heritage (level : Level source) : Rule source :=
  let list (item : Rule source) : Rule source :=
    sequence [item, many (sequence [mark ",", item])]
  firstOf
    [sequence
        [word "extends",
          list (sequence [level.rule .applied, optional level.typeArguments])],
      sequence [word "implements", list (level.type)]]

/-- A member of a class. -/
def classMember (level : Level source) : Rule source :=
  firstOf
    [mark ";",
      look fun cursor =>
        if cursor.hasWord "static" && cursor.afterName.hasMark "\x7b" then
          sequence [name, level.block]
        else refuse,
      sequence
        [many level.decorator, many modifier, level.key,
          optional (firstOf [mark "?", mark "!"]),
          look fun cursor =>
            if cursor.hasMark "(" || cursor.hasMark "<" then level.functionTail
            else
              sequence
                [optional level.annotation,
                  optional (sequence [markNot "=" ["=>", "=="], level.assignment])]]]

/-- A class from its keyword on. -/
def classRule (level : Level source) : Rule source :=
  sequence
    [word "class",
      look fun cursor =>
        if cursor.hasWordOf ["extends", "implements"] then done else optional name,
      optional level.typeParameters, many level.heritage,
      branch .group
        (between "\x7b" "\x7d" (many (firstOf [level.classMember, anythingInside])))]

/-- The rest of something in parentheses that turns out to be the parameters of an arrow function with
a type.  The first arrow behind that type is the one of the function, unless it belongs to a function
type with another arrow behind it. -/
def arrowType (level : Level source) : Rule source :=
  let ending (functional : Bool) : Rule source :=
    sequence [level.rule (.type functional), check (·.hasMark "=>")]
  sequence [mark ":", firstOf [ending true, ending false]]

/-- An arrow function with type parameters, up to its arrow. -/
def genericArrow (level : Level source) : Rule source :=
  sequence
    [level.typeParameters, level.parentheses, optional level.arrowType, check (·.hasMark "=>")]

/-- An object that is made new. -/
def creation (level : Level source) : Rule source :=
  branch .group <|
    sequence
      [word "new",
        look fun cursor =>
          if cursor.hasMark "." then sequence [mark ".", name]
          else
            sequence
              [level.rule .creation,
                optional (sequence [level.typeArguments, check (·.hasMark "(")]),
                optional level.arguments]]

/-- An operand that begins with a word. -/
def wordOperand (level : Level source) : Rule source :=
  look fun cursor =>
    if cursor.hasWord "function" then level.function
    else if cursor.hasWord "class" then level.classRule
    else if cursor.hasWord "new" then level.creation
    else if cursor.hasWord "import" && cursor.afterName.hasMark "." then name
    else if cursor.hasWord "import" then level.importCall
    else if cursor.hasWordOf nonOperandWords then refuse
    else name

/-- An operand without what stands before it or is applied to it. -/
def primary (level : Level source) (annotated : Bool) : Rule source :=
  look fun cursor =>
    if cursor.hasMark "(" then
      sequence [level.parentheses, if annotated then optional level.arrowType else done]
    else if cursor.hasMark "[" then level.array
    else if cursor.hasMark "\x7b" then level.object
    else if cursor.hasMark "\x60" then template (level.rule .expression)
    else if cursor.hasMark "/" then pattern
    else if cursor.hasMark "<" then
      if level.elements then level.genericArrow.orElse (level.rule (.element false))
      else level.genericArrow
    else if cursor.hasMark "@" then sequence [many level.decorator, level.classRule]
    else if cursor.hasMark "#" then privateName
    else if cursor.hasMark "\"" || cursor.hasMark "\x27" then string
    else if cursor.hasName then level.wordOperand
    else numeral

/-- A member behind a point. -/
def memberName : Rule source := optional (firstOf [name, privateName])

/-- Whether a point begins a member, and is no part of a number or of three points. -/
def isMemberMark (cursor : Cursor source) : Bool :=
  isMark "." ["..."] cursor

/-- Whether a question mark and a point stand here, and not a number behind a question mark. -/
def isChainMark (cursor : Cursor source) : Bool :=
  cursor.hasMark "?." && !((cursor.rest.drop 2).head?.any Char.isDigit)

/-- Whether an operand can begin here. -/
def opensOperand (cursor : Cursor source) : Bool :=
  (cursor.hasName && !cursor.hasWordOf ("as" :: "satisfies" :: nonOperandWords))
    || ["[", "\x7b", "\"", "\x27", "/", "<", "@", "#", "!", "~", "+", "-"].any cursor.hasMark
    || 0 < numeralLength cursor.rest

/-- Type arguments behind an operand, with the arguments of a call or without.  Where an operand
follows, the angle brackets are operators. -/
def instantiation (level : Level source) : Rule source :=
  sequence
    [level.typeArguments,
      look fun cursor =>
        if cursor.hasMark "(" then level.callArguments
        else if cursor.hasMark "\x60" || cursor.fresh || !opensOperand cursor then done
        else refuse]

/-- What is applied to an operand. -/
def suffix (level : Level source) : Rule source :=
  look fun cursor =>
    if isChainMark cursor then
      sequence
        [mark "?.",
          look fun cursor =>
            if cursor.hasMark "(" then level.callArguments
            else if cursor.hasMark "<" then sequence [level.typeArguments, level.callArguments]
            else if cursor.hasMark "[" then between "[" "]" (level.rule .expression)
            else memberName]
    else if isMemberMark cursor then sequence [mark ".", memberName]
    else if cursor.hasMark "(" then level.callArguments
    else if cursor.hasMark "[" then between "[" "]" (optional (level.rule .expression))
    else if cursor.hasMark "\x60" then template (level.rule .expression)
    else if cursor.hasMark "<" then level.instantiation
    else if cursor.fresh then refuse
    else if isMark "!" ["!="] cursor then mark "!"
    else firstOf [mark "++", mark "--"]

/-- What is applied to what is made new, other than its arguments. -/
def creationSuffix (level : Level source) : Rule source :=
  look fun cursor =>
    if isMemberMark cursor then sequence [mark ".", memberName]
    else if cursor.hasMark "[" then between "[" "]" (optional (level.rule .expression))
    else if cursor.hasMark "\x60" then template (level.rule .expression)
    else refuse

/-- Whether the word that stands here is an operator with its operand behind it. -/
def isAsyncMark (cursor : Cursor source) : Bool :=
  cursor.hasWord "async"
    && (let next := cursor.afterName
      !next.fresh && ((next.hasName && !next.hasWordOf nonOperandWords) || next.hasMark "("
        || next.hasMark "<"))

/-- An operator in front of an operand. -/
def prefixOperator (level : Level source) : Rule source :=
  look fun cursor =>
    if cursor.hasWordOf ["typeof", "void", "delete", "await"] then name
    else if cursor.hasWord "yield" then sequence [name, optional (mark "*")]
    else if isAsyncMark cursor then name
    else if cursor.hasMark "<" || cursor.hasMark "-->" then
      if (markupCommentLength? cursor.rest).isSome then markupComment
      else if level.elements then refuse
      else
        look fun cursor =>
          if (level.genericArrow.run cursor).isSome then refuse
          else enclosed "<" ">" (level.type)
    else firstOf [mark "++", mark "--", mark "!", mark "~", mark "+", mark "-"]

/-- An operand with what is applied to it. -/
def appliedOperand (level : Level source) (annotated : Bool) : Rule source :=
  chain (level.primary annotated) level.suffix

/-- An operand with the operators in front of it, behind which it may be missing. -/
def operand (level : Level source) (annotated : Bool) : Rule source :=
  firstOf
    [sequence
        [level.prefixOperator, many level.prefixOperator,
          optional (level.appliedOperand annotated)],
      level.appliedOperand annotated]

/-- The body of an arrow function behind its arrow. -/
def arrowBody (level : Level source) (annotated : Bool) : Rule source :=
  look fun cursor =>
    if cursor.hasMark "\x7b" then level.block else optional (level.rule (.assignment annotated))

/-- The two branches of a choice behind its question mark. -/
def alternatives (level : Level source) (annotated : Bool) : Rule source :=
  sequence
    [optional
        (firstOf
          [sequence [level.assignment, check (·.hasMark ":")], level.rule (.assignment false)]),
      optional (sequence [mark ":", optional (level.rule (.assignment annotated))])]

/-- What may follow an operand in an expression. -/
def continuation (level : Level source) (annotated : Bool) : Rule source :=
  look fun cursor =>
    if cursor.hasMark "=>" then sequence [mark "=>", level.arrowBody annotated]
    else if isMark "?" ["??"] cursor && !isOptionMark cursor then
      sequence [mark "?", level.alternatives annotated]
    else if cursor.hasWordOf ["in", "instanceof"] then
      sequence [name, optional (level.operand annotated)]
    else if cursor.hasWordOf ["as", "satisfies"] && !cursor.fresh then
      sequence [name, optional (firstOf [word "const", level.type])]
    else
      match operatorAt? cursor with
      | some operator => sequence [mark operator, optional (level.operand annotated)]
      | none => refuse

/-- An expression without commas. -/
def assignmentRule (level : Level source) (annotated : Bool) : Rule source :=
  sequence [level.operand annotated, many (level.continuation annotated)]

/-- Expressions with commas between them. -/
def expressionRule (level : Level source) : Rule source :=
  sequence
    [level.assignment, many (sequence [mark ",", optional level.assignment])]

end ImportLint.Script.Level
