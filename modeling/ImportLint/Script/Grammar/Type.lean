import ImportLint.Script.Grammar.Level

/-!
The grammar of types.  Types are read strictly: where a type is only one possible reading, a text that
is none has to be refused.
-/

namespace ImportLint.Script.Level

open Rule

variable {source : List Char}

/-- Words that name no type. -/
def nonTypeWords : List String :=
  ["extends", "in", "instanceof", "return", "if", "else", "for", "while", "do", "switch", "case",
    "default", "function", "class", "let", "var", "import", "export", "throw", "try", "catch",
    "finally", "break", "continue", "delete", "enum", "const"]

/-- A type behind a colon, which must be there. -/
def strictAnnotation (level : Level source) : Rule source :=
  sequence [mark ":", level.type]

/-- A type in parentheses, a parameter of a function type, or an item of a tuple. -/
def typeItem (level : Level source) : Rule source :=
  sequence
    [optional (mark "..."), level.type,
      optional (markNot "?" ["?.", "??"]), optional level.strictAnnotation,
      optional (sequence [markNot "=" ["=>", "=="], level.assignment])]

/-- Types or parameters in parentheses. -/
def typeParentheses (level : Level source) : Rule source :=
  enclosed "(" ")" (separated level.typeItem)

/-- A function type from its parameters on. -/
def functionType (level : Level source) : Rule source :=
  sequence
    [optional level.typeParameters, level.typeParentheses, mark "=>", level.type]

/-- A signature of something that is called. -/
def callSignature (level : Level source) : Rule source :=
  sequence
    [optional level.typeParameters, level.typeParentheses, optional level.strictAnnotation]

/-- Whether something that is called begins here. -/
def opensSignature (cursor : Cursor source) : Bool :=
  cursor.hasMark "(" || cursor.hasMark "<"

/-- The key of a member of an object type. -/
def memberKey (level : Level source) : Rule source :=
  firstOf
    [name, string, numeral, privateName,
      enclosed "[" "]"
        (sequence
          [name, word "in", level.type,
            optional (sequence [word "as", level.type])]),
      enclosed "[" "]" (sequence [level.rule .expression, optional level.strictAnnotation])]

/-- A member of an object type. -/
def typeMember (level : Level source) : Rule source :=
  look fun cursor =>
    if opensSignature cursor then level.callSignature
    else if cursor.hasWord "new" && opensSignature cursor.afterName then
      sequence [name, level.callSignature]
    else
      sequence
        [many (firstOf
            [sequence [firstOf [mark "-", mark "+"], word "readonly"], modifier]),
          level.memberKey, optional (firstOf [mark "-", mark "+"]),
          optional (firstOf [mark "?", mark "!"]),
          look fun cursor =>
            if opensSignature cursor then level.callSignature
            else optional level.strictAnnotation,
          optional (sequence [markNot "=" ["=>"], level.assignment])]

/-- An object type. -/
def objectType (level : Level source) : Rule source :=
  branch .group <|
    enclosed "\x7b" "\x7d" (many (firstOf [mark ";", mark ",", level.typeMember]))

/-- The expression behind `typeof`. -/
def typeQuery (level : Level source) : Rule source :=
  chain (firstOf [level.importCall, name])
    (firstOf
      [sequence [mark ".", firstOf [name, privateName]],
        look fun cursor => if cursor.fresh then refuse else level.callArguments])

/-- Whether a type operator has its operand behind it. -/
def isTypeOperator (cursor : Cursor source) : Bool :=
  cursor.hasWordOf ["keyof", "unique", "readonly", "infer", "asserts", "abstract"]
    && (let next := cursor.afterName
      (next.hasName && !next.hasWordOf ["extends", "is"] && !(next.fresh && cursor.hasWord "asserts"))
        || next.hasMark "(" || next.hasMark "["
        || next.hasMark "\x7b" || next.hasMark "\"" || next.hasMark "\x27"
        || next.hasMark "\x60")

/-- A type without operators and what is applied to it. -/
def plainType (level : Level source) (functional : Bool) : Rule source :=
  look fun cursor =>
    if cursor.hasMark "(" then
      sequence
        [level.typeParentheses,
          if functional then optional (sequence [mark "=>", level.type]) else done]
    else if cursor.hasMark "<" then level.functionType
    else if cursor.hasMark "\x7b" then level.objectType
    else if cursor.hasMark "[" then enclosed "[" "]" (separated level.typeItem)
    else if cursor.hasMark "\x60" then
      template (firstOf [level.type, level.rule .expression])
    else if cursor.hasMark "-" then sequence [mark "-", numeral]
    else if cursor.hasWord "new" && opensSignature cursor.afterName then
      sequence [name, level.functionType]
    else if cursor.hasWord "typeof" then sequence [name, level.typeQuery]
    else if cursor.hasWord "import" then level.importCall
    else if cursor.hasWordOf nonTypeWords then refuse
    else firstOf [name, string, numeral]

/-- What is applied to a type: a member, an index, or type arguments. -/
def typeSuffix (level : Level source) : Rule source :=
  look fun cursor =>
    if isMark "." ["..."] cursor then sequence [mark ".", name]
    else if cursor.hasMark "[" && !cursor.fresh then
      enclosed "[" "]" (optional (level.type))
    else if cursor.hasMark "<" then level.typeArguments
    else refuse

/-- An operand of a union or an intersection. -/
def typeOperand (level : Level source) (functional : Bool) : Rule source :=
  sequence
    [many (look fun cursor => if isTypeOperator cursor then name else refuse),
      level.plainType functional, many level.typeSuffix]

/-- The mark of a union or an intersection. -/
def typeJunction : Rule source :=
  firstOf [markNot "|" ["||", "|="], markNot "&" ["&&", "&="]]

/-- A union or an intersection. -/
def unionType (level : Level source) (functional : Bool) : Rule source :=
  sequence
    [optional typeJunction, level.typeOperand functional,
      many (sequence [typeJunction, level.typeOperand functional])]

/-- A type. -/
def typeRule (level : Level source) (functional : Bool) : Rule source :=
  let bound : Rule source := sequence [word "extends", level.unionType true]
  sequence
    [look fun cursor =>
        sequence
          [level.unionType functional,
            firstOf
              [sequence
                  [bound, optional bound, mark "?", level.type, mark ":",
                    level.rule (.type functional)],
                if cursor.hasWord "infer" then bound else refuse, done]],
      look fun cursor =>
        if cursor.hasWord "is" && !cursor.fresh then
          sequence [name, optional (level.rule (.type functional))]
        else done]

end ImportLint.Script.Level
