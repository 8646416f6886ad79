import ImportLint.Script.Grammar.Expression
import ImportLint.Script.Grammar.Type

/-!
The grammar of statements.  The statements that import and export are read strictly: one that is
incomplete names no module.
-/

namespace ImportLint.Script.Level

open Rule

variable {source : List Char}

/-- The end of a statement, which may be missing. -/
def ending : Rule source := optional (mark ";")

/-- Names with points between them. -/
def qualifiedName : Rule source :=
  sequence [name, many (sequence [mark ".", name])]

/-- The string that names a module. -/
def moduleName : Rule source := withRole .source string

/-- The attributes behind the name of a module. -/
def attributes (level : Level source) : Rule source :=
  optional (sequence [wordOf ["with", "assert"], level.object])

/-- The name of something that a module exports. -/
def exportedName : Rule source := firstOf [name, string]

/-- The word in front of what is imported or exported as a type. -/
def typeWord : Rule source := wordOf ["type", "typeof"]

/-- One of the names in braces of an import or an export. -/
def specifier : Rule source :=
  let last : Rule source := check fun cursor => cursor.hasMark "," || cursor.hasMark "\x7d"
  firstOf
    [sequence [exportedName, last],
      sequence [exportedName, word "as", exportedName, last],
      sequence [typeWord, exportedName, last],
      sequence [typeWord, exportedName, word "as", exportedName, last]]

/-- The names in braces of an import or an export. -/
def specifiers : Rule source := enclosed "\x7b" "\x7d" (separated specifier)

/-- All names of a module under one name. -/
def wholeModule : Rule source := sequence [mark "*", word "as", exportedName]

/-- What an import brings in. -/
def importClause : Rule source :=
  firstOf
    [wholeModule, specifiers,
      sequence [name, optional (sequence [mark ",", firstOf [wholeModule, specifiers]])]]

@[simp] theorem plain_wordOf (words : List String) : (wordOf words : Rule source).Plain :=
  yields_look fun cursor => by
    split
    · exact plain_name
    · exact yields_refuse

@[simp] theorem plain_moduleName : (moduleName : Rule source).Plain :=
  yields_withRole plain_string fun _ h => h

@[simp] theorem plain_exportedName : (exportedName : Rule source).Plain :=
  yields_firstOf (by simp)

@[simp] theorem plain_specifier : (specifier : Rule source).Plain := by
  refine yields_firstOf fun rule hrule => ?_
  simp only [List.mem_cons, List.not_mem_nil, or_false] at hrule
  rcases hrule with rfl | rfl | rfl | rfl
  all_goals exact yields_sequence (by simp [typeWord])

@[simp] theorem plain_specifiers : (specifiers : Rule source).Plain := by
  have listed : (separated specifier : Rule source).Plain :=
    yields_many (yields_firstOf (by simp))
  exact yields_sequence (by simp [listed])

@[simp] theorem plain_wholeModule : (wholeModule : Rule source).Plain :=
  yields_sequence (by simp)

@[simp] theorem plain_importClause : (importClause : Rule source).Plain := by
  have several : (firstOf [wholeModule, specifiers] : Rule source).Plain :=
    yields_firstOf (by simp)
  refine yields_firstOf fun rule hrule => ?_
  simp only [List.mem_cons, List.not_mem_nil, or_false] at hrule
  rcases hrule with rfl | rfl | rfl
  · exact plain_wholeModule
  · exact plain_specifiers
  · exact yields_andThen plain_name (yields_optional (yields_andThen (plain_mark _) several))

theorem sourceless_ending : (ending : Rule source).Sourceless :=
  yields_optional (sourceless_mark _)

theorem sourceless_attributes (level : Level source) : level.attributes.Sourceless := by
  have words : (wordOf ["with", "assert"] : Rule source).Sourceless :=
    yields_look fun cursor => by
      split
      · exact sourceless_name
      · exact yields_refuse
  have braces : level.object.Sourceless := sourceless_branch
  exact yields_optional (yields_andThen words braces)

/-- What stands in the part `name = require("…")` of an import. -/
def requireParts : Rule source :=
  sequence [name, mark "=", word "require", mark "(", moduleName, mark ")"]

theorem led_requireParts : (requireParts : Rule source).Led :=
  Plain.led (yields_sequence (by simp))

theorem names_requireParts : (requireParts : Rule source).Names :=
  names_sequence (show (moduleName : Rule source).Names from names_string) (by simp)

/-- The part `name = require("…")` of an import. -/
def requireClause : Rule source :=
  branch .requireClause requireParts fun cursor reading h =>
    ⟨led_requireParts cursor reading h, names_requireParts cursor reading h⟩

/-- What stands in a statement that imports from a module. -/
def importParts (level : Level source) : Rule source :=
  sequence
    [word "import",
      firstOf
        [moduleName, requireClause, sequence [typeWord, requireClause],
          sequence [importClause, word "from", moduleName],
          sequence [typeWord, importClause, word "from", moduleName]],
      level.attributes, ending]

theorem led_importParts (level : Level source) : level.importParts.Led := by
  have clause : (requireClause : Rule source).Led := Sourceless.led sourceless_branch
  refine Plain.andThen_led (plain_word _) ((led_firstOf fun rule hrule => ?_).andThen_sourceless ?_)
  · simp only [List.mem_cons, List.not_mem_nil, or_false] at hrule
    rcases hrule with rfl | rfl | rfl | rfl | rfl
    · exact Plain.led plain_moduleName
    · exact clause
    · exact Plain.andThen_led (plain_wordOf _) clause
    · exact Plain.led (yields_sequence (by simp))
    · exact Plain.led (yields_sequence (by simp [typeWord]))
  · exact yields_andThen level.sourceless_attributes sourceless_ending

/-- A statement that imports from a module. -/
def importStatement (level : Level source) : Rule source :=
  branch .importStatement level.importParts level.led_importParts

/-- A statement that gives another name to a member of a namespace. -/
def importAlias : Rule source :=
  branch .group <|
    sequence [word "import", optional typeWord, name, mark "=", qualifiedName, ending]

/-- What stands in a statement that exports from a module, or names of this one. -/
def exportParts (level : Level source) : Rule source :=
  sequence
    [word "export", optional typeWord,
      firstOf
        [sequence
            [firstOf [specifiers, wholeModule, mark "*"], word "from", moduleName,
              level.attributes],
          specifiers],
      ending]

theorem led_exportParts (level : Level source) : level.exportParts.Led := by
  have exported : (firstOf [specifiers, wholeModule, mark "*"] : Rule source).Plain :=
    yields_firstOf (by simp)
  have moved : (sequence [moduleName, level.attributes]).Led :=
    (Plain.led plain_moduleName).andThen_sourceless level.sourceless_attributes
  refine Plain.andThen_led (plain_word _) (Plain.andThen_led (yields_optional (plain_wordOf _)) ?_)
  refine (led_firstOf fun rule hrule => ?_).andThen_sourceless sourceless_ending
  simp only [List.mem_cons, List.not_mem_nil, or_false] at hrule
  rcases hrule with rfl | rfl
  · exact Plain.andThen_led exported (Plain.andThen_led (plain_word _) moved)
  · exact Plain.led plain_specifiers

/-- A statement that exports from a module, or names of this one. -/
def exportStatement (level : Level source) : Rule source :=
  branch .exportStatement level.exportParts level.led_exportParts

/-- An expression as a statement. -/
def expressionStatement (level : Level source) : Rule source :=
  sequence [level.rule .expression, ending]

/-- Any other statement that exports. -/
def exported (level : Level source) : Rule source :=
  branch .group <|
    sequence
      [word "export",
        firstOf
          [sequence
              [word "default",
                look fun cursor =>
                  if cursor.hasMark "\x7b" then level.expressionStatement
                  else level.rule .statement],
            sequence [mark "=", level.expressionStatement],
            sequence [word "as", word "namespace", name, ending],
            importAlias,
            look fun cursor =>
              if cursor.hasWord "import" || cursor.hasMark "\x7b" then done
              else optional (level.rule .statement)]]

/-- What a declaration binds. -/
def binding (level : Level source) : Rule source :=
  look fun cursor =>
    if cursor.hasMark "\x7b" then level.object
    else if cursor.hasMark "[" then level.array
    else name

/-- A binding with its type and its value. -/
def declarator (level : Level source) : Rule source :=
  sequence
    [level.binding, optional (mark "!"), optional level.annotation,
      optional (sequence [markNot "=" ["=>", "=="], optional level.assignment])]

/-- Whether a word that stands here declares what is behind it. -/
def isDeclaration (cursor : Cursor source) : Bool :=
  let next := cursor.afterName
  if cursor.hasWordOf ["var", "const"] then true
  else if cursor.hasWord "let" then
    (next.hasName && !next.hasWordOf ["in", "instanceof", "of"]) || next.hasMark "\x7b"
      || next.hasMark "["
  else if cursor.hasWord "using" then
    next.hasName && !next.fresh && !next.hasWordOf ["in", "instanceof", "of", "as", "satisfies"]
  else false

/-- The declaration of bindings, without its end. -/
def declaration (level : Level source) : Rule source :=
  sequence [name, level.declarator, many (sequence [mark ",", level.declarator])]

/-- What is in the parentheses of a loop. -/
def loopHead (level : Level source) : Rule source :=
  branch .group <|
    between "(" ")" <|
      many <|
        firstOf
          [mark ";", mark ",", word "of",
            look fun cursor =>
              if isDeclaration cursor then sequence [name, level.declarator] else refuse,
            level.assignment]

/-- The cases of a choice. -/
def cases (level : Level source) : Rule source :=
  branch .group <|
    between "\x7b" "\x7d" <|
      many <|
        firstOf
          [sequence
              [word "case", level.rule (.assignment false),
                many (sequence [mark ",", level.rule (.assignment false)]), optional (mark ":")],
            sequence [word "default", mark ":"], level.rule .statement, anythingInside]

/-- An enumeration from its keyword on. -/
def enumeration (level : Level source) : Rule source :=
  sequence
    [word "enum", name,
      branch .group <|
        between "\x7b" "\x7d" <|
          separated (sequence [level.key, optional (sequence [mark "=", level.assignment])])]

/-- An interface from its keyword on. -/
def interface (level : Level source) : Rule source :=
  sequence
    [word "interface", name, optional level.typeParameters,
      optional
        (sequence
          [word "extends", level.type, many (sequence [mark ",", level.type])]),
      optional level.objectType]

/-- The declaration of a type from its keyword on. -/
def typeDeclaration (level : Level source) : Rule source :=
  sequence
    [word "type", name, optional level.typeParameters, mark "=", optional (level.type), ending]

/-- A namespace or a module from its keyword on. -/
def namespaceDeclaration (level : Level source) : Rule source :=
  sequence
    [name, firstOf [string, qualifiedName],
      look fun cursor => if cursor.hasMark "\x7b" then level.block else ending]

/-- Whether a word that stands here and the lexeme behind it begin a declaration. -/
def isNamespace (cursor : Cursor source) : Bool :=
  cursor.hasWordOf ["namespace", "module"]
    && (let next := cursor.afterName
      !next.fresh
        && ((next.hasName && !next.hasWordOf ["in", "instanceof", "as", "satisfies"])
          || next.hasMark "\"" || next.hasMark "\x27"))

/-- The words that can stand behind `declare`. -/
def declarableWords : List String :=
  ["var", "let", "const", "function", "async", "class", "abstract", "enum", "interface", "type",
    "namespace", "module", "global", "using", "import", "export"]

/-- A statement that is part of another one. -/
def inner (level : Level source) : Rule source := optional (level.rule .statement)

/-- A statement that begins with a word. -/
def wordStatement (level : Level source) : Rule source :=
  look fun cursor =>
    let next := cursor.afterName
    if cursor.hasWord "import" && !next.hasMark "(" && !next.hasMark "." then
      firstOf [level.importStatement, importAlias, name]
    else if cursor.hasWord "export" then firstOf [level.exportStatement, level.exported, name]
    else if cursor.hasWord "const" && next.hasWord "enum" then
      sequence [name, level.enumeration]
    else if isDeclaration cursor then sequence [level.declaration, ending]
    else if cursor.hasWord "await" && next.hasWord "using" && isDeclaration next then
      sequence [name, level.declaration, ending]
    else if cursor.hasWord "function" then level.function
    else if cursor.hasWord "async" && next.hasWord "function" && !next.fresh then
      sequence [name, level.function]
    else if cursor.hasWord "class" then level.classRule
    else if cursor.hasWord "abstract" && next.hasWord "class" then
      sequence [name, level.classRule]
    else if cursor.hasWord "interface" && next.hasName then level.interface
    else if cursor.hasWord "type" && next.hasName
        && (next.afterName.hasMark "=" || next.afterName.hasMark "<") then level.typeDeclaration
    else if cursor.hasWord "enum" then level.enumeration
    else if isNamespace cursor then level.namespaceDeclaration
    else if cursor.hasWord "declare" && next.hasWord "global" then
      sequence [name, name, level.block]
    else if cursor.hasWord "declare" && next.hasWordOf declarableWords then
      sequence [name, level.inner]
    else if cursor.hasWord "if" then
      sequence
        [name, level.parentheses, level.inner, optional (sequence [word "else", level.inner])]
    else if cursor.hasWord "for" then
      sequence [name, optional (word "await"), level.loopHead, level.inner]
    else if cursor.hasWordOf ["while", "with"] then sequence [name, level.parentheses, level.inner]
    else if cursor.hasWord "do" then
      sequence [name, level.inner, optional (sequence [word "while", level.parentheses]), ending]
    else if cursor.hasWord "switch" then sequence [name, level.parentheses, level.cases]
    else if cursor.hasWord "try" then
      sequence
        [name, level.block,
          optional (sequence [word "catch", optional level.parentheses, level.block]),
          optional (sequence [word "finally", level.block])]
    else if cursor.hasWordOf ["return", "throw"] then
      sequence [name, if next.fresh then done else optional (level.rule .expression), ending]
    else if cursor.hasWordOf ["break", "continue"] then
      sequence [name, if next.fresh then done else optional name, ending]
    else if cursor.hasWord "debugger" then sequence [name, ending]
    else if next.hasMark ":" && !cursor.hasWordOf nonOperandWords then
      sequence [name, mark ":", level.inner]
    else level.expressionStatement

/-- A statement. -/
def statementRule (level : Level source) : Rule source :=
  look fun cursor =>
    if cursor.hasMark ";" then mark ";"
    else if cursor.hasMark "\x7b" then level.block
    else if cursor.hasMark "@" then sequence [level.decorator, many level.decorator, level.inner]
    else if (markupCommentLength? cursor.rest).isSome then markupComment
    else if cursor.hasName then level.wordStatement
    else level.expressionStatement

end ImportLint.Script.Level
