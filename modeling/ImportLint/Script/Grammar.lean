import ImportLint.Script.Grammar.Element
import ImportLint.Script.Grammar.Statement

/-!
The whole grammar: the levels tied together, and the tree of a source.
-/

namespace ImportLint.Script

variable {source : List Char}

/-- The rule of a construct, given the level further in. -/
def Level.ruleOf (level : Level source) : Goal → Rule source
  | .statement => level.statementRule
  | .expression => level.expressionRule
  | .assignment annotated => level.assignmentRule annotated
  | .applied => level.appliedOperand true
  | .creation => .chain (level.primary false) level.creationSuffix
  | .type functional => level.typeRule functional
  | .element tight => level.elementRule tight

/-- The rule of a construct that is nested at most `depth` levels deep. -/
def grammar (elements : Bool) : (depth : Nat) → Goal → Rule source
  | 0, _ => .refuse
  | depth + 1, goal => .look fun _ => Level.ruleOf ⟨grammar elements depth, elements⟩ goal

/-- A whole source.  Every level begins behind at least one character of the level around it, or one
step further in at the same place. -/
def programRule (elements : Bool) (source : List Char) : Rule source :=
  .branch .program <|
    .sequence
      [.optional (.lexeme (fun rest => some (.markupComment, interpreterLength rest)) true),
        .skipGap,
        .many
          (.firstOf [grammar elements (4 * source.length + 16) .statement, Level.anything])]

/-- The tree of a source. -/
def parse (elements : Bool) (source : List Char) : Node :=
  match (programRule elements source).run (.start source) with
  | some ([(_, node)], _) => node
  | _ => .branch .program []

end ImportLint.Script
