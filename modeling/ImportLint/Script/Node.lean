import ImportLint.Script.Lexeme

/-!
Syntax trees of scripts, as far as imports depend on them: which constructs name a module, what is
called with what, and where the lexemes stand.  `Node.Spans` states that a tree lies in a stretch of
its source, each node behind the one before it, that its leaves hold the text that stands there, and
that a statement has only leaves in front of the string that names its module, which is always there
in a `require` clause.
-/

namespace ImportLint.Script

/-- The sorts of lexemes. -/
inductive Lexeme where
  /-- A name or a keyword. -/
  | name
  /-- The word `import` where it is called. -/
  | importWord
  /-- A string, and whether its closing quote is there. -/
  | string (closed : Bool)
  /-- A number, a regular expression, a part of a template or of an element. -/
  | literal
  /-- A comment that begins with `<!--` or `-->`. -/
  | markupComment
  /-- Any other comment.  The rules pass over these, but a tree may hold them anywhere. -/
  | comment
  /-- An operator or a bracket. -/
  | mark
  deriving DecidableEq, Repr

/-- The sorts of constructs. -/
inductive Construct where
  | program
  | importStatement
  | exportStatement
  /-- The part `name = require("…")` of an import. -/
  | requireClause
  | call
  /-- Anything else that is one thing to what is around it. -/
  | group
  deriving DecidableEq, Repr

/-- What a node is to the construct around it. -/
inductive Role where
  | part
  /-- What is called. -/
  | callee
  /-- The bracketed list of what it is called with. -/
  | arguments
  /-- The string that names a module. -/
  | source
  deriving DecidableEq, Repr

/-- A tree.  A leaf has the offset of its first character in the source. -/
inductive Node where
  | leaf (lexeme : Lexeme) (start : Nat) (text : List Char)
  | branch (construct : Construct) (children : List (Role × Node))
  deriving Repr

/-- A node and what it is to the construct around it. -/
abbrev Child := Role × Node

/-- Whether a node is a single lexeme. -/
def Node.isLeaf : Node → Bool
  | .leaf _ _ _ => true
  | .branch _ _ => false

/-- What a node of a role is known to be. -/
def Role.Admits : Role → Node → Prop
  | .arguments, node => ∃ children, node = .branch .group children
  | _, _ => True

/-- Every child up to the last one that names a module is a single lexeme. -/
def LeavesUpToSource (children : List Child) : Prop :=
  ∃ front back, children = front ++ back ∧ (∀ child ∈ front, child.2.isLeaf = true) ∧
    ∀ child ∈ back, child.1 ≠ .source

/-- What the children of a construct are known to be. -/
def Construct.Arranges : Construct → List Child → Prop
  | .importStatement, children => LeavesUpToSource children
  | .exportStatement, children => LeavesUpToSource children
  | .requireClause, children =>
    LeavesUpToSource children ∧ ∃ child ∈ children, child.1 = .source
  | _, _ => True

mutual

/-- A tree lies between two offsets of its source. -/
inductive Node.Spans (source : List Char) : Node → Nat → Nat → Prop
  | leaf {lexeme : Lexeme} {text : List Char} {low start high : Nat} (after : low ≤ start)
      (stands : text <+: source.drop start) (before : start + text.length ≤ high)
      (reads : ∀ closed, lexeme = .string closed → ∃ count,
        stringLength? (source.drop start) = some (count, closed) ∧
          text = (source.drop start).take count) :
      Node.Spans source (.leaf lexeme start text) low high
  | branch {construct : Construct} {children : List Child} {low high : Nat}
      (inside : SpansAll source children low high) (arranged : construct.Arranges children) :
      Node.Spans source (.branch construct children) low high

/-- Trees lie between two offsets, one behind the other. -/
inductive SpansAll (source : List Char) : List Child → Nat → Nat → Prop
  | nil {low high : Nat} (h : low ≤ high) : SpansAll source [] low high
  | cons {role : Role} {node : Node} {children : List Child} {low middle high : Nat}
      (admitted : role.Admits node) (head : Node.Spans source node low middle)
      (tail : SpansAll source children middle high) :
      SpansAll source ((role, node) :: children) low high

end

mutual

theorem Node.Spans.le {source : List Char} {node : Node} {low high : Nat}
    (h : node.Spans source low high) : low ≤ high := by
  match h with
  | .leaf after _ before _ => omega
  | .branch inside _ => exact inside.le

theorem SpansAll.le {source : List Char} {children : List Child} {low high : Nat}
    (h : SpansAll source children low high) : low ≤ high := by
  match h with
  | .nil h => exact h
  | .cons _ head tail => exact Nat.le_trans head.le tail.le

end

mutual

theorem Node.Spans.widen {source : List Char} {node : Node} {low low' high : Nat}
    (h : node.Spans source low high) (le : low' ≤ low) : node.Spans source low' high := by
  match h with
  | .leaf after stands before reads => exact .leaf (Nat.le_trans le after) stands before reads
  | .branch inside arranged => exact .branch (inside.widen le) arranged

theorem SpansAll.widen {source : List Char} {children : List Child} {low low' high : Nat}
    (h : SpansAll source children low high) (le : low' ≤ low) :
    SpansAll source children low' high := by
  match h with
  | .nil h => exact .nil (Nat.le_trans le h)
  | .cons admitted head tail => exact .cons admitted (head.widen le) tail

end

/-- Trees between two offsets, followed by trees behind them. -/
theorem SpansAll.append {source : List Char} {left right : List Child} {low middle high : Nat}
    (h : SpansAll source left low middle) (k : SpansAll source right middle high) :
    SpansAll source (left ++ right) low high := by
  induction left generalizing low with
  | nil => exact k.widen h.le
  | cons child left ih =>
    cases h with
    | cons admitted head tail => exact .cons admitted head (ih tail)

/-- Trees that stand one behind the other, cut in two. -/
theorem SpansAll.split {source : List Char} {left right : List Child} {low high : Nat}
    (h : SpansAll source (left ++ right) low high) :
    ∃ middle, SpansAll source left low middle ∧ SpansAll source right middle high := by
  induction left generalizing low with
  | nil => exact ⟨low, .nil (Nat.le_refl low), h⟩
  | cons child left ih =>
    cases h with
    | cons admitted head tail =>
      obtain ⟨middle, hleft, hright⟩ := ih tail
      exact ⟨middle, .cons admitted head hleft, hright⟩

/-- One tree between two offsets. -/
theorem SpansAll.single {source : List Char} {node : Node} {low high : Nat}
    (h : node.Spans source low high) : SpansAll source [(.part, node)] low high :=
  .cons trivial h (.nil (Nat.le_refl high))

/-- Roles say nothing about where trees stand. -/
theorem SpansAll.withRole {source : List Char} {children : List Child} {low high : Nat}
    {role : Role} (h : SpansAll source children low high)
    (admitted : ∀ child ∈ children, role.Admits child.2) :
    SpansAll source (children.map fun child => (role, child.2)) low high := by
  induction children generalizing low with
  | nil => exact h
  | cons child children ih =>
    rw [List.forall_mem_cons] at admitted
    cases h with
    | cons _ head tail => exact .cons admitted.1 head (ih tail admitted.2)

end ImportLint.Script
