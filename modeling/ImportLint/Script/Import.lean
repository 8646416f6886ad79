import ImportLint.ImportSite
import ImportLint.Script.Grammar
import ImportLint.Script.Traversal
import ImportLint.Text.Utf8

/-!
The imports of a script: the strings that name modules, found by a traversal of the tree of the script,
each construct before what is in it.
-/

namespace ImportLint.Script

/-- The string of a node, which is given by its offset and its text. -/
def Node.string? : Node → Option (Nat × List Char)
  | .leaf (.string _) start text => some (start, text)
  | _ => none

/-- Whether a node counts as an argument: commas, parentheses and comments do not. -/
def Node.isArgument : Node → Bool
  | .leaf .mark _ _ => false
  | .leaf .comment _ _ => false
  | _ => true

/-- Whether a call of this loads a module. -/
def Node.isLoader : Node → Bool
  | .leaf .importWord _ _ => true
  | .leaf .name _ text => text = ['r', 'e', 'q', 'u', 'i', 'r', 'e']
  | _ => false

/-- The first child with a role. -/
def childOf? (role : Role) (children : List Child) : Option Node :=
  (children.find? fun child => child.1 = role).map (·.2)

/-- The first child that is a string. -/
def firstString? (children : List Child) : Option Node :=
  (children.find? fun child => child.2.string?.isSome).map (·.2)

/-- The only argument of a call that loads a module. -/
def loaderArgument? (children : List Child) : Option Node :=
  match childOf? .callee children, childOf? .arguments children with
  | some callee, some (.branch _ arguments) =>
    if callee.isLoader then
      match arguments.filter fun child => child.2.isArgument with
      | [(_, argument)] => some argument
      | _ => none
    else none
  | _, _ => none

/-- The node that names the module of a construct, if the construct imports one. -/
def Node.specifier? : Node → Option Node
  | .branch .importStatement children => childOf? .source children
  | .branch .exportStatement children => childOf? .source children
  | .branch .requireClause children => (childOf? .source children).or (firstString? children)
  | .branch .call children => loaderArgument? children
  | _ => none

/-- The text of a string without its first and its last byte.  A string without its closing quote
loses the end of its text, and has no such text where a longer character would be cut. -/
def unquoted? : List Char → Option (List Char)
  | _ :: rest =>
    match rest.getLast? with
    | some last => if last.utf8Size = 1 then some rest.dropLast else none
    | none => none
  | [] => none

/-- The name of a module and the offset of the string that holds it. -/
abbrev Found := Nat × List Char

/-- What a construct by itself imports. -/
def Node.own? (node : Node) : Option Found :=
  match node.specifier?.bind Node.string? with
  | some (start, text) => (unquoted? text).map fun path => (start, path)
  | none => none

/-- What a construct by itself imports, as a list. -/
def Node.own (node : Node) : List Found := node.own?.toList

mutual

/-- All that a tree imports: each construct before what is in it. -/
def Node.found : Node → List Found
  | .leaf _ _ _ => []
  | .branch construct children => Node.own (.branch construct children) ++ foundInAll children

/-- All that a list of trees imports. -/
def foundInAll : List Child → List Found
  | [] => []
  | (_, node) :: children => node.found ++ foundInAll children

end

/-- A visit that takes down what the node imports. -/
def collect (found : Array Found) (node : Node) : Array Found :=
  match node.own? with
  | some one => found.push one
  | none => found

theorem foldl_collect (found : Array Found) (nodes : List Node) :
    (nodes.foldl collect found).toList = found.toList ++ nodes.filterMap Node.own? := by
  induction nodes generalizing found with
  | nil => simp
  | cons node nodes ih =>
    rw [List.foldl_cons, ih, List.filterMap_cons, collect]
    cases node.own? with
    | none => rfl
    | some one => simp

mutual

theorem Node.filterMap_preorder (node : Node) :
    node.preorder.filterMap Node.own? = node.found := by
  match node with
  | .leaf lexeme start text => rfl
  | .branch construct children =>
    rw [preorder, List.filterMap_cons, Node.filterMap_preorderOfAll children, found, own]
    cases (Node.branch construct children).own? <;> rfl

theorem Node.filterMap_preorderOfAll (children : List Child) :
    (preorderOfAll children).filterMap Node.own? = foundInAll children := by
  match children with
  | [] => rfl
  | (role, node) :: children =>
    rw [preorderOfAll, List.filterMap_append, Node.filterMap_preorder node,
      Node.filterMap_preorderOfAll children, foundInAll]

end

/-- The imports of a tree, from a traversal that begins at its root. -/
def Node.imports (root : Node) : List Found :=
  (Traversal.run collect ⟨#[], [root]⟩).toList

/-- The traversal comes to what each node by itself imports, in the order of the nodes. -/
theorem Node.imports_eq_filterMap (root : Node) :
    root.imports = root.preorder.filterMap Node.own? := by
  rw [imports, Traversal.run_eq, foldl_collect, Traversal.remaining, List.flatMap_singleton]
  rfl

theorem Node.imports_eq_found (root : Node) : root.imports = root.found :=
  root.imports_eq_filterMap.trans root.filterMap_preorder

/-- The line of an offset, counted from one; only a line feed ends a line. -/
def lineAt (source : List Char) (offset : Nat) : Nat :=
  (source.take offset).count '\n' + 1

/-- The column of an offset in bytes, counted from one. -/
def columnAt (source : List Char) (offset : Nat) : Nat :=
  Text.byteLength ((source.take offset).reverse.takeWhile (· ≠ '\n')) + 1

/-- The two dialects of scripts. -/
inductive Dialect where
  /-- Angle brackets in front of an expression are type assertions. -/
  | typescript
  /-- Angle brackets in front of an expression are elements. -/
  | tsx
  deriving DecidableEq, Repr

/-- The written name of a dialect. -/
def Dialect.name : Dialect → String
  | .typescript => "typescript"
  | .tsx => "tsx"

/-- The file extensions of a dialect. -/
def Dialect.extensions : Dialect → List String
  | .typescript => [".ts", ".mts", ".cts"]
  | .tsx => [".tsx", ".js", ".jsx", ".mjs", ".cjs"]

/-- The dialect of files with an extension, which is written with its point. -/
def Dialect.ofExtension? (extension : String) : Option Dialect :=
  [Dialect.typescript, .tsx].find? fun dialect => dialect.extensions.contains extension

/-- The imports of a script, in the order of its tree. -/
def imports (dialect : Dialect) (source : String) : List ImportSite :=
  let text := source.toList
  (parse (dialect == .tsx) text).imports.map fun (offset, path) =>
    ⟨lineAt text offset, columnAt text offset, String.ofList path⟩

end ImportLint.Script
