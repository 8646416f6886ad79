import ImportLint.Script.Node

/-!
Going through all nodes of a tree with a stack of those that are still to be visited.  Main statement:
a traversal visits the nodes in the order of `preorder`, each before its children and these from left
to right, whatever is done at a visit (`Traversal.run_eq`).
-/

namespace ImportLint.Script

/-- The nodes directly below a node. -/
def Node.children : Node → List Node
  | .leaf _ _ _ => []
  | .branch _ children => children.map (·.2)

mutual

/-- The number of nodes of a tree. -/
def Node.size : Node → Nat
  | .leaf _ _ _ => 1
  | .branch _ children => sizeOfAll children + 1

/-- The number of nodes of a list of trees. -/
def sizeOfAll : List Child → Nat
  | [] => 0
  | (_, node) :: children => node.size + sizeOfAll children

end

mutual

/-- The nodes of a tree, each before its children, and these from left to right. -/
def Node.preorder : Node → List Node
  | .leaf lexeme start text => [.leaf lexeme start text]
  | .branch construct children => .branch construct children :: preorderOfAll children

/-- The nodes of a list of trees, one tree after the other. -/
def preorderOfAll : List Child → List Node
  | [] => []
  | (_, node) :: children => node.preorder ++ preorderOfAll children

end

theorem preorderOfAll_eq (children : List Child) :
    preorderOfAll children = children.flatMap fun child => child.2.preorder := by
  induction children with
  | nil => rfl
  | cons child children ih => simp [preorderOfAll, ih]

theorem Node.preorder_eq (node : Node) :
    node.preorder = node :: node.children.flatMap Node.preorder := by
  cases node with
  | leaf lexeme start text => rfl
  | branch construct children =>
    rw [preorder, preorderOfAll_eq, Node.children, List.flatMap_map]

/-- The number of nodes on a stack and below those. -/
def sizeOfStack : List Node → Nat
  | [] => 0
  | node :: stack => node.size + sizeOfStack stack

theorem sizeOfStack_append (left right : List Node) :
    sizeOfStack (left ++ right) = sizeOfStack left + sizeOfStack right := by
  induction left with
  | nil => exact (Nat.zero_add _).symm
  | cons node left ih => rw [List.cons_append, sizeOfStack, sizeOfStack, ih, Nat.add_assoc]

theorem sizeOfStack_children (node : Node) : sizeOfStack node.children + 1 = node.size := by
  cases node with
  | leaf lexeme start text => rfl
  | branch construct children =>
    rw [Node.size, Node.children]
    induction children with
    | nil => rfl
    | cons child children ih =>
      rw [List.map_cons, sizeOfStack, sizeOfAll]
      omega

/-- Puts nodes on a stack one after the other, so that the last one is on top. -/
def pushAll (stack nodes : List Node) : List Node :=
  nodes.foldl (fun stack node => node :: stack) stack

theorem pushAll_reverse (stack nodes : List Node) : pushAll stack nodes.reverse = nodes ++ stack := by
  rw [pushAll, List.foldl_reverse, List.foldr_cons_eq_append, List.map_id']

/-- A traversal under way: what the visits so far have led to, and the nodes whose visit is still to
come, the next one on top. -/
structure Traversal (State : Type) where
  state : State
  stack : List Node

namespace Traversal

variable {State : Type}

/-- Takes the next node from the stack, visits it, and puts its children on the stack, the first one
on top.  There is no step from an empty stack. -/
def step (visit : State → Node → State) (traversal : Traversal State) :
    Option (Traversal State) :=
  match traversal.stack with
  | [] => none
  | node :: stack => some ⟨visit traversal.state node, pushAll stack node.children.reverse⟩

/-- The number of visits still to come. -/
def pending (traversal : Traversal State) : Nat :=
  sizeOfStack traversal.stack

/-- The nodes whose visit is still to come, in the order of the visits. -/
def remaining (traversal : Traversal State) : List Node :=
  traversal.stack.flatMap Node.preorder

theorem step_eq_some {visit : State → Node → State} {traversal next : Traversal State}
    (h : traversal.step visit = some next) :
    ∃ node stack, traversal.stack = node :: stack ∧
      next = ⟨visit traversal.state node, node.children ++ stack⟩ := by
  obtain ⟨state, stack⟩ := traversal
  cases stack with
  | nil => cases h
  | cons node stack =>
    cases h
    exact ⟨node, stack, rfl, by rw [pushAll_reverse]⟩

theorem step_eq_none {visit : State → Node → State} {traversal : Traversal State}
    (h : traversal.step visit = none) : traversal.stack = [] := by
  obtain ⟨state, stack⟩ := traversal
  cases stack with
  | nil => rfl
  | cons node stack => cases h

theorem pending_step {visit : State → Node → State} {traversal next : Traversal State}
    (h : traversal.step visit = some next) : next.pending < traversal.pending := by
  obtain ⟨node, stack, hstack, rfl⟩ := step_eq_some h
  have := sizeOfStack_children node
  rw [pending, pending, hstack, sizeOfStack_append, sizeOfStack]
  omega

/-- A step visits the first of the remaining nodes and leaves the others, in their order. -/
theorem remaining_step {visit : State → Node → State} {traversal next : Traversal State}
    (h : traversal.step visit = some next) :
    ∃ node, traversal.remaining = node :: next.remaining ∧
      next.state = visit traversal.state node := by
  obtain ⟨node, stack, hstack, rfl⟩ := step_eq_some h
  refine ⟨node, ?_, rfl⟩
  rw [remaining, hstack, List.flatMap_cons, node.preorder_eq, remaining, List.flatMap_append,
    List.cons_append]

/-- Goes on until the stack is empty. -/
def run (visit : State → Node → State) (traversal : Traversal State) : State :=
  match _ : traversal.step visit with
  | none => traversal.state
  | some next => run visit next
termination_by traversal.pending
decreasing_by exact pending_step ‹_›

/-- A traversal visits the remaining nodes one after the other, and nothing else. -/
theorem run_eq (visit : State → Node → State) (traversal : Traversal State) :
    traversal.run visit = traversal.remaining.foldl visit traversal.state := by
  fun_induction run visit traversal with
  | case1 traversal h =>
    rw [remaining, step_eq_none h]
    rfl
  | case2 traversal next h ih =>
    obtain ⟨node, hremaining, hstate⟩ := remaining_step h
    rw [ih, hremaining, List.foldl_cons, hstate]

end Traversal

end ImportLint.Script
