import ImportLint.Proofs.CommentEdits
import ImportLint.Proofs.TreePlaces

/-!
The traversal that finds imports.  It comes to every place of a tree once and in pre-order, so it
misses no import; it takes each import from a string of its own, unless a form that imports is the
arguments of a call; and comments among the arguments of a call change nothing.
-/

namespace ImportLint.Proofs.ImportTraversal

open Script FoundLiterals TreePlaces CommentEdits

/-- The kinds of constructs that can import. -/
def IsForm : Script.Node → Prop
  | .branch .importStatement _ => True
  | .branch .exportStatement _ => True
  | .branch .requireClause _ => True
  | .branch .call _ => True
  | _ => False

/-- In no call of a tree, the arguments are themselves a form that imports. -/
def ArgumentsApart (root : Script.Node) : Prop :=
  ∀ place children arguments, nodeAt? root place = some (.branch .call children) →
    childOf? .arguments children = some arguments → ¬ IsForm arguments

/-- The number of the first child with a role. -/
def childIndex (role : Role) (children : List Child) : Nat :=
  children.findIdx fun child => child.1 = role

/-- The place, from the arguments of a call on, of the first argument. -/
def argumentIndex (children : List Child) : Nat :=
  match childOf? .arguments children with
  | some (.branch _ arguments) => arguments.findIdx fun child => child.2.isArgument
  | _ => 0

/-- The place, from a form on, of the string that names its module. -/
def literalPlace : Script.Node → TreePlace
  | .leaf _ _ _ => []
  | .branch .call children => [childIndex .arguments children, argumentIndex children]
  | .branch .requireClause children =>
    if (childOf? .source children).isSome then [childIndex .source children]
    else [children.findIdx fun child => child.2.string?.isSome]
  | .branch _ children => [childIndex .source children]

/-- The place of the string by which the node at a place imports a module, if it does. -/
def literalFrom? (root : Script.Node) (place : TreePlace) : Option TreePlace :=
  (nodeAt? root place).bind fun node => node.own?.map fun _ => place ++ literalPlace node

/-- The places of the strings by which modules are imported, in the order of the nodes that do. -/
def literals (root : Script.Node) : List TreePlace :=
  (places root).filterMap (literalFrom? root)

/-- The string at a place holds what is found. -/
def HeldAt (root : Script.Node) (literal : TreePlace) (found : Found) : Prop :=
  ∃ node text, nodeAt? root literal = some node ∧ node.string? = some (found.1, text) ∧
    unquoted? text = some found.2

/-- What the traversal of a tree does. -/
structure TraversedInPreorder (root : Script.Node) : Prop where
  /-- Whatever is done at a visit, it is done at the nodes of the pre-order, one after the other. -/
  visits : ∀ {State : Type} (visit : State → Script.Node → State) (state : State),
    Traversal.run visit ⟨state, [root]⟩ = root.preorder.foldl visit state
  /-- The pre-order goes through the places of the tree, -/
  nodes : root.preorder.map some = (places root).map (nodeAt? root)
  /-- which are those that have a node, -/
  mem_places : ∀ place, place ∈ places root ↔ (nodeAt? root place).isSome
  /-- and to each of them once. -/
  nodup_places : (places root).Nodup
  imports : root.imports = root.preorder.filterMap Script.Node.own?
  none_missed : ∀ place node found, nodeAt? root place = some node → node.own? = some found →
    found ∈ root.imports
  /-- There is one string for each import, in the same order, -/
  held : List.Forall₂ (HeldAt root) (literals root) root.imports
  /-- and no string is there twice. -/
  nodup_literals : ArgumentsApart root → (literals root).Nodup

/-- No run of a traversal goes on forever. -/
theorem step_wellFounded {State : Type} (visit : State → Script.Node → State) :
    WellFounded fun next traversal : Traversal State => traversal.step visit = some next :=
  Subrelation.wf (fun h => Traversal.pending_step h) (measure Traversal.pending).wf

section Literals

theorem nodeAt?_child {construct : Construct} {children : List Child} {test : Child → Bool}
    {node : Script.Node} (h : (children.find? test).map (·.2) = some node) (inner : TreePlace) :
    nodeAt? (.branch construct children) (children.findIdx test :: inner) = nodeAt? node inner := by
  rw [List.find?_eq_getElem?_findIdx] at h
  rw [nodeAt?, Script.Node.children, List.getElem?_map, h, Option.bind_some]

theorem nodeAt?_arguments {children : List Child} {arguments : Script.Node}
    (h : childOf? .arguments children = some arguments) (inner : TreePlace) :
    nodeAt? (.branch .call children) (childIndex .arguments children :: inner) =
      nodeAt? arguments inner :=
  nodeAt?_child h inner

theorem nodeAt?_literalPlace {node named : Script.Node} (h : node.specifier? = some named) :
    nodeAt? node (literalPlace node) = some named := by
  cases node with
  | leaf lexeme start text => cases h
  | branch construct children =>
    cases construct
    case importStatement | exportStatement => exact nodeAt?_child h []
    case requireClause =>
      rw [Script.Node.specifier?] at h
      rw [literalPlace]
      split
      · next hsome =>
        rw [Option.or_of_isSome hsome] at h
        exact nodeAt?_child h []
      · next hnone =>
        rw [Option.not_isSome_iff_eq_none.mp hnone, Option.none_or] at h
        exact nodeAt?_child h []
    case call =>
      obtain ⟨construct, arguments, role, harguments, hfilter⟩ := arguments_of_loaderArgument? h
      have hfirst : (arguments.find? fun child => child.2.isArgument).map (·.2) = some named := by
        rw [← List.head?_filter, hfilter]
        rfl
      rw [literalPlace, argumentIndex, harguments, nodeAt?_arguments harguments]
      exact nodeAt?_child hfirst []
    case program | group => cases h

theorem isForm_of_own? {node : Script.Node} {found : Found} (h : node.own? = some found) :
    IsForm node := by
  obtain ⟨named, -, hnamed, -, -⟩ := own?_eq_some_iff.mp h
  cases node with
  | leaf lexeme start text => cases hnamed
  | branch construct children =>
    cases construct
    case importStatement | exportStatement | requireClause | call => trivial
    case program | group => cases hnamed

/-- A form has the string that names its module among its children, but for a call, which has it among
those of its arguments. -/
theorem literalPlace_cases {node : Script.Node} {found : Found} (h : node.own? = some found) :
    (∃ i, literalPlace node = [i]) ∨
      ∃ children arguments i j, node = .branch .call children ∧
        childOf? .arguments children = some arguments ∧ nodeAt? node [i] = some arguments ∧
        literalPlace node = [i, j] := by
  obtain ⟨named, -, hnamed, -, -⟩ := own?_eq_some_iff.mp h
  cases node with
  | leaf lexeme start text => cases hnamed
  | branch construct children =>
    cases construct
    case importStatement | exportStatement => exact .inl ⟨_, rfl⟩
    case requireClause =>
      rw [literalPlace]
      split
      · exact .inl ⟨_, rfl⟩
      · exact .inl ⟨_, rfl⟩
    case call =>
      obtain ⟨construct, arguments, role, harguments, -⟩ := arguments_of_loaderArgument? hnamed
      exact .inr ⟨children, _, _, _, rfl, harguments, nodeAt?_arguments harguments [], rfl⟩
    case program | group => cases hnamed

/-- Where the arguments of a call stand there is no form, so none takes a string from among them. -/
theorem arguments_own?_eq_none {root call arguments inner : Script.Node} {place : TreePlace}
    {children : List Child} {i : Nat} (apart : ArgumentsApart root)
    (hcall : nodeAt? root place = some call) (heq : call = .branch .call children)
    (harguments : childOf? .arguments children = some arguments)
    (hplace : nodeAt? call [i] = some arguments)
    (hinner : nodeAt? root (place ++ [i]) = some inner) (found : Found) :
    inner.own? ≠ some found := by
  intro hfound
  rw [nodeAt?_append, hcall, Option.bind_some, hplace, Option.some.injEq] at hinner
  subst heq hinner
  exact apart place children arguments hcall harguments (isForm_of_own? hfound)

/-- A string names the module of one form at most. -/
theorem literalPlace_unique {root node node' : Script.Node} (apart : ArgumentsApart root)
    {place place' : TreePlace} {found found' : Found} (hnode : nodeAt? root place = some node)
    (hfound : node.own? = some found) (hnode' : nodeAt? root place' = some node')
    (hfound' : node'.own? = some found')
    (heq : place ++ literalPlace node = place' ++ literalPlace node') : place = place' := by
  rcases literalPlace_cases hfound with
    ⟨i, hi⟩ | ⟨children, arguments, i, j, hcall, harguments, hplace, hi⟩ <;>
  rcases literalPlace_cases hfound' with
    ⟨i', hi'⟩ | ⟨children', arguments', i', j', hcall', harguments', hplace', hi'⟩
  · rw [hi, hi'] at heq
    exact List.append_inj_left' heq rfl
  -- A string among the arguments of a call can only be a child of another form where these arguments
  -- are that form.
  · rw [hi, hi', List.append_cons place' i' [j']] at heq
    rw [List.append_inj_left' heq rfl] at hnode
    exact absurd hfound (arguments_own?_eq_none apart hnode' hcall' harguments' hplace' hnode _)
  · rw [hi, hi', List.append_cons place i [j]] at heq
    rw [← List.append_inj_left' heq rfl] at hnode'
    exact absurd hfound' (arguments_own?_eq_none apart hnode hcall harguments hplace hnode' _)
  · rw [hi, hi'] at heq
    exact List.append_inj_left' heq rfl

theorem exists_of_literalFrom? {root : Script.Node} {place literal : TreePlace}
    (h : literalFrom? root place = some literal) :
    ∃ node found, nodeAt? root place = some node ∧ node.own? = some found ∧
      literal = place ++ literalPlace node := by
  obtain ⟨node, hnode, hliteral⟩ := Option.bind_eq_some_iff.mp h
  obtain ⟨found, hfound, rfl⟩ := Option.map_eq_some_iff.mp hliteral
  exact ⟨node, found, hnode, hfound, rfl⟩

theorem nodup_literals {root : Script.Node} (apart : ArgumentsApart root) :
    (literals root).Nodup := by
  refine (nodup_places root).filterMap fun place place' literal hliteral hliteral' => ?_
  obtain ⟨node, found, hnode, hfound, rfl⟩ := exists_of_literalFrom? hliteral
  obtain ⟨node', found', hnode', hfound', heq⟩ := exists_of_literalFrom? hliteral'
  exact literalPlace_unique apart hnode hfound hnode' hfound' heq

theorem imports_eq_filterMap_places (root : Script.Node) :
    root.imports = (places root).filterMap fun place =>
      (nodeAt? root place).bind Script.Node.own? := by
  have hnodes : root.preorder.filterMap Script.Node.own? =
      (root.preorder.map some).filterMap fun node => node.bind Script.Node.own? := by
    rw [List.filterMap_map]
    rfl
  rw [root.imports_eq_filterMap, hnodes, ← map_places root, List.filterMap_map]
  rfl

theorem forall₂_heldAt (root : Script.Node) :
    List.Forall₂ (HeldAt root) (literals root) root.imports := by
  rw [imports_eq_filterMap_places, literals]
  induction places root with
  | nil => exact .nil
  | cons place others ih =>
    rw [List.filterMap_cons, List.filterMap_cons, literalFrom?]
    cases hnode : nodeAt? root place with
    | none => exact ih
    | some node =>
      simp only [Option.bind_some]
      cases hfound : node.own? with
      | none => exact ih
      | some found =>
        obtain ⟨named, text, hnamed, hstring, hpath⟩ := own?_eq_some_iff.mp hfound
        refine .cons ⟨named, text, ?_, hstring, hpath⟩ ih
        rw [nodeAt?_append, hnode, Option.bind_some, nodeAt?_literalPlace hnamed]

end Literals

theorem traversedInPreorder (root : Script.Node) : TraversedInPreorder root where
  visits visit state := by
    rw [Traversal.run_eq, Traversal.remaining, List.flatMap_singleton]
  nodes := (map_places root).symm
  mem_places _ := mem_places_iff
  nodup_places := nodup_places root
  imports := root.imports_eq_filterMap
  none_missed place node found hnode hfound := by
    rw [imports_eq_filterMap_places, List.mem_filterMap]
    exact ⟨place, mem_places_iff.mpr (by rw [hnode]; rfl), by rw [hnode]; exact hfound⟩
  held := forall₂_heldAt root
  nodup_literals := nodup_literals

section Grammar

variable {source : List Char}

theorem admits_of_mem {children : List Child} {low high : Nat}
    (h : SpansAll source children low high) {child : Child} (hchild : child ∈ children) :
    child.1.Admits child.2 := by
  obtain ⟨front, back, rfl⟩ := List.append_of_mem hchild
  obtain ⟨_, -, hback⟩ := h.split
  cases hback with
  | cons admitted head tail => exact admitted

theorem exists_spans_nodeAt? {root node : Script.Node} {low high : Nat} {place : TreePlace}
    (h : root.Spans source low high) (hnode : nodeAt? root place = some node) :
    ∃ start stop, node.Spans source start stop := by
  induction place generalizing root low high with
  | nil =>
    cases hnode
    exact ⟨low, high, h⟩
  | cons i place ih =>
    obtain ⟨inner, hinner, hrest⟩ := Option.bind_eq_some_iff.mp hnode
    cases h with
    | leaf after stands before reads => cases hinner
    | branch inside arranged =>
      obtain ⟨child, hchild, rfl⟩ := List.mem_map.mp (List.mem_of_getElem? hinner)
      obtain ⟨start, stop, -, -, spans⟩ := exists_spans_of_mem inside hchild
      exact ih spans hrest

/-- The grammar lets no form be the arguments of a call: these are a group. -/
theorem argumentsApart_parse (elements : Bool) (source : List Char) :
    ArgumentsApart (parse elements source) := by
  intro place children arguments hcall harguments
  obtain ⟨high, hroot⟩ := spans_parse elements source
  obtain ⟨start, stop, spans⟩ := exists_spans_nodeAt? hroot hcall
  cases spans with
  | branch inside arranged =>
    obtain ⟨behind, heq⟩ := eq_of_childOf? harguments
    have hmem : (Role.arguments, arguments) ∈ children := by
      rw [heq]
      exact List.mem_append_right _ List.mem_cons_self
    obtain ⟨inner, hgroup⟩ := admits_of_mem inside hmem
    have hgroup : arguments = .branch .group inner := hgroup
    rw [hgroup]
    exact id

end Grammar

theorem own?_call_eq_none {children : List Child} {arguments : Script.Node}
    (harguments : childOf? .arguments children = some arguments)
    (hcount : (arguments.children.filter Script.Node.isArgument).length ≠ 1) :
    (Script.Node.branch .call children).own? = none := by
  rw [Option.eq_none_iff_forall_not_mem]
  intro found hfound
  obtain ⟨named, -, hnamed, -, -⟩ := own?_eq_some_iff.mp hfound
  obtain ⟨construct, inner, role, hsame, hfilter⟩ := arguments_of_loaderArgument? hnamed
  rw [harguments, Option.some.injEq] at hsame
  subst hsame
  rw [Script.Node.children, List.filter_map, List.length_map] at hcount
  exact hcount (congrArg List.length hfilter)

/-- The traversal ends, visits a tree in pre-order, and finds what each node imports by itself.
Comments put in and taken out, among the arguments of a call or elsewhere, leave the modules that are
imported as they are.  In the tree of a script, no form is the arguments of a call. -/
theorem imports_in_preorder :
    (∀ {State : Type} (visit : State → Script.Node → State),
      WellFounded fun next traversal : Traversal State => traversal.step visit = some next) ∧
    (∀ root, TraversedInPreorder root) ∧
    (∀ root edited, Relation.EqvGen CommentEdit root edited →
      root.imports.map (·.2) = edited.imports.map (·.2)) ∧
    (∀ children arguments, childOf? .arguments children = some arguments →
      (arguments.children.filter Script.Node.isArgument).length ≠ 1 →
      (Script.Node.branch .call children).own? = none) ∧
    (∀ elements source, ArgumentsApart (parse elements source)) ∧
    ∀ dialect source, imports dialect source =
      ((parse (dialect == .tsx) source.toList).preorder.filterMap Script.Node.own?).map fun found =>
        ⟨lineAt source.toList found.1, columnAt source.toList found.1, String.ofList found.2⟩ := by
  refine ⟨step_wellFounded, traversedInPreorder, fun root edited edits => ?_,
    fun _ _ => own?_call_eq_none, argumentsApart_parse, fun dialect source => ?_⟩
  · rw [root.imports_eq_found, edited.imports_eq_found]
    exact modules_eq_of_edits edits
  · rw [imports, Script.Node.imports_eq_filterMap]

/-- The call of `require` with some arguments. -/
def requireCall (arguments : List Child) : Script.Node :=
  .branch .call [(.callee, .leaf .name 0 ['r', 'e', 'q', 'u', 'i', 'r', 'e']),
    (.arguments, .branch .group arguments)]

/-- A call with two arguments, the first of which is a call with one string, with and without a
comment next to it; and the same as a script. -/
theorem imports_in_preorder_nested :
    let string : Child := (.part, .leaf (.string true) 16 ['\'', 'a', '\''])
    let comment : Child := (.part, .leaf .comment 16 ['/', '*', '*', '/'])
    let other : Child := (.part, .leaf .name 20 ['b'])
    let root := requireCall [(.part, requireCall [string]), other]
    let edited := requireCall [(.part, requireCall [comment, string]), other]
    root.own? = none ∧ (16, ['a']) ∈ root.imports ∧
      root.imports.map (·.2) = edited.imports.map (·.2) ∧
      (literals (parse false "require(require('a'), b)".toList)).Nodup := by
  intro string comment other root edited
  obtain ⟨-, traversed, edits, several, apart, -⟩ := imports_in_preorder
  have edit : CommentEdit root edited :=
    .inside .call [_] [] .arguments <| .inside .group [] [other] .part <|
      .inside .call [_] [] .arguments <| .insert .group [] [string] 16 ['/', '*', '*', '/']
  exact ⟨several _ _ rfl (by decide),
    (traversed root).none_missed [1, 0] _ _ rfl rfl,
    edits root edited (.rel _ _ edit),
    (traversed _).nodup_literals (apart false _)⟩

end ImportLint.Proofs.ImportTraversal
