import ImportLint.Script.Import

/-!
Where the imports of a tree stand.  Each is the text of a string literal of the source, and lies
between the same two offsets as the tree.  A statement has no import in front of the string that
names its module; a call may, in what is called and in its type arguments.
-/

namespace ImportLint.Proofs.FoundLiterals

open Script

variable {source : List Char}

theorem foundInAll_append (left right : List Child) :
    foundInAll (left ++ right) = foundInAll left ++ foundInAll right := by
  induction left with
  | nil => rfl
  | cons child left ih => simp [foundInAll, ih]

theorem found_eq_nil {node : Script.Node} (h : node.isLeaf = true) : node.found = [] := by
  cases node with
  | leaf lexeme start text => rfl
  | branch construct children => cases h

theorem foundInAll_eq_nil {children : List Child}
    (h : ∀ child ∈ children, child.2.isLeaf = true) : foundInAll children = [] := by
  induction children with
  | nil => rfl
  | cons child children ih =>
    rw [List.forall_mem_cons] at h
    rw [foundInAll, found_eq_nil h.1, ih h.2, List.append_nil]

/-- The name of a module is the text of the string literal that stands at its offset. -/
def IsLiteral (source : List Char) (found : Found) : Prop :=
  ∃ count closed, stringLength? (source.drop found.1) = some (count, closed) ∧
    unquoted? ((source.drop found.1).take count) = some found.2

theorem IsLiteral.lt_length {found : Found} (h : IsLiteral source found) :
    found.1 < source.length := by
  obtain ⟨count, closed, hlength, -⟩ := h
  rcases Nat.lt_or_ge found.1 source.length with hlt | hle
  · exact hlt
  · rw [List.drop_eq_nil_of_le hle] at hlength
    cases hlength

theorem length_pos_of_unquoted? {text path : List Char} (h : unquoted? text = some path) :
    0 < text.length := by
  cases text with
  | nil => cases h
  | cons quote rest => simp

/-- A string of a tree stands where the tree does. -/
theorem literal_of_spans {node : Script.Node} {low high start : Nat} {text path : List Char}
    (h : node.Spans source low high) (hstring : node.string? = some (start, text))
    (hpath : unquoted? text = some path) :
    low ≤ start ∧ start < high ∧ IsLiteral source (start, path) := by
  cases h with
  | branch inside arranged => cases hstring
  | @leaf lexeme _ _ _ _ after stands before reads =>
    cases lexeme <;> cases hstring
    rename_i closed
    obtain ⟨count, hlength, rfl⟩ := reads closed rfl
    have := length_pos_of_unquoted? hpath
    exact ⟨after, by omega, count, closed, hlength, hpath⟩

theorem isLeaf_of_string? {node : Script.Node} {string : Nat × List Char}
    (h : node.string? = some string) : node.isLeaf = true := by
  cases node with
  | leaf lexeme start text => rfl
  | branch construct children => cases h

theorem isLeaf_of_not_isArgument {node : Script.Node} (h : node.isArgument = false) :
    node.isLeaf = true := by
  cases node with
  | leaf lexeme start text => rfl
  | branch construct children => cases h

/-- The role of the child that has the name of the module of a construct in it. -/
def holder : Construct → Role
  | .call => .arguments
  | _ => .source

/-- The children in front of the first one with a role. -/
def before (role : Role) (children : List Child) : List Child :=
  children.takeWhile fun child => child.1 ≠ role

theorem eq_of_childOf? {role : Role} {children : List Child} {node : Script.Node}
    (h : childOf? role children = some node) :
    ∃ behind, children = before role children ++ (role, node) :: behind := by
  induction children with
  | nil => cases h
  | cons child children ih =>
    obtain ⟨other, inner⟩ := child
    by_cases hrole : other = role
    · have same : inner = node := by simpa [childOf?, hrole] using h
      exact ⟨children, by simp [before, hrole, same]⟩
    · have further : childOf? role children = some node := by simpa [childOf?, hrole] using h
      obtain ⟨behind, heq⟩ := ih further
      refine ⟨behind, ?_⟩
      rw [before, List.takeWhile_cons_of_pos (by simpa using hrole), List.cons_append]
      exact congrArg _ heq

theorem arguments_of_loaderArgument? {children : List Child} {argument : Script.Node}
    (h : loaderArgument? children = some argument) :
    ∃ construct arguments role, childOf? .arguments children = some (.branch construct arguments) ∧
      (arguments.filter fun child => child.2.isArgument) = [(role, argument)] := by
  simp only [loaderArgument?] at h
  split at h
  · next callee construct arguments hcallee harguments =>
    split at h
    · split at h
      · next role _ hfilter =>
        cases h
        exact ⟨construct, arguments, role, harguments, hfilter⟩
      · cases h
    · cases h
  · cases h

theorem leaves_of_filter {arguments : List Child} {role : Role} {argument : Script.Node}
    {string : Nat × List Char} (hstring : argument.string? = some string)
    (hfilter : (arguments.filter fun child => child.2.isArgument) = [(role, argument)]) :
    ∀ child ∈ arguments, child.2.isLeaf = true := by
  intro child hchild
  by_cases harg : child.2.isArgument = true
  · have hmem : child ∈ [(role, argument)] := hfilter ▸ List.mem_filter.mpr ⟨hchild, harg⟩
    rw [List.mem_singleton.mp hmem]
    exact isLeaf_of_string? hstring
  · exact isLeaf_of_not_isArgument (by simpa using harg)

theorem own?_eq_some_iff {node : Script.Node} {found : Found} :
    node.own? = some found ↔ ∃ named text, node.specifier? = some named ∧
      named.string? = some (found.1, text) ∧ unquoted? text = some found.2 := by
  rw [Script.Node.own?]
  constructor
  · intro h
    split at h
    · next start text hstring =>
      obtain ⟨named, hnamed, hstring⟩ := Option.bind_eq_some_iff.mp hstring
      obtain ⟨path, hpath, rfl⟩ := Option.map_eq_some_iff.mp h
      exact ⟨named, text, hnamed, hstring, hpath⟩
    · cases h
  · rintro ⟨named, text, hnamed, hstring, hpath⟩
    rw [hnamed, Option.bind_some, hstring]
    exact Option.map_eq_some_iff.mpr ⟨found.2, hpath, rfl⟩

theorem mem_own {node : Script.Node} {found : Found} (h : found ∈ node.own) :
    ∃ named text, node.specifier? = some named ∧ named.string? = some (found.1, text) ∧
      unquoted? text = some found.2 :=
  own?_eq_some_iff.mp (Option.mem_toList.mp h)

/-- A statement that imports names its module by the child that has the role for it. -/
theorem childOf?_of_specifier? {construct : Construct} {children : List Child}
    (arranged : construct.Arranges children) (hcall : construct ≠ .call) {named : Script.Node}
    (h : (Script.Node.branch construct children).specifier? = some named) :
    childOf? .source children = some named := by
  cases construct
  case importStatement | exportStatement => exact h
  case requireClause =>
    obtain ⟨child, hchild, hrole⟩ := arranged.2
    have hsome : (childOf? .source children).isSome := by
      rw [childOf?, Option.isSome_map, List.find?_isSome]
      exact ⟨child, hchild, decide_eq_true hrole⟩
    rwa [Script.Node.specifier?, Option.or_of_isSome hsome] at h
  case call => exact absurd rfl hcall
  case program | group => cases h

theorem exists_spans_of_mem {children : List Child} {low high : Nat}
    (h : SpansAll source children low high) {child : Child} (hchild : child ∈ children) :
    ∃ start stop, low ≤ start ∧ stop ≤ high ∧ child.2.Spans source start stop := by
  obtain ⟨front, back, rfl⟩ := List.append_of_mem hchild
  obtain ⟨start, hfront, hback⟩ := h.split
  cases hback with
  | @cons _ _ _ _ stop _ admitted head tail => exact ⟨start, stop, hfront.le, tail.le, head⟩

/-- A tree imports nothing by itself and encloses the string that the construct around it imports. -/
def Holds (source : List Char) (node : Script.Node) (found : Found) : Prop :=
  node.found = [] ∧ ∀ low high, node.Spans source low high →
    low ≤ found.1 ∧ found.1 < high ∧ IsLiteral source found

theorem holds_string {named : Script.Node} {found : Found} {text : List Char}
    (hstring : named.string? = some (found.1, text)) (hpath : unquoted? text = some found.2) :
    Holds source named found :=
  ⟨found_eq_nil (isLeaf_of_string? hstring), fun _ _ spans => literal_of_spans spans hstring hpath⟩

theorem holds_arguments {arguments : List Child} {role : Role} {argument : Script.Node}
    {found : Found} {text : List Char} (hstring : argument.string? = some (found.1, text))
    (hpath : unquoted? text = some found.2)
    (hfilter : (arguments.filter fun child => child.2.isArgument) = [(role, argument)]) :
    Holds source (.branch .group arguments) found := by
  have leaves := leaves_of_filter hstring hfilter
  have hmem : (role, argument) ∈ arguments :=
    (List.mem_filter.mp (hfilter ▸ List.mem_singleton_self _)).1
  refine ⟨?_, fun low high spans => ?_⟩
  · rw [Script.Node.found, foundInAll_eq_nil leaves]
    rfl
  · cases spans with
    | branch inside arranged =>
      obtain ⟨start, stop, hstart, hstop, spans⟩ := exists_spans_of_mem inside hmem
      obtain ⟨hlow, hhigh, hliteral⟩ := literal_of_spans spans hstring hpath
      exact ⟨by omega, by omega, hliteral⟩

/-- The child that holds the name of the module that a construct imports by itself. -/
theorem holds_of_mem_own (source : List Char) {construct : Construct} {children : List Child}
    {found : Found} (arranged : construct.Arranges children)
    (h : found ∈ Script.Node.own (.branch construct children)) :
    ∃ node, childOf? (holder construct) children = some node ∧
      ((holder construct).Admits node → Holds source node found) := by
  obtain ⟨named, text, hnamed, hstring, hpath⟩ := mem_own h
  cases construct
  case importStatement | exportStatement | requireClause =>
    have hnode := childOf?_of_specifier? arranged (by decide) hnamed
    exact ⟨named, hnode, fun _ => holds_string hstring hpath⟩
  case call =>
    obtain ⟨construct, arguments, role, harguments, hfilter⟩ :=
      arguments_of_loaderArgument? hnamed
    refine ⟨.branch construct arguments, harguments, ?_⟩
    -- That the arguments are a group keeps them from being an import of their own.
    rintro ⟨inner, same⟩
    cases same
    exact holds_arguments hstring hpath hfilter
  case program | group => cases hnamed

/-- What a construct imports by itself lies behind the children in front of its holder and in front
of the children behind it. -/
theorem own_spans {construct : Construct} {children : List Child} {low high : Nat} {found : Found}
    (h : SpansAll source children low high) (arranged : construct.Arranges children)
    (hfound : found ∈ Script.Node.own (.branch construct children)) :
    ∃ node behind start stop,
      children = before (holder construct) children ++ (holder construct, node) :: behind ∧
      SpansAll source (before (holder construct) children) low start ∧
      SpansAll source behind stop high ∧ Holds source node found ∧
      start ≤ found.1 ∧ found.1 < stop ∧ IsLiteral source found := by
  obtain ⟨node, hnode, holds⟩ := holds_of_mem_own source arranged hfound
  obtain ⟨behind, heq⟩ := eq_of_childOf? hnode
  rw [heq] at h
  obtain ⟨start, hbefore, hrest⟩ := h.split
  cases hrest with
  | @cons _ _ _ _ stop _ admitted head tail =>
    have placed := (holds admitted).2 start stop head
    exact ⟨node, behind, start, stop, heq, hbefore, tail, holds admitted, placed⟩

theorem mem_front_of_mem_before {role : Role} {node : Script.Node} {front back : List Child}
    (hnode : (role, node) ∈ front) {child : Child} (hchild : child ∈ before role (front ++ back)) :
    child ∈ front := by
  induction front with
  | nil => cases hnode
  | cons first front ih =>
    rw [before, List.cons_append, List.takeWhile_cons] at hchild
    split at hchild
    · next hrole =>
      rcases List.mem_cons.mp hchild with rfl | hchild
      · exact List.mem_cons_self
      · refine List.mem_cons_of_mem _ (ih ?_ hchild)
        rcases List.mem_cons.mp hnode with rfl | hnode
        · simp at hrole
        · exact hnode
    · cases hchild

theorem foundInAll_before {children : List Child} {node : Script.Node}
    (led : LeavesUpToSource children) (hnode : childOf? .source children = some node) :
    foundInAll (before .source children) = [] := by
  obtain ⟨front, back, rfl, hfront, hback⟩ := led
  obtain ⟨behind, heq⟩ := eq_of_childOf? hnode
  have hmem : (Role.source, node) ∈ front := by
    have : (Role.source, node) ∈ front ++ back := by
      rw [heq]
      simp
    rcases List.mem_append.mp this with hmem | hmem
    · exact hmem
    · exact absurd rfl (hback _ hmem)
  exact foundInAll_eq_nil fun child hchild => hfront child (mem_front_of_mem_before hmem hchild)

mutual

theorem bounds_of_found {node : Script.Node} {low high : Nat} (h : node.Spans source low high) :
    ∀ found ∈ node.found, low ≤ found.1 ∧ found.1 < high ∧ IsLiteral source found := by
  match node, h with
  | .leaf lexeme start text, _ => simp [Script.Node.found]
  | .branch construct children, .branch inside arranged =>
    intro found hfound
    rw [Script.Node.found, List.mem_append] at hfound
    rcases hfound with hown | hinner
    · obtain ⟨_, _, start, stop, -, hbefore, hbehind, -, hstart, hstop, hliteral⟩ :=
        own_spans inside arranged hown
      have := hbefore.le
      have := hbehind.le
      exact ⟨by omega, by omega, hliteral⟩
    · exact bounds_of_foundInAll inside found hinner

theorem bounds_of_foundInAll {children : List Child} {low high : Nat}
    (h : SpansAll source children low high) :
    ∀ found ∈ foundInAll children, low ≤ found.1 ∧ found.1 < high ∧ IsLiteral source found := by
  match children, h with
  | [], _ => simp [foundInAll]
  | (role, node) :: children, .cons admitted head tail =>
    intro found hfound
    rw [foundInAll, List.mem_append] at hfound
    rcases hfound with hhead | htail
    · obtain ⟨hlow, hhigh, hliteral⟩ := bounds_of_found head found hhead
      have := tail.le
      exact ⟨hlow, by omega, hliteral⟩
    · obtain ⟨hlow, hhigh, hliteral⟩ := bounds_of_foundInAll tail found htail
      have := head.le
      exact ⟨by omega, hhigh, hliteral⟩

end

theorem spans_parse (elements : Bool) (source : List Char) :
    ∃ high, (parse elements source).Spans source 0 high := by
  unfold parse
  split
  · next role node behind hrun =>
    have := (programRule elements source).sound hrun
    cases this with
    | cons admitted head tail => exact ⟨_, head⟩
  · exact ⟨0, .branch (.nil (Nat.le_refl 0)) trivial⟩

end ImportLint.Proofs.FoundLiterals
