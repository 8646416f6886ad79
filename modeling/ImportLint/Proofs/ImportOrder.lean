import ImportLint.Proofs.FoundLiterals
import ImportLint.Proofs.SourcePlaces

/-!
The order of the imports of a script.  The walk lists the import of a call before it goes into the
call, so the imports are in document order unless a call that loads a module has another import in
its type arguments.
-/

namespace ImportLint.Proofs.ImportOrder

open Script FoundLiterals SourcePlaces

variable {source : List Char}

/-- One import stands in front of another. -/
def StandsBefore (a b : ImportSite) : Prop :=
  a.line < b.line ∨ a.line = b.line ∧ a.column < b.column

instance (a b : ImportSite) : Decidable (StandsBefore a b) :=
  inferInstanceAs (Decidable (_ ∨ _))

mutual

/-- The children of all calls in a tree. -/
def calls : Script.Node → List (List Child)
  | .leaf _ _ _ => []
  | .branch .call children => children :: callsInAll children
  | .branch _ children => callsInAll children

/-- The children of all calls in a list of trees. -/
def callsInAll : List Child → List (List Child)
  | [] => []
  | (_, node) :: children => calls node ++ callsInAll children

end

/-- A call that imports, and that has another import in front of its arguments. -/
def Overtakes (children : List Child) : Prop :=
  Script.Node.own (.branch .call children) ≠ [] ∧ foundInAll (before .arguments children) ≠ []

theorem mem_calls_branch {construct : Construct} {children call : List Child} :
    call ∈ calls (.branch construct children) ↔
      (construct = .call ∧ call = children) ∨ call ∈ callsInAll children := by
  cases construct <;> simp [calls]

/-- Names of modules in the order in which they stand in the source. -/
abbrev Increasing (found : List Found) : Prop := found.Pairwise fun a b => a.1 < b.1

theorem increasing_append {left right : List Found} :
    Increasing (left ++ right) ↔
      Increasing left ∧ Increasing right ∧ ∀ a ∈ left, ∀ b ∈ right, a.1 < b.1 :=
  List.pairwise_append

theorem increasing_own (node : Script.Node) : Increasing node.own := by
  rw [Script.Node.own]
  cases node.own? with
  | none => exact .nil
  | some found => exact List.pairwise_singleton _ _

/-- Calls apart, no construct has an import in front of its own. -/
theorem foundInAll_before_own {construct : Construct} {children : List Child}
    (arranged : construct.Arranges children) (hcall : construct ≠ .call) {found : Found}
    (hfound : found ∈ Script.Node.own (.branch construct children)) :
    foundInAll (before (holder construct) children) = [] := by
  obtain ⟨named, text, hnamed, -, -⟩ := mem_own hfound
  have hnode := childOf?_of_specifier? arranged hcall hnamed
  cases construct
  case importStatement | exportStatement => exact foundInAll_before arranged hnode
  case requireClause => exact foundInAll_before arranged.1 hnode
  case call => exact absurd rfl hcall
  case program | group => cases hnamed

/-- The import of a construct stands in front of all that are in the construct, unless the construct
is a call that overtakes. -/
theorem own_lt_iff {construct : Construct} {children : List Child} {low high : Nat}
    (inside : SpansAll source children low high) (arranged : construct.Arranges children) :
    (∀ a ∈ Script.Node.own (.branch construct children), ∀ b ∈ foundInAll children, a.1 < b.1) ↔
      (construct = .call → ¬ Overtakes children) := by
  constructor
  · rintro h rfl ⟨hown, hbefore⟩
    obtain ⟨a, ha⟩ := List.exists_mem_of_ne_nil _ hown
    obtain ⟨b, hb⟩ := List.exists_mem_of_ne_nil _ hbefore
    obtain ⟨node, behind, start, stop, heq, front, -, -, hstart, -, -⟩ := own_spans inside arranged ha
    have hmem : b ∈ foundInAll children := by
      rw [heq, foundInAll_append]
      exact List.mem_append_left _ hb
    have := h a ha b hmem
    have := bounds_of_foundInAll front b hb
    omega
  · intro h a ha b hb
    obtain ⟨node, behind, start, stop, heq, -, back, holds, -, hstop, -⟩ := own_spans inside arranged ha
    have hbefore : foundInAll (before (holder construct) children) = [] := by
      by_cases hcall : construct = .call
      · subst hcall
        by_contra hne
        exact h rfl ⟨List.ne_nil_of_mem ha, hne⟩
      · exact foundInAll_before_own arranged hcall ha
    -- What is left of the children is behind the string.
    rw [heq, foundInAll_append, hbefore, foundInAll, holds.1] at hb
    have := bounds_of_foundInAll back b hb
    omega

mutual

theorem increasing_found_iff {node : Script.Node} {low high : Nat}
    (h : node.Spans source low high) :
    Increasing node.found ↔ ∀ call ∈ calls node, ¬ Overtakes call := by
  match node, h with
  | .leaf lexeme start text, _ => simp [Script.Node.found, calls]
  | .branch construct children, .branch inside arranged =>
    rw [Script.Node.found, increasing_append, own_lt_iff inside arranged,
      increasing_foundInAll_iff inside]
    simp only [mem_calls_branch]
    constructor
    · rintro ⟨-, inner, own⟩ call (⟨hcall, rfl⟩ | hcall)
      · exact own hcall
      · exact inner call hcall
    · intro h
      exact ⟨increasing_own _, fun call hcall => h call (.inr hcall),
        fun hcall => h children (.inl ⟨hcall, rfl⟩)⟩

theorem increasing_foundInAll_iff {children : List Child} {low high : Nat}
    (h : SpansAll source children low high) :
    Increasing (foundInAll children) ↔ ∀ call ∈ callsInAll children, ¬ Overtakes call := by
  match children, h with
  | [], _ => simp [foundInAll, callsInAll]
  | (role, node) :: children, .cons admitted head tail =>
    -- Neighbours are apart whatever is in them, so only the order inside each of them counts.
    have apart : ∀ a ∈ node.found, ∀ b ∈ foundInAll children, a.1 < b.1 := by
      intro a ha b hb
      have := bounds_of_found head a ha
      have := bounds_of_foundInAll tail b hb
      omega
    rw [foundInAll, increasing_append, increasing_found_iff head, increasing_foundInAll_iff tail,
      callsInAll, List.forall_mem_append]
    exact ⟨fun h => ⟨h.1, h.2.1⟩, fun h => ⟨h.1, h.2, apart⟩⟩

end

theorem standsBefore_iff {a b : Found} (ha : a.1 < source.length) (hb : b.1 < source.length)
    (first second : String) :
    StandsBefore ⟨lineAt source a.1, columnAt source a.1, first⟩
      ⟨lineAt source b.1, columnAt source b.1, second⟩ ↔ a.1 < b.1 := by
  simp only [StandsBefore]
  rcases Nat.lt_trichotomy a.1 b.1 with hlt | heq | hgt
  · have := place_lt_of_lt source hlt (by omega)
    omega
  · rw [heq]
    omega
  · have := place_lt_of_lt source hgt (by omega)
    omega

end ImportLint.Proofs.ImportOrder
