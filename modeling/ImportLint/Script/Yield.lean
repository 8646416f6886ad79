import ImportLint.Script.Rule

/-!
What rules read, child by child.  A rule that is put together from others reads what these read, so
that a property of single children goes over from the parts of a rule to the rule.
-/

namespace ImportLint.Script.Rule

variable {source : List Char} {P : Child → Prop}

/-- All children that a rule reads have a property. -/
def Yields (rule : Rule source) (P : Child → Prop) : Prop :=
  ∀ (cursor : Cursor source) (reading : Reading source), rule.run cursor = some reading →
    ∀ child ∈ reading.1, P child

theorem yields_done : (done : Rule source).Yields P := by
  intro cursor reading h child hchild
  cases h
  cases hchild

theorem yields_refuse : (refuse : Rule source).Yields P := by
  intro cursor reading h
  cases h

theorem yields_look {choose : Cursor source → Rule source} (h : ∀ cursor, (choose cursor).Yields P) :
    (look choose).Yields P := by
  intro cursor reading hrun
  exact h cursor cursor reading hrun

theorem andThen_eq_some {first second : Rule source} {cursor : Cursor source}
    {reading : Reading source} (h : (first.andThen second).run cursor = some reading) :
    ∃ left middle right behind, first.run cursor = some (left, middle) ∧
      second.run middle = some (right, behind) ∧ reading = (left ++ right, behind) := by
  simp only [andThen] at h
  split at h
  · cases h
  · next left middle hfirst =>
    split at h
    · cases h
    · next right behind hsecond =>
      cases h
      exact ⟨left, middle, right, behind, hfirst, hsecond, rfl⟩

theorem orElse_eq_some {first second : Rule source} {cursor : Cursor source}
    {reading : Reading source} (h : (first.orElse second).run cursor = some reading) :
    first.run cursor = some reading ∨ second.run cursor = some reading := by
  simp only [orElse] at h
  split at h
  · next hfirst =>
    cases h
    exact .inl hfirst
  · exact .inr h

theorem yields_andThen {first second : Rule source} (h : first.Yields P) (h' : second.Yields P) :
    (first.andThen second).Yields P := by
  intro cursor reading hrun child hchild
  obtain ⟨left, middle, right, behind, hfirst, hsecond, rfl⟩ := andThen_eq_some hrun
  rcases List.mem_append.mp hchild with hchild | hchild
  · exact h _ _ hfirst child hchild
  · exact h' _ _ hsecond child hchild

theorem yields_sequence {rules : List (Rule source)} (h : ∀ rule ∈ rules, rule.Yields P) :
    (sequence rules).Yields P := by
  induction rules with
  | nil => exact yields_done
  | cons rule rules ih =>
    rw [List.forall_mem_cons] at h
    cases rules with
    | nil => exact h.1
    | cons next rules => exact yields_andThen h.1 (ih h.2)

theorem yields_orElse {first second : Rule source} (h : first.Yields P) (h' : second.Yields P) :
    (first.orElse second).Yields P := by
  intro cursor reading hrun
  rcases orElse_eq_some hrun with hrun | hrun
  · exact h _ _ hrun
  · exact h' _ _ hrun

theorem yields_firstOf {rules : List (Rule source)} (h : ∀ rule ∈ rules, rule.Yields P) :
    (firstOf rules).Yields P := by
  induction rules with
  | nil => exact yields_refuse
  | cons rule rules ih =>
    rw [List.forall_mem_cons] at h
    cases rules with
    | nil => exact h.1
    | cons next rules => exact yields_orElse h.1 (ih h.2)

theorem yields_optional {rule : Rule source} (h : rule.Yields P) : (optional rule).Yields P :=
  yields_orElse h yields_done

theorem yields_iterate {rule : Rule source} (h : rule.Yields P) (fuel : Nat)
    (cursor : Cursor source) : ∀ child ∈ (rule.iterate fuel cursor).1, P child := by
  induction fuel generalizing cursor with
  | zero => simp [iterate]
  | succ fuel ih =>
    unfold iterate
    split
    · simp
    · next children middle hrun =>
      split
      · intro child hchild
        rcases List.mem_append.mp hchild with hchild | hchild
        · exact h _ _ hrun child hchild
        · exact ih middle child hchild
      · simp

theorem yields_many {rule : Rule source} (h : rule.Yields P) : (many rule).Yields P := by
  intro cursor reading hrun
  cases hrun
  exact yields_iterate h _ cursor

theorem yields_branch {construct : Construct} {rule : Rule source}
    {arranged : ∀ (cursor : Cursor source) (reading : Reading source),
      rule.run cursor = some reading → construct.Arranges reading.1}
    (h : ∀ children, P (.part, .branch construct children)) :
    (branch construct rule arranged).Yields P := by
  intro cursor reading hrun child hchild
  simp only [branch] at hrun
  split at hrun
  · cases hrun
  · cases hrun
    rw [List.mem_singleton.mp hchild]
    exact h _

theorem yields_withRole {role : Role} {rule : Rule source} {Q : Child → Prop}
    {admitted : ∀ (cursor : Cursor source) (reading : Reading source),
      rule.run cursor = some reading → ∀ child ∈ reading.1, role.Admits child.2}
    (h : rule.Yields Q) (hrole : ∀ child, Q child → P (role, child.2)) :
    (withRole role rule admitted).Yields P := by
  intro cursor reading hrun child hchild
  simp only [withRole] at hrun
  split at hrun
  · cases hrun
  · next hrule =>
    cases hrun
    obtain ⟨inner, hinner, rfl⟩ := List.mem_map.mp hchild
    exact hrole inner (h _ _ hrule inner hinner)

theorem yields_lexeme {read : List Char → Option (Lexeme × Nat)} {tight : Bool}
    {strings : ∀ (rest : List Char) (closed : Bool) (count : Nat),
      read rest = some (.string closed, count) → stringLength? rest = some (count, closed)}
    (h : ∀ sort start text, P (.part, .leaf sort start text)) :
    (lexeme read tight strings : Rule source).Yields P := by
  intro cursor reading hrun child hchild
  simp only [lexeme] at hrun
  split at hrun
  · cases hrun
  · split at hrun
    · cases hrun
    · cases hrun
      rw [List.mem_singleton.mp hchild]
      exact h _ _ _

/-- A rule that reads nothing but single lexemes. -/
abbrev Plain (rule : Rule source) : Prop := rule.Yields fun child => child.2.isLeaf = true

/-- A rule that reads no name of a module by itself. -/
abbrev Sourceless (rule : Rule source) : Prop := rule.Yields fun child => child.1 ≠ .source

/-- A rule that reads single lexemes up to the last name of a module. -/
def Led (rule : Rule source) : Prop :=
  ∀ (cursor : Cursor source) (reading : Reading source), rule.run cursor = some reading →
    LeavesUpToSource reading.1

/-- A rule that always reads the name of a module. -/
def Names (rule : Rule source) : Prop :=
  ∀ (cursor : Cursor source) (reading : Reading source), rule.run cursor = some reading →
    ∃ child ∈ reading.1, child.1 = .source

@[simp] theorem plain_mark (text : String) : (mark text : Rule source).Plain :=
  yields_lexeme fun _ _ _ => rfl

@[simp] theorem plain_name : (name : Rule source).Plain :=
  yields_lexeme fun _ _ _ => rfl

@[simp] theorem plain_string : (string : Rule source).Plain :=
  yields_lexeme fun _ _ _ => rfl

@[simp] theorem plain_word (text : String) : (word text : Rule source).Plain :=
  yields_look fun cursor => by
    split
    · exact plain_name
    · exact yields_refuse

@[simp] theorem plain_check (condition : Cursor source → Bool) : (check condition).Plain :=
  yields_look fun cursor => by
    split
    · exact yields_done
    · exact yields_refuse

@[simp] theorem sourceless_mark (text : String) : (mark text : Rule source).Sourceless :=
  yields_lexeme fun _ _ _ h => by cases h

@[simp] theorem sourceless_name : (name : Rule source).Sourceless :=
  yields_lexeme fun _ _ _ h => by cases h

@[simp] theorem sourceless_branch {construct : Construct} {rule : Rule source}
    {arranged : ∀ (cursor : Cursor source) (reading : Reading source),
      rule.run cursor = some reading → construct.Arranges reading.1} :
    (branch construct rule arranged).Sourceless :=
  yields_branch fun _ h => by cases h

theorem Plain.led {rule : Rule source} (h : rule.Plain) : rule.Led := by
  intro cursor reading hrun
  exact ⟨reading.1, [], by simp, h _ _ hrun, by simp⟩

theorem Sourceless.led {rule : Rule source} (h : rule.Sourceless) : rule.Led := by
  intro cursor reading hrun
  exact ⟨[], reading.1, rfl, by simp, h _ _ hrun⟩

theorem Plain.andThen_led {first second : Rule source} (h : first.Plain) (h' : second.Led) :
    (first.andThen second).Led := by
  intro cursor reading hrun
  obtain ⟨left, middle, right, behind, hfirst, hsecond, rfl⟩ := andThen_eq_some hrun
  obtain ⟨front, back, rfl, hfront, hback⟩ := h' _ _ hsecond
  refine ⟨left ++ front, back, by simp, ?_, hback⟩
  intro child hchild
  rcases List.mem_append.mp hchild with hchild | hchild
  · exact h _ _ hfirst child hchild
  · exact hfront child hchild

theorem Led.andThen_sourceless {first second : Rule source} (h : first.Led)
    (h' : second.Sourceless) : (first.andThen second).Led := by
  intro cursor reading hrun
  obtain ⟨left, middle, right, behind, hfirst, hsecond, rfl⟩ := andThen_eq_some hrun
  obtain ⟨front, back, rfl, hfront, hback⟩ := h _ _ hfirst
  refine ⟨front, back ++ right, by simp, hfront, ?_⟩
  intro child hchild
  rcases List.mem_append.mp hchild with hchild | hchild
  · exact hback child hchild
  · exact h' _ _ hsecond child hchild

theorem names_sequence {rule : Rule source} (h : rule.Names) {rules : List (Rule source)}
    (hmem : rule ∈ rules) : (sequence rules).Names := by
  induction rules with
  | nil => cases hmem
  | cons first rules ih =>
    cases rules with
    | nil =>
      rw [List.mem_singleton.mp hmem] at h
      exact h
    | cons next rules =>
      intro cursor reading hrun
      obtain ⟨left, middle, right, behind, hfirst, hsecond, rfl⟩ := andThen_eq_some hrun
      rcases List.mem_cons.mp hmem with rfl | hmem
      · obtain ⟨child, hchild, hrole⟩ := h _ _ hfirst
        exact ⟨child, List.mem_append_left _ hchild, hrole⟩
      · obtain ⟨child, hchild, hrole⟩ := ih hmem _ _ hsecond
        exact ⟨child, List.mem_append_right _ hchild, hrole⟩

theorem names_string : (withRole .source string : Rule source).Names := by
  intro cursor reading hrun
  simp only [withRole, string, lexeme] at hrun
  split at hrun
  · cases hrun
  · next hread =>
    cases hrun
    split at hread
    · cases hread
    · split at hread
      · cases hread
      · cases hread
        exact ⟨_, List.mem_singleton_self _, rfl⟩

theorem led_firstOf {rules : List (Rule source)} (h : ∀ rule ∈ rules, rule.Led) :
    (firstOf rules).Led := by
  induction rules with
  | nil => exact Plain.led yields_refuse
  | cons rule rules ih =>
    rw [List.forall_mem_cons] at h
    cases rules with
    | nil => exact h.1
    | cons next rules =>
      intro cursor reading hrun
      rcases orElse_eq_some hrun with hrun | hrun
      · exact h.1 _ _ hrun
      · exact ih h.2 _ _ hrun

end ImportLint.Script.Rule
