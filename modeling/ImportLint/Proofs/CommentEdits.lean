import ImportLint.Proofs.FoundLiterals
import Mathlib.Data.List.Forall2
import Mathlib.Logic.Relation

/-!
Comments in a tree.  They may be put in and taken out anywhere, with whatever this does to the places
of the lexemes: the names of the modules that a tree imports stay as they are.
-/

namespace ImportLint.Proofs.CommentEdits

open Script FoundLiterals

/-- One edit of a tree that only concerns comments. -/
inductive CommentEdit : Script.Node → Script.Node → Prop
  /-- A comment is put among the children of a construct, such as the arguments of a call. -/
  | insert (construct : Construct) (front back : List Child) (start : Nat) (text : List Char) :
      CommentEdit (.branch construct (front ++ back))
        (.branch construct (front ++ (.part, .leaf .comment start text) :: back))
  /-- A lexeme moves. -/
  | move (lexeme : Lexeme) (start start' : Nat) (text : List Char) :
      CommentEdit (.leaf lexeme start text) (.leaf lexeme start' text)
  /-- The edit is further down. -/
  | inside (construct : Construct) (front back : List Child) (role : Role)
      {node edited : Script.Node} (h : CommentEdit node edited) :
      CommentEdit (.branch construct (front ++ (role, node) :: back))
        (.branch construct (front ++ (role, edited) :: back))

/-- The text of a string. -/
def stringText? (node : Script.Node) : Option (List Char) :=
  node.string?.map (·.2)

/-- The text of the string that is the only argument among some children. -/
def argumentText? : Script.Node → Option (List Char)
  | .leaf _ _ _ => none
  | .branch _ arguments =>
    match arguments.filter fun child => child.2.isArgument with
    | [(_, argument)] => stringText? argument
    | _ => none

/-- The text of the string that names the module of a construct. -/
def specifierText? (node : Script.Node) : Option (List Char) :=
  node.specifier?.bind stringText?

/-- The names of the modules that a tree imports. -/
def modules (node : Script.Node) : List (List Char) :=
  node.found.map (·.2)

/-- Two nodes look alike to the constructs around them, and import the same modules. -/
structure Agrees (node other : Script.Node) : Prop where
  isLoader : node.isLoader = other.isLoader
  isArgument : node.isArgument = other.isArgument
  stringText : stringText? node = stringText? other
  argumentText : argumentText? node = argumentText? other
  modules : modules node = modules other

/-- Two lists of children agree one by one, but for comments in the second one. -/
inductive AgreesAll : List Child → List Child → Prop
  | nil : AgreesAll [] []
  | cons {role : Role} {node other : Script.Node} {children others : List Child}
      (head : Agrees node other) (tail : AgreesAll children others) :
      AgreesAll ((role, node) :: children) ((role, other) :: others)
  | comment {start : Nat} {text : List Char} {children others : List Child}
      (tail : AgreesAll children others) :
      AgreesAll children ((.part, .leaf .comment start text) :: others)

theorem Agrees.refl (node : Script.Node) : Agrees node node :=
  ⟨rfl, rfl, rfl, rfl, rfl⟩

theorem AgreesAll.refl (children : List Child) : AgreesAll children children := by
  induction children with
  | nil => exact .nil
  | cons child children ih => exact .cons (.refl child.2) ih

theorem AgreesAll.append {children others behind behind' : List Child}
    (h : AgreesAll children others) (h' : AgreesAll behind behind') :
    AgreesAll (children ++ behind) (others ++ behind') := by
  induction h with
  | nil => exact h'
  | cons head _ ih => exact .cons head ih
  | comment _ ih => exact .comment ih

theorem AgreesAll.childOf? {children others : List Child} (h : AgreesAll children others)
    {role : Role} (hrole : role ≠ .part) :
    Option.Rel Agrees (childOf? role children) (childOf? role others) := by
  induction h with
  | nil => exact .none
  | @cons own _ _ _ _ head _ ih =>
    by_cases hown : own = role
    · simpa [Script.childOf?, hown] using Option.Rel.some head
    · simpa [Script.childOf?, hown] using ih
  | comment _ ih => simpa [Script.childOf?, hrole.symm] using ih

theorem isSome_string? (node : Script.Node) : node.string?.isSome = (stringText? node).isSome :=
  Option.isSome_map.symm

theorem AgreesAll.firstString? {children others : List Child} (h : AgreesAll children others) :
    Option.Rel Agrees (firstString? children) (firstString? others) := by
  induction h with
  | nil => exact .none
  | @cons _ node other _ _ head _ ih =>
    have hsame : other.string?.isSome = node.string?.isSome := by
      rw [isSome_string?, isSome_string?, head.stringText]
    by_cases hstring : node.string?.isSome = true
    · simpa [Script.firstString?, hstring, hsame] using Option.Rel.some head
    · simpa [Script.firstString?, hstring, hsame] using ih
  | comment _ ih => simpa [Script.firstString?, Script.Node.string?] using ih

theorem AgreesAll.filter_isArgument {children others : List Child}
    (h : AgreesAll children others) :
    List.Forall₂ (fun child other => Agrees child.2 other.2)
      (children.filter fun child => child.2.isArgument)
      (others.filter fun child => child.2.isArgument) := by
  induction h with
  | nil => exact .nil
  | @cons _ node other _ _ head _ ih =>
    rw [List.filter_cons, List.filter_cons, ← head.isArgument]
    split
    · exact .cons head ih
    · exact ih
  | comment _ ih => exact ih

theorem AgreesAll.argumentText {children others : List Child} (h : AgreesAll children others)
    (construct : Construct) :
    argumentText? (.branch construct children) = argumentText? (.branch construct others) := by
  have hfilter := h.filter_isArgument
  simp only [argumentText?]
  generalize (children.filter fun child => child.2.isArgument) = left at hfilter ⊢
  generalize (others.filter fun child => child.2.isArgument) = right at hfilter ⊢
  cases hfilter with
  | nil => rfl
  | cons head tail =>
    cases tail with
    | nil => exact head.stringText
    | cons next tail => rfl

theorem specifierText?_call (children : List Child) :
    specifierText? (.branch .call children) =
      (childOf? .callee children).bind fun callee =>
        (childOf? .arguments children).bind fun arguments =>
          if callee.isLoader then argumentText? arguments else none := by
  rw [specifierText?, Script.Node.specifier?, loaderArgument?]
  cases childOf? .callee children with
  | none => rfl
  | some callee =>
    cases childOf? .arguments children with
    | none => rfl
    | some arguments =>
      cases arguments with
      | leaf lexeme start text => simp [argumentText?]
      | branch construct arguments =>
        simp only [Option.bind_some, argumentText?]
        split
        · split <;> simp_all
        · rfl

theorem bind_stringText?_congr {named other : Option Script.Node}
    (h : Option.Rel Agrees named other) : named.bind stringText? = other.bind stringText? := by
  cases h with
  | none => rfl
  | some h => exact h.stringText

theorem AgreesAll.specifierText {children others : List Child} (h : AgreesAll children others)
    (construct : Construct) :
    specifierText? (.branch construct children) = specifierText? (.branch construct others) := by
  have hsource := h.childOf? (show Role.source ≠ .part by decide)
  cases construct
  case importStatement | exportStatement => exact bind_stringText?_congr hsource
  case requireClause =>
    apply bind_stringText?_congr
    rw [Script.Node.specifier?, Script.Node.specifier?]
    generalize Script.childOf? .source children = named at hsource ⊢
    generalize Script.childOf? .source others = other at hsource ⊢
    cases hsource with
    | none => exact h.firstString?
    | some h => exact .some h
  case call =>
    have hcallee := h.childOf? (show Role.callee ≠ .part by decide)
    have harguments := h.childOf? (show Role.arguments ≠ .part by decide)
    rw [specifierText?_call, specifierText?_call]
    generalize Script.childOf? .callee children = callee at hcallee ⊢
    generalize Script.childOf? .callee others = other at hcallee ⊢
    cases hcallee with
    | none => rfl
    | some hcallee =>
      generalize Script.childOf? .arguments children = arguments at harguments ⊢
      generalize Script.childOf? .arguments others = other at harguments ⊢
      cases harguments with
      | none => rfl
      | some harguments =>
        simp only [Option.bind_some]
        rw [hcallee.isLoader, harguments.argumentText]
  case program | group => rfl

theorem map_own?_eq (node : Script.Node) :
    node.own?.map (·.2) = (specifierText? node).bind unquoted? := by
  rw [Script.Node.own?, specifierText?]
  cases node.specifier? with
  | none => rfl
  | some named =>
    rw [Option.bind_some, Option.bind_some, stringText?]
    cases named.string? with
    | none => rfl
    | some string => cases h : unquoted? string.2 <;> simp [h]

theorem modules_branch (construct : Construct) (children : List Child) :
    modules (.branch construct children) =
      ((specifierText? (.branch construct children)).bind unquoted?).toList ++
        children.flatMap fun child => modules child.2 := by
  have hall : (foundInAll children).map (·.2) = children.flatMap fun child => modules child.2 := by
    induction children with
    | nil => rfl
    | cons child children ih => rw [foundInAll, List.map_append, ih, List.flatMap_cons, modules]
  rw [modules, Script.Node.found, List.map_append, hall, ← map_own?_eq, Script.Node.own]
  cases (Script.Node.branch construct children).own? <;> rfl

/-- Constructs whose children agree look alike themselves. -/
theorem AgreesAll.branch {children others : List Child} (h : AgreesAll children others)
    (construct : Construct) :
    Agrees (.branch construct children) (.branch construct others) where
  isLoader := rfl
  isArgument := rfl
  stringText := rfl
  argumentText := h.argumentText construct
  modules := by
    have hinside : (children.flatMap fun child => CommentEdits.modules child.2) =
        others.flatMap fun child => CommentEdits.modules child.2 := by
      induction h with
      | nil => rfl
      | cons head _ ih => rw [List.flatMap_cons, List.flatMap_cons, head.modules, ih]
      | comment _ ih => exact ih
    rw [modules_branch, modules_branch, h.specifierText construct, hinside]

/-- An edit changes nothing for what is around it. -/
theorem CommentEdit.agrees {node edited : Script.Node} (h : CommentEdit node edited) :
    Agrees node edited := by
  induction h with
  | insert construct front back start text =>
    exact ((AgreesAll.refl front).append (.comment (.refl back))).branch construct
  | move lexeme start start' text =>
    exact ⟨by cases lexeme <;> rfl, by cases lexeme <;> rfl, by cases lexeme <;> rfl, rfl, rfl⟩
  | inside construct front back role _ ih =>
    exact ((AgreesAll.refl front).append (.cons ih (.refl back))).branch construct

/-- However many comments are put in and taken out, the same modules are imported. -/
theorem modules_eq_of_edits {node edited : Script.Node}
    (h : Relation.EqvGen CommentEdit node edited) : modules node = modules edited := by
  have hsame : Equivalence fun left right : Script.Node => modules left = modules right :=
    eq_equivalence.comap modules
  exact hsame.eqvGen_iff.mp (h.mono fun _ _ edit => edit.agrees.modules)

end ImportLint.Proofs.CommentEdits
