import ImportLint.Script.Node

/-!
Grammar rules.  A rule reads a stretch of the source into trees, or refuses.  Every rule carries the
proof that its trees stand in the source where it read them, one behind the other, so a grammar that
is put together from the rules below needs no such proof of its own, but for the constructs whose
children are known to be arranged in some way.
-/

namespace ImportLint.Script

/-- A place in a source.  Outside of templates and elements it is the beginning of a lexeme. -/
structure Cursor (source : List Char) where
  offset : Nat
  /-- The text from here on. -/
  rest : List Char
  /-- How many characters there are from here on. -/
  left : Nat
  /-- Whether a line has ended since the lexeme before. -/
  fresh : Bool
  rest_eq : rest = source.drop offset
  left_eq : left = rest.length

namespace Cursor

variable {source : List Char}

/-- The front of a source. -/
def start (source : List Char) : Cursor source := ⟨0, source, source.length, true, rfl, rfl⟩

/-- The place that lies `count` characters ahead. -/
def advance (cursor : Cursor source) (count : Nat) (fresh : Bool) : Cursor source :=
  { offset := cursor.offset + count
    rest := cursor.rest.drop count
    left := cursor.left - count
    fresh := fresh
    rest_eq := by rw [cursor.rest_eq, List.drop_drop]
    left_eq := by rw [cursor.left_eq, List.length_drop] }

/-- The place behind blanks and comments. -/
def settle (cursor : Cursor source) : Cursor source :=
  let (count, fresh) := gap .blanks 0 false cursor.rest
  cursor.advance count fresh

/-- Whether a mark stands here. -/
def hasMark (cursor : Cursor source) (mark : String) : Bool :=
  mark.toList.isPrefixOf cursor.rest

/-- Whether a word stands here, and not only the front of one. -/
def hasWord (cursor : Cursor source) (word : String) : Bool :=
  word.toList.isPrefixOf cursor.rest
    && match cursor.rest.drop word.length with
      | [] => true
      | c :: _ => !isNamePart c && c != '\\'

/-- Whether one of several words stands here. -/
def hasWordOf (cursor : Cursor source) (words : List String) : Bool :=
  words.any cursor.hasWord

/-- Whether a name or a keyword stands here. -/
def hasName (cursor : Cursor source) : Bool :=
  0 < nameLength cursor.rest

/-- The place behind the name or keyword that stands here. -/
def afterName (cursor : Cursor source) : Cursor source :=
  (cursor.advance (nameLength cursor.rest) false).settle

/-- The place behind a mark that stands here. -/
def afterMark (cursor : Cursor source) (mark : String) : Cursor source :=
  (cursor.advance mark.length false).settle

theorem offset_le_settle (cursor : Cursor source) : cursor.offset ≤ cursor.settle.offset :=
  Nat.le_add_right _ _

end Cursor

/-- What a rule reads: trees, and the place behind them. -/
abbrev Reading (source : List Char) := List Child × Cursor source

/-- A grammar rule. -/
structure Rule (source : List Char) where
  run : Cursor source → Option (Reading source)
  /-- The trees stand where they were read. -/
  sound : ∀ {cursor : Cursor source} {reading : Reading source}, run cursor = some reading →
    SpansAll source reading.1 cursor.offset reading.2.offset

namespace Rule

variable {source : List Char}

/-- Reads nothing. -/
def done : Rule source where
  run cursor := some ([], cursor)
  sound h := by
    cases h
    exact .nil (Nat.le_refl _)

/-- Refuses. -/
def refuse : Rule source where
  run _ := none
  sound h := by cases h

/-- Chooses a rule by looking ahead. -/
def look (choose : Cursor source → Rule source) : Rule source where
  run cursor := (choose cursor).run cursor
  sound h := Rule.sound _ h

/-- Reads nothing, where a condition holds. -/
def check (condition : Cursor source → Bool) : Rule source :=
  look fun cursor => if condition cursor then done else refuse

/-- Skips blanks and comments. -/
def skipGap : Rule source where
  run cursor := some ([], cursor.settle)
  sound h := by
    cases h
    exact .nil (Cursor.offset_le_settle _)

/-- One rule, then another. -/
def andThen (first second : Rule source) : Rule source where
  run cursor :=
    match first.run cursor with
    | none => none
    | some (left, middle) =>
      match second.run middle with
      | none => none
      | some (right, behind) => some (left ++ right, behind)
  sound := by
    intro cursor reading h
    split at h
    · cases h
    · next left middle hleft =>
      split at h
      · cases h
      · next right behind hright =>
        cases h
        exact (first.sound hleft).append (second.sound hright)

/-- Rules one after the other. -/
def sequence : List (Rule source) → Rule source
  | [] => done
  | [rule] => rule
  | rule :: rules => rule.andThen (sequence rules)

/-- One rule, or another where the first refuses. -/
def orElse (first second : Rule source) : Rule source where
  run cursor :=
    match first.run cursor with
    | some reading => some reading
    | none => second.run cursor
  sound := by
    intro cursor reading h
    split at h
    · next hfirst =>
      cases h
      exact first.sound hfirst
    · exact second.sound h

/-- The first of several rules that does not refuse. -/
def firstOf : List (Rule source) → Rule source
  | [] => refuse
  | [rule] => rule
  | rule :: rules => rule.orElse (firstOf rules)

/-- A rule, or nothing where it refuses. -/
def optional (rule : Rule source) : Rule source := rule.orElse done

/-- Makes one construct of what a rule reads. -/
def branch (construct : Construct) (rule : Rule source)
    (arranged : ∀ (cursor : Cursor source) (reading : Reading source),
      rule.run cursor = some reading → construct.Arranges reading.1 := by
        exact fun _ _ _ => trivial) :
    Rule source where
  run cursor :=
    match rule.run cursor with
    | none => none
    | some (children, behind) => some ([(.part, .branch construct children)], behind)
  sound := by
    intro cursor reading h
    split at h
    · cases h
    · next hrule =>
      cases h
      exact .single (.branch (rule.sound hrule) (arranged _ _ hrule))

/-- Gives what a rule reads a role. -/
def withRole (role : Role) (rule : Rule source)
    (admitted : ∀ (cursor : Cursor source) (reading : Reading source),
      rule.run cursor = some reading → ∀ child ∈ reading.1, role.Admits child.2 := by
        exact fun _ _ _ _ _ => trivial) :
    Rule source where
  run cursor :=
    match rule.run cursor with
    | none => none
    | some (children, behind) => some (children.map fun child => (role, child.2), behind)
  sound := by
    intro cursor reading h
    split at h
    · cases h
    · next hrule =>
      cases h
      exact (rule.sound hrule).withRole (admitted _ _ hrule)

/-- What a rule reads as at most one node. -/
def bundled : List Child → List Child
  | [] => []
  | [child] => [child]
  | children => [(.part, .branch .group children)]

/-- Makes at most one node of what a rule reads. -/
def bundle (rule : Rule source) : Rule source where
  run cursor :=
    match rule.run cursor with
    | none => none
    | some (children, behind) => some (bundled children, behind)
  sound := by
    intro cursor reading h
    split at h
    · cases h
    · next hrule =>
      cases h
      have inside := rule.sound hrule
      revert inside
      unfold bundled
      intro inside
      split
      · exact inside
      · exact inside
      · exact .single (.branch inside trivial)

/-- Reads a lexeme, given its sort and its length.  Behind a tight one, blanks are not skipped. -/
def lexeme (read : List Char → Option (Lexeme × Nat)) (tight : Bool)
    (strings : ∀ (rest : List Char) (closed : Bool) (count : Nat),
      read rest = some (.string closed, count) → stringLength? rest = some (count, closed) := by
        simp) :
    Rule source where
  run cursor :=
    match read cursor.rest with
    | none => none
    | some (sort, count) =>
      if count = 0 then none
      else
        let behind := cursor.advance count false
        some ([(.part, .leaf sort cursor.offset (cursor.rest.take count))],
          if tight then behind else behind.settle)
  sound := by
    intro cursor reading h
    split at h
    · cases h
    · next sort count hread =>
      split at h
      · cases h
      · cases h
        have leaf : Node.Spans source (.leaf sort cursor.offset (cursor.rest.take count))
            cursor.offset (cursor.offset + count) := by
          refine .leaf (Nat.le_refl _) ?_ ?_ ?_
          · rw [← cursor.rest_eq]
            exact List.take_prefix _ _
          · exact Nat.add_le_add_left (List.length_take_le _ _) _
          · rintro closed rfl
            rw [← cursor.rest_eq]
            exact ⟨count, strings _ _ _ hread, rfl⟩
        refine .cons trivial leaf (.nil ?_)
        dsimp only
        split
        · exact Nat.le_refl _
        · exact Cursor.offset_le_settle (cursor.advance count false)

/-- Reads as long as a rule reads on. -/
def iterate (rule : Rule source) : Nat → Cursor source → Reading source
  | 0, cursor => ([], cursor)
  | fuel + 1, cursor =>
    match rule.run cursor with
    | none => ([], cursor)
    | some (children, middle) =>
      if cursor.offset < middle.offset then
        let (more, behind) := iterate rule fuel middle
        (children ++ more, behind)
      else ([], cursor)

theorem iterate_sound (rule : Rule source) (fuel : Nat) (cursor : Cursor source) :
    SpansAll source (iterate rule fuel cursor).1 cursor.offset
      (iterate rule fuel cursor).2.offset := by
  induction fuel generalizing cursor with
  | zero => exact .nil (Nat.le_refl _)
  | succ fuel ih =>
    unfold iterate
    split
    · exact .nil (Nat.le_refl _)
    · next hrule =>
      split
      · exact (rule.sound hrule).append (ih _)
      · exact .nil (Nat.le_refl _)

/-- A rule as often as it reads on. -/
def many (rule : Rule source) : Rule source where
  run cursor := some (rule.iterate (cursor.left + 1) cursor)
  sound h := by
    cases h
    exact rule.iterate_sound _ _

/-- A node with what is applied to it: a call if that is a list of arguments. -/
def applied (head suffix : List Child) : List Child :=
  let construct := if suffix.any fun child => child.1 = .arguments then .call else .group
  let callee : Child :=
    match head with
    | [(_, node)] => (.callee, node)
    | children => (.callee, .branch .group children)
  [(.part, .branch construct (callee :: suffix))]

theorem applied_sound {head suffix : List Child} {low middle high : Nat}
    (h : SpansAll source head low middle) (k : SpansAll source suffix middle high) :
    SpansAll source (applied head suffix) low high := by
  have arranged (children : List Child) :
      (if suffix.any (fun child => child.1 = .arguments) then
        Construct.call else .group).Arranges children := by
    split <;> trivial
  unfold applied
  refine .single (.branch ?_ (arranged _))
  split
  · cases h with
    | cons _ first tail =>
      exact .cons trivial first (k.widen tail.le)
  · exact .cons trivial (.branch h trivial) k

/-- Applies one suffix after the other to a head. -/
def extend (suffix : Rule source) : Nat → List Child → Cursor source → Reading source
  | 0, head, cursor => (head, cursor)
  | fuel + 1, head, cursor =>
    match suffix.run cursor with
    | none => (head, cursor)
    | some (children, behind) =>
      if cursor.offset < behind.offset then extend suffix fuel (applied head children) behind
      else (head, cursor)

theorem extend_sound (suffix : Rule source) (fuel : Nat) {head : List Child} {low : Nat}
    {cursor : Cursor source} (h : SpansAll source head low cursor.offset) :
    SpansAll source (extend suffix fuel head cursor).1 low
      (extend suffix fuel head cursor).2.offset := by
  induction fuel generalizing head cursor with
  | zero => exact h
  | succ fuel ih =>
    unfold extend
    split
    · exact h
    · next hsuffix =>
      split
      · exact ih (applied_sound h (suffix.sound hsuffix))
      · exact h

/-- A rule, followed by as many suffixes as there are, each applied to all that stands before. -/
def chain (head suffix : Rule source) : Rule source where
  run cursor :=
    match head.run cursor with
    | none => none
    | some (children, middle) => some (suffix.extend (middle.left + 1) children middle)
  sound := by
    intro cursor reading h
    split at h
    · cases h
    · next hhead =>
      cases h
      exact suffix.extend_sound _ (head.sound hhead)

/-- Reads a mark. -/
def mark (text : String) : Rule source :=
  lexeme (fun rest => if text.toList.isPrefixOf rest then some (.mark, text.length) else none) false

/-- Reads a mark behind which blanks belong to the text. -/
def tightMark (text : String) : Rule source :=
  lexeme (fun rest => if text.toList.isPrefixOf rest then some (.mark, text.length) else none) true

/-- Reads any name or keyword. -/
def name : Rule source :=
  lexeme (fun rest => some (.name, nameLength rest)) false

/-- Reads a given word. -/
def word (text : String) : Rule source :=
  look fun cursor => if cursor.hasWord text then name else refuse

/-- Reads a string. -/
def string : Rule source :=
  lexeme (fun rest => (stringLength? rest).map fun (count, closed) => (.string closed, count)) false
    fun _ _ _ h => by
      obtain ⟨⟨count, closed⟩, length, same⟩ := Option.map_eq_some_iff.mp h
      cases same
      exact length

/-- Reads a number. -/
def numeral : Rule source :=
  lexeme (fun rest => some (.literal, numeralLength rest)) false

/-- Reads a regular expression. -/
def pattern : Rule source :=
  lexeme (fun rest => (patternLength? rest).map fun count => (.literal, count)) false

/-- Reads the comment that a `<!--` or a `-->` opens. -/
def markupComment : Rule source :=
  lexeme (fun rest => (markupCommentLength? rest).map fun count => (.markupComment, count)) false

/-- Reads a rule between two marks; the second one may be missing. -/
def between (opening closing : String) (rule : Rule source) : Rule source :=
  sequence [mark opening, rule, optional (mark closing)]

/-- Reads a rule between two marks, both of which must be there. -/
def enclosed (opening closing : String) (rule : Rule source) : Rule source :=
  sequence [mark opening, rule, mark closing]

/-- Reads a rule as often as it reads on, with commas in any number between and around. -/
def separated (rule : Rule source) : Rule source :=
  many (firstOf [mark ",", rule])

end Rule

end ImportLint.Script
