/-!
The written form of globs.  A pattern is cut into atoms, which settles escapes and character classes,
and the atoms are read into tokens, which settles groups and the three readings of `**`.  The first
fault from the left is the one reported, except that an unclosed group is noticed at the end.
-/

namespace ImportLint.Glob

/-- What can be wrong with a pattern. -/
inductive Fault where
  /-- A `[` whose class never ends. -/
  | unclosedClass
  /-- A range in a class whose ends are in the wrong order. -/
  | invalidRange (low high : Char)
  /-- A closing brace without an opening one. -/
  | unopenedGroup
  /-- An opening brace without a closing one. -/
  | unclosedGroup
  /-- A backslash at the end of the pattern. -/
  | danglingEscape
  deriving DecidableEq, Repr

/-- The wording of a fault. -/
def Fault.message : Fault → String
  | .unclosedClass => "unclosed character class; missing ']'"
  | .invalidRange low high =>
    "invalid range; '" ++ low.toString ++ "' > '" ++ high.toString ++ "'"
  | .unopenedGroup =>
    "unopened alternate group; missing '\x7b' (maybe escape '\x7d' with '[\x7d]'?)"
  | .unclosedGroup =>
    "unclosed alternate group; missing '\x7d' (maybe escape '\x7b' with '[\x7b]'?)"
  | .danglingEscape => "dangling '\\'"

/-- A character class: the ranges written in it, and whether it stands for all other bytes. -/
structure CharClass where
  negated : Bool
  ranges : List (Char × Char)
  deriving DecidableEq, Repr

/-- The first cut of a pattern. -/
inductive Atom where
  /-- A character as written, which may have a meaning of its own. -/
  | plain (c : Char)
  /-- A character after a backslash, which stands for itself. -/
  | escaped (c : Char)
  /-- A whole character class. -/
  | ofClass (set : CharClass)
  /-- The place of a fault; nothing behind it is read. -/
  | fault (cause : Fault)
  deriving DecidableEq, Repr

/-- A character class while it is being read. -/
structure OpenClass where
  negated : Bool
  /-- The ranges read so far, the latest first. -/
  ranges : List (Char × Char)
  /-- Whether nothing but the negation mark has been read. -/
  first : Bool
  /-- Whether a `-` waits for the upper end of its range. -/
  inRange : Bool
  /-- The characters since the bracket, the latest first. -/
  raw : List Char

/-- The class once its `]` has come; a `-` that still waits stands for itself. -/
def OpenClass.finish (state : OpenClass) : CharClass :=
  { negated := state.negated
    ranges := (if state.inRange then ('-', '-') :: state.ranges else state.ranges).reverse }

/-- Reads one more character into a class, in which a range must not run backwards. -/
def OpenClass.add (state : OpenClass) (c : Char) : Except Fault OpenClass :=
  let next := { state with first := false, inRange := false, raw := c :: state.raw }
  match state.inRange, state.ranges with
  | true, (low, _) :: ranges =>
    if c < low then .error (.invalidRange low c)
    else .ok { next with ranges := (low, c) :: ranges }
  | _, ranges =>
    if c = '-' ∧ !state.first then .ok { next with inRange := true }
    else .ok { next with ranges := (c, c) :: ranges }

/-- Cuts a text in which brackets have no meaning. -/
def plainAtoms : List Char → List Atom
  | [] => []
  | ['\\'] => [.fault .danglingEscape]
  | '\\' :: c :: rest => .escaped c :: plainAtoms rest
  | c :: rest => .plain c :: plainAtoms rest

/-- What a class that never ends amounts to: a fault, or for a lenient reader a bracket that stands
for itself, and then no later bracket can begin a class either. -/
def unclosed (lenient : Bool) (state : OpenClass) : List Atom :=
  if lenient then .escaped '[' :: plainAtoms state.raw.reverse else [.fault .unclosedClass]

/-- Cuts a pattern into atoms.  The second argument is the class that is being read, if any. -/
def atoms (lenient : Bool) : List Char → Option OpenClass → List Atom
  | [], none => []
  | [], some state => unclosed lenient state
  | ['\\'], none => [.fault .danglingEscape]
  | '\\' :: c :: rest, none => .escaped c :: atoms lenient rest none
  | '[' :: mark :: rest, none =>
    let opened : OpenClass :=
      { negated := false, ranges := [], first := true, inRange := false, raw := [] }
    if mark = '!' ∨ mark = '^' then
      atoms lenient rest (some { opened with negated := true, raw := [mark] })
    else
      match opened.add mark with
      | .error cause => [.fault cause]
      | .ok state => atoms lenient rest (some state)
  | ['['], none =>
    unclosed lenient { negated := false, ranges := [], first := true, inRange := false, raw := [] }
  | c :: rest, none => .plain c :: atoms lenient rest none
  | c :: rest, some state =>
    if c = ']' ∧ !state.first then .ofClass state.finish :: atoms lenient rest none
    else
      match state.add c with
      | .error cause => [.fault cause]
      | .ok next => atoms lenient rest (some next)

/-- What a pattern is made of. -/
inductive Token where
  | literal (c : Char)
  /-- `?`, one byte. -/
  | any
  /-- `*`, any run of bytes. -/
  | star
  /-- `**/` at the front: any directories, or none. -/
  | leadingDirs
  /-- `/**/` inside: any directories, or none. -/
  | middleDirs
  /-- `/**` at the end: everything below. -/
  | everythingBelow
  | ofClass (set : CharClass)
  /-- A group of alternatives in braces. -/
  | choice (branches : List (List Token))
  deriving Repr

/-- A group while it is being read, or the pattern itself. -/
structure Level where
  /-- The finished alternatives, the latest first. -/
  branches : List (List Token)
  /-- The tokens of the alternative being read, the latest first. -/
  tokens : List Token

/-- A group of which nothing has been read. -/
def Level.empty : Level := ⟨[], []⟩

/-- Reads one more token. -/
def Level.push (level : Level) (token : Token) : Level :=
  { level with tokens := token :: level.tokens }

/-- Two stars that are not a component of their own. -/
def Level.pushStars (level : Level) : Level :=
  (level.push .star).push .star

/-- Ends the alternative being read and begins another. -/
def Level.split (level : Level) : Level :=
  ⟨level.tokens.reverse :: level.branches, []⟩

/-- All alternatives of a group. -/
def Level.close (level : Level) : List (List Token) :=
  (level.tokens.reverse :: level.branches).reverse

/-- Turns the slash before `**` into the recursive token, where neighbouring recursions merge. -/
def Level.recurse (level : Level) (token : Token) : Level :=
  match level.tokens with
  | .leadingDirs :: _ => level
  | .everythingBelow :: _ => level
  | _ :: before => { level with tokens := token :: before }
  | [] => { level with tokens := [token] }

/-- Whether `**` after the character `previous` can be a component of its own: it follows a slash, or
begins an alternative. -/
def startsComponent (nested : Bool) (previous : Option Char) : Bool :=
  previous == some '/' || (nested && (previous == some ',' || previous == some '{'))

/-- Reads atoms into tokens.  `previous` is the character before, `level` the innermost open group
and `outer` the groups around it, the innermost first. -/
def tokens : List Atom → (previous : Option Char) → (level : Level) → (outer : List Level) →
    Except Fault (List Token)
  | [], _, level, [] => .ok level.tokens.reverse
  | [], _, _, _ :: _ => .error .unclosedGroup
  | .fault cause :: _, _, _, _ => .error cause
  | .escaped c :: rest, _, level, outer => tokens rest (some c) (level.push (.literal c)) outer
  | .ofClass set :: rest, _, level, outer =>
    tokens rest (some ']') (level.push (.ofClass set)) outer
  | .plain '?' :: rest, _, level, outer => tokens rest (some '?') (level.push .any) outer
  | .plain '{' :: rest, _, level, outer => tokens rest (some '{') .empty (level :: outer)
  | .plain '}' :: _, _, _, [] => .error .unopenedGroup
  | .plain '}' :: rest, _, level, above :: outer =>
    tokens rest (some '}') (above.push (.choice level.close)) outer
  | .plain ',' :: rest, _, level, [] => tokens rest (some ',') (level.push (.literal ',')) []
  | .plain ',' :: rest, _, level, above :: outer =>
    tokens rest (some ',') level.split (above :: outer)
  | .plain '*' :: .plain '*' :: rest, previous, level, outer =>
    match level.tokens, startsComponent (!outer.isEmpty) previous, rest with
    | [], _, [] => tokens [] (some '*') (level.push .leadingDirs) outer
    | [], _, .plain '/' :: rest => tokens rest (some '/') (level.push .leadingDirs) outer
    | [], _, rest => tokens rest (some '*') level.pushStars outer
    | _ :: _, false, rest => tokens rest (some '*') level.pushStars outer
    | _ :: _, true, [] => tokens [] (some '*') (level.recurse .everythingBelow) outer
    | _ :: _, true, .plain '/' :: rest =>
      tokens rest (some '/') (level.recurse .middleDirs) outer
    | _ :: _, true, next :: rest =>
      if !outer.isEmpty ∧ (next = .plain ',' ∨ next = .plain '}') then
        tokens (next :: rest) (some '*') (level.recurse .everythingBelow) outer
      else tokens (next :: rest) (some '*') level.pushStars outer
  | .plain '*' :: rest, _, level, outer => tokens rest (some '*') (level.push .star) outer
  | .plain c :: rest, _, level, outer => tokens rest (some c) (level.push (.literal c)) outer

/-- The tokens of a pattern, or its first fault.  A lenient reader takes an unclosed bracket
literally. -/
def parse (lenient : Bool) (pattern : List Char) : Except Fault (List Token) :=
  tokens (atoms lenient pattern none) none .empty []

end ImportLint.Glob
