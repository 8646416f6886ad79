import ImportLint.Path.Segments

/-!
Normal forms of path words.  Empty and `.` segments say nothing, and `..` takes back the segment
before it.  `reduce` computes the normal form with a stack; `Rewrite` states the same rules one at a
time and in any order.
-/

namespace ImportLint.Path

/-- A segment that names no step: the empty one and `.`. -/
def Segment.isIdle (segment : Segment) : Bool :=
  segment == [] || segment == ['.']

/-- The segment `..`, which climbs to the parent. -/
def Segment.parent : Segment := ['.', '.']

/-- A segment that names a file or a directory. -/
def Segment.isName (segment : Segment) : Bool :=
  !segment.isIdle && segment != Segment.parent

/-- Reads one more segment.  The stack has its top at the head, and `rooted` tells whether the path
is absolute: above the root there is only the root. -/
def push (rooted : Bool) (stack : List Segment) (segment : Segment) : List Segment :=
  if segment.isIdle then stack
  else if segment = Segment.parent then
    match stack with
    | top :: below =>
      if top = Segment.parent then (if rooted then stack else segment :: stack) else below
    | [] => if rooted then [] else [segment]
  else segment :: stack

/-- The normal form of a word. -/
def reduce (rooted : Bool) (word : List Segment) : List Segment :=
  (word.foldl (push rooted) []).reverse

/-- The text of a normal word: a relative path is never written as the empty text, and an absolute
one starts with `/`. -/
def spell (rooted : Bool) (word : List Segment) : List Char :=
  if rooted then '/' :: joinSlash word
  else if word = [] then ['.'] else joinSlash word

/-- Whether a path text is absolute. -/
def isRooted (path : List Char) : Bool :=
  path.head? == some '/'

/-- The normal spelling of a path text. -/
def normalize (path : List Char) : List Char :=
  spell (isRooted path) (reduce (isRooted path) (splitSlash path))

/-- One application of one rule, anywhere in a word. -/
inductive Rewrite (rooted : Bool) : List Segment → List Segment → Prop
  /-- A segment that names no step is dropped. -/
  | idle (before after : List Segment) (segment : Segment) (h : segment.isIdle) :
      Rewrite rooted (before ++ segment :: after) (before ++ after)
  /-- A name followed by `..` is deleted together with it. -/
  | climb (before after : List Segment) (segment : Segment) (h : segment.isName) :
      Rewrite rooted (before ++ segment :: Segment.parent :: after) (before ++ after)
  /-- At the root, a leading `..` is dropped. -/
  | clamp (after : List Segment) (h : rooted = true) :
      Rewrite rooted (Segment.parent :: after) after

/-- Any number of rule applications. -/
inductive Rewrites (rooted : Bool) : List Segment → List Segment → Prop
  | refl (word : List Segment) : Rewrites rooted word word
  | step {word next last : List Segment} (head : Rewrite rooted word next)
      (tail : Rewrites rooted next last) : Rewrites rooted word last

/-- A word that no rule applies to. -/
def Irreducible (rooted : Bool) (word : List Segment) : Prop :=
  ∀ next, ¬ Rewrite rooted word next

end ImportLint.Path
