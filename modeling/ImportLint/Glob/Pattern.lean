import ImportLint.Glob.Token
import ImportLint.Text.Utf8

/-!
What globs match.  A pattern is lowered to pieces over bytes: one byte of a set, a run of bytes of a
set, or a choice.  `Piece.Matches` states which byte strings a piece stands for, and `covers` decides
it by carrying, for every position of the subject, whether the pieces read so far can end there.
-/

namespace ImportLint.Glob

open ImportLint.Text

/-- A set of bytes: the ranges listed, or all bytes outside of them. -/
structure ByteSet where
  negated : Bool
  ranges : List (UInt8 × UInt8)
  deriving DecidableEq, Repr

/-- Membership in a set of bytes. -/
def ByteSet.has (set : ByteSet) (b : UInt8) : Bool :=
  set.ranges.any (fun range => range.1 ≤ b && b ≤ range.2) != set.negated

/-- One given byte. -/
def ByteSet.one (b : UInt8) : ByteSet := ⟨false, [(b, b)]⟩

/-- Every byte. -/
def ByteSet.all : ByteSet := ⟨true, []⟩

/-- The byte of the separator `/`. -/
def slash : UInt8 := 47

/-- Every byte but the separator. -/
def ByteSet.noSlash : ByteSet := ⟨true, [(slash, slash)]⟩

/-- The bytes that a class lists.  Each character is written out as its bytes, and a range runs from
the last byte of its lower end to the first byte of its upper end. -/
def CharClass.bytes (set : CharClass) : ByteSet :=
  { negated := set.negated
    ranges := set.ranges.flatMap fun (low, high) =>
      let one := fun b => (b, b)
      let lower := String.utf8EncodeChar low
      let upper := String.utf8EncodeChar high
      if low = high then lower.map one
      else
        lower.dropLast.map one ++ [(lower.getLastD 0, upper.headD 0)] ++ (upper.drop 1).map one }

/-- A piece of a lowered pattern. -/
inductive Piece where
  /-- One byte of a set. -/
  | byte (set : ByteSet)
  /-- Any number of bytes of a set. -/
  | run (set : ByteSet)
  /-- One of several sequences. -/
  | choice (branches : List (List Piece))
  deriving Repr

mutual

/-- The byte strings that one piece stands for. -/
inductive Piece.Matches : Piece → List UInt8 → Prop
  | byte {set : ByteSet} {b : UInt8} (h : set.has b) : Piece.Matches (.byte set) [b]
  | run {set : ByteSet} {bytes : List UInt8} (h : ∀ b ∈ bytes, set.has b) :
      Piece.Matches (.run set) bytes
  | choice {branches : List (List Piece)} {branch : List Piece} {bytes : List UInt8}
      (mem : branch ∈ branches) (h : MatchesAll branch bytes) :
      Piece.Matches (.choice branches) bytes

/-- The byte strings that a sequence of pieces stands for. -/
inductive MatchesAll : List Piece → List UInt8 → Prop
  | nil : MatchesAll [] []
  | cons {piece : Piece} {pieces : List Piece} {left right : List UInt8}
      (head : Piece.Matches piece left) (tail : MatchesAll pieces right) :
      MatchesAll (piece :: pieces) (left ++ right)

end

/-- The two readings of `*` and `?`: within one component of a path, or across all of it. -/
inductive Scope where
  | component
  | wholePath
  deriving DecidableEq, Repr

/-- The bytes that `*` and `?` range over. -/
def Scope.wild : Scope → ByteSet
  | .component => .noSlash
  | .wholePath => .all

mutual

/-- The pieces of one token. -/
def Token.lower (scope : Scope) : Token → List Piece
  | .literal c => (String.utf8EncodeChar c).map fun b => .byte (.one b)
  | .any => [.byte scope.wild]
  | .star => [.run scope.wild]
  | .leadingDirs =>
    [.choice [[], [.byte (.one slash)], [.run .all, .byte (.one slash)]]]
  | .middleDirs =>
    [.choice [[.byte (.one slash)], [.byte (.one slash), .run .all, .byte (.one slash)]]]
  | .everythingBelow => [.byte (.one slash), .run .all]
  | .ofClass set => [.byte set.bytes]
  | .choice branches =>
    match lowerBranches scope branches with
    | [] => []
    | lowered => [.choice lowered]

/-- The pieces of a sequence of tokens. -/
def lowerAll (scope : Scope) : List Token → List Piece
  | [] => []
  | token :: rest => token.lower scope ++ lowerAll scope rest

/-- The pieces of each alternative; one that has none is dropped. -/
def lowerBranches (scope : Scope) : List (List Token) → List (List Piece)
  | [] => []
  | branch :: rest =>
    match lowerAll scope branch with
    | [] => lowerBranches scope rest
    | pieces => pieces :: lowerBranches scope rest

end

/-- The pieces of a whole pattern, in which a lone `**` stands for everything. -/
def lower (scope : Scope) : List Token → List Piece
  | [.leadingDirs] => [.run .all]
  | tokens => lowerAll scope tokens

/-- For every position of the subject, from before its first byte to behind its last one, whether the
pieces read so far can end there. -/
abbrev Marks := List Bool

/-- The marks before any piece: only the front of the subject is reached. -/
def Marks.start (subject : List UInt8) : Marks :=
  true :: subject.map fun _ => false

/-- Moves every mark over one byte of the set. -/
def Marks.afterByte (set : ByteSet) : List UInt8 → Marks → Marks
  | b :: subject, mark :: marks => (mark && set.has b) :: Marks.afterByte set subject marks
  | _, _ => []

/-- Spreads every mark over the bytes of the set behind it; `before` tells whether the mark in front
has been spread up to here. -/
def Marks.afterRun (set : ByteSet) (before : Bool) : List UInt8 → Marks → Marks
  | b :: subject, mark :: marks =>
    (before || mark) :: Marks.afterRun set ((before || mark) && set.has b) subject marks
  | _, marks => marks.map (before || ·)

/-- The marks that either of two has. -/
def Marks.union (left right : Marks) : Marks :=
  List.zipWith (· || ·) left right

mutual

/-- The marks behind one piece. -/
def Piece.advance (subject : List UInt8) (marks : Marks) : Piece → Marks
  | .byte set => false :: Marks.afterByte set subject marks
  | .run set => Marks.afterRun set false subject marks
  | .choice branches => advanceAny subject marks branches

/-- The marks behind a sequence of pieces. -/
def advanceAll (subject : List UInt8) (marks : Marks) : List Piece → Marks
  | [] => marks
  | piece :: pieces => advanceAll subject (piece.advance subject marks) pieces

/-- The marks behind any of several sequences. -/
def advanceAny (subject : List UInt8) (marks : Marks) : List (List Piece) → Marks
  | [] => marks.map fun _ => false
  | branch :: branches =>
    (advanceAll subject marks branch).union (advanceAny subject marks branches)

end

/-- Whether a sequence of pieces can be matched against the whole subject. -/
def covers (pieces : List Piece) (subject : List UInt8) : Bool :=
  (advanceAll subject (Marks.start subject) pieces).getLastD false

end ImportLint.Glob

namespace ImportLint

/-- A compiled pattern, with its text. -/
structure Glob where
  pattern : String
  pieces : List Glob.Piece

/-- Why a pattern could not be compiled. -/
structure Glob.Error where
  pattern : String
  fault : Glob.Fault
  deriving DecidableEq, Repr

/-- The wording of a pattern error. -/
def Glob.Error.message (error : Glob.Error) : String :=
  "error parsing glob '" ++ error.pattern ++ "': " ++ error.fault.message

/-- Compiles a pattern. -/
def Glob.compile (scope : Glob.Scope) (pattern : String) : Except Glob.Error Glob :=
  match Glob.parse false pattern.toList with
  | .ok tokens => .ok ⟨pattern, Glob.lower scope tokens⟩
  | .error fault => .error ⟨pattern, fault⟩

/-- Whether the whole path matches. -/
def Glob.isMatch (glob : Glob) (path : String) : Bool :=
  Glob.covers glob.pieces (Text.utf8 path.toList)

end ImportLint
