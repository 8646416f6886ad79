import ImportLint.Path.Segments

/-!
Disks: trees of files and directories, and a working directory that relative paths start from.  A
path is followed step by step, and every step has to start from a directory, even one that stays
where it is: a slash behind the name of a file leads nowhere.
-/

namespace ImportLint

open ImportLint.Path (Segment)

/-- A file or a directory. -/
inductive Node where
  | file (bytes : ByteArray)
  /-- A directory with what its names stand for. -/
  | directory (entries : List (Segment × Node))

namespace Node

/-- A directory without entries. -/
def empty : Node := .directory []

/-- What a list of names leads to. -/
def at? : Node → List Segment → Option Node
  | node, [] => some node
  | .directory entries, name :: names => (entries.lookup name).bind fun child => child.at? names
  | .file _, _ :: _ => none

/-- Puts a node in the place of that of a name, or adds it. -/
def putEntry (name : Segment) (node : Node) (entries : List (Segment × Node)) :
    List (Segment × Node) :=
  match entries with
  | [] => [(name, node)]
  | (other, child) :: rest =>
    if other = name then (name, node) :: rest else (other, child) :: putEntry name node rest

/-- The entries of a directory; a file has none. -/
def entries : Node → List (Segment × Node)
  | .file _ => []
  | .directory entries => entries

/-- Puts a node where a list of names leads to, and makes the directories that are not there. -/
def put (node : Node) : List Segment → Node → Node
  | [], _ => node
  | name :: names, parent =>
    .directory (putEntry name (put node names ((parent.entries.lookup name).getD empty))
      parent.entries)

/-- Whether this is a file. -/
def isFile : Node → Bool
  | .file _ => true
  | .directory _ => false

end Node

/-- Why something could not be done on a disk. -/
inductive DiskFault where
  | notFound
  | notDirectory
  | isDirectory
  | nameTooLong
  /-- The path has a character of code zero. -/
  | zeroInPath
  /-- The bytes of a file are no text. -/
  | notText
  deriving DecidableEq, Repr

/-- The wording of a fault. -/
def DiskFault.message : DiskFault → String
  | .notFound => "No such file or directory (os error 2)"
  | .notDirectory => "Not a directory (os error 20)"
  | .isDirectory => "Is a directory (os error 21)"
  | .nameTooLong => "File name too long (os error 36)"
  | .zeroInPath => "file name contained an unexpected NUL byte"
  | .notText => "stream did not contain valid UTF-8"

/-- A tree and the working directory in it. -/
structure Disk where
  root : Node
  /-- The names that lead to the working directory. -/
  here : List Segment

/-- A node and the names that lead to it. -/
structure Place where
  names : List Segment
  node : Node

namespace Disk

/-- How many bytes a name can have. -/
def nameLimit : Nat := 255

/-- How many bytes a path can have. -/
def pathLimit : Nat := 4095

/-- Whether a path has more bytes than can be followed, whatever it leads to. -/
def isTooLong (path : String) : Bool := pathLimit < path.utf8ByteSize

/-- Follows one segment of a path from the node that some names lead to. -/
def step (disk : Disk) (names : List Segment) (segment : Segment) :
    Except DiskFault (List Segment) :=
  match disk.root.at? names with
  | none => .error .notFound
  | some (.file _) => .error .notDirectory
  | some (.directory _) =>
    if segment = [] ∨ segment = ['.'] then .ok names
    else if segment = ['.', '.'] then .ok names.dropLast
    else if nameLimit < (String.ofList segment).utf8ByteSize then .error .nameTooLong
    else .ok (names ++ [segment])

/-- Follows the segments of a path one after the other. -/
def follow (disk : Disk) (names : List Segment) : List Segment → Except DiskFault (List Segment)
  | [] => .ok names
  | segment :: segments =>
    match disk.step names segment with
    | .error fault => .error fault
    | .ok names => disk.follow names segments

/-- The names that a path leads to, whether or not there is something. -/
def resolve (disk : Disk) (path : String) : Except DiskFault (List Segment) :=
  if path.toList.contains (Char.ofNat 0) then .error .zeroInPath
  else if path.isEmpty then .error .notFound
  else if isTooLong path then .error .nameTooLong
  else
    match Path.splitSlash path.toList with
    | [] :: segments => disk.follow [] segments
    | segments => disk.follow disk.here segments

/-- What a path leads to. -/
def locate (disk : Disk) (path : String) : Except DiskFault Place :=
  match disk.resolve path with
  | .error fault => .error fault
  | .ok names =>
    match disk.root.at? names with
    | none => .error .notFound
    | some node => .ok ⟨names, node⟩

/-- Whether a path leads to a file or a directory. -/
def exists? (disk : Disk) (path : String) : Bool :=
  match disk.locate path with
  | .ok _ => true
  | .error _ => false

/-- The bytes of the file that a path leads to. -/
def read (disk : Disk) (path : String) : Except DiskFault ByteArray :=
  match disk.locate path with
  | .error fault => .error fault
  | .ok ⟨_, .directory _⟩ => .error .isDirectory
  | .ok ⟨_, .file bytes⟩ => .ok bytes

end Disk

/-- The text that bytes stand for. -/
def decodeText (bytes : ByteArray) : Except DiskFault String :=
  match String.fromUTF8? bytes with
  | some text => .ok text
  | none => .error .notText

namespace Disk

/-- The text of the file that a path leads to. -/
def readText (disk : Disk) (path : String) : Except DiskFault String :=
  match disk.read path with
  | .error fault => .error fault
  | .ok bytes => decodeText bytes

/-- Writes a file of a given name into the working directory. -/
def write (disk : Disk) (name : Segment) (bytes : ByteArray) : Except DiskFault Disk :=
  match disk.root.at? disk.here with
  | none => .error .notFound
  | some (.file _) => .error .notDirectory
  | some (.directory entries) =>
    match entries.lookup name with
    | some (.directory _) => .error .isDirectory
    | _ => .ok { disk with root := Node.put (.file bytes) (disk.here ++ [name]) disk.root }

end Disk

end ImportLint
