import ImportLint.Command.Footprint

/-!
The program.  It reads as much of the disk as a run looks at, and does what the outcome of that run
says.
-/

namespace ImportLint

open System

/-- Reads what is at a path, with everything below it.  Links to directories are not followed. -/
partial def readNode (path : FilePath) : IO (Option Node) := do
  if ← path.isDir then
    let mut entries := []
    for entry in ← path.readDir do
      let link := (← entry.path.symlinkMetadata).type == .symlink
      if !(link && (← entry.path.isDir)) then
        if let some node ← readNode entry.path then
          entries := (entry.fileName.toList, node) :: entries
    return some (.directory entries)
  else if ← path.pathExists then
    try return some (.file (← IO.FS.readBinFile path)) catch _ => return none
  else return none

/-- Takes what is at a path into a disk, with everything below it if it is to be walked. -/
def fetch (disk : Disk) (path : String) (walked : Bool) : IO Disk := do
  let segments := Path.splitSlash path.toList
  let mut tree := disk.root
  for count in List.range segments.length do
    let front := String.ofList ('/' :: Path.joinSlash (segments.take (count + 1)))
    let front := if Path.isAbsolute path then front else (front.drop 1).toString
    let names := Command.lexicalNames disk.here front
    if ← (front : FilePath).isDir then
      if (tree.at? names).isNone then tree := Node.put .empty names tree
  let names := Command.lexicalNames disk.here path
  let isDirectory ← (path : FilePath).isDir
  if walked || !isDirectory then
    if let some node ← readNode path then tree := Node.put node names tree
  if walked then
    for names in Command.ignoreFiles names do
      let file := String.ofList (Walk.truePath names)
      if !(← (file : FilePath).isDir) then
        if let some node ← readNode file then tree := Node.put node names tree
  return { disk with root := tree }

/-- The part of the disk that a request is about. -/
def fetchAll (request : Command.Request) (environment : Command.Environment) : IO Disk := do
  let here := Command.lexicalNames [] (← IO.currentDir).toString
  let mut disk : Disk := ⟨Node.put .empty here .empty, here⟩
  for path in request.configPaths environment do
    disk ← fetch disk path false
  if let some root := request.walkRoot? disk environment then
    disk ← fetch disk root true
  return disk

/-- Prints an outcome, and writes the file that a run has written. -/
def deliver (outcome : Command.Outcome) (written : Bool) : IO UInt32 := do
  for event in outcome.events do
    IO.eprintln event.line
  if written && outcome.failure.isNone then
    if let .ok bytes := outcome.disk.read Template.fileName then
      IO.FS.writeBinFile Template.fileName bytes
  IO.print outcome.output
  if let some chain := outcome.failure then
    IO.eprintln (Command.failureText chain)
  if outcome.code == 2 then
    IO.eprint Command.usageText
  return UInt32.ofNat outcome.code

/-- Whether a request is one for a file to be written. -/
def Command.Request.writes (request : Command.Request) : Bool :=
  match request.task with
  | .writeTemplate _ => true
  | _ => false

end ImportLint

open ImportLint in
/-- Runs the program. -/
def main (arguments : List String) : IO UInt32 := do
  let environment : Command.Environment :=
    ⟨← IO.getEnv "HOME", ← IO.getEnv "IMPORT_PATTERNS_CONFIG",
      ← IO.getEnv "IMPORT_PATTERNS_CONFIG_DIR"⟩
  match Command.Request.read environment arguments with
  | .error stop => deliver (stop.outcome ⟨.empty, []⟩) false
  | .ok request =>
    let disk ← fetchAll request environment
    deliver (request.run disk environment) request.writes
