import ApiDoc.Command.Reach
import Std.Time

/-!
# The program

Lays out the files that a run may look at, runs the command, and carries the changes over. All
decisions are made by the run itself.
-/

namespace ApiDoc.Program

open Files Command

/-- The text of a place below the root. -/
def placeText (names : List String) : String :=
  "/" ++ "/".intercalate names

/-- The bytes of a file, or why the system does not give them. -/
def readContent (path : String) : IO Content := do
  try return .ok (← IO.FS.readBinFile path)
  catch
    | .permissionDenied _ code text => return .error ⟨code.toNat, text⟩
    | _ => return .error ⟨5, "Input/output error"⟩

/-- Take what is at a place into the tree, without what is below it. -/
def loadEntry (names : List String) (t : Tree) : IO Tree := do
  try
    let path ← IO.FS.realPath (placeText names)
    if ← path.isDir then return t.withFolders names
    else return t.withFile names (← readContent path.toString)
  catch _ => return t

/-- Take what is at a place and everything below it into the tree. -/
partial def loadBelow (names : List String) (t : Tree) : IO Tree := do
  try
    let path ← IO.FS.realPath (placeText names)
    if ← path.isDir then
      let entries ← path.readDir
      entries.foldlM (fun t e => loadBelow (names ++ [e.fileName]) t) (t.withFolders names)
    else return t.withFile names (← readContent path.toString)
  catch _ => return t

/-- Take what a path names into the tree, with the entries above it. -/
def loadPath (cwd : List String) (t : Tree) (path : String) : IO Tree := do
  let names := absoluteNames cwd path
  let t ← (List.range names.length).foldlM (fun t n => loadEntry (names.take n) t) t
  loadBelow names t

def loadPaths (cwd : List String) (paths : List String) (t : Tree) : IO Tree :=
  paths.foldlM (loadPath cwd) t

/-- Carry an entry over to the file system. -/
def store (change : List String × Entry) : IO Unit :=
  match change.2 with
  | .folder => IO.FS.createDirAll (placeText change.1)
  | .file (.ok content) => IO.FS.writeBinFile (placeText change.1) content
  | .file (.error _) => return

/-- Run the command with the given words, and give the status. -/
def runCommand (args : List String) : IO UInt32 := do
  let cwd := namesOf (← IO.currentDir).toString
  let place : Place := { cwd }
  let start : Tree := ({} : Tree).withFolders cwd
  let start ← loadPaths cwd (reached place args start) start
  let start ← loadPaths cwd (reached place args start) start
  let time := (← Std.Time.PlainDateTime.now).format "uuuu-MM-dd HH:mm:ss,SSS"
  let (s, ending) := run place args { sink := { tree := start, time } }
  (changes start s.tree).forM store
  IO.print s.output
  IO.eprint s.sink.console
  if let .crash cause := ending then IO.eprintln cause.message
  return ending.status.toUInt32

end ApiDoc.Program

def main (args : List String) : IO UInt32 :=
  ApiDoc.Program.runCommand args
