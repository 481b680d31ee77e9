import CallGraph.CommandLine.Run
import CallGraph.Syntax.Listing
import Std.Time.Format

/-! The command line.  The files of the working directory, and those below the
root of the project, are read first; what a command changes is written when it
has ended.  The tree of a source file stands beside it, written out under its
name with `.tree` behind it. -/

namespace CallGraph.Shell

def entryIn (directory : Location) (name : String) : IO.FS.DirEntry :=
  ⟨directory.path.text, name⟩

def nanoseconds (time : IO.FS.SystemTime) : Int :=
  time.sec * 1000000000 + time.nsec.toNat

def locationOf (path : String) : Location :=
  (Text.split '/' path).filter fun name => !name.isEmpty

def orKeep (files : FileSystem) (read : IO FileSystem) : IO FileSystem :=
  tryCatch read fun _ => pure files

def readFile (location : Location) (entry : IO.FS.DirEntry)
    (files : FileSystem) : IO FileSystem := do
  let data ← IO.FS.readBinFile entry.path
  let status ← entry.path.metadata
  return files.set location (.file data.toList (nanoseconds status.modified))

partial def readTree (directory : Location) (files : FileSystem) :
    IO FileSystem := do
  let entries ← (entryIn directory ".").path.readDir
  entries.foldlM (fun files entry => orKeep files do
    let location := directory ++ [entry.fileName]
    let target ← IO.FS.realPath entry.path
    if target.toString != location.path.text then
      return files.set location (.link ⟨target.toString⟩)
    else if ← entry.path.isDir then
      readTree location (files.set location .directory)
    else readFile location entry files) files

def readAbove (directory : Location) (files : FileSystem) : IO FileSystem :=
  (FileSystem.ancestors directory).foldlM (fun files above => do
    let files := if above.isEmpty then files else files.set above .directory
    [".ignore", ".gitignore"].foldlM (fun files name => orKeep files
      (readFile (above ++ [name]) (entryIn above name) files)) files) files

def readFrom (directory : Location) (files : FileSystem) : IO FileSystem := do
  orKeep files (readTree directory (← readAbove directory files))

def readAround (words : List String) : IO FileSystem := do
  let here := locationOf (← IO.currentDir).toString
  let files ← readFrom here { FileSystem.empty with workingDirectory := here }
  match Invocation.parse? words with
  | none => return files
  | some invocation => orKeep files do
      let root := locationOf (← IO.FS.realPath invocation.root.text).toString
      if here.isWithin root then return files else readFrom root files

def treeOf? (files : FileSystem) (stored : Stored) :
    Option (String × Tree) := do
  let source ← (files.readText stored.location.path).toOption
  let listing ← (files.readText ⟨stored.location.path.text ++ ".tree"⟩).toOption
  return (source, ← Tree.ofListing? listing)

def emptyTree : Tree := .node .other .none ⟨0, 0⟩ []

def parserFor (files : FileSystem) : Parser :=
  let trees := (files.stored.entries.filter fun stored =>
    stored.location.path.isJava).filterMap (treeOf? files)
  fun source => (trees.lookup source).getD emptyTree

def writeChange (before : FileSystem) (stored : Stored) : IO Unit := do
  if before.entry? stored.location == some stored.entry then return
  match stored.entry with
  | .file bytes _ =>
      IO.FS.writeBinFile stored.location.path.text ⟨bytes.toArray⟩
  | .directory => IO.FS.createDirAll stored.location.path.text
  | .link _ => return

def removeMissing (after : FileSystem) (stored : Stored) : IO Unit := do
  if (after.entry? stored.location).isSome then return
  match stored.entry with
  | .directory => IO.FS.removeDir stored.location.path.text
  | _ => IO.FS.removeFile stored.location.path.text

def writeChanges (before after : FileSystem) : IO Unit := do
  before.stored.entries.reverse.forM (removeMissing after)
  after.stored.entries.forM (writeChange before)

def timeText : IO String := do
  let now ← Std.Time.Timestamp.now
  return (Std.Time.DateTime.ofTimestampWithZone now .UTC).toISO8601String

end CallGraph.Shell

open CallGraph in
def main (words : List String) : IO UInt32 := do
  let files ← Shell.readAround words
  let aftermath := runCommandLine ⟨Shell.parserFor files, ← Shell.timeText⟩
    words files
  Shell.writeChanges files aftermath.files
  IO.print aftermath.printed
  return UInt32.ofNat aftermath.ending.code
