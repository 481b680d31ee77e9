import CallGraph.FileSystem

namespace CallGraph

/-- What a tree of files does not tell of the disk that holds it: how many bytes
it still takes of a file, which paths it refuses to change, and the other names
of what stands at a place. -/
structure Disk where
  room : Option Nat
  refusal? : Path → Option OsError
  otherNames : Location → List Location

namespace Disk

/-- A disk that takes everything, and on which nothing has a second name. -/
def plain : Disk := ⟨none, fun _ => none, fun _ => []⟩

def names (disk : Disk) (place : Location) : List Location :=
  place :: disk.otherNames place

def taken (disk : Disk) (bytes : List UInt8) : List UInt8 :=
  match disk.room with
  | none => bytes
  | some room => bytes.take room

def opened (disk : Disk) (path : Path) (files : FileSystem) :
    Except OsError Location :=
  match disk.refusal? path with
  | some reason => .error reason
  | none => files.writePlace path

/-- A file is made, or emptied, when it is opened.  If the disk does not take all
bytes, those that it took stay. -/
def write (disk : Disk) (path : Path) (bytes : List UInt8) (modified : Int)
    (files : FileSystem) : FileSystem × Except OsError Unit :=
  match disk.opened path files with
  | .error reason => (files, .error reason)
  | .ok place =>
      let taken := disk.taken bytes
      (files.setAll (disk.names place) (.file taken modified),
        if taken.length < bytes.length then .error .noSpace else .ok ())

def areSame (disk : Disk) (path target : Path) (files : FileSystem) : Bool :=
  match files.locate false path, files.locate false target with
  | .ok (source, _), .ok (place, _) => (disk.otherNames source).contains place
  | _, _ => false

def rename (disk : Disk) (path target : Path) (files : FileSystem) :
    Except OsError FileSystem :=
  match disk.refusal? target with
  | some reason => .error reason
  | none =>
      if disk.areSame path target files then .ok files
      else files.rename path target

end Disk

end CallGraph
