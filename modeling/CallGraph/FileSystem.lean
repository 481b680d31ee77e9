import CallGraph.Path
import CallGraph.Text.Utf8

namespace CallGraph

/-! Directories, files and links in memory, with the operations on them and the
reasons for which these fail. -/

/-- Why an operation on files failed. -/
inductive OsError where
  | notFound
  | alreadyExists
  | notDirectory
  | isDirectory
  | invalid
  | busy
  | nameTooLong
  | notEmpty
  | tooManyLinks
  | noSpace
  | denied
  | holdsNul
  deriving DecidableEq, Repr

def OsError.message : OsError → String
  | notFound => "No such file or directory (os error 2)"
  | denied => "Permission denied (os error 13)"
  | busy => "Device or resource busy (os error 16)"
  | alreadyExists => "File exists (os error 17)"
  | notDirectory => "Not a directory (os error 20)"
  | isDirectory => "Is a directory (os error 21)"
  | invalid => "Invalid argument (os error 22)"
  | noSpace => "No space left on device (os error 28)"
  | nameTooLong => "File name too long (os error 36)"
  | notEmpty => "Directory not empty (os error 39)"
  | tooManyLinks => "Too many levels of symbolic links (os error 40)"
  | holdsNul => "file name contained an unexpected NUL byte"

abbrev Location := List String

namespace Location

def path (location : Location) : Path :=
  ⟨"/" ++ String.intercalate "/" location⟩

def isBelow (directory location : Location) : Bool :=
  directory.isPrefixOf location && directory.length < location.length

def isWithin (directory location : Location) : Bool :=
  directory.isPrefixOf location

end Location

/-- What is found at a place.  Times are nanoseconds since 1970. -/
inductive Entry where
  | file (bytes : List UInt8) (modified : Int)
  | directory
  | link (target : Path)
  deriving DecidableEq, Repr

structure Stored where
  location : Location
  entry : Entry
  deriving DecidableEq, Repr

instance : Keyed Stored Location := ⟨Stored.location⟩

/-- A tree of files.  The root directory is always there and is not listed. -/
structure FileSystem where
  stored : KeyedSet Stored
  workingDirectory : Location
  deriving DecidableEq

namespace FileSystem

def empty : FileSystem := ⟨∅, []⟩

instance : Inhabited FileSystem := ⟨empty⟩

def entry? (files : FileSystem) (location : Location) : Option Entry :=
  if location.isEmpty then some .directory
  else (files.stored.find? location).map Stored.entry

def set (files : FileSystem) (location : Location) (entry : Entry) :
    FileSystem :=
  { files with stored := files.stored.put ⟨location, entry⟩ }

def setAll (files : FileSystem) (places : List Location) (entry : Entry) :
    FileSystem :=
  places.foldl (fun files place => files.set place entry) files

def hasChildren (files : FileSystem) (location : Location) : Bool :=
  files.stored.entries.any fun stored => location.isBelow stored.location

/-- Following a path.  It ends at an entry or at a free name in a directory. -/
inductive Found where
  | present (location : Location) (entry : Entry)
  | absent (location : Location)
  deriving DecidableEq, Repr

def steps (path : Path) : List Path.Component :=
  path.components ++
    if path.endsInName || path.text.isEmpty then [] else [.here]

def linkLimit : Nat := 40

def nameLimit : Nat := 255

/-- Following a path as far as no link stands in the way.  `through` goes on
behind a link, with what is left of the path. -/
def followWith (files : FileSystem) (followLast : Bool)
    (through : Location → Path → List Path.Component → Except OsError Found)
    (directory : Location) : List Path.Component → Except OsError Found
  | [] => .ok (.present directory .directory)
  | .root :: rest => followWith files followLast through [] rest
  | .here :: rest => followWith files followLast through directory rest
  | .above :: rest =>
      followWith files followLast through directory.dropLast rest
  | .named name :: rest =>
      if nameLimit < (Utf8.encode name).length then .error .nameTooLong
      else
        let location := directory ++ [name]
        match files.entry? location with
        | none =>
            if rest.isEmpty then .ok (.absent location) else .error .notFound
        | some .directory =>
            followWith files followLast through location rest
        | some (.file bytes modified) =>
            if rest.isEmpty then .ok (.present location (.file bytes modified))
            else .error .notDirectory
        | some (.link target) =>
            if rest.isEmpty && !followLast then
              .ok (.present location (.link target))
            else through directory target rest

def follow (files : FileSystem) (followLast : Bool) :
    Nat → Location → List Path.Component → Except OsError Found
  | 0 => files.followWith followLast fun _ _ _ => .error .tooManyLinks
  | budget + 1 => files.followWith followLast fun directory target rest =>
      if target.text.isEmpty then .error .notFound
      else follow files followLast budget directory (steps target ++ rest)

def find (files : FileSystem) (followLast : Bool) (path : Path) :
    Except OsError Found :=
  if path.text.toList.contains (Char.ofNat 0) then .error .holdsNul
  else if path.text.isEmpty then .error .notFound
  else
    files.follow followLast linkLimit files.workingDirectory (steps path)

def locate (files : FileSystem) (followLast : Bool) (path : Path) :
    Except OsError (Location × Entry) :=
  match files.find followLast path with
  | .error reason => .error reason
  | .ok (.absent _) => .error .notFound
  | .ok (.present location entry) => .ok (location, entry)

def exists? (files : FileSystem) (path : Path) : Option Entry :=
  (files.locate true path).toOption.map Prod.snd

def hasEntry (files : FileSystem) (path : Path) : Bool :=
  (files.exists? path).isSome

def isDirectory (files : FileSystem) (path : Path) : Bool :=
  files.exists? path == some .directory

def isFile (files : FileSystem) (path : Path) : Bool :=
  match files.exists? path with
  | some (.file ..) => true
  | _ => false

def read (files : FileSystem) (path : Path) : Except OsError (List UInt8) :=
  match files.locate true path with
  | .error reason => .error reason
  | .ok (_, .file bytes _) => .ok bytes
  | .ok (_, _) => .error .isDirectory

structure Stat where
  length : Nat
  modified : Int

def blockSize : Nat := 4096

def stat (files : FileSystem) (path : Path) : Except OsError Stat :=
  match files.locate true path with
  | .error reason => .error reason
  | .ok (_, .file bytes modified) => .ok ⟨bytes.length, modified⟩
  | .ok (_, _) => .ok ⟨blockSize, 0⟩

/-! Changes, on a disk that has room for them.  One that fails leaves everything
as it was. -/

def endsInSeparator (path : Path) : Bool :=
  path.text.toList.getLast? == some '/'

def withoutSeparators (path : Path) : Path :=
  let trimmed := (path.text.toList.reverse.dropWhile (· == '/')).reverse
  if trimmed.isEmpty then path else ⟨String.ofList trimmed⟩

/-- Where the file is, or will be, that a write to the path goes to. -/
def writePlace (files : FileSystem) (path : Path) : Except OsError Location :=
  match files.find true path with
  | .error .notFound =>
      match files.find true (withoutSeparators path) with
      | .ok (.absent _) =>
          if endsInSeparator path then .error .isDirectory
          else .error .notFound
      | _ => .error .notFound
  | .error reason => .error reason
  | .ok (.present location (.file ..)) => .ok location
  | .ok (.present ..) => .error .isDirectory
  | .ok (.absent location) => .ok location

def write (files : FileSystem) (path : Path) (bytes : List UInt8)
    (modified : Int) : Except OsError FileSystem :=
  (files.writePlace path).map fun place =>
    files.set place (.file bytes modified)

def setModified (files : FileSystem) (path : Path) (modified : Int) :
    Except OsError FileSystem :=
  match files.locate true path with
  | .error reason => .error reason
  | .ok (location, .file bytes _) =>
      .ok (files.set location (.file bytes modified))
  | .ok (_, _) => .ok files

def makeDirectory (files : FileSystem) (path : Path) :
    Except OsError FileSystem :=
  match files.find false (withoutSeparators path) with
  | .error reason => .error reason
  | .ok (.present ..) => .error .alreadyExists
  | .ok (.absent location) => .ok (files.set location .directory)

def ofComponents (components : List Path.Component) : Path :=
  match components with
  | .root :: rest =>
      ⟨"/" ++ String.intercalate "/" (rest.map Path.Component.text)⟩
  | others => ⟨String.intercalate "/" (others.map Path.Component.text)⟩

def makeIfMissing (files : FileSystem) (path : Path) :
    Except OsError FileSystem :=
  match files.makeDirectory path with
  | .ok files => .ok files
  | .error reason =>
      if files.isDirectory path then .ok files else .error reason

def makeBelow (files : FileSystem) (above : Except OsError FileSystem)
    (path : Path) : Except OsError FileSystem :=
  match files.makeDirectory path with
  | .ok files => .ok files
  | .error reason =>
      if reason = .notFound then
        match above with
        | .error reason => .error reason
        | .ok files => files.makeIfMissing path
      else if files.isDirectory path then .ok files
      else .error reason

def makeUpwards (files : FileSystem) :
    List Path.Component → Except OsError FileSystem
  | [] => .ok files
  | last :: above =>
      files.makeBelow (makeUpwards files above)
        (ofComponents (last :: above).reverse)

def makeDirectories (files : FileSystem) (path : Path) :
    Except OsError FileSystem :=
  files.makeUpwards path.components.reverse

def link (files : FileSystem) (path target : Path) :
    Except OsError FileSystem :=
  match files.find false path with
  | .error reason => .error reason
  | .ok (.present ..) => .error .alreadyExists
  | .ok (.absent location) =>
      if target.text.isEmpty then .error .notFound
      else .ok (files.set location (.link target))

def removeWithin (files : FileSystem) (location : Location) : FileSystem :=
  { files with
    stored := files.stored.filter fun stored =>
      !location.isWithin stored.location }

def removeFile (files : FileSystem) (path : Path) :
    Except OsError FileSystem :=
  match files.locate false path with
  | .error reason => .error reason
  | .ok (_, .directory) => .error .isDirectory
  | .ok (location, _) => .ok (files.removeWithin location)

def removeTree (files : FileSystem) (path : Path) :
    Except OsError FileSystem :=
  match files.locate false path with
  | .error reason => .error reason
  | .ok (_, .file ..) => .error .notDirectory
  | .ok (location, _) =>
      if location.isEmpty then .error .busy
      else .ok (files.removeWithin location)

def moved (source target : Location) (stored : Stored) : Stored :=
  if source.isWithin stored.location then
    { stored with location := target ++ stored.location.drop source.length }
  else stored

def moveWithin (files : FileSystem) (source target : Location) : FileSystem :=
  { files with
    stored := KeyedSet.ofList
      ((files.removeWithin target).stored.entries.map (moved source target)) }

def mayReplace (files : FileSystem) (target : Location) :
    Entry → Entry → Except OsError Unit
  | .directory, .directory =>
      if files.hasChildren target then .error .notEmpty else .ok ()
  | .directory, _ => .error .notDirectory
  | _, .directory => .error .isDirectory
  | _, _ => .ok ()

def rename (files : FileSystem) (path target : Path) :
    Except OsError FileSystem :=
  match files.locate false path with
  | .error reason => .error reason
  | .ok (source, entry) =>
      match files.find false
          (if entry = .directory then withoutSeparators target else target) with
      | .error reason => .error reason
      | .ok (.absent location) =>
          if source.isBelow location then .error .invalid
          else .ok (files.moveWithin source location)
      | .ok (.present location old) =>
          if location = source then .ok files
          else if source.isBelow location then .error .invalid
          else
            match files.mayReplace location entry old with
            | .error reason => .error reason
            | .ok () => .ok (files.moveWithin source location)

def isRegular : Entry → Bool
  | .file .. => true
  | _ => false

def filesBelow (files : FileSystem) (directory : Location) : List Location :=
  (files.stored.entries.filter fun stored =>
    directory.isBelow stored.location && isRegular stored.entry).map
      fun stored => stored.location.drop directory.length

end FileSystem

end CallGraph
