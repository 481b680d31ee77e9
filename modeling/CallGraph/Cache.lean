import CallGraph.FileSystem
import CallGraph.Snapshot.Binary
import CallGraph.Snapshot.Document

namespace CallGraph

/-! A snapshot stored on disk: its bytes, and beside them a record of what they
are. -/

def toolVersion : String := "0.1.0"

/-- Why a file could not be read as text. -/
inductive ReadFault where
  | os (reason : OsError)
  | notText
  deriving DecidableEq, Repr

def ReadFault.message : ReadFault → String
  | os reason => reason.message
  | notText => "stream did not contain valid UTF-8"

def FileSystem.readText (files : FileSystem) (path : Path) :
    Except ReadFault String :=
  match files.read path with
  | .error reason => .error (.os reason)
  | .ok bytes =>
      match Utf8.decode? bytes with
      | some text => .ok text
      | none => .error .notText

/-- The record stored beside a snapshot: which version of the tool wrote it,
what it holds, and when. -/
structure CacheRecord where
  version : String
  generation : UInt64
  edges : UInt64
  units : UInt64
  storedAt : String
  deriving DecidableEq, Repr

namespace CacheRecord

def describe (snapshot : Snapshot) (storedAt : String) : CacheRecord where
  version := toolVersion
  generation := snapshot.generation
  edges := UInt64.ofNat snapshot.edges.size
  units := UInt64.ofNat snapshot.versions.size
  storedAt := storedAt

def toText (record : CacheRecord) : String :=
  (Json.object [("version", .string record.version),
    ("generation", .ofNat record.generation.toNat),
    ("edge_count", .ofNat record.edges.toNat),
    ("unit_count", .ofNat record.units.toNat),
    ("cached_at", .string record.storedAt)]).pretty

def ofValues? (version generation edges units storedAt : Json) :
    Option CacheRecord := do
  return ⟨← version.string?, ← generation.word?, ← edges.word?, ← units.word?,
    ← storedAt.string?⟩

def ofJson? : Json → Option CacheRecord
  | .array [version, generation, edges, units, storedAt] =>
      ofValues? version generation edges units storedAt
  | document => do
      ofValues? (← Snapshot.Document.member? "version" document)
        (← Snapshot.Document.member? "generation" document)
        (← Snapshot.Document.member? "edge_count" document)
        (← Snapshot.Document.member? "unit_count" document)
        (← Snapshot.Document.member? "cached_at" document)

def ofText? (text : String) : Option CacheRecord :=
  (Json.parse? text).bind ofJson?

end CacheRecord

/-- Why the stored snapshot could not be used, or a new one not stored. -/
inductive CacheError where
  | io (fault : ReadFault)
  | decode (fault : Snapshot.Binary.Fault)
  | record
  deriving DecidableEq, Repr

def CacheError.message : CacheError → String
  | io fault => "io error: " ++ fault.message
  | decode fault => "corrupt snapshot cache: " ++ fault.message
  | record => "invalid cache metadata"

namespace Cache

def directory (root : Path) : Path := root.join ⟨".callweave"⟩

def payloadPath (root : Path) : Path := (directory root).join ⟨"snapshot.bin"⟩

def draftPath (root : Path) : Path := (payloadPath root).withExtension "bin.tmp"

def recordPath (root : Path) : Path := (directory root).join ⟨"snapshot.json"⟩

def ensure (root : Path) (files : FileSystem) : Except OsError FileSystem :=
  if files.hasEntry (directory root) then .ok files
  else files.makeDirectories (directory root)

def clear (root : Path) (files : FileSystem) : Except OsError FileSystem :=
  if files.hasEntry (directory root) then files.removeTree (directory root)
  else .ok files

/-- Steps that are taken one after the other up to the first one that fails.
What was done before it stays done. -/
abbrev FileStep := FileSystem → Except OsError FileSystem

def inSequence (files : FileSystem) :
    List FileStep → FileSystem × Except OsError Unit
  | [] => (files, .ok ())
  | step :: rest =>
      match step files with
      | .error reason => (files, .error reason)
      | .ok files => inSequence files rest

/-- The payload is written under another name and then moved, so that half of
one is never found under its own name. -/
def save (snapshot : Snapshot) (root : Path) (storedAt : String)
    (files : FileSystem) : FileSystem × Except CacheError Unit :=
  let record := CacheRecord.describe snapshot storedAt
  let (files, result) := inSequence files
    [ensure root,
      fun files => files.write (draftPath root) snapshot.toBytes 0,
      fun files => files.rename (draftPath root) (payloadPath root),
      fun files =>
        files.write (recordPath root) (Utf8.encode record.toText) 0]
  (files, result.mapError fun reason => .io (.os reason))

def readRecord (root : Path) (files : FileSystem) :
    Except CacheError CacheRecord :=
  match files.readText (recordPath root) with
  | .error fault => .error (.io fault)
  | .ok text =>
      match CacheRecord.ofText? text with
      | none => .error .record
      | some record => .ok record

def load (root : Path) (files : FileSystem) :
    Except CacheError (Option Snapshot) :=
  if files.hasEntry (payloadPath root) && files.hasEntry (recordPath root) then
    match readRecord root files with
    | .error reason => .error reason
    | .ok record =>
        if record.version == toolVersion then
          match files.read (payloadPath root) with
          | .error reason => .error (.io (.os reason))
          | .ok bytes =>
              match Snapshot.ofBytes bytes with
              | .error fault => .error (.decode fault)
              | .ok snapshot => .ok (some snapshot)
        else .ok none
  else .ok none

end Cache

end CallGraph
