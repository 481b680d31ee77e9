import CallGraph.Digest
import CallGraph.Snapshot

namespace CallGraph.Snapshot.Binary

/-! The stored form of a snapshot: words of eight bytes, lowest byte first, and
texts and lists behind their length.  Every reader takes its value from the
front of the bytes and hands on the rest. -/

inductive Fault where
  | wordCutShort
  | textCutShort
  | notText (fault : Utf8.Fault)
  deriving DecidableEq, Repr

def Fault.message : Fault → String
  | .wordCutShort => "io error: unexpected end of file"
  | .textCutShort => "io error: "
  | .notText fault => "string is not valid utf8: " ++ fault.message

abbrev Reader (α : Type) := List UInt8 → Except Fault (α × List UInt8)

def read {α β : Type} (reader : Reader α) (next : α → Reader β) : Reader β :=
  fun bytes =>
    match reader bytes with
    | .error fault => .error fault
    | .ok (value, rest) => next value rest

def produce {α : Type} (value : α) : Reader α := fun bytes => .ok (value, bytes)

def writeLength (length : Nat) : List UInt8 := Digest.bytesOfNat 8 length

def writeText (text : String) : List UInt8 :=
  let bytes := Utf8.encode text
  writeLength bytes.length ++ bytes

def writeList {α : Type} (write : α → List UInt8) (items : List α) :
    List UInt8 :=
  writeLength items.length ++ items.flatMap write

def readWord : Reader UInt64
  | b0 :: b1 :: b2 :: b3 :: b4 :: b5 :: b6 :: b7 :: rest =>
      .ok (Digest.wordOfBytes [b0, b1, b2, b3, b4, b5, b6, b7], rest)
  | _ => .error .wordCutShort

def readText : Reader String :=
  read readWord fun length bytes =>
    let taken := bytes.take length.toNat
    if taken.length < length.toNat then .error .textCutShort
    else
      match Utf8.decode taken with
      | .error fault => .error (.notText fault)
      | .ok text => .ok (text, bytes.drop length.toNat)

def readItems {α : Type} (reader : Reader α) : Nat → Reader (List α)
  | 0 => produce []
  | count + 1 => read reader fun item =>
      read (readItems reader count) fun items => produce (item :: items)

def readList {α : Type} (reader : Reader α) : Reader (List α) :=
  read readWord fun count => readItems reader count.toNat

def writeParam (param : Param) : List UInt8 :=
  writeText param.type ++ writeText param.name

def readParam : Reader Param :=
  read readText fun type => read readText fun name => produce ⟨type, name⟩

def writeSource (source : SourceUnit) : List UInt8 := writeText source.path

def readSource : Reader SourceUnit :=
  read readText fun path => produce ⟨path⟩

def writeMethod (method : Method) : List UInt8 :=
  Digest.wordBytes method.id.word ++ writeSource method.source ++
    writeText method.enclosingType ++ writeText method.name ++
      writeList writeParam method.params

def readMethod : Reader Method :=
  read readWord fun id => read readSource fun source =>
    read readText fun enclosingType => read readText fun name =>
      read (readList readParam) fun params =>
        produce ⟨⟨id⟩, source, enclosingType, name, params⟩

def writeEdge (edge : Edge) : List UInt8 :=
  writeMethod edge.caller ++ writeMethod edge.callee

def readEdge : Reader Edge :=
  read readMethod fun caller =>
    read readMethod fun callee => produce ⟨caller, callee⟩

def writeVersion (version : UnitVersion) : List UInt8 :=
  writeSource version.source ++ Digest.wordBytes version.token.word

def readVersion : Reader UnitVersion :=
  read readSource fun source =>
    read readWord fun token => produce ⟨source, ⟨token⟩⟩

end Binary

/-! Lists may come unsorted and with repetitions.  Of equal edges the first one
stays, of two versions of a unit the last one. -/

def toBytes (snapshot : Snapshot) : List UInt8 :=
  Digest.wordBytes snapshot.generation ++
    Binary.writeList Binary.writeEdge snapshot.edges.entries ++
    Binary.writeList Binary.writeVersion snapshot.versions.entries ++
    Binary.writeList Binary.writeSource snapshot.failed.entries

def readBytes : Binary.Reader Snapshot :=
  Binary.read Binary.readWord fun generation =>
    Binary.read (Binary.readList Binary.readEdge) fun edges =>
      Binary.read (Binary.readList Binary.readVersion) fun versions =>
        Binary.read (Binary.readList Binary.readSource) fun failed =>
          Binary.produce
            { generation := generation
              edges := KeyedSet.ofList edges
              versions := KeyedSet.putAll ∅ versions
              failed := KeyedSet.ofList failed }

/-- Bytes after the snapshot are ignored. -/
def ofBytes (bytes : List UInt8) : Except Binary.Fault Snapshot :=
  (readBytes bytes).map Prod.fst

end CallGraph.Snapshot
