import CallGraph.Method

namespace CallGraph

structure UnitDeclarations where
  source : SourceUnit
  token : VersionToken
  methods : List Method
  deriving DecidableEq

instance : Keyed UnitDeclarations String :=
  ⟨fun declarations => declarations.source.path⟩

structure NameBucket where
  name : String
  methods : List Method
  deriving DecidableEq

instance : Keyed NameBucket String := ⟨NameBucket.name⟩

/-- Declared methods by simple name and by unit. -/
structure SymbolTable where
  byName : KeyedSet NameBucket
  byUnit : KeyedSet UnitDeclarations
  deriving DecidableEq

namespace SymbolTable

def empty : SymbolTable := ⟨∅, ∅⟩

instance : Inhabited SymbolTable := ⟨empty⟩

def lookup (table : SymbolTable) (name : String) : List Method :=
  ((table.byName.find? name).map NameBucket.methods).getD []

def methodsIn (table : SymbolTable) (source : SourceUnit) : List Method :=
  ((table.byUnit.find? source.path).map UnitDeclarations.methods).getD []

def token? (table : SymbolTable) (source : SourceUnit) : Option VersionToken :=
  (table.byUnit.find? source.path).map UnitDeclarations.token

def units (table : SymbolTable) : List SourceUnit :=
  table.byUnit.entries.map UnitDeclarations.source

def addToBucket (buckets : KeyedSet NameBucket) (method : Method) :
    KeyedSet NameBucket :=
  let before := ((buckets.find? method.name).map NameBucket.methods).getD []
  buckets.put ⟨method.name, before ++ [method]⟩

def removeFromBucket (buckets : KeyedSet NameBucket) (method : Method) :
    KeyedSet NameBucket :=
  match buckets.find? method.name with
  | none => buckets
  | some bucket =>
      let left := bucket.methods.filter fun other => !(other.id == method.id)
      if left.isEmpty then buckets.erase method.name
      else buckets.put ⟨method.name, left⟩

def removeUnit (table : SymbolTable) (source : SourceUnit) : SymbolTable :=
  match table.byUnit.find? source.path with
  | none => table
  | some declarations =>
      { byName := declarations.methods.foldl removeFromBucket table.byName
        byUnit := table.byUnit.erase source.path }

def replaceUnit (table : SymbolTable) (source : SourceUnit)
    (token : VersionToken) (methods : List Method) : SymbolTable :=
  let cleared := table.removeUnit source
  { byName := methods.foldl addToBucket cleared.byName
    byUnit := cleared.byUnit.put ⟨source, token, methods⟩ }

end SymbolTable

end CallGraph
