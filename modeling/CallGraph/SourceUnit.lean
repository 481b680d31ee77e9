import CallGraph.Keyed
import CallGraph.Text.Blank

namespace CallGraph

/-! A source unit is one tracked file, named by its path below the project
root with `/` between the components. -/

structure SourceUnit where
  path : String
  deriving DecidableEq, Repr, Inhabited

instance : Keyed SourceUnit String := ⟨SourceUnit.path⟩

abbrev UnitSet := KeyedSet SourceUnit

namespace SourceUnit

def isTest (source : SourceUnit) : Bool :=
  (Text.split '/' source.path).dropLast.any fun directory =>
    directory == "test" || directory == "tests"

end SourceUnit

/-- The version of a unit.  Only equality has a meaning. -/
structure VersionToken where
  word : UInt64
  deriving DecidableEq, Repr, Inhabited

/-- Versions by unit. -/
structure UnitVersion where
  source : SourceUnit
  token : VersionToken
  deriving DecidableEq, Repr, Inhabited

instance : Keyed UnitVersion String := ⟨fun version => version.source.path⟩

abbrev VersionMap := KeyedSet UnitVersion

namespace VersionMap

def token? (versions : VersionMap) (source : SourceUnit) : Option VersionToken :=
  (versions.find? source.path).map UnitVersion.token

def records (versions : VersionMap) (source : SourceUnit) : Bool :=
  versions.has source.path

def units (versions : VersionMap) : UnitSet :=
  KeyedSet.ofList (versions.entries.map UnitVersion.source)

end VersionMap

end CallGraph
