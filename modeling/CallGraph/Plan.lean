import CallGraph.Snapshot

namespace CallGraph

/-! How the units that exist now relate to those of a snapshot.  A unit that
failed last time counts as changed even when its token is the same. -/

structure ChangeSet where
  added : UnitSet
  changed : UnitSet
  unchanged : UnitSet
  removed : UnitSet
  current : VersionMap
  deriving DecidableEq

namespace ChangeSet

def hasMoved (failed : UnitSet) (version : UnitVersion)
    (seen : VersionToken) : Bool :=
  !(seen == version.token) || failed.contains version.source

def unitsWhere (versions : VersionMap) (keep : UnitVersion → Bool) : UnitSet :=
  VersionMap.units (versions.filter keep)

def between (previous : VersionMap) (failed : UnitSet) (current : VersionMap) :
    ChangeSet where
  added := unitsWhere current fun version =>
    !previous.records version.source
  changed := unitsWhere current fun version =>
    (previous.token? version.source).any (hasMoved failed version)
  unchanged := unitsWhere current fun version =>
    (previous.token? version.source).any fun seen =>
      !hasMoved failed version seen
  removed := unitsWhere previous fun version => !current.records version.source
  current := current

def invalidated (changes : ChangeSet) : UnitSet :=
  changes.changed.union changes.removed

def isClean (changes : ChangeSet) : Bool :=
  changes.added.isEmpty && changes.changed.isEmpty && changes.removed.isEmpty

end ChangeSet

abbrev Inquiry (σ ε α : Type) := SourceUnit → σ → σ × Except ε α

def readVersions {σ ε : Type} (ask : Inquiry σ ε VersionToken) :
    List SourceUnit → VersionMap → σ → σ × Except ε VersionMap
  | [], read, state => (state, .ok read)
  | source :: rest, read, state =>
      match ask source state with
      | (state, .error reason) => (state, .error reason)
      | (state, .ok token) =>
          readVersions ask rest (read.put ⟨source, token⟩) state

/-- The edges of a snapshot split against a set of invalidated units.  An edge
is stale when either of its ends lies in one.  The units of stale edges are
extracted again together with the new and the invalidated ones, as far as they
still exist. -/
structure Invalidation where
  valid : EdgeSet
  stale : EdgeSet
  reparse : UnitSet
  deriving DecidableEq

namespace Invalidation

def isStale (invalidated : UnitSet) (edge : Edge) : Bool :=
  invalidated.contains edge.caller.source ||
    invalidated.contains edge.callee.source

def endUnits (edges : EdgeSet) : List SourceUnit :=
  edges.entries.flatMap fun edge => [edge.caller.source, edge.callee.source]

def split (prior : EdgeSet) (invalidated added existing : UnitSet) :
    Invalidation :=
  let stale := prior.filter (isStale invalidated)
  { valid := prior.filter fun edge => !isStale invalidated edge
    stale := stale
    reparse := KeyedSet.ofList
      ((endUnits stale ++ added.entries ++ invalidated.entries).filter
        existing.contains) }

end Invalidation

end CallGraph
