import CallGraph.Method

namespace CallGraph

/-! The last computed edge set with the unit versions it was computed from.
`failed` holds the units whose extraction failed in that round.  Generation
zero is the empty snapshot before any commit. -/

structure Snapshot where
  generation : UInt64
  edges : EdgeSet
  versions : VersionMap
  failed : UnitSet
  deriving DecidableEq

namespace Snapshot

def initial : Snapshot := ⟨0, ∅, ∅, ∅⟩

instance : Inhabited Snapshot := ⟨initial⟩

def covers (snapshot : Snapshot) (edge : Edge) : Bool :=
  snapshot.versions.records edge.caller.source &&
    snapshot.versions.records edge.callee.source

def danglingEdges (snapshot : Snapshot) : EdgeSet :=
  snapshot.edges.filter fun edge => !snapshot.covers edge

def isSelfConsistent (snapshot : Snapshot) : Bool :=
  snapshot.edges.entries.all snapshot.covers

def succeeding (next previous : Snapshot) : Snapshot :=
  { next with generation := previous.generation + 1 }

end Snapshot

/-- Holds the current snapshot.  A commit that is refused changes nothing. -/
structure SnapshotStore where
  current : Snapshot
  deriving DecidableEq, Inhabited

namespace SnapshotStore

def commit? (store : SnapshotStore) (next : Snapshot) (refused : Bool) :
    Option SnapshotStore :=
  if refused then none else some ⟨next.succeeding store.current⟩

end SnapshotStore

end CallGraph
