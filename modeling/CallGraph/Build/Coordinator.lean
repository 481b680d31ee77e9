import CallGraph.Build.Report

namespace CallGraph

/-! The coordinator holds the committed snapshot and knows which build is the
current one.  A build that is no longer current cannot commit. -/

inductive BuildState where
  | idle
  | running
  | committed
  | cancelled
  deriving DecidableEq, Repr, Inhabited

namespace BuildState

def text : BuildState → String
  | idle => "Idle"
  | running => "Running"
  | committed => "Committed"
  | cancelled => "Cancelled"

def ofResult : BuildResult → BuildState
  | .error _ => idle
  | .ok report => if report.isCommitted then committed else cancelled

end BuildState

/-- What the log of a coordinator says, in the order in which it happened: the
units that a build enumerated, each version that it read, each unit whose
extraction answered, and the snapshot that it committed. -/
inductive BuildEvent where
  | began (id : BuildId)
  | enumerated (id : BuildId) (units : UnitSet)
  | versionRead (id : BuildId) (version : UnitVersion)
  | extracted (id : BuildId) (source : SourceUnit)
  | committed (id : BuildId) (snapshot : Snapshot)
  | presented (id : BuildId)
  | finished (id : BuildId) (state : BuildState)
  deriving DecidableEq

/-- Builds share one store.  At most one of them is registered as in flight; a
build that has been told to stop stays in `cancelled` for good, since its number
is never given out again. -/
structure Coordinator where
  store : SnapshotStore
  inFlight : Option BuildId
  cancelled : List BuildId
  state : BuildState
  nextId : BuildId
  events : List BuildEvent
  deriving DecidableEq

namespace Coordinator

def startingFrom (snapshot : Snapshot) : Coordinator where
  store := ⟨snapshot⟩
  inFlight := none
  cancelled := []
  state := .idle
  nextId := 1
  events := []

instance : Inhabited Coordinator := ⟨startingFrom .initial⟩

def snapshot (coordinator : Coordinator) : Snapshot := coordinator.store.current

def isCancelled (coordinator : Coordinator) (id : BuildId) : Bool :=
  coordinator.cancelled.contains id

def note (coordinator : Coordinator) (event : BuildEvent) : Coordinator :=
  { coordinator with events := coordinator.events ++ [event] }

def drawId (coordinator : Coordinator) : BuildId × Coordinator :=
  (coordinator.nextId,
    { coordinator with nextId := coordinator.nextId + 1 })

def register (coordinator : Coordinator) (id : BuildId) :
    Option BuildId × Coordinator :=
  (coordinator.inFlight, { coordinator with inFlight := some id })

def cancel (coordinator : Coordinator) (id : BuildId) : Coordinator :=
  { coordinator with cancelled := id :: coordinator.cancelled }

def cancelReplaced (coordinator : Coordinator) (replaced : Option BuildId) :
    Coordinator :=
  match replaced with
  | none => coordinator
  | some id => coordinator.cancel id

def markRunning (coordinator : Coordinator) : Coordinator :=
  { coordinator with state := .running }

def begin (coordinator : Coordinator) : BuildId × Coordinator :=
  let (id, coordinator) := coordinator.drawId
  let (replaced, coordinator) := coordinator.register id
  (id, ((coordinator.cancelReplaced replaced).markRunning).note (.began id))

/-- The build in flight is told to stop.  It stays registered until it returns,
so that its final state is still recorded. -/
def cancelRunning (coordinator : Coordinator) : Coordinator :=
  coordinator.cancelReplaced coordinator.inFlight

/-- The check and the swap are one step: a build that was cancelled before it
got here can never overwrite a newer one. -/
def commit? (coordinator : Coordinator) (id : BuildId) (next : Snapshot) :
    Option Coordinator :=
  (coordinator.store.commit? next (coordinator.isCancelled id)).map fun store =>
    { coordinator with store := store }.note (.committed id store.current)

def commitDirectly (coordinator : Coordinator) (next : Snapshot) :
    Coordinator :=
  { coordinator with store := ⟨next.succeeding coordinator.store.current⟩ }

/-! A newer build owns the presentation once it has begun. -/

def mayPresent (coordinator : Coordinator) (id : BuildId) : Bool :=
  !coordinator.isCancelled id

def present (coordinator : Coordinator) (id : BuildId) : Coordinator :=
  coordinator.note (.presented id)

/-- Only the build that is still registered records how it ended. -/
def finish (coordinator : Coordinator) (id : BuildId) (state : BuildState) :
    Coordinator :=
  if coordinator.inFlight == some id then
    { coordinator with inFlight := none, state := state }.note
      (.finished id state)
  else coordinator

end Coordinator

end CallGraph
