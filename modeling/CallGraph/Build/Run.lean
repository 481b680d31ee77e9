import CallGraph.Build.Host
import CallGraph.Plan
import CallGraph.Projection

namespace CallGraph

structure World (σ : Type) where
  coordinator : Coordinator
  host : σ

namespace World

variable {σ α : Type}

def withCoordinator (world : World σ) (coordinator : Coordinator) : World σ :=
  { world with coordinator := coordinator }

def withHost (world : World σ) (host : σ) : World σ :=
  { world with host := host }

def note (world : World σ) (event : BuildEvent) : World σ :=
  world.withCoordinator (world.coordinator.note event)

end World

namespace Build

variable {σ α : Type}

abbrev Nested (σ : Type) := ViewScope → World σ → World σ × Option BuildResult

def perform (nested : Nested σ) :
    Activity σ α → Coordinator → World σ × α
  | .done host answer, coordinator => (⟨coordinator, host⟩, answer)
  | .cancelRunning next, coordinator =>
      perform nested next coordinator.cancelRunning
  | .observe next, coordinator => perform nested (next coordinator) coordinator
  | .build host scope next, coordinator =>
      let (world, result?) := nested scope ⟨coordinator, host⟩
      perform nested (next world.host result?) world.coordinator

def ask (nested : Nested σ) (question : σ → Activity σ α) (world : World σ) :
    World σ × α :=
  perform nested (question world.host) world.coordinator

structure Plan where
  units : UnitSet
  changes : ChangeSet
  invalidation : Invalidation

namespace Plan

def against (baseline : Snapshot) (units : UnitSet) (versions : VersionMap) :
    Plan :=
  let changes := ChangeSet.between baseline.versions baseline.failed versions
  ⟨units, changes,
    Invalidation.split baseline.edges changes.invalidated changes.added units⟩

def stats (plan : Plan) (fresh : Nat) : BuildStats where
  units := plan.units.size
  added := plan.changes.added.size
  changed := plan.changes.changed.size
  removed := plan.changes.removed.size
  reparsed := plan.invalidation.reparse.size
  valid := plan.invalidation.valid.size
  stale := plan.invalidation.stale.size
  fresh := fresh

end Plan

def askVersion (nested : Nested σ) (host : Host σ) (id : BuildId) :
    Inquiry (World σ) BuildError VersionToken := fun source world =>
  match ask nested (host.versionOf source) world with
  | (world, .error fault) => (world, .error (.version source fault))
  | (world, .ok token) => (world.note (.versionRead id ⟨source, token⟩), .ok token)

def survey (nested : Nested σ) (host : Host σ) (id : BuildId)
    (baseline : Snapshot) (world : World σ) :
    World σ × Except BuildError Plan :=
  match ask nested host.allUnits world with
  | (world, .error fault) => (world, .error (.enumeration fault))
  | (world, .ok units) =>
      match readVersions (askVersion nested host id) units.entries ∅
          (world.note (.enumerated id units)) with
      | (world, .error reason) => (world, .error reason)
      | (world, .ok versions) =>
          (world, .ok (Plan.against baseline units versions))

/-- Units are extracted one after the other.  Once the build is cancelled the
remaining ones are passed over. -/
def visit (nested : Nested σ) (host : Host σ) (id : BuildId)
    (source : SourceUnit) (world : World σ) : World σ × Option Outcome :=
  if world.coordinator.isCancelled id then (world, none)
  else
    let (world, outcome) := ask nested (host.extract source) world
    let world := world.withHost (host.countProgress world.host)
    (world.note (.extracted id source), some outcome)

/-- No result when the build has been cancelled by the end of the round. -/
def recompute (nested : Nested σ) (host : Host σ) (id : BuildId)
    (reparse : UnitSet) (valid : EdgeSet) (versions : VersionMap)
    (world : World σ) : World σ × Option Recomputed :=
  let world := world.withHost (host.resetProgress reparse.size world.host)
  let (world, results) := visitEach (visit nested host id) reparse.entries world
  if world.coordinator.isCancelled id then (world, none)
  else (world, some (Recomputed.merge valid versions results))

structure ScopedUnits where
  known : UnitSet
  unknown : Option UnknownUnits

def ScopedUnits.part (existing requested : UnitSet) : ScopedUnits :=
  let unknown := requested.filter fun source => !existing.contains source
  { known := requested.filter existing.contains
    unknown := if unknown.isEmpty then none else some ⟨unknown⟩ }

def resolve (nested : Nested σ) (host : Host σ) (scope : ViewScope)
    (existing : UnitSet) (world : World σ) :
    World σ × Except BuildError (List Method × Option UnknownUnits) :=
  match ask nested (host.unitsInScope scope) world with
  | (world, .error fault) => (world, .error (.scope fault))
  | (world, .ok requested) =>
      let parts := ScopedUnits.part existing requested
      match ask nested (host.methodsInScope parts.known) world with
      | (world, .error fault) => (world, .error (.scope fault))
      | (world, .ok methods) => (world, .ok (methods, parts.unknown))

def project (scope : ViewScope) (methods : List Method) (snapshot : Snapshot) :
    Graph :=
  match scope with
  | .callChains selector =>
      Projection.ofFocus
        (methods.filter fun method => method.matches selector) snapshot
  | _ => Projection.ofScope methods snapshot

def present (nested : Nested σ) (host : Host σ) (id : BuildId) (graph : Graph)
    (world : World σ) : World σ :=
  if world.coordinator.mayPresent id then
    (ask nested (host.present graph)
      (world.withCoordinator (world.coordinator.present id))).1
  else world

/-! From the commit on: the graph of the committed snapshot is resolved, laid
out and shown.  A scope that cannot be resolved is an error, but the commit
stands. -/

def conclude (nested : Nested σ) (host : Host σ) (id : BuildId)
    (scope : ViewScope) (plan : Plan) (recomputed : Recomputed)
    (world : World σ) : World σ × BuildResult :=
  let stats := plan.stats recomputed.fresh
  match world.coordinator.commit? id recomputed.snapshot with
  | none => (world, .ok (.ofCancelled id stats))
  | some coordinator =>
      let snapshot := coordinator.snapshot
      match resolve nested host scope plan.units
          (world.withCoordinator coordinator) with
      | (world, .error reason) => (world, .error reason)
      | (world, .ok (methods, unknown)) =>
          let (world, graph) :=
            ask nested (host.layout (project scope methods snapshot)) world
          (present nested host id graph world,
            .ok ⟨id, .committed snapshot graph, stats, recomputed.failures,
              unknown⟩)

def run (nested : Nested σ) (host : Host σ) (id : BuildId) (scope : ViewScope)
    (world : World σ) : World σ × BuildResult :=
  match survey nested host id world.coordinator.snapshot world with
  | (world, .error reason) => (world, .error reason)
  | (world, .ok plan) =>
      match recompute nested host id plan.invalidation.reparse
          plan.invalidation.valid plan.changes.current world with
      | (world, none) => (world, .ok (.ofCancelled id (plan.stats 0)))
      | (world, some recomputed) =>
          conclude nested host id scope plan recomputed world

def runOnce (nested : Nested σ) (host : Host σ) (scope : ViewScope)
    (world : World σ) : World σ × BuildResult :=
  let (id, coordinator) := world.coordinator.begin
  let (world, result) :=
    run nested host id scope (world.withCoordinator coordinator)
  (world.withCoordinator
    (world.coordinator.finish id (BuildState.ofResult result)), result)

/-- Builds inside builds, at most `depth` of them around each other.  One that
is nested deeper is not begun. -/
def nestedWithin (host : Host σ) : Nat → Nested σ
  | 0 => fun _ world => (world, none)
  | depth + 1 => fun scope world =>
      let (world, result) :=
        runOnce (nestedWithin host depth) host scope world
      (world, some result)

end Build

def World.build {σ : Type} (host : Host σ) (depth : Nat) (scope : ViewScope)
    (world : World σ) : World σ × BuildResult :=
  Build.runOnce (Build.nestedWithin host depth) host scope world

end CallGraph
