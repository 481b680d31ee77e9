import CallGraph.Analyzer
import CallGraph.Build.Run
import CallGraph.Config
import CallGraph.Drawing

namespace CallGraph

/-! What the builds of a session work on: the analyzer, the files, and the
screen. -/

structure Workspace where
  analyzer : Analyzer
  surface : Drawing.Surface

namespace Workspace

def files (workspace : Workspace) : FileSystem := workspace.surface.files

def withAnalyzer (workspace : Workspace) (analyzer : Analyzer) : Workspace :=
  { workspace with analyzer := analyzer }

def withFiles (workspace : Workspace) (files : FileSystem) : Workspace :=
  { workspace with surface := { workspace.surface with files := files } }

def withProject (workspace : Workspace) (project : Project) : Workspace :=
  workspace.withAnalyzer (workspace.analyzer.withProject project)

def draw (drawing : Option Drawing) (graph : Graph) (workspace : Workspace) :
    Workspace :=
  match drawing with
  | none => workspace
  | some drawing =>
      { workspace with
        surface := drawing.draw .plain graph workspace.surface }

/-- The workspace as the host of builds.  Nothing in it starts or cancels a
build, and progress leaves no trace. -/
def host (parser : Parser) (layout : LayeredLayout)
    (drawing : Option Drawing) : Host Workspace where
  allUnits workspace :=
    let (project, units) :=
      workspace.analyzer.project.enumerate workspace.files
    .done (workspace.withProject project) (.ok units)
  versionOf source workspace :=
    .done workspace
      (workspace.analyzer.project.versionOf source workspace.files)
  extract source workspace :=
    let (analyzer, outcome) :=
      workspace.analyzer.extract parser workspace.files source
    .done (workspace.withAnalyzer analyzer) outcome
  unitsInScope scope workspace :=
    let (project, units) :=
      workspace.analyzer.project.unitsInScope scope workspace.files
    .done (workspace.withProject project) (.ok units)
  methodsInScope units workspace :=
    let (analyzer, methods) :=
      workspace.analyzer.methodsInScope parser workspace.files units
    .done (workspace.withAnalyzer analyzer) (.ok methods)
  layout graph workspace := .done workspace (layout.apply graph)
  present graph workspace := .done (workspace.draw drawing graph) ()
  resetProgress _ workspace := workspace
  countProgress workspace := workspace

end Workspace

/-- A project that is open for building.  Its first snapshot is the one in the
cache, if there is a usable one. -/
structure Session where
  root : Path
  layout : LayeredLayout
  drawing : Option Drawing
  world : World Workspace

namespace Session

def cachedSnapshot (root : Path) (files : FileSystem) : Snapshot :=
  match Cache.load root files with
  | .ok (some snapshot) => snapshot
  | _ => .initial

def openAt (root : Path) (config : Config) (drawing : Option Drawing)
    (files : FileSystem) : Except ProjectError Session :=
  match Project.openAt root config.exclude files with
  | .error reason => .error reason
  | .ok project =>
      .ok ⟨root, config.layout, drawing,
        ⟨Coordinator.startingFrom (cachedSnapshot root files),
          ⟨Analyzer.ofProject project, ⟨files, ""⟩⟩⟩⟩

def files (session : Session) : FileSystem := session.world.host.files

def withFiles (session : Session) (files : FileSystem) : Session :=
  { session with
    world := session.world.withHost (session.world.host.withFiles files) }

def project (session : Session) : Project :=
  session.world.host.analyzer.project

def snapshot (session : Session) : Snapshot := session.world.coordinator.snapshot

def state (session : Session) : BuildState := session.world.coordinator.state

def screen (session : Session) : String := session.world.host.surface.screen

def build (parser : Parser) (scope : ViewScope) (session : Session) :
    Session × BuildResult :=
  let host := Workspace.host parser session.layout session.drawing
  let (world, result) := session.world.build host 0 scope
  ({ session with world := world }, result)

def persist (time : String) (session : Session) :
    Session × Except CacheError Unit :=
  let (files, result) :=
    Cache.save session.snapshot session.root time session.files
  (session.withFiles files, result)

end Session

end CallGraph
