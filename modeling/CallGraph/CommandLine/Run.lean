import CallGraph.CommandLine.Command
import CallGraph.Render.Pairs
import CallGraph.Session

namespace CallGraph

inductive Ending where
  | success
  | failure
  | misuse
  deriving DecidableEq, Repr

def Ending.code : Ending → Nat
  | success => 0
  | failure => 1
  | misuse => 2

/-- What a command leaves behind: the files, what it printed, and how it
ended. -/
structure Aftermath where
  files : FileSystem
  printed : String
  ending : Ending

namespace Aftermath

def failed (files : FileSystem) : Aftermath := ⟨files, "", .failure⟩

def ofSession (session : Session) (printed : String) : Aftermath :=
  ⟨session.files, printed, .success⟩

end Aftermath

def ScopeChoice.scope (choice : ScopeChoice) (config : Config) : ViewScope :=
  match choice.focus, choice.inModule, choice.directory, choice.units with
  | some selector, _, _, _ => .callChains selector
  | none, some name, _, _ => .inModule name
  | none, none, some path, _ => .inDirectory path
  | none, none, none, [] =>
      .wholeProject (config.showsTests && !choice.withoutTests)
  | none, none, none, paths => .listed (paths.map SourceUnit.mk)

def DrawingChoice.drawing (choice : DrawingChoice) (config : Config) :
    Drawing :=
  ⟨choice.format.getD config.outputFormat, choice.target⟩

/-- What the shell provides: a parser for source texts, and the time. -/
structure Surroundings where
  parser : Parser
  time : String

namespace Command

def buildOnce (surroundings : Surroundings) (root : Path) (config : Config)
    (drawing : Option Drawing) (scope : ViewScope) (files : FileSystem) :
    Option Session :=
  match Session.openAt root config drawing files with
  | .error _ => none
  | .ok session =>
      match session.build surroundings.parser scope with
      | (_, .error _) => none
      | (session, .ok _) => some (session.persist surroundings.time).1

def runBuild (surroundings : Surroundings) (root : Path) (scope : ScopeChoice)
    (drawing : DrawingChoice) (config : Config) (files : FileSystem) :
    Aftermath :=
  match buildOnce surroundings root config (some (drawing.drawing config))
      (scope.scope config) files with
  | none => .failed files
  | some session => .ofSession session session.screen

def runDump (surroundings : Surroundings) (root : Path) (config : Config)
    (files : FileSystem) : Aftermath :=
  match buildOnce surroundings root config none default files with
  | none => .failed files
  | some session => .ofSession session (Render.pairs session.snapshot)

def withConfig (root : Path) (files : FileSystem)
    (run : Config → Aftermath) : Aftermath :=
  match Config.load root files with
  | .error _ => .failed files
  | .ok config => run config

def runClear (root : Path) (files : FileSystem) : Aftermath :=
  match Cache.clear root files with
  | .error _ => .failed files
  | .ok files => ⟨files, "", .success⟩

def versionText : String := "Callweave v" ++ toolVersion ++ "\n"

def run (surroundings : Surroundings) (root : Path) (files : FileSystem) :
    Command → Aftermath
  | build scope drawing => withConfig root files fun config =>
      runBuild surroundings root scope drawing config files
  | dump => withConfig root files fun config =>
      runDump surroundings root config files
  | clear => runClear root files
  | version => ⟨files, versionText, .success⟩

end Command

/-- A command line, run in the working directory of the files. -/
def runCommandLine (surroundings : Surroundings) (words : List String)
    (files : FileSystem) : Aftermath :=
  match Invocation.parse? words with
  | none => ⟨files, "", .misuse⟩
  | some invocation =>
      invocation.command.run surroundings invocation.root files

end CallGraph
