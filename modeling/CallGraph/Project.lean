import CallGraph.Digest
import CallGraph.Fault
import CallGraph.Ignore.Walk
import CallGraph.Scope

namespace CallGraph

inductive ProjectError where
  | noRoot (path : Path)
  | badPattern (bad : BadGlob)
  deriving DecidableEq, Repr

def ProjectError.message : ProjectError → String
  | noRoot path => "project root " ++ path.text ++ " is not a directory"
  | badPattern bad => "invalid exclude pattern: " ++ bad.message

/-- The root is known by its canonical path and by the one that it was opened
with.  The epoch counts enumerations; `units` holds what the last one found. -/
structure Project where
  root : Path
  openedAs : Path
  exclude : List Glob
  epoch : Nat
  units : UnitSet

namespace Project

def parseExcludes (patterns : List String) : Except BadGlob (List Glob) :=
  patterns.mapM fun pattern =>
    (Glob.parse pattern).mapError fun flaw => ⟨pattern, flaw⟩

def openAt (path : Path) (patterns : List String) (files : FileSystem) :
    Except ProjectError Project :=
  match files.locate true path with
  | .ok (location, .directory) =>
      match parseExcludes patterns with
      | .error bad => .error (.badPattern bad)
      | .ok exclude => .ok ⟨location.path, path, exclude, 0, ∅⟩
  | _ => .error (.noRoot path)

def relative? (project : Project) (path : Path) : Option Path :=
  match Path.below? project.root path with
  | some relative => some relative
  | none => Path.below? project.openedAs path

def isHiddenComponent : Path.Component → Bool
  | .named name => name.toList.head? == some '.'
  | _ => false

/-- Excluded are the selected paths, and those with a hidden component. -/
def excludes (project : Project) (path : Path) : Bool :=
  let relative := (project.relative? path).getD path
  relative.components.any isHiddenComponent ||
    project.exclude.any fun glob => glob.selects relative.text

def tracks (project : Project) (path : Path) : Bool :=
  path.isJava && (project.relative? path).isSome && !project.excludes path

def walk (project : Project) (directory : Path) (files : FileSystem) :
    UnitSet :=
  KeyedSet.ofList
    (((files.walk directory).filter fun path =>
      path.isJava && !project.excludes path).map
        (SourceUnit.ofPath project.root))

def enumerate (project : Project) (files : FileSystem) : Project × UnitSet :=
  let units := project.walk project.root files
  ({ project with epoch := project.epoch + 1, units := units }, units)

def currentUnits (project : Project) (files : FileSystem) :
    Project × UnitSet :=
  if project.epoch = 0 then project.enumerate files
  else (project, project.units)

def isInModule (name : String) (source : SourceUnit) : Bool :=
  Text.startsWith source.path (name ++ "/")

def isInDirectory (directory : Path) (source : SourceUnit) : Bool :=
  (Path.mk source.path).startsWith directory

/-! The units that a scope asks for.  A directory outside the project is walked,
so that what it holds can be reported; the methods of a call chain may be
declared anywhere. -/

def unitsInScope (project : Project) (scope : ViewScope) (files : FileSystem) :
    Project × UnitSet :=
  match scope with
  | .wholeProject includeTests =>
      let (project, units) := project.currentUnits files
      (project, units.filter fun source => includeTests || !source.isTest)
  | .inModule name =>
      let (project, units) := project.currentUnits files
      (project, units.filter (isInModule name))
  | .inDirectory path =>
      let directory := project.root.join ⟨path⟩
      match project.relative? directory with
      | some relative =>
          let (project, units) := project.currentUnits files
          (project, units.filter (isInDirectory relative))
      | none => (project, project.walk directory files)
  | .listed sources => (project, KeyedSet.ofList sources)
  | .callChains _ => project.currentUnits files

def pathOf (project : Project) (source : SourceUnit) : Path :=
  source.toPath project.root

def tokenOf (stat : FileSystem.Stat) : VersionToken :=
  ⟨Digest.ofBytes (Digest.wordBytes (UInt64.ofNat stat.length) ++
    Digest.bytesOfNat 16 stat.modified.toNat)⟩

def versionOf (project : Project) (source : SourceUnit) (files : FileSystem) :
    Except Fault VersionToken :=
  match files.stat (project.pathOf source) with
  | .ok stat => .ok (tokenOf stat)
  | .error reason =>
      .error ((Fault.because reason.message).during
        ("Failed to stat " ++ (project.pathOf source).text))

end Project

end CallGraph
