import CallGraph.CommandLine.Switch
import CallGraph.Path
import CallGraph.Render

namespace CallGraph

open CommandLine

/-! The commands, and how they are read from the words behind the name of the
tool. -/

structure ScopeChoice where
  withoutTests : Bool
  focus : Option String
  inModule : Option String
  directory : Option String
  units : List String
  deriving DecidableEq, Repr

structure DrawingChoice where
  format : Option OutputFormat
  target : Option Path
  deriving DecidableEq

inductive Command where
  | build (scope : ScopeChoice) (drawing : DrawingChoice)
  | dump
  | clear
  | version
  deriving DecidableEq

structure Invocation where
  root : Path
  command : Command
  deriving DecidableEq

namespace Command

def path? (text : Option String) : Option (Option Path) :=
  match text with
  | none => some none
  | some text => if text.isEmpty then none else some (some ⟨text⟩)

def format? (text : Option String) : Option (Option OutputFormat) :=
  match text with
  | none => some none
  | some name => (OutputFormat.ofName? name).map some

def buildSwitches : List Switch :=
  [.flag "no-tests" none, .value "focus" none, .value "module" none,
    .value "dir" none, .values "unit", .value "format" (some 'f'),
    .value "output" (some 'o')]

def choices (scanned : Scanned) : Nat :=
  (["focus", "module", "dir", "unit"].filter scanned.has).length

def scopeChoice (scanned : Scanned) : ScopeChoice where
  withoutTests := scanned.has "no-tests"
  focus := scanned.first? "focus"
  inModule := scanned.first? "module"
  directory := scanned.first? "dir"
  units := scanned.all "unit"

def ofBuild? (scanned : Scanned) : Option Command :=
  if 1 < choices scanned then none
  else do
    let _ ← path? (scanned.first? "dir")
    let format ← format? (scanned.first? "format")
    let target ← path? (scanned.first? "output")
    return build (scopeChoice scanned) ⟨format, target⟩

def hasNothingLeft (scanned : Scanned) : Bool :=
  scanned.rest.isEmpty || scanned.rest == [endMark]

def parseWith? (switches : List Switch) (read : Scanned → Option Command)
    (words : List String) : Option Command :=
  ((scan switches words).filter hasNothingLeft).bind read

def parse? : List String → Option Command
  | "build" :: words => parseWith? buildSwitches ofBuild? words
  | "dump" :: words => parseWith? [] (fun _ => some dump) words
  | "clear" :: words => parseWith? [] (fun _ => some clear) words
  | "version" :: words => parseWith? [] (fun _ => some version) words
  | _ => none

end Command

namespace Invocation

def switches : List Switch :=
  [.flag "verbose" (some 'v'), .value "root" (some 'r')]

def parse? (words : List String) : Option Invocation := do
  let scanned ← scan switches words
  let root ← Command.path? (scanned.first? "root")
  let command ← Command.parse? scanned.rest
  return ⟨root.getD ⟨"."⟩, command⟩

end Invocation

end CallGraph
