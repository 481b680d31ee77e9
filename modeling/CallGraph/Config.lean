import CallGraph.Cache
import CallGraph.Layout
import CallGraph.Render
import CallGraph.Toml.Statement

namespace CallGraph

structure Config where
  workers : Option Nat
  includeTests : Option Bool
  exclude : List String
  xRatio : Option BinaryNumber
  yRatio : Option BinaryNumber
  format : Option OutputFormat
  deriving DecidableEq, Repr

namespace Config

def empty : Config := ⟨none, none, [], none, none, none⟩

instance : Inhabited Config := ⟨empty⟩

def showsTests (config : Config) : Bool := config.includeTests.getD true

def outputFormat (config : Config) : OutputFormat :=
  config.format.getD .json

def ratio (given : Option BinaryNumber) (standard : Float32) : Float32 :=
  match given with
  | some value => Float32.ofBits value.singleBits
  | none => standard

def layout (config : Config) : LayeredLayout where
  xRatio := ratio config.xRatio (default : LayeredLayout).xRatio
  yRatio := ratio config.yRatio (default : LayeredLayout).yRatio

def group? (names : List String) : Toml → Option (List (Option Toml))
  | .table members => some (names.map fun name => members.lookup name)
  | .array items => some (names.zipIdx.map fun (_, index) => items[index]?)
  | .moment => some (names.map fun _ => none)
  | _ => none

def optional? {α : Type} (read : Toml → Option α) :
    Option Toml → Option (Option α)
  | none => some none
  | some value => (read value).map some

def count? : Toml → Option Nat
  | .integer value => if 0 ≤ value then some value.toNat else none
  | _ => none

def boolean? : Toml → Option Bool
  | .boolean value => some value
  | _ => none

def string? : Toml → Option String
  | .string text => some text
  | _ => none

def strings? : Toml → Option (List String)
  | .array items => items.mapM string?
  | _ => none

def single? : Toml → Option BinaryNumber
  | .float value => some (value.narrow .single)
  | .integer value =>
      some (BinaryNumber.ofRatio .single (value < 0) value.natAbs 1)
  | _ => none

def format? : Toml → Option OutputFormat
  | .string name => OutputFormat.ofName? name
  | .table [(name, .table [])] => OutputFormat.ofName? name
  | .table [(name, .array [])] => OutputFormat.ofName? name
  | _ => none

def ofGroups? (build exclude layout output : Option Toml) : Option Config := do
  let build ← group? ["workers", "include_tests"] (build.getD (.table []))
  let filters ← group? ["exclude"] (exclude.getD (.table []))
  let ratios ← group? ["x_ratio", "y_ratio"] (layout.getD (.table []))
  let output ← group? ["format"] (output.getD (.table []))
  return {
    workers := ← optional? count? (build[0]?.join)
    includeTests := ← optional? boolean? (build[1]?.join)
    exclude := (← optional? strings? (filters[0]?.join)).getD []
    xRatio := ← optional? single? (ratios[0]?.join)
    yRatio := ← optional? single? (ratios[1]?.join)
    format := ← optional? format? (output[0]?.join) }

def ofText? (text : String) : Option Config :=
  (Toml.parse? text).bind fun members =>
    ofGroups? (members.lookup "build") (members.lookup "scope")
      (members.lookup "layout") (members.lookup "output")

end Config

/-- Why settings cannot be used. -/
inductive SettingsFlaw where
  | noWorkers
  | badRatio
  deriving DecidableEq, Repr

def SettingsFlaw.message : SettingsFlaw → String
  | noWorkers => "build.workers must be at least 1"
  | badRatio => "layout ratios must be finite and non-negative"

inductive ConfigError where
  | io (fault : ReadFault)
  | syntaxError (path : Path)
  | invalid (path : Path) (flaw : SettingsFlaw)
  deriving DecidableEq, Repr

def ConfigError.message : ConfigError → String
  | io fault => "io error: " ++ fault.message
  | syntaxError path => "failed to parse config at " ++ path.text
  | invalid path flaw =>
      "invalid config at " ++ path.text ++ ": " ++ flaw.message

namespace Config

def isUsable (ratio : BinaryNumber) : Bool :=
  ratio.isFinite && !ratio.isNegative

def flaw? (config : Config) : Option SettingsFlaw :=
  if config.workers == some 0 then some .noWorkers
  else if config.xRatio.all isUsable && config.yRatio.all isUsable then none
  else some .badRatio

def path (root : Path) : Path := root.join ⟨"callweave.toml"⟩

def load (root : Path) (files : FileSystem) : Except ConfigError Config :=
  if files.isFile (path root) then
    match files.readText (path root) with
    | .error fault => .error (.io fault)
    | .ok text =>
        match ofText? text with
        | none => .error (.syntaxError (path root))
        | some config =>
            match config.flaw? with
            | some flaw => .error (.invalid (path root) flaw)
            | none => .ok config
  else .ok empty

end Config

end CallGraph
