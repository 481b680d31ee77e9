import CallGraph.Disk
import CallGraph.Render

namespace CallGraph

structure Drawing where
  format : OutputFormat
  target : Option Path
  deriving DecidableEq

namespace Drawing

/-! A file is written under another name first and then moved.  A write that
fails is passed over, but its draft may stay behind. -/

def draftPath (target : Path) : Path := target.withExtension "tmp"

def writeFile (disk : Disk) (text : String) (target : Path)
    (files : FileSystem) : FileSystem :=
  match disk.write (draftPath target) (Utf8.encode text) 0 files with
  | (files, .error _) => files
  | (files, .ok ()) =>
      (disk.rename (draftPath target) target files).toOption.getD files

structure Surface where
  files : FileSystem
  screen : String

def draw (drawing : Drawing) (disk : Disk) (graph : Graph)
    (surface : Surface) : Surface :=
  let text := drawing.format.render graph
  match drawing.target with
  | some target =>
      { surface with files := writeFile disk text target surface.files }
  | none => { surface with screen := surface.screen ++ text }

end Drawing

end CallGraph
