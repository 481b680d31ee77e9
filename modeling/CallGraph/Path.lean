import CallGraph.SourceUnit

namespace CallGraph

/-! A path as it was written.  What it means lies in its components: repeated
and trailing separators and dots inside it do not count, a leading dot does. -/

structure Path where
  text : String
  deriving DecidableEq, Repr, Inhabited

namespace Path

inductive Component where
  | root
  | here
  | above
  | named (name : String)
  deriving DecidableEq, Repr

namespace Component

def text : Component → String
  | root => "/"
  | here => "."
  | above => ".."
  | named name => name

def ofPiece (piece : List Char) : Component :=
  if piece == ['.', '.'] then above else named (String.ofList piece)

end Component

def isGap (piece : List Char) : Bool := piece == [] || piece == ['.']

def joinPieces (pieces : List (List Char)) : List Char :=
  List.intercalate ['/'] pieces

structure Anchored where
  anchor : Option Component
  body : List Char

def anchored (path : Path) : Anchored :=
  match path.text.toList with
  | '/' :: rest => ⟨some .root, rest⟩
  | ['.'] => ⟨some .here, []⟩
  | '.' :: '/' :: rest => ⟨some .here, '/' :: rest⟩
  | characters => ⟨none, characters⟩

def Anchored.count (parts : Anchored) : Nat := parts.anchor.toList.length

def Anchored.text (parts : Anchored) : List Char :=
  (parts.anchor.map fun anchor => anchor.text.toList).getD []

def Anchored.pieces (parts : Anchored) : List (List Char) :=
  Text.splitChars '/' parts.body

def components (path : Path) : List Component :=
  let parts := path.anchored
  parts.anchor.toList ++
    (parts.pieces.filter fun piece => !isGap piece).map Component.ofPiece

def isAbsolute (path : Path) : Bool :=
  path.text.toList.head? == some '/'

def join (base path : Path) : Path :=
  if path.isAbsolute then path
  else if base.text.isEmpty || base.text.toList.getLast? == some '/' then
    ⟨base.text ++ path.text⟩
  else ⟨base.text ++ "/" ++ path.text⟩

def dropTrailingGaps (pieces : List (List Char)) : List (List Char) :=
  (pieces.reverse.dropWhile isGap).reverse

def dropNamed : Nat → List (List Char) → List (List Char)
  | 0, pieces => pieces.dropWhile isGap
  | count + 1, pieces => dropNamed count ((pieces.dropWhile isGap).drop 1)

def behind (path : Path) (count : Nat) : Path :=
  let parts := path.anchored
  let front := if count = 0 then parts.text else []
  let pieces :=
    if count = 0 then parts.pieces
    else dropNamed (count - parts.count) parts.pieces
  ⟨String.ofList (front ++ joinPieces (dropTrailingGaps pieces))⟩

def startsWith (path base : Path) : Bool :=
  base.components.isPrefixOf path.components

def below? (base path : Path) : Option Path :=
  if path.startsWith base then some (path.behind base.components.length)
  else none

/-- The last component, if it is a name, and what a dot in it sets off.  A dot
in front sets off nothing. -/
def fileName? (path : Path) : Option String :=
  match path.components.getLast? with
  | some (.named name) => some name
  | _ => none

def cutAtLastDot? (name : List Char) : Option (List Char × List Char) :=
  match name.reverse.span (· != '.') with
  | (_, []) => none
  | (extension, _ :: stem) => some (stem.reverse, extension.reverse)

def stemAndExtension (name : String) : String × Option String :=
  match cutAtLastDot? name.toList with
  | none => (name, none)
  | some ([], _) => (name, none)
  | some (stem, extension) =>
      (String.ofList stem, some (String.ofList extension))

def extension? (path : Path) : Option String :=
  path.fileName?.bind fun name => (stemAndExtension name).2

/-! The same path with another extension.  A path without a file name stays as
it is, and so does one that becomes a step upwards when its extension is taken
away. -/

def directoryText (path : Path) : List Char :=
  let pieces := dropTrailingGaps (Text.splitChars '/' path.text.toList)
  match pieces.dropLast with
  | [] => []
  | front => joinPieces front ++ ['/']

def endsInName (path : Path) : Bool :=
  ((Text.splitChars '/' path.text.toList).getLast?).any fun piece =>
    !isGap piece

def withExtension (path : Path) (extension : String) : Path :=
  match path.fileName? with
  | none => path
  | some name =>
      let (stem, old?) := stemAndExtension name
      let front := String.ofList path.directoryText
      if stem == "." && old?.isSome && path.endsInName then ⟨front ++ ".."⟩
      else ⟨front ++ stem ++ "." ++ extension⟩

end Path

namespace SourceUnit

def ofPath (root path : Path) : SourceUnit :=
  let relative := (Path.below? root path).getD path
  ⟨String.intercalate "/" (relative.components.map Path.Component.text)⟩

def toPath (source : SourceUnit) (root : Path) : Path := root.join ⟨source.path⟩

end SourceUnit

def Path.isJava (path : Path) : Bool := path.extension? == some "java"

end CallGraph
