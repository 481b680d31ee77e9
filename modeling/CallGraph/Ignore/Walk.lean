import CallGraph.FileSystem
import CallGraph.Ignore.Rule

namespace CallGraph

structure RuleLists where
  directory : Location
  lists : List (List IgnoreRule)

namespace RuleLists

def sources : List Path :=
  [⟨".ignore"⟩, ⟨".gitignore"⟩, ⟨".git/info/exclude"⟩]

def ofDirectory (files : FileSystem) (directory : Location) : RuleLists where
  directory := directory
  lists := sources.map fun source =>
    match files.read (directory.path.join source) with
    | .ok bytes => IgnoreRule.ofBytes bytes
    | .error _ => []

def isEmpty (rules : RuleLists) : Bool := rules.lists.all List.isEmpty

end RuleLists

namespace FileSystem

def ancestors (location : Location) : List Location :=
  (List.range (location.length + 1)).reverse.map location.take

def directoriesBelow (files : FileSystem) (directory : Location) :
    List Location :=
  (files.stored.entries.filter fun stored =>
    directory.isBelow stored.location && stored.entry == .directory).map
      Stored.location

end FileSystem

structure RuleBook where
  rules : List RuleLists

namespace RuleBook

def forWalk (files : FileSystem) (top : Location) : RuleBook :=
  ⟨((FileSystem.ancestors top ++ files.directoriesBelow top).map
    (RuleLists.ofDirectory files)).filter fun rules => !rules.isEmpty⟩

def rulesAt? (book : RuleBook) (directory : Location) : Option RuleLists :=
  book.rules.find? fun rules => rules.directory == directory

def verdictOfKind (book : RuleBook) (location : Location) (isDirectory : Bool)
    (kind : Nat) : Verdict :=
  Verdict.firstOf
    ((FileSystem.ancestors location.dropLast).map fun directory =>
      match book.rulesAt? directory with
      | none => .silent
      | some rules =>
          IgnoreRule.verdictOf ((rules.lists[kind]?).getD [])
            (String.intercalate "/" (location.drop directory.length))
            isDirectory)

def verdict (book : RuleBook) (location : Location) (isDirectory : Bool) :
    Verdict :=
  Verdict.firstOf
    ((List.range RuleLists.sources.length).map
      (book.verdictOfKind location isDirectory))

def isHidden (location : Location) : Bool :=
  location.getLast?.any fun name => name.toList.head? == some '.'

/-- Hidden entries are left out unless a rule admits them. -/
def leavesOut (book : RuleBook) (location : Location) (isDirectory : Bool) :
    Bool :=
  match book.verdict location isDirectory with
  | .ignored => true
  | .admitted => false
  | .silent => isHidden location

/-- A file is reached when neither it nor a directory on the way to it is left
out.  The directory at which the walk starts is never asked about. -/
def reaches (book : RuleBook) (top below : Location) : Bool :=
  !book.leavesOut (top ++ below) false &&
    (List.range below.length).all fun depth =>
      depth == 0 || !book.leavesOut (top ++ below.take depth) true

end RuleBook

namespace FileSystem

def walkBelow (files : FileSystem) (top : Location) : List Location :=
  let book := RuleBook.forWalk files top
  (files.filesBelow top).filter (book.reaches top)

def walk (files : FileSystem) (start : Path) : List Path :=
  match files.locate false start with
  | .ok (_, .file ..) => [start]
  | _ =>
      match files.locate true start with
      | .ok (top, .directory) =>
          (files.walkBelow top).map fun below =>
            start.join ⟨String.intercalate "/" below⟩
      | _ => []

end FileSystem

end CallGraph
