import CallGraph.Glob.Match
import CallGraph.Text.Blank

namespace CallGraph

inductive Verdict where
  | silent
  | ignored
  | admitted
  deriving DecidableEq, Repr

namespace Verdict

def orElse (first second : Verdict) : Verdict :=
  if first = silent then second else first

def firstOf (verdicts : List Verdict) : Verdict :=
  verdicts.foldr orElse silent

end Verdict

structure IgnoreRule where
  glob : Glob
  admits : Bool
  onlyDirectories : Bool

namespace IgnoreRule

def applies (rule : IgnoreRule) (path : String) (isDirectory : Bool) : Bool :=
  (isDirectory || !rule.onlyDirectories) && rule.glob.selects path

def verdict (rule : IgnoreRule) : Verdict :=
  if rule.admits then .admitted else .ignored

def verdictOf (rules : List IgnoreRule) (path : String) (isDirectory : Bool) :
    Verdict :=
  match rules.reverse.find? fun rule => rule.applies path isDirectory with
  | some rule => rule.verdict
  | none => .silent

/-! A rule as it is written on a line.  Blanks at its end do not count unless one
is escaped.  An exclamation mark in front admits, a slash in front ties the rule
to its own directory, and one at the end restricts it to directories. -/

def isComment (line : List Char) : Bool := line.head? == some '#'

def endsInEscapedBlank (line : List Char) : Bool :=
  ['\\', ' '].isSuffixOf line

def trimmed (line : List Char) : List Char :=
  if endsInEscapedBlank line then line else Text.trimEnd line

structure Opened where
  admits : Bool
  isTied : Bool
  body : List Char

def tied (admits : Bool) : List Char → Opened
  | '/' :: body => ⟨admits, true, body⟩
  | body => ⟨admits, false, body⟩

def opened : List Char → Opened
  | '\\' :: '!' :: body => ⟨false, false, '!' :: body⟩
  | '\\' :: '#' :: body => ⟨false, false, '#' :: body⟩
  | '!' :: body => tied true body
  | body => tied false body

structure Closed where
  onlyDirectories : Bool
  body : List Char

def withoutEscape (body : List Char) : List Char :=
  if body.getLast? == some '\\' then body.dropLast else body

def closed (body : List Char) : Closed :=
  if body.getLast? == some '/' then ⟨true, withoutEscape body.dropLast⟩
  else ⟨false, body⟩

/-! A body without a slash holds in every directory below.  Two stars at the end
stand for what is inside a directory, not for the directory itself. -/

def anywhere : List Char := ['*', '*', '/']

def reaching (isTied : Bool) (body : List Char) : List Char :=
  if isTied || body.contains '/' || body == ['*', '*'] then body
  else anywhere ++ body

def inside (body : List Char) : List Char :=
  if ['/', '*', '*'].isSuffixOf body then body ++ ['/', '*'] else body

def pattern (isTied : Bool) (body : List Char) : String :=
  String.ofList (inside (reaching isTied body))

def ofLine? (line : List Char) : Option IgnoreRule :=
  let line := trimmed line
  if line.isEmpty || isComment line then none
  else
    let front := opened line
    let back := closed front.body
    match Glob.parseWithin (pattern front.isTied back.body) with
    | .error _ => none
    | .ok glob => some ⟨glob, front.admits, back.onlyDirectories⟩

def lineFeed : UInt8 := 0x0A

def carriageReturn : UInt8 := 0x0D

def cutLines : Bytes → List Bytes
  | [] => [[]]
  | byte :: rest =>
      match cutLines rest with
      | [] => [[byte]]
      | line :: others =>
          if byte == lineFeed then [] :: line :: others
          else (byte :: line) :: others

def withoutReturn (line : Bytes) : Bytes :=
  if line.getLast? == some carriageReturn then line.dropLast else line

def lines (bytes : Bytes) : List Bytes :=
  let pieces := cutLines bytes
  pieces.dropLast.map withoutReturn ++ (pieces.getLast?).toList

def texts : List Bytes → List (List Char)
  | [] => []
  | line :: rest =>
      match Utf8.decode? line with
      | none => []
      | some text => text.toList :: texts rest

def byteOrderMark : Char := Char.ofNat 0xFEFF

def withoutMarks : List (List Char) → List (List Char)
  | [] => []
  | line :: rest => line.dropWhile (· == byteOrderMark) :: rest

def ofBytes (bytes : Bytes) : List IgnoreRule :=
  (withoutMarks (texts (lines bytes))).filterMap ofLine?

end IgnoreRule

end CallGraph
