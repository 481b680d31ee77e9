import CallGraph.Glob.Pattern
import CallGraph.Text.Utf8

namespace CallGraph

/-! Matching goes byte by byte.  Each token is asked whether it matches in front
of the bytes so that what is left fits the rest of the pattern. -/

abbrev Bytes := List UInt8

def separatorByte : UInt8 := 0x2F

namespace Glob

def atAnyRest (fits : Bytes → Bool) : Bytes → Bool
  | [] => fits []
  | byte :: rest => fits (byte :: rest) || atAnyRest fits rest

def atRestWithin (fits : Bytes → Bool) : Bytes → Bool
  | [] => fits []
  | byte :: rest =>
      fits (byte :: rest) || (byte != separatorByte && atRestWithin fits rest)

def behindAnySeparator (fits : Bytes → Bool) : Bytes → Bool
  | [] => false
  | byte :: rest =>
      (byte == separatorByte && fits rest) || behindAnySeparator fits rest

def behindSeparator (fits : Bytes → Bool) : Bytes → Bool
  | [] => false
  | byte :: rest => byte == separatorByte && fits rest

def behindText (text : Bytes) (fits : Bytes → Bool) (bytes : Bytes) : Bool :=
  text.isPrefixOf bytes && fits (bytes.drop text.length)

/-- A bracket holds single bytes: a character beyond ASCII stands for each of its
own, and a range runs from the last byte of one end to the first byte of the
other. -/
structure ByteRange where
  first : UInt8
  last : UInt8

def single (byte : UInt8) : ByteRange := ⟨byte, byte⟩

def byteRanges (range : CharRange) : List ByteRange :=
  let first := Utf8.encodeChar range.first
  let last := Utf8.encodeChar range.last
  if range.first = range.last then first.map single
  else
    first.dropLast.map single ++
      [⟨(first.getLast?).getD 0, (last.head?).getD 0⟩] ++
        (last.drop 1).map single

def holds (ranges : List CharRange) (byte : UInt8) : Bool :=
  (ranges.flatMap byteRanges).any fun range =>
    range.first ≤ byte && byte ≤ range.last

def behindByte (accepts : UInt8 → Bool) (fits : Bytes → Bool) : Bytes → Bool
  | [] => false
  | byte :: rest => accepts byte && fits rest

mutual

def isSilent : GlobToken → Bool
  | .alternatives branches => areSilentBranches branches
  | _ => false
termination_by structural token => token

def areSilent : List GlobToken → Bool
  | [] => true
  | token :: rest => isSilent token && areSilent rest
termination_by structural tokens => tokens

def areSilentBranches : List (List GlobToken) → Bool
  | [] => true
  | branch :: rest => areSilent branch && areSilentBranches rest
termination_by structural branches => branches

end

mutual

def tokenFits (crosses : Bool) (fits : Bytes → Bool) (bytes : Bytes) :
    GlobToken → Bool
  | .literal character => behindText (Utf8.encodeChar character) fits bytes
  | .anyByte =>
      behindByte (fun byte => crosses || byte != separatorByte) fits bytes
  | .anyText =>
      if crosses then atAnyRest fits bytes else atRestWithin fits bytes
  | .directoriesBefore => fits bytes || behindAnySeparator fits bytes
  | .anythingBelow => behindSeparator (atAnyRest fits) bytes
  | .directoriesBetween =>
      behindSeparator (fun rest => fits rest || behindAnySeparator fits rest)
        bytes
  | .oneOf negated ranges =>
      behindByte (fun byte => holds ranges byte != negated) fits bytes
  | .alternatives branches =>
      if areSilentBranches branches then fits bytes
      else anyBranchFits crosses fits bytes branches
termination_by structural token => token

def tokensFit (crosses : Bool) (fits : Bytes → Bool) (bytes : Bytes) :
    List GlobToken → Bool
  | [] => fits bytes
  | token :: rest =>
      tokenFits crosses (fun left => tokensFit crosses fits left rest) bytes token
termination_by structural tokens => tokens

def anyBranchFits (crosses : Bool) (fits : Bytes → Bool) (bytes : Bytes) :
    List (List GlobToken) → Bool
  | [] => false
  | branch :: rest =>
      (!areSilent branch && tokensFit crosses fits bytes branch) ||
        anyBranchFits crosses fits bytes rest
termination_by structural branches => branches

end

def isLiteral : GlobToken → Bool
  | .literal _ => true
  | _ => false

def isSeparator : GlobToken → Bool
  | .literal character => character == '/'
  | _ => false

def isDot : GlobToken → Bool
  | .literal character => character == '.'
  | _ => false

def withoutDirectories : List GlobToken → List GlobToken
  | .directoriesBefore :: rest => rest
  | tokens => tokens

def isNamePattern : List GlobToken → Bool
  | .directoriesBefore :: name =>
      !name.isEmpty && name.all fun token =>
        isLiteral token && !isSeparator token
  | _ => false

def isSuffixPattern (crosses : Bool) (tokens : List GlobToken) : Bool :=
  match withoutDirectories tokens with
  | .anyText :: rest => crosses && rest.all isLiteral && 1 < rest.length
  | rest => rest.all isLiteral

def needsName (glob : Glob) : Bool :=
  (glob.tokens.getLast?).any isDot &&
    (isNamePattern glob.tokens ||
      !isSuffixPattern glob.crossesSeparators glob.tokens)

def endsInDot (bytes : Bytes) : Bool := bytes.getLast? == some 0x2E

def matchesBytes (glob : Glob) (bytes : Bytes) : Bool :=
  match glob.tokens with
  | [.directoriesBefore] => true
  | tokens =>
      !(glob.needsName && endsInDot bytes) &&
        tokensFit glob.crossesSeparators List.isEmpty bytes tokens

def selects (glob : Glob) (path : String) : Bool :=
  glob.matchesBytes (Utf8.encode path)

end Glob

end CallGraph
