namespace CallGraph

/-! Patterns for paths.  A star matches any text, a question mark one byte, and
two stars between separators any number of directories; characters may be
listed in brackets, and alternatives in braces. -/

structure CharRange where
  first : Char
  last : Char
  deriving DecidableEq, Repr

inductive GlobToken where
  | literal (character : Char)
  | anyByte
  | anyText
  | directoriesBefore
  | anythingBelow
  | directoriesBetween
  | oneOf (negated : Bool) (ranges : List CharRange)
  | alternatives (branches : List (List GlobToken))

inductive GlobFlaw where
  | unclosedClass
  | invalidRange (first last : Char)
  | unopenedGroup
  | unclosedGroup
  | danglingEscape
  deriving DecidableEq, Repr

def GlobFlaw.message : GlobFlaw → String
  | unclosedClass => "unclosed character class; missing ']'"
  | invalidRange first last =>
      String.ofList
        ("invalid range; '".toList ++ first :: "' > '".toList ++ last :: ['\''])
  | unopenedGroup =>
      "unopened alternate group; missing '\x7b' " ++
        "(maybe escape '\x7d' with '[\x7d]'?)"
  | unclosedGroup =>
      "unclosed alternate group; missing '\x7d' " ++
        "(maybe escape '\x7b' with '[\x7b]'?)"
  | danglingEscape => "dangling '\\'"

namespace Glob

def extendRange (ranges : List CharRange) (last : Char) :
    Except GlobFlaw (List CharRange) :=
  match ranges.getLast? with
  | none => .ok [⟨last, last⟩]
  | some range =>
      if last < range.first then .error (.invalidRange range.first last)
      else .ok (ranges.dropLast ++ [⟨range.first, last⟩])

def classMembers (atFront afterDash : Bool) (ranges : List CharRange) :
    List Char → Except GlobFlaw (List CharRange × List Char)
  | [] => .error .unclosedClass
  | character :: rest =>
      if character == ']' && !atFront then
        .ok (if afterDash then ranges ++ [⟨'-', '-'⟩] else ranges, rest)
      else if character == '-' && !atFront && !afterDash then
        classMembers false true ranges rest
      else if afterDash then
        match extendRange ranges character with
        | .error flaw => .error flaw
        | .ok ranges => classMembers false false ranges rest
      else
        classMembers false false (ranges ++ [⟨character, character⟩]) rest

def characterClass (characters : List Char) :
    Except GlobFlaw (GlobToken × List Char) :=
  let (negated, members) :=
    match characters with
    | '!' :: rest => (true, rest)
    | '^' :: rest => (true, rest)
    | _ => (false, characters)
  match classMembers true false [] members with
  | .error flaw => .error flaw
  | .ok (ranges, rest) => .ok (.oneOf negated ranges, rest)

/-- A pattern while it is read: the tokens of the innermost open branch, and for
each open group what stands in front of it and its finished branches. -/
structure OpenGroup where
  front : List GlobToken
  finished : List (List GlobToken)

structure Draft where
  current : List GlobToken
  groups : List OpenGroup
  bracketsClose : Bool

namespace Draft

def empty : Draft := ⟨[], [], true⟩

def push (draft : Draft) (token : GlobToken) : Draft :=
  { draft with current := draft.current ++ [token] }

def inGroup (draft : Draft) : Bool := !draft.groups.isEmpty

def openGroup (draft : Draft) : Draft :=
  { draft with current := [], groups := ⟨draft.current, []⟩ :: draft.groups }

def nextBranch (draft : Draft) : Draft :=
  match draft.groups with
  | [] => draft.push (.literal ',')
  | group :: outer =>
      { draft with
        current := []
        groups := { group with
          finished := group.finished ++ [draft.current] } :: outer }

def closeGroup (draft : Draft) : Except GlobFlaw Draft :=
  match draft.groups with
  | [] => .error .unopenedGroup
  | group :: outer =>
      .ok { draft with
        current := group.front ++
          [.alternatives (group.finished ++ [draft.current])]
        groups := outer }

def replaceSeparator (draft : Draft) (token : GlobToken) : Draft :=
  match draft.current.getLast? with
  | some .directoriesBefore => draft
  | some .anythingBelow => draft
  | _ => { draft with current := draft.current.dropLast ++ [token] }

def pushTwoTexts (draft : Draft) : Draft :=
  (draft.push .anyText).push .anyText

/-- Two stars, by what stands before and behind them.  The answer tells whether
the separator behind them is used up. -/
def pushTwoStars (draft : Draft) (before : Option Char)
    (behind : Option Char) : Draft × Bool :=
  if draft.current.isEmpty then
    if behind == some '/' then (draft.push .directoriesBefore, true)
    else if behind.isNone then (draft.push .directoriesBefore, false)
    else (draft.pushTwoTexts, false)
  else if before != some '/' &&
      (!draft.inGroup || (before != some ',' && before != some '\x7b')) then
    (draft.pushTwoTexts, false)
  else if behind == some '/' then
    (draft.replaceSeparator .directoriesBetween, true)
  else if behind.isNone ||
      (draft.inGroup && (behind == some ',' || behind == some '\x7d')) then
    (draft.replaceSeparator .anythingBelow, false)
  else (draft.pushTwoTexts, false)

end Draft

def read (lenient : Bool) :
    Nat → Option Char → Draft → List Char → Except GlobFlaw Draft
  | _, _, draft, [] => .ok draft
  | 0, _, draft, _ :: _ => .ok draft
  | budget + 1, before, draft, character :: rest =>
      if character == '?' then
        read lenient budget (some character) (draft.push .anyByte) rest
      else if character == '*' then
        match rest with
        | '*' :: rest =>
            match draft.pushTwoStars before rest.head? with
            | (draft, true) =>
                read lenient budget (some '/') draft (rest.drop 1)
            | (draft, false) => read lenient budget (some '*') draft rest
        | _ => read lenient budget (some '*') (draft.push .anyText) rest
      else if character == '[' && draft.bracketsClose then
        match characterClass rest with
        | .ok (token, rest) =>
            read lenient budget (some ']') (draft.push token) rest
        | .error .unclosedClass =>
            if lenient then
              read lenient budget (some '[')
                { draft.push (.literal '[') with bracketsClose := false } rest
            else .error .unclosedClass
        | .error flaw => .error flaw
      else if character == '\x7b' then
        read lenient budget (some character) draft.openGroup rest
      else if character == '\x7d' then
        match draft.closeGroup with
        | .error flaw => .error flaw
        | .ok draft => read lenient budget (some character) draft rest
      else if character == ',' then
        read lenient budget (some character) draft.nextBranch rest
      else if character == '\\' then
        match rest with
        | [] => .error .danglingEscape
        | escaped :: rest =>
            read lenient budget (some escaped) (draft.push (.literal escaped))
              rest
      else
        read lenient budget (some character) (draft.push (.literal character))
          rest

def tokensOf? (lenient : Bool) (text : String) :
    Except GlobFlaw (List GlobToken) :=
  match read lenient (text.length + 1) none Draft.empty text.toList with
  | .error flaw => .error flaw
  | .ok draft =>
      if draft.inGroup then .error .unclosedGroup else .ok draft.current

end Glob

/-- Whether stars and question marks match separators is settled for the whole
pattern. -/
structure Glob where
  tokens : List GlobToken
  crossesSeparators : Bool

namespace Glob

def parse (text : String) : Except GlobFlaw Glob :=
  (tokensOf? false text).map fun tokens => ⟨tokens, true⟩

def parseWithin (text : String) : Except GlobFlaw Glob :=
  (tokensOf? true text).map fun tokens => ⟨tokens, false⟩

end Glob

structure BadGlob where
  text : String
  flaw : GlobFlaw
  deriving DecidableEq, Repr

def BadGlob.message (bad : BadGlob) : String :=
  "error parsing glob '" ++ bad.text ++ "': " ++ bad.flaw.message

end CallGraph
