import CallGraph.Json.Value
import CallGraph.Text.Digits

namespace CallGraph.Json

/-! Quotes, backslashes and control characters are escaped; all else stands for
itself. -/

def escapeChar (character : Char) : List Char :=
  if character == '"' then ['\\', '"']
  else if character == '\\' then ['\\', '\\']
  else if character.toNat == 8 then ['\\', 'b']
  else if character.toNat == 9 then ['\\', 't']
  else if character.toNat == 10 then ['\\', 'n']
  else if character.toNat == 12 then ['\\', 'f']
  else if character.toNat == 13 then ['\\', 'r']
  else if character.toNat < 32 then
    ['\\', 'u'] ++ Text.fixedDigits 16 4 character.toNat
  else [character]

def quote (text : String) : List Char :=
  '"' :: text.toList.flatMap escapeChar ++ ['"']

mutual

def compactChars : Json → List Char
  | null => ['n', 'u', 'l', 'l']
  | bool true => ['t', 'r', 'u', 'e']
  | bool false => ['f', 'a', 'l', 's', 'e']
  | number text => text.toList
  | string text => quote text
  | array items => '[' :: compactItems items ++ [']']
  | object members => '{' :: compactMembers members ++ ['}']
termination_by structural value => value

def compactItems : List Json → List Char
  | [] => []
  | item :: rest => compactChars item ++ compactMoreItems rest
termination_by structural items => items

def compactMoreItems : List Json → List Char
  | [] => []
  | item :: rest => ',' :: compactChars item ++ compactMoreItems rest
termination_by structural items => items

def compactMember : String × Json → List Char
  | (name, value) => quote name ++ ':' :: compactChars value
termination_by structural member => member

def compactMembers : List (String × Json) → List Char
  | [] => []
  | member :: rest => compactMember member ++ compactMoreMembers rest
termination_by structural members => members

def compactMoreMembers : List (String × Json) → List Char
  | [] => []
  | member :: rest => ',' :: compactMember member ++ compactMoreMembers rest
termination_by structural members => members

end

def compact (value : Json) : String := String.ofList value.compactChars

def newLine (level : Nat) : List Char := '\n' :: List.replicate (2 * level) ' '

mutual

def prettyChars (level : Nat) : Json → List Char
  | null => ['n', 'u', 'l', 'l']
  | bool true => ['t', 'r', 'u', 'e']
  | bool false => ['f', 'a', 'l', 's', 'e']
  | number text => text.toList
  | string text => quote text
  | array items => '[' :: prettyItems level items ++ [']']
  | object members => '{' :: prettyMembers level members ++ ['}']
termination_by structural value => value

def prettyItems (level : Nat) : List Json → List Char
  | [] => []
  | item :: rest =>
      newLine (level + 1) ++ prettyChars (level + 1) item ++
        prettyMoreItems level rest
termination_by structural items => items

def prettyMoreItems (level : Nat) : List Json → List Char
  | [] => newLine level
  | item :: rest =>
      ',' :: newLine (level + 1) ++ prettyChars (level + 1) item ++
        prettyMoreItems level rest
termination_by structural items => items

def prettyMember (level : Nat) : String × Json → List Char
  | (name, value) => quote name ++ [':', ' '] ++ prettyChars level value
termination_by structural member => member

def prettyMembers (level : Nat) : List (String × Json) → List Char
  | [] => []
  | member :: rest =>
      newLine (level + 1) ++ prettyMember (level + 1) member ++
        prettyMoreMembers level rest
termination_by structural members => members

def prettyMoreMembers (level : Nat) : List (String × Json) → List Char
  | [] => newLine level
  | member :: rest =>
      ',' :: newLine (level + 1) ++ prettyMember (level + 1) member ++
        prettyMoreMembers level rest
termination_by structural members => members

end

def pretty (value : Json) : String := String.ofList (value.prettyChars 0)

def ofNat (number : Nat) : Json := .number (Text.decimal number)

end CallGraph.Json
