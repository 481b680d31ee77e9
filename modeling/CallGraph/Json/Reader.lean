import CallGraph.Json.Value
import CallGraph.Text.Digits

namespace CallGraph.Json

abbrev Rest := List Char

def isBlank (character : Char) : Bool :=
  character == ' ' || character == '\n' || character == '\t' ||
    character == '\r'

def skipBlank (characters : Rest) : Rest := characters.dropWhile isBlank

def isDigit (character : Char) : Bool := '0' ≤ character && character ≤ '9'

def digits? (characters : Rest) : Option (List Char × Rest) :=
  match characters.takeWhile isDigit with
  | [] => none
  | taken => some (taken, characters.dropWhile isDigit)

def integerPart? (characters : Rest) : Option (List Char × Rest) :=
  match characters with
  | '0' :: rest => some (['0'], rest)
  | _ => digits? characters

def fraction? (characters : Rest) : Option (List Char × Rest) :=
  match characters with
  | '.' :: rest => (digits? rest).map fun (taken, rest) => ('.' :: taken, rest)
  | _ => some ([], characters)

def exponentSign (characters : Rest) : List Char × Rest :=
  match characters with
  | '+' :: rest => (['+'], rest)
  | '-' :: rest => (['-'], rest)
  | _ => ([], characters)

def exponent? (characters : Rest) : Option (List Char × Rest) :=
  match characters with
  | mark :: rest =>
      if mark == 'e' || mark == 'E' then
        let (sign, rest) := exponentSign rest
        (digits? rest).map fun (taken, rest) => (mark :: sign ++ taken, rest)
      else some ([], characters)
  | [] => some ([], [])

def number? (characters : Rest) : Option (List Char × Rest) := do
  let (sign, characters) :=
    match characters with
    | '-' :: rest => (['-'], rest)
    | _ => ([], characters)
  let (whole, characters) ← integerPart? characters
  let (fraction, characters) ← fraction? characters
  let (exponent, characters) ← exponent? characters
  return (sign ++ whole ++ fraction ++ exponent, characters)

def simpleEscape? (character : Char) : Option Char :=
  if character == '"' || character == '\\' || character == '/' then
    some character
  else if character == 'b' then some (Char.ofNat 8)
  else if character == 't' then some '\t'
  else if character == 'n' then some '\n'
  else if character == 'f' then some (Char.ofNat 12)
  else if character == 'r' then some '\r'
  else none

def isHighSurrogate (code : Nat) : Bool := 0xD800 ≤ code && code ≤ 0xDBFF

def isLowSurrogate (code : Nat) : Bool := 0xDC00 ≤ code && code ≤ 0xDFFF

def stringChars? : Rest → Option (List Char × Rest)
  | [] => none
  | '"' :: rest => some ([], rest)
  | '\\' :: 'u' :: a :: b :: c :: d :: rest =>
      match Text.readDigits? 16 [a, b, c, d] with
      | none => none
      | some code =>
          if isHighSurrogate code then
            match rest with
            | '\\' :: 'u' :: e :: f :: g :: h :: rest =>
                match Text.readDigits? 16 [e, f, g, h] with
                | none => none
                | some low =>
                    if isLowSurrogate low then
                      (stringChars? rest).map fun (taken, rest) =>
                        (Char.ofNat (0x10000 + (code - 0xD800) * 0x400 +
                          (low - 0xDC00)) :: taken, rest)
                    else none
            | _ => none
          else if isLowSurrogate code then none
          else (stringChars? rest).map fun (taken, rest) =>
            (Char.ofNat code :: taken, rest)
  | '\\' :: mark :: rest =>
      match simpleEscape? mark with
      | none => none
      | some character =>
          (stringChars? rest).map fun (taken, rest) => (character :: taken, rest)
  | character :: rest =>
      if character.toNat < 32 || character == '\\' then none
      else (stringChars? rest).map fun (taken, rest) => (character :: taken, rest)

def name? (characters : Rest) : Option (String × Rest) :=
  match characters with
  | '"' :: rest =>
      (stringChars? rest).map fun (taken, rest) => (String.ofList taken, rest)
  | _ => none

def literal? (word : List Char) (value : Json) (characters : Rest) :
    Option (Json × Rest) :=
  if word.isPrefixOf characters then some (value, characters.drop word.length)
  else none

mutual

def value? : Nat → Rest → Option (Json × Rest)
  | 0, _ => none
  | budget + 1, characters =>
      match skipBlank characters with
      | '{' :: rest =>
          match skipBlank rest with
          | '}' :: rest => some (.object [], rest)
          | rest => (members? budget rest).map fun (members, rest) =>
              (.object members, rest)
      | '[' :: rest =>
          match skipBlank rest with
          | ']' :: rest => some (.array [], rest)
          | rest => (items? budget rest).map fun (items, rest) =>
              (.array items, rest)
      | '"' :: rest =>
          (stringChars? rest).map fun (taken, rest) =>
            (.string (String.ofList taken), rest)
      | 'n' :: rest => literal? ['u', 'l', 'l'] .null rest
      | 't' :: rest => literal? ['r', 'u', 'e'] (.bool true) rest
      | 'f' :: rest => literal? ['a', 'l', 's', 'e'] (.bool false) rest
      | rest => (number? rest).map fun (taken, rest) =>
          (.number (String.ofList taken), rest)

def items? : Nat → Rest → Option (List Json × Rest)
  | 0, _ => none
  | budget + 1, characters =>
      match value? budget characters with
      | none => none
      | some (item, rest) =>
          match skipBlank rest with
          | ']' :: rest => some ([item], rest)
          | ',' :: rest => (items? budget rest).map fun (items, rest) =>
              (item :: items, rest)
          | _ => none

def members? : Nat → Rest → Option (List (String × Json) × Rest)
  | 0, _ => none
  | budget + 1, characters =>
      match name? (skipBlank characters) with
      | none => none
      | some (name, rest) =>
          match skipBlank rest with
          | ':' :: rest =>
              match value? budget rest with
              | none => none
              | some (value, rest) =>
                  match skipBlank rest with
                  | '}' :: rest => some ([(name, value)], rest)
                  | ',' :: rest => (members? budget rest).map
                      fun (members, rest) => ((name, value) :: members, rest)
                  | _ => none
          | _ => none

end

def parse? (text : String) : Option Json :=
  match value? (2 * text.length + 2) text.toList with
  | some (value, rest) => if (skipBlank rest).isEmpty then some value else none
  | none => none

def word? : Json → Option UInt64
  | number text =>
      if text.toList.all isDigit then do
        let value ← Text.readDigits? 10 text.toList
        if value < UInt64.size then some (UInt64.ofNat value) else none
      else none
  | _ => none

def string? : Json → Option String
  | string text => some text
  | _ => none

end CallGraph.Json
