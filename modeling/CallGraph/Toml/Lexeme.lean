import CallGraph.Decimal.Binary
import CallGraph.Text.Digits

namespace CallGraph.Toml

/-! The smallest parts of a settings file.  Each reader takes its part from the
front of the characters and hands on the rest. -/

abbrev Rest := List Char

def isBlank (character : Char) : Bool := character == ' ' || character == '\t'

def skipBlank (characters : Rest) : Rest := characters.dropWhile isBlank

def isPrintable (character : Char) : Bool :=
  let code := character.toNat
  code == 9 || (32 ≤ code && code ≤ 126) || 128 ≤ code

def newline? : Rest → Option Rest
  | '\n' :: rest => some rest
  | '\r' :: '\n' :: rest => some rest
  | _ => none

def skipComment : Rest → Rest
  | '#' :: rest => rest.dropWhile isPrintable
  | characters => characters

def lineEnd? (characters : Rest) : Option Rest :=
  match skipComment (skipBlank characters) with
  | [] => some []
  | rest => newline? rest

def skipLines? : Bool → Rest → Option Rest
  | false, '#' :: rest => skipLines? true rest
  | false, '\r' :: '\n' :: rest => skipLines? false rest
  | false, character :: rest =>
      if isBlank character || character == '\n' then skipLines? false rest
      else some (character :: rest)
  | true, '\n' :: rest => skipLines? false rest
  | true, '\r' :: '\n' :: rest => skipLines? false rest
  | true, character :: rest =>
      if isPrintable character then skipLines? true rest else none
  | _, [] => some []

def simpleEscape? (character : Char) : Option Char :=
  if character == '"' || character == '\\' then some character
  else if character == 'b' then some (Char.ofNat 8)
  else if character == 't' then some '\t'
  else if character == 'n' then some '\n'
  else if character == 'f' then some (Char.ofNat 12)
  else if character == 'r' then some '\r'
  else none

def scalar? (digits : List Char) : Option Char :=
  match Text.readDigits? 16 digits with
  | none => none
  | some code =>
      if code < 0xD800 || (0xDFFF < code && code ≤ 0x10FFFF) then
        some (Char.ofNat code)
      else none

def prepend (character : Char) (read : Option (List Char × Rest)) :
    Option (List Char × Rest) :=
  read.map fun (taken, rest) => (character :: taken, rest)

def basicString? : Rest → Option (List Char × Rest)
  | [] => none
  | '"' :: rest => some ([], rest)
  | '\\' :: 'u' :: a :: b :: c :: d :: rest =>
      match scalar? [a, b, c, d] with
      | some character => prepend character (basicString? rest)
      | none => none
  | '\\' :: 'U' :: a :: b :: c :: d :: e :: f :: g :: h :: rest =>
      match scalar? [a, b, c, d, e, f, g, h] with
      | some character => prepend character (basicString? rest)
      | none => none
  | '\\' :: mark :: rest =>
      match simpleEscape? mark with
      | some character => prepend character (basicString? rest)
      | none => none
  | character :: rest =>
      if isPrintable character && character != '\\' then
        prepend character (basicString? rest)
      else none

def literalString? : Rest → Option (List Char × Rest)
  | [] => none
  | '\'' :: rest => some ([], rest)
  | character :: rest =>
      if isPrintable character then prepend character (literalString? rest)
      else none

def isLineBlank (character : Char) : Bool :=
  isBlank character || character == '\n'

def joinLines? (characters : Rest) : Option Rest :=
  match newline? (skipBlank characters) with
  | none => none
  | some rest => some rest

def skipLineBlanks : Rest → Rest
  | '\r' :: '\n' :: rest => skipLineBlanks rest
  | character :: rest =>
      if isLineBlank character then skipLineBlanks rest else character :: rest
  | [] => []

def basicLines? : Nat → Rest → Option (List Char × Rest)
  | 0, _ => none
  | budget + 1, characters =>
      match characters with
      | [] => none
      | '"' :: '"' :: '"' :: '"' :: '"' :: rest => some (['"', '"'], rest)
      | '"' :: '"' :: '"' :: '"' :: rest => some (['"'], rest)
      | '"' :: '"' :: '"' :: rest => some ([], rest)
      | '\r' :: '\n' :: rest => prepend '\n' (basicLines? budget rest)
      | '\\' :: rest =>
          match joinLines? rest with
          | some rest => basicLines? budget (skipLineBlanks rest)
          | none =>
              match rest with
              | 'u' :: a :: b :: c :: d :: rest =>
                  match scalar? [a, b, c, d] with
                  | some character =>
                      prepend character (basicLines? budget rest)
                  | none => none
              | 'U' :: a :: b :: c :: d :: e :: f :: g :: h :: rest =>
                  match scalar? [a, b, c, d, e, f, g, h] with
                  | some character =>
                      prepend character (basicLines? budget rest)
                  | none => none
              | mark :: rest =>
                  match simpleEscape? mark with
                  | some character =>
                      prepend character (basicLines? budget rest)
                  | none => none
              | [] => none
      | character :: rest =>
          if isPrintable character || character == '\n' then
            prepend character (basicLines? budget rest)
          else none

def literalLines? : Rest → Option (List Char × Rest)
  | [] => none
  | '\'' :: '\'' :: '\'' :: '\'' :: '\'' :: rest => some (['\'', '\''], rest)
  | '\'' :: '\'' :: '\'' :: '\'' :: rest => some (['\''], rest)
  | '\'' :: '\'' :: '\'' :: rest => some ([], rest)
  | '\r' :: '\n' :: rest => prepend '\n' (literalLines? rest)
  | character :: rest =>
      if isPrintable character || character == '\n' then
        prepend character (literalLines? rest)
      else none

def dropNewline (characters : Rest) : Rest :=
  (newline? characters).getD characters

def string? : Rest → Option (List Char × Rest)
  | '"' :: '"' :: '"' :: rest =>
      basicLines? (rest.length + 1) (dropNewline rest)
  | '"' :: rest => basicString? rest
  | '\'' :: '\'' :: '\'' :: rest => literalLines? (dropNewline rest)
  | '\'' :: rest => literalString? rest
  | _ => none

def isWord (character : Char) : Bool :=
  character.isAlphanum || character == '-' || character == '_'

def simpleKey? : Rest → Option (String × Rest)
  | '"' :: rest =>
      (basicString? rest).map fun (taken, rest) => (String.ofList taken, rest)
  | '\'' :: rest =>
      (literalString? rest).map fun (taken, rest) => (String.ofList taken, rest)
  | characters =>
      match characters.takeWhile isWord with
      | [] => none
      | taken => some (String.ofList taken, characters.dropWhile isWord)

def depthLimit : Nat := 80

def keyParts? : Nat → Rest → Option (List String × Rest)
  | 0, _ => none
  | budget + 1, characters =>
      match simpleKey? (skipBlank characters) with
      | none => none
      | some (part, rest) =>
          match skipBlank rest with
          | '.' :: rest => (keyParts? budget rest).map fun (parts, rest) =>
              (part :: parts, rest)
          | rest => some ([part], rest)

structure KeyPath where
  parents : List String
  name : String
  deriving DecidableEq, Repr

def keyPath? (characters : Rest) : Option (KeyPath × Rest) :=
  match keyParts? (depthLimit - 1) characters with
  | none => none
  | some (parts, rest) =>
      parts.getLast?.map fun name => (⟨parts.dropLast, name⟩, rest)

def isDigit (character : Char) : Bool := '0' ≤ character && character ≤ '9'

def moreDigits (base : Nat) : Rest → List Char × Rest
  | '_' :: digit :: rest =>
      if (Text.digitValue? base digit).isSome then
        let (taken, rest) := moreDigits base rest
        (digit :: taken, rest)
      else ([], '_' :: digit :: rest)
  | digit :: rest =>
      if (Text.digitValue? base digit).isSome then
        let (taken, rest) := moreDigits base rest
        (digit :: taken, rest)
      else ([], digit :: rest)
  | [] => ([], [])

def digits? (base : Nat) (characters : Rest) : Option (List Char × Rest) :=
  match characters with
  | digit :: rest =>
      if (Text.digitValue? base digit).isSome then
        let (taken, rest) := moreDigits base rest
        some (digit :: taken, rest)
      else none
  | [] => none

def sign (characters : Rest) : Bool × Rest :=
  match characters with
  | '-' :: rest => (true, rest)
  | '+' :: rest => (false, rest)
  | _ => (false, characters)

def whole? (characters : Rest) : Option (List Char × Rest) :=
  match characters with
  | '0' :: rest => some (['0'], rest)
  | _ => digits? 10 characters

def number (digits : List Char) : Nat :=
  (Text.readDigits? 10 digits).getD 0

def exponent? : Rest → Option (Int × Rest)
  | mark :: rest =>
      if mark == 'e' || mark == 'E' then
        let (negative, rest) := sign rest
        (digits? 10 rest).map fun (taken, rest) =>
          (if negative then -(number taken : Int) else number taken, rest)
      else none
  | [] => none

def fraction? : Rest → Option (List Char × Rest)
  | '.' :: rest => digits? 10 rest
  | _ => none

structure FloatParts where
  negative : Bool
  digits : Nat
  exponent : Int

def floatParts? (characters : Rest) : Option (FloatParts × Rest) := do
  let (negative, rest) := sign characters
  let (front, rest) ← whole? rest
  match fraction? rest with
  | some (back, rest) =>
      let (exponent, rest) := (exponent? rest).getD (0, rest)
      return (⟨negative, number (front ++ back), exponent - back.length⟩, rest)
  | none =>
      let (exponent, rest) ← exponent? rest
      return (⟨negative, number front, exponent⟩, rest)

def namedFloat? (characters : Rest) : Option (BinaryNumber × Rest) :=
  let (negative, rest) := sign characters
  match rest with
  | 'i' :: 'n' :: 'f' :: rest => some (.infinite negative, rest)
  | 'n' :: 'a' :: 'n' :: rest => some (.notANumber, rest)
  | _ => none

/-- A positive number that is too large is refused; a negative one becomes
infinite. -/
def float? (characters : Rest) : Option (BinaryNumber × Rest) :=
  match floatParts? characters with
  | some (parts, rest) =>
      let value := BinaryNumber.ofDecimal .double parts.negative parts.digits
        parts.exponent
      if value = .infinite false then none else some (value, rest)
  | none => namedFloat? characters

def fits (value : Int) : Bool :=
  -0x8000000000000000 ≤ value && value < 0x8000000000000000

def based? (base : Nat) (characters : Rest) : Option (Int × Rest) :=
  match digits? base characters with
  | none => none
  | some (taken, rest) =>
      let value : Int := (Text.readDigits? base taken).getD 0
      if fits value then some (value, rest) else none

def integer? (characters : Rest) : Option (Int × Rest) :=
  match characters with
  | '0' :: 'x' :: rest => based? 16 rest
  | '0' :: 'o' :: rest => based? 8 rest
  | '0' :: 'b' :: rest => based? 2 rest
  | _ =>
      let (negative, rest) := sign characters
      match whole? rest with
      | none => none
      | some (taken, rest) =>
          let value : Int :=
            if negative then -(number taken : Int) else number taken
          if fits value then some (value, rest) else none

def twoDigits? (low high : Nat) : Rest → Option (Nat × Rest)
  | first :: second :: rest =>
      if isDigit first && isDigit second then
        let value := number [first, second]
        if low ≤ value && value ≤ high then some (value, rest) else none
      else none
  | _ => none

def mark? (mark : Char) : Rest → Option Rest
  | head :: rest => if head == mark then some rest else none
  | [] => none

def daysIn (year month : Nat) : Nat :=
  if month == 2 then
    if year % 4 == 0 && (year % 100 != 0 || year % 400 == 0) then 29 else 28
  else if month == 4 || month == 6 || month == 9 || month == 11 then 30
  else 31

def date? : Rest → Option Rest
  | a :: b :: c :: d :: rest =>
      if [a, b, c, d].all isDigit then do
        let (month, rest) ← twoDigits? 1 12 (← mark? '-' rest)
        let (day, rest) ← twoDigits? 1 31 (← mark? '-' rest)
        if day ≤ daysIn (number [a, b, c, d]) month then some rest else none
      else none
  | _ => none

def secondFraction (characters : Rest) : Rest :=
  match characters with
  | '.' :: digit :: rest =>
      if isDigit digit then rest.dropWhile isDigit else characters
  | _ => characters

def time? (characters : Rest) : Option Rest := do
  let (_, rest) ← twoDigits? 0 23 characters
  let (_, rest) ← twoDigits? 0 59 (← mark? ':' rest)
  let (_, rest) ← twoDigits? 0 60 (← mark? ':' rest)
  return secondFraction rest

def offset? (characters : Rest) : Option Rest :=
  match characters with
  | 'Z' :: rest => some rest
  | 'z' :: rest => some rest
  | mark :: rest =>
      if mark == '+' || mark == '-' then do
        let (_, rest) ← twoDigits? 0 23 rest
        let (_, rest) ← twoDigits? 0 59 (← mark? ':' rest)
        return rest
      else none
  | [] => none

def timeOfDate? : Rest → Option Rest
  | mark :: rest =>
      if mark == 'T' || mark == 't' || mark == ' ' then
        (time? rest).map fun rest => (offset? rest).getD rest
      else none
  | [] => none

def moment? (characters : Rest) : Option Rest :=
  match date? characters with
  | some rest => some ((timeOfDate? rest).getD rest)
  | none => time? characters

end CallGraph.Toml
