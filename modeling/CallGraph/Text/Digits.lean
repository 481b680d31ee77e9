namespace CallGraph.Text

def digitChar (digit : Nat) : Char :=
  if digit < 10 then Char.ofNat (48 + digit) else Char.ofNat (87 + digit)

def digitValue? (base : Nat) (character : Char) : Option Nat :=
  let code := character.toNat
  let value :=
    if 48 ≤ code && code ≤ 57 then code - 48
    else if 97 ≤ code && code ≤ 122 then code - 87
    else if 65 ≤ code && code ≤ 90 then code - 55
    else base
  if value < base then some value else none

def fixedDigits (base : Nat) : Nat → Nat → List Char
  | 0, _ => []
  | width + 1, number =>
      fixedDigits base width (number / base) ++ [digitChar (number % base)]

def decimalDigits (number : Nat) : List Char :=
  if number < 10 then [digitChar number]
  else decimalDigits (number / 10) ++ [digitChar (number % 10)]
termination_by number

def decimal (number : Nat) : String := String.ofList (decimalDigits number)

def readDigits? (base : Nat) (characters : List Char) : Option Nat :=
  characters.foldl (fun total? character => do
    let total ← total?
    let digit ← digitValue? base character
    return total * base + digit) (some 0)

def hexWord (word : UInt64) : String :=
  String.ofList (fixedDigits 16 16 word.toNat)

def hexBytes (bytes : List UInt8) : String :=
  String.ofList (bytes.flatMap fun byte => fixedDigits 16 2 byte.toNat)

def readHexPairs? : List Char → Option (List UInt8)
  | [] => some []
  | [_] => none
  | high :: low :: rest => do
      let byte ← readDigits? 16 [high, low]
      return UInt8.ofNat byte :: (← readHexPairs? rest)

def readHexBytes? (text : String) : Option (List UInt8) :=
  readHexPairs? text.toList

end CallGraph.Text
