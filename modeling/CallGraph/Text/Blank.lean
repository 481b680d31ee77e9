namespace CallGraph.Text

def isBlank (character : Char) : Bool :=
  let code := character.toNat
  (0x9 ≤ code && code ≤ 0xD) || code == 0x20 || code == 0x85 || code == 0xA0 ||
    code == 0x1680 || (0x2000 ≤ code && code ≤ 0x200A) || code == 0x2028 ||
    code == 0x2029 || code == 0x202F || code == 0x205F || code == 0x3000

def trimStart (characters : List Char) : List Char := characters.dropWhile isBlank

def trimEnd (characters : List Char) : List Char :=
  (characters.reverse.dropWhile isBlank).reverse

def trim (text : String) : String :=
  String.ofList (trimEnd (trimStart text.toList))

def compact (text : String) : String :=
  String.ofList (text.toList.filter fun character => !isBlank character)

def splitChars (separator : Char) : List Char → List (List Char)
  | [] => [[]]
  | head :: rest =>
      if head == separator then [] :: splitChars separator rest
      else
        match splitChars separator rest with
        | [] => [[head]]
        | first :: others => (head :: first) :: others

def split (separator : Char) (text : String) : List String :=
  (splitChars separator text.toList).map String.ofList

def cutAt? (mark : List Char) : List Char → Option (List Char × List Char)
  | [] => if mark.isEmpty then some ([], []) else none
  | head :: rest =>
      if mark.isPrefixOf (head :: rest) then
        some ([], (head :: rest).drop mark.length)
      else (cutAt? mark rest).map fun (front, back) => (head :: front, back)

def lastSegment (separator : Char) (text : String) : String :=
  ((split separator text).getLast?).getD text

def startsWith (text start : String) : Bool :=
  start.toList.isPrefixOf text.toList

end CallGraph.Text
