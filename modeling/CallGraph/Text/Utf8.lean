namespace CallGraph.Utf8

/-! The bytes of a text.  Arithmetic on code points, so that the ranges of the
lead and continuation bytes can be read off. -/

def encodeChar (character : Char) : List UInt8 :=
  let code := character.toNat
  if code < 0x80 then [UInt8.ofNat code]
  else if code < 0x800 then
    [UInt8.ofNat (0xC0 + code / 0x40), UInt8.ofNat (0x80 + code % 0x40)]
  else if code < 0x10000 then
    [UInt8.ofNat (0xE0 + code / 0x1000),
      UInt8.ofNat (0x80 + code / 0x40 % 0x40), UInt8.ofNat (0x80 + code % 0x40)]
  else
    [UInt8.ofNat (0xF0 + code / 0x40000),
      UInt8.ofNat (0x80 + code / 0x1000 % 0x40),
      UInt8.ofNat (0x80 + code / 0x40 % 0x40), UInt8.ofNat (0x80 + code % 0x40)]

def encodeChars (characters : List Char) : List UInt8 :=
  characters.flatMap encodeChar

def encode (text : String) : List UInt8 := encodeChars text.toList

/-- Why a byte sequence is no text: `malformed` names how many bytes from
`index` on are wrong together, `cutShort` that the input ends inside a
character. -/
inductive Fault where
  | malformed (index length : Nat)
  | cutShort (index : Nat)
  deriving DecidableEq, Repr

def Fault.message : Fault → String
  | .malformed index length =>
      s!"invalid utf-8 sequence of {length} bytes from index {index}"
  | .cutShort index => s!"incomplete utf-8 byte sequence from index {index}"

def isContinuation (byte : UInt8) : Bool := 0x80 ≤ byte && byte ≤ 0xBF

def secondByteFits (lead second : UInt8) : Bool :=
  if lead == 0xE0 then 0xA0 ≤ second && second ≤ 0xBF
  else if lead == 0xED then 0x80 ≤ second && second ≤ 0x9F
  else if lead == 0xF0 then 0x90 ≤ second && second ≤ 0xBF
  else if lead == 0xF4 then 0x80 ≤ second && second ≤ 0x8F
  else isContinuation second

def payload (byte : UInt8) : Nat := byte.toNat % 0x40

def decodeFrom (index : Nat) : List UInt8 → Except Fault (List Char)
  | [] => .ok []
  | lead :: rest =>
      if lead < 0x80 then
        (decodeFrom (index + 1) rest).map (Char.ofNat lead.toNat :: ·)
      else if 0xC2 ≤ lead && lead ≤ 0xDF then
        match rest with
        | [] => .error (.cutShort index)
        | second :: rest =>
            if secondByteFits lead second then
              (decodeFrom (index + 2) rest).map
                (Char.ofNat ((lead.toNat - 0xC0) * 0x40 + payload second) :: ·)
            else .error (.malformed index 1)
      else if 0xE0 ≤ lead && lead ≤ 0xEF then
        match rest with
        | [] => .error (.cutShort index)
        | second :: rest =>
            if secondByteFits lead second then
              match rest with
              | [] => .error (.cutShort index)
              | third :: rest =>
                  if isContinuation third then
                    (decodeFrom (index + 3) rest).map
                      (Char.ofNat ((lead.toNat - 0xE0) * 0x1000 +
                        payload second * 0x40 + payload third) :: ·)
                  else .error (.malformed index 2)
            else .error (.malformed index 1)
      else if 0xF0 ≤ lead && lead ≤ 0xF4 then
        match rest with
        | [] => .error (.cutShort index)
        | second :: rest =>
            if secondByteFits lead second then
              match rest with
              | [] => .error (.cutShort index)
              | third :: rest =>
                  if isContinuation third then
                    match rest with
                    | [] => .error (.cutShort index)
                    | fourth :: rest =>
                        if isContinuation fourth then
                          (decodeFrom (index + 4) rest).map
                            (Char.ofNat ((lead.toNat - 0xF0) * 0x40000 +
                              payload second * 0x1000 + payload third * 0x40 +
                              payload fourth) :: ·)
                        else .error (.malformed index 3)
                  else .error (.malformed index 2)
            else .error (.malformed index 1)
      else .error (.malformed index 1)

def decode (bytes : List UInt8) : Except Fault String :=
  (decodeFrom 0 bytes).map String.ofList

def decode? (bytes : List UInt8) : Option String := (decode bytes).toOption

end CallGraph.Utf8
