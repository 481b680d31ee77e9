import CallGraph.Text.Blank

namespace CallGraph.CommandLine

structure Switch where
  name : String
  letter : Option Char
  takesValue : Bool
  repeats : Bool
  deriving DecidableEq, Repr

namespace Switch

def flag (name : String) (letter : Option Char) : Switch :=
  ⟨name, letter, false, false⟩

def value (name : String) (letter : Option Char) : Switch :=
  ⟨name, letter, true, false⟩

def values (name : String) : Switch := ⟨name, none, true, true⟩

end Switch

structure Setting where
  switch : Switch
  value : String
  deriving DecidableEq, Repr

structure Reading where
  settings : List Setting
  waiting : Option Switch
  deriving DecidableEq, Repr

def single (switch : Switch) (value : List Char) : Reading :=
  ⟨[⟨switch, String.ofList value⟩], none⟩

def isBare (word : String) : Bool :=
  word.toList.head? != some '-' || word == "-"

def endMark : String := "--"

def readName (switches : List Switch) (body : List Char) : Option Reading :=
  let (name, value?) :=
    match Text.cutAt? ['='] body with
    | some (name, value) => (name, some value)
    | none => (body, none)
  match switches.find? fun switch => switch.name == String.ofList name with
  | none => none
  | some switch =>
      match value? with
      | some value => if switch.takesValue then some (single switch value) else none
      | none =>
          if switch.takesValue then some ⟨[], some switch⟩
          else some (single switch [])

def readLetters (switches : List Switch) : List Char → Option Reading
  | [] => some ⟨[], none⟩
  | letter :: rest =>
      match switches.find? fun switch => switch.letter == some letter with
      | none => none
      | some switch =>
          if switch.takesValue then
            match rest with
            | [] => some ⟨[], some switch⟩
            | '=' :: value => some (single switch value)
            | value => some (single switch value)
          else
            (readLetters switches rest).map fun reading =>
              { reading with
                settings := ⟨switch, ""⟩ :: reading.settings }

def readWord (switches : List Switch) (word : String) : Option Reading :=
  match word.toList with
  | '-' :: '-' :: body => readName switches body
  | '-' :: letters => readLetters switches letters
  | _ => none

/-- All switches up to the first word that is none, with what is left. -/
structure Scanned where
  settings : List Setting
  rest : List String
  deriving DecidableEq, Repr

namespace Scanned

def behind (settings : List Setting) (scanned : Scanned) : Scanned :=
  { scanned with settings := settings ++ scanned.settings }

def all (scanned : Scanned) (name : String) : List String :=
  (scanned.settings.filter fun setting => setting.switch.name == name).map
    Setting.value

def first? (scanned : Scanned) (name : String) : Option String :=
  (scanned.all name).head?

def has (scanned : Scanned) (name : String) : Bool :=
  (scanned.first? name).isSome

def isRepeated (scanned : Scanned) (setting : Setting) : Bool :=
  !setting.switch.repeats && 1 < (scanned.all setting.switch.name).length

def isLawful (scanned : Scanned) : Bool :=
  !scanned.settings.any scanned.isRepeated

end Scanned

def scanFrom (switches : List Switch) :
    Option Switch → List String → Option Scanned
  | none, [] => some ⟨[], []⟩
  | some _, [] => none
  | some switch, word :: rest =>
      if isBare word then
        (scanFrom switches none rest).map (Scanned.behind [⟨switch, word⟩])
      else none
  | none, word :: rest =>
      if isBare word || word == endMark then some ⟨[], word :: rest⟩
      else
        match readWord switches word with
        | none => none
        | some reading =>
            (scanFrom switches reading.waiting rest).map
              (Scanned.behind reading.settings)

def scan (switches : List Switch) (words : List String) : Option Scanned :=
  (scanFrom switches none words).filter Scanned.isLawful

end CallGraph.CommandLine
