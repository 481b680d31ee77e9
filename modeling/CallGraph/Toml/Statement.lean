import CallGraph.Toml.Lexeme
import CallGraph.Toml.Value

namespace CallGraph.Toml

/-! Tables while they are put together.  A table comes into being by a heading of
its own, as a parent that a heading implies, or as a parent in a dotted key;
lists of tables grow by one element a heading. -/

inductive Origin where
  | headed
  | implied
  | dotted
  deriving DecidableEq, Repr

inductive Slot where
  | value (value : Toml)
  | table (origin : Origin) (members : List (String × Slot))
  | tables (elements : List (List (String × Slot)))

abbrev Members := List (String × Slot)

def replaceAt (members : Members) (name : String) (slot : Slot) : Members :=
  members.map fun member => if member.1 == name then (name, slot) else member

/-! A change to the table that a way of keys leads to.  Missing tables on the way
are made; a value cannot be entered, nor can a dotted key enter a table with a
heading.  A list of tables is entered at its last element. -/

def alter? (byDots : Bool) (change : Origin → Members → Option Members) :
    List String → Origin → Members → Option Members
  | [], origin, members => change origin members
  | name :: way, _, members =>
      match members.lookup name with
      | none =>
          let origin := if byDots then Origin.dotted else .implied
          (alter? byDots change way origin []).map fun inner =>
            members ++ [(name, .table origin inner)]
      | some (.value _) => none
      | some (.tables elements) =>
          match elements.getLast? with
          | none => none
          | some last =>
              (alter? byDots change way .headed last).map fun inner =>
                replaceAt members name (.tables (elements.dropLast ++ [inner]))
      | some (.table origin inner) =>
          if byDots && origin == .headed then none
          else
            (alter? byDots change way origin inner).map fun inner =>
              replaceAt members name (.table origin inner)

def addNew? (name : String) (slot : Slot) (members : Members) :
    Option Members :=
  if (members.lookup name).isSome then none else some (members ++ [(name, slot)])

def addValue? (key : KeyPath) (value : Toml) (members : Members) :
    Option Members :=
  alter? true (fun origin inner =>
    if key.parents.isEmpty || origin == .dotted then
      addNew? key.name (.value value) inner
    else none) key.parents .headed members

def addHeading? (key : KeyPath) (members : Members) : Option Members :=
  alter? false (fun _ inner =>
    match inner.lookup key.name with
    | none => some (inner ++ [(key.name, .table .headed [])])
    | some (.table .implied old) =>
        some (replaceAt inner key.name (.table .headed old))
    | some _ => none) key.parents .headed members

def addElement? (key : KeyPath) (members : Members) : Option Members :=
  alter? false (fun _ inner =>
    match inner.lookup key.name with
    | none => some (inner ++ [(key.name, .tables [[]])])
    | some (.tables elements) =>
        some (replaceAt inner key.name (.tables (elements ++ [[]])))
    | some _ => none) key.parents .headed members

mutual

def slotValue : Slot → Toml
  | .value value => value
  | .table _ members => .table (memberValues members)
  | .tables elements => .array (elementValues elements)
termination_by structural slot => slot

def memberValue : String × Slot → String × Toml
  | (name, slot) => (name, slotValue slot)
termination_by structural member => member

def memberValues : List (String × Slot) → List (String × Toml)
  | [] => []
  | member :: rest => memberValue member :: memberValues rest
termination_by structural members => members

def elementValues : List (List (String × Slot)) → List Toml
  | [] => []
  | element :: rest => .table (memberValues element) :: elementValues rest
termination_by structural elements => elements

end

def keyword? (word : List Char) (value : Toml) (characters : Rest) :
    Option (Toml × Rest) :=
  if word.isPrefixOf characters then some (value, characters.drop word.length)
  else none

def numeral? (characters : Rest) : Option (Toml × Rest) :=
  match moment? characters with
  | some rest => some (.moment, rest)
  | none =>
      match floatParts? characters with
      | some _ => (float? characters).map fun (value, rest) =>
          (.float value, rest)
      | none =>
          match namedFloat? characters with
          | some (value, rest) => some (.float value, rest)
          | none => (integer? characters).map fun (value, rest) =>
              (.integer value, rest)

mutual

def value? (budget depth : Nat) (characters : Rest) : Option (Toml × Rest) :=
  match budget with
  | 0 => none
  | budget + 1 =>
      match characters with
      | '[' :: rest =>
          if depth + 1 < depthLimit then
            (items? budget (depth + 1) rest).map fun (items, rest) =>
              (.array items, rest)
          else none
      | '\x7b' :: rest =>
          if depth + 1 < depthLimit then
            match skipBlank rest with
            | '\x7d' :: rest => some (.table [], rest)
            | rest => (pairs? budget (depth + 1) [] rest).map
                fun (members, rest) => (.table (memberValues members), rest)
          else none
      | 't' :: _ => keyword? "true".toList (.boolean true) characters
      | 'f' :: _ => keyword? "false".toList (.boolean false) characters
      | character :: _ =>
          if character == '"' || character == '\'' then
            (string? characters).map fun (taken, rest) =>
              (.string (String.ofList taken), rest)
          else numeral? characters
      | [] => none

def items? (budget depth : Nat) (characters : Rest) :
    Option (List Toml × Rest) :=
  match budget with
  | 0 => none
  | budget + 1 =>
      match skipLines? false characters with
      | none => none
      | some (']' :: rest) => some ([], rest)
      | some rest =>
          match value? budget depth rest with
          | none => none
          | some (item, rest) =>
              match skipLines? false rest with
              | some (']' :: rest) => some ([item], rest)
              | some (',' :: rest) =>
                  (items? budget depth rest).map fun (items, rest) =>
                    (item :: items, rest)
              | _ => none

def pairs? (budget depth : Nat) (members : Members) (characters : Rest) :
    Option (Members × Rest) :=
  match budget with
  | 0 => none
  | budget + 1 =>
      match keyPath? characters with
      | some (key, '=' :: rest) =>
          match value? budget depth (skipBlank rest) with
          | none => none
          | some (value, rest) =>
              match addValue? key value members with
              | none => none
              | some members =>
                  match skipBlank rest with
                  | '\x7d' :: rest => some (members, rest)
                  | ',' :: rest => pairs? budget depth members rest
                  | _ => none
      | _ => none

end

inductive Statement where
  | assign (key : KeyPath) (value : Toml)
  | heading (key : KeyPath)
  | element (key : KeyPath)

def assignment? (characters : Rest) : Option (Statement × Rest) :=
  match keyPath? characters with
  | some (key, '=' :: rest) =>
      (value? (rest.length + 1) 0 (skipBlank rest)).map fun (value, rest) =>
        (.assign key value, rest)
  | _ => none

def statement? : Rest → Option (Statement × Rest)
  | '[' :: '[' :: rest =>
      match keyPath? rest with
      | some (key, ']' :: ']' :: rest) => some (.element key, rest)
      | _ => none
  | '[' :: rest =>
      match keyPath? rest with
      | some (key, ']' :: rest) => some (.heading key, rest)
      | _ => none
  | characters => assignment? characters

def statements? : Nat → Rest → Option (List Statement)
  | 0, _ => none
  | budget + 1, characters =>
      match skipBlank characters with
      | [] => some []
      | first :: more =>
          if first == '#' || first == '\n' || first == '\r' then
            match lineEnd? (first :: more) with
            | none => none
            | some rest => statements? budget rest
          else
            match statement? (first :: more) with
            | none => none
            | some (statement, rest) =>
                match lineEnd? rest with
                | none => none
                | some rest =>
                    (statements? budget rest).map (statement :: ·)

/-- Statements take effect in the table of the heading above them. -/
structure Draft where
  root : Members
  heading : List String

def Draft.apply? (draft : Draft) : Statement → Option Draft
  | .assign key value =>
      (alter? false (fun _ inner => addValue? key value inner) draft.heading
        .headed draft.root).map fun root => { draft with root := root }
  | .heading key =>
      (addHeading? key draft.root).map fun root =>
        ⟨root, key.parents ++ [key.name]⟩
  | .element key =>
      (addElement? key draft.root).map fun root =>
        ⟨root, key.parents ++ [key.name]⟩

def withoutMark : Rest → Rest
  | character :: rest =>
      if character.toNat == 0xFEFF then rest else character :: rest
  | [] => []

def parse? (text : String) : Option (List (String × Toml)) := do
  let characters := withoutMark text.toList
  let statements ← statements? (characters.length + 1) characters
  let draft ← statements.foldlM Draft.apply? ⟨[], []⟩
  return memberValues draft.root

end CallGraph.Toml
