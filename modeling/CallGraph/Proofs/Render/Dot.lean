import Mathlib.Data.List.Basic
import CallGraph.Proofs.Text.Digits
import CallGraph.Render.Dot

namespace CallGraph.Render

/-! A drawing is read back: as the statements that it is made of, in order. -/

/-- A node has the texts of its coordinates, if it has a position. -/
inductive Statement where
  | node (id : MethodId) (signature : String)
      (pinned : Option (List Char × List Char))
  | call (caller callee : MethodId)
  deriving DecidableEq

def pinText (pinned : List Char × List Char) : List Char :=
  pinned.1 ++ ',' :: pinned.2 ++ ['!']

namespace Statement

def line : Statement → List Char
  | node id signature pinned =>
      "    ".toList ++ quoted (nodeName id) ++ " [label=".toList ++
        quoted (escapeLabel signature.toList) ++
          (pinned.map fun pinned =>
            ", pos=".toList ++ quoted (pinText pinned)).getD [] ++
              "];\n".toList
  | call caller callee =>
      "    ".toList ++ quoted (nodeName caller) ++ " -> ".toList ++
        quoted (nodeName callee) ++ ";\n".toList

def isNode : Statement → Bool
  | node .. => true
  | call .. => false

def ofNode (shown : GraphNode) : Statement :=
  node shown.method.id shown.method.signature
    (shown.position.map fun position =>
      (drawingNumeral position.x, drawingNumeral position.y))

def ofLink (link : GraphNode × GraphNode) : Statement :=
  call link.1.method.id link.2.method.id

def ofGraph (graph : Graph) : List Statement :=
  graph.nodes.map ofNode ++ graph.linkedNodes.map ofLink

theorem line_ofNode (shown : GraphNode) :
    (ofNode shown).line = nodeLine shown := by
  obtain ⟨method, position⟩ := shown
  unfold ofNode line nodeLine
  cases position with
  | none => rfl
  | some position => rfl

theorem line_ofLink (link : GraphNode × GraphNode) :
    (ofLink link).line = linkLine link := rfl

theorem filter_isNode_ofGraph (graph : Graph) :
    (ofGraph graph).filter isNode = graph.nodes.map ofNode ∧
      (ofGraph graph).filter (fun statement => !statement.isNode) =
        graph.linkedNodes.map ofLink := by
  have hnodes : ∀ statement ∈ graph.nodes.map ofNode,
      statement.isNode = true := by
    intro statement hstatement
    obtain ⟨shown, -, rfl⟩ := List.mem_map.mp hstatement
    rfl
  have hcalls : ∀ statement ∈ graph.linkedNodes.map ofLink,
      statement.isNode = false := by
    intro statement hstatement
    obtain ⟨link, -, rfl⟩ := List.mem_map.mp hstatement
    rfl
  unfold ofGraph
  rw [List.filter_append, List.filter_append, List.filter_eq_self.mpr hnodes,
    List.filter_eq_nil_iff.mpr fun statement hmem => by simp [hcalls _ hmem],
    List.filter_eq_nil_iff.mpr fun statement hmem => by simp [hnodes _ hmem],
    List.filter_eq_self.mpr fun statement hmem => by simp [hcalls _ hmem]]
  exact ⟨List.append_nil _, List.nil_append _⟩

end Statement

def dotClosing : List Char := "\x7d\n".toList

theorem dotChars_eq (graph : Graph) :
    dotChars graph = dotOpening ++
      ((Statement.ofGraph graph).flatMap Statement.line ++ dotClosing) := by
  unfold dotChars Statement.ofGraph dotClosing
  rw [List.flatMap_append, List.flatMap_map, List.flatMap_map]
  simp only [Statement.line_ofNode, Statement.line_ofLink, List.append_assoc]

def replaceChar (wanted : Char) (replacement text : List Char) : List Char :=
  text.flatMap fun character =>
    if character == wanted then replacement else [character]

theorem escapeLabel_eq_replaceChar (label : List Char) :
    escapeLabel label =
      replaceChar '"' ['\\', '"'] (replaceChar '\\' ['\\', '\\'] label) := by
  unfold escapeLabel replaceChar
  rw [List.flatMap_assoc]
  refine List.flatMap_congr fun character _ => ?_
  unfold escapeLabelChar
  split
  · rfl
  · rw [List.flatMap_singleton]

theorem escapeLabel_of_plain {label : List Char}
    (hplain : ∀ character ∈ label, character ≠ '\\' ∧ character ≠ '"') :
    escapeLabel label = label := by
  have hself : ∀ character ∈ label, escapeLabelChar character = [character] := by
    intro character hcharacter
    obtain ⟨hbackslash, hquote⟩ := hplain character hcharacter
    simp [escapeLabelChar, hbackslash, hquote]
  unfold escapeLabel
  rw [List.flatMap_congr hself, List.flatMap_singleton']

/-- The text up to the first quote without a backslash in front of it.  A
backslash stands for the character behind it. -/
def readLabel? : List Char → Option (List Char × List Char)
  | [] => none
  | '"' :: rest => some ([], rest)
  | '\\' :: escaped :: rest =>
      (readLabel? rest).map fun (label, rest) => (escaped :: label, rest)
  | character :: rest =>
      (readLabel? rest).map fun (label, rest) => (character :: label, rest)

theorem readLabel?_escapeLabel (label rest : List Char) :
    readLabel? (escapeLabel label ++ '"' :: rest) = some (label, rest) := by
  induction label with
  | nil => rfl
  | cons first label ih =>
      have hlabel : escapeLabel (first :: label) =
          escapeLabelChar first ++ escapeLabel label := rfl
      rw [hlabel, List.append_assoc]
      unfold escapeLabelChar
      split
      · rename_i hbackslash
        rw [eq_of_beq hbackslash]
        simp [readLabel?, ih]
      · rename_i hbackslash
        split
        · rename_i hquote
          rw [eq_of_beq hquote]
          simp [readLabel?, ih]
        · rename_i hquote
          rw [List.singleton_append, readLabel?, ih]
          · rfl
          · simpa using hquote
          · intro escaped rest' hfirst
            simp [hfirst] at hbackslash

def readQuoted? (mark characters : List Char) :
    Option (List Char × List Char) :=
  match characters.dropPrefix? mark with
  | some ('"' :: rest) => readLabel? rest
  | _ => none

def readId? (name : List Char) : Option MethodId :=
  (Text.readDigits? 16 name).map fun number => ⟨UInt64.ofNat number⟩

def readPin? (text : List Char) : Option (List Char × List Char) :=
  let x := text.takeWhile (· != ',')
  let y := (text.drop (x.length + 1)).takeWhile (· != '!')
  if pinText (x, y) = text then some (x, y) else none

def readPinned? (characters : List Char) :
    Option (Option (List Char × List Char) × List Char) :=
  if characters.head? = some ',' then do
    let (text, rest) ← readQuoted? ", pos=".toList characters
    let pinned ← readPin? text
    return (some pinned, rest)
  else some (none, characters)

def readStatement? (characters : List Char) :
    Option (Statement × List Char) := do
  let (name, rest) ← readQuoted? "    ".toList characters
  let id ← readId? name
  match readQuoted? " -> ".toList rest with
  | some (name, rest) =>
      let callee ← readId? name
      let rest ← rest.dropPrefix? ";\n".toList
      return (.call id callee, rest)
  | none =>
      let (label, rest) ← readQuoted? " [label=".toList rest
      let (pinned, rest) ← readPinned? rest
      let rest ← rest.dropPrefix? "];\n".toList
      return (.node id (String.ofList label) pinned, rest)

def readStatements? : Nat → List Char → Option (List Statement)
  | 0, characters => if characters = dotClosing then some [] else none
  | budget + 1, characters =>
      if characters = dotClosing then some []
      else do
        let (statement, rest) ← readStatement? characters
        let statements ← readStatements? budget rest
        return statement :: statements

/-- Every statement takes a character at least, so that the number of them is
budget enough. -/
def readDot? (text : String) : Option (List Statement) := do
  let rest ← text.toList.dropPrefix? dotOpening
  readStatements? rest.length rest

theorem dropPrefix?_append (mark rest : List Char) :
    (mark ++ rest).dropPrefix? mark = some rest :=
  List.dropPrefix?_eq_some_iff.mpr ⟨mark, rfl, BEq.rfl⟩

theorem readQuoted?_append (mark label rest : List Char) :
    readQuoted? mark (mark ++ (quoted (escapeLabel label) ++ rest)) =
      some (label, rest) := by
  unfold readQuoted? quoted
  rw [dropPrefix?_append]
  change readLabel? (escapeLabel label ++ ['"'] ++ rest) = _
  rw [List.append_assoc]
  exact readLabel?_escapeLabel label rest

theorem digitChar_plain : ∀ digit < 16, Text.digitChar digit ∉
    ['\\', '"', ',', '!'] := by
  decide

theorem escapeLabel_nodeName (id : MethodId) :
    escapeLabel (nodeName id) = nodeName id := by
  refine escapeLabel_of_plain fun character hcharacter => ?_
  unfold nodeName Text.hexWord at hcharacter
  rw [String.toList_ofList] at hcharacter
  obtain ⟨digit, hdigit, rfl⟩ := Text.mem_fixedDigits (by decide) hcharacter
  have hplain := digitChar_plain digit hdigit
  simp only [List.mem_cons, not_or] at hplain
  exact ⟨hplain.1, hplain.2.1⟩

theorem readId?_nodeName (id : MethodId) :
    readId? (nodeName id) = some id := by
  have hsmall : id.word.toNat < Nat.pow 16 16 := id.word.toNat_lt
  unfold readId? nodeName Text.hexWord
  rw [String.toList_ofList, Text.readDigits?_fixedDigits,
    Nat.mod_eq_of_lt hsmall]
  simp

def IsUnmarked (numeral : List Char) : Prop :=
  ∀ character ∈ numeral, character ∉ ['\\', '"', ',', '!']

theorem mem_spellPlain {style : NumeralStyle} {digits : List Char}
    {point : Int} {character : Char}
    (hmem : character ∈ style.spellPlain digits point) :
    character = '0' ∨ character = '.' ∨ character ∈ digits := by
  have hzeros : ∀ count, character ∈ NumeralStyle.zeros count →
      character = '0' := fun _ hzero => List.eq_of_mem_replicate hzero
  unfold NumeralStyle.spellPlain at hmem
  split at hmem
  · simp only [List.mem_append, List.mem_cons, List.not_mem_nil, or_false]
      at hmem
    rcases hmem with ((hzero | hpoint) | hzero) | hdigit
    · exact Or.inl hzero
    · exact Or.inr (Or.inl hpoint)
    · exact Or.inl (hzeros _ hzero)
    · exact Or.inr (Or.inr hdigit)
  · split at hmem
    · rcases List.mem_append.mp hmem with hfront | hback
      · exact Or.inr (Or.inr (List.mem_of_mem_take hfront))
      · rcases List.mem_cons.mp hback with hpoint | hback
        · exact Or.inr (Or.inl hpoint)
        · exact Or.inr (Or.inr (List.mem_of_mem_drop hback))
    · rcases List.mem_append.mp hmem with hfront | hpoint
      · rcases List.mem_append.mp hfront with hdigit | hzero
        · exact Or.inr (Or.inr hdigit)
        · exact Or.inl (hzeros _ hzero)
      · split at hpoint
        · simp only [List.mem_cons, List.not_mem_nil, or_false] at hpoint
          exact hpoint.symm.imp_right Or.inl
        · cases hpoint

theorem drawingNumeral_isUnmarked (value : Float32) :
    IsUnmarked (drawingNumeral value) := by
  unfold drawingNumeral
  split
  · simp [IsUnmarked]
  · simp [IsUnmarked]
  · simp [IsUnmarked]
  · rename_i negative significand exponent _
    intro character hmem
    unfold NumeralStyle.spellFinite at hmem
    rcases List.mem_append.mp hmem with hsign | hmem
    · split at hsign
      · rw [List.mem_singleton.mp hsign]
        decide
      · cases hsign
    · unfold NumeralStyle.spellDecimal at hmem
      split at hmem
      · rw [List.mem_singleton.mp hmem]
        decide
      · rcases mem_spellPlain hmem with rfl | rfl | hdigit
        · decide
        · decide
        · obtain ⟨digit, hsmall, rfl⟩ := Text.mem_decimalDigits hdigit
          exact digitChar_plain digit (Nat.lt_trans hsmall (by decide))

section Pinned

variable {pinned : List Char × List Char} (hx : IsUnmarked pinned.1)
  (hy : IsUnmarked pinned.2)
include hx hy

theorem escapeLabel_pinText : escapeLabel (pinText pinned) = pinText pinned := by
  refine escapeLabel_of_plain fun character hmem => ?_
  have hmarks : character ∉ ['\\', '"'] := by
    simp only [pinText, List.mem_append, List.mem_cons, List.not_mem_nil,
      or_false] at hmem
    rcases hmem with (hmem | rfl | hmem) | rfl
    · exact fun hmark => hx _ hmem (List.mem_append_left [',', '!'] hmark)
    · decide
    · exact fun hmark => hy _ hmem (List.mem_append_left [',', '!'] hmark)
    · decide
  simpa using hmarks

theorem readPin?_pinText : readPin? (pinText pinned) = some pinned := by
  obtain ⟨x, y⟩ := pinned
  have hcomma : ∀ character ∈ x, (character != ',') = true := by
    intro character hmem
    have hplain := hx character hmem
    simp only [List.mem_cons, not_or] at hplain
    simpa using hplain.2.2.1
  have hmark : ∀ character ∈ y, (character != '!') = true := by
    intro character hmem
    have hplain := hy character hmem
    simp only [List.mem_cons, not_or] at hplain
    simpa using hplain.2.2.2.1
  have htext : pinText (x, y) = x ++ ',' :: (y ++ ['!']) := by
    simp [pinText]
  have hfront : (x ++ ',' :: (y ++ ['!'])).takeWhile (· != ',') = x := by
    rw [List.takeWhile_append_of_pos hcomma]
    exact List.append_nil x
  have hback : (y ++ ['!']).takeWhile (· != '!') = y := by
    rw [List.takeWhile_append_of_pos hmark]
    exact List.append_nil y
  have hdrop : (x ++ ',' :: (y ++ ['!'])).drop (x.length + 1) =
      y ++ ['!'] := by
    simp
  unfold readPin?
  dsimp only
  rw [htext, hfront, hdrop, hback, htext, if_pos rfl]

theorem readPinned?_pinText (rest : List Char) :
    readPinned? (", pos=".toList ++ (quoted (pinText pinned) ++ rest)) =
      some (some pinned, rest) := by
  have hquoted := readQuoted?_append ", pos=".toList (pinText pinned) rest
  rw [escapeLabel_pinText hx hy] at hquoted
  have hcomma : (", pos=".toList ++ (quoted (pinText pinned) ++ rest)).head? =
      some ',' := rfl
  unfold readPinned?
  rw [if_pos hcomma, hquoted]
  dsimp only [Option.bind_eq_bind, Option.bind_some]
  rw [readPin?_pinText hx hy]
  rfl

end Pinned

namespace Statement

def IsDrawn : Statement → Prop
  | node _ _ pinned =>
      ∀ texts ∈ pinned, IsUnmarked texts.1 ∧ IsUnmarked texts.2
  | call .. => True

theorem isDrawn_of_mem_ofGraph {graph : Graph} {statement : Statement}
    (hmem : statement ∈ ofGraph graph) : statement.IsDrawn := by
  rcases List.mem_append.mp hmem with hnode | hlink
  · obtain ⟨shown, -, rfl⟩ := List.mem_map.mp hnode
    intro texts htexts
    obtain ⟨position, -, rfl⟩ := Option.map_eq_some_iff.mp htexts
    exact ⟨drawingNumeral_isUnmarked _, drawingNumeral_isUnmarked _⟩
  · obtain ⟨link, -, rfl⟩ := List.mem_map.mp hlink
    trivial

end Statement

theorem readName?_append (mark : List Char) (id : MethodId)
    (rest : List Char) :
    readQuoted? mark (mark ++ (quoted (nodeName id) ++ rest)) =
      some (nodeName id, rest) := by
  have hquoted := readQuoted?_append mark (nodeName id) rest
  rwa [escapeLabel_nodeName] at hquoted

theorem readPinned?_line {pinned : Option (List Char × List Char)}
    (hdrawn : ∀ texts ∈ pinned, IsUnmarked texts.1 ∧ IsUnmarked texts.2)
    (rest : List Char) :
    readPinned? ((pinned.map fun pinned =>
      ", pos=".toList ++ quoted (pinText pinned)).getD [] ++
        ("];\n".toList ++ rest)) = some (pinned, "];\n".toList ++ rest) := by
  cases pinned with
  | none => rfl
  | some texts =>
      obtain ⟨hx, hy⟩ := hdrawn texts rfl
      have hread := readPinned?_pinText hx hy ("];\n".toList ++ rest)
      rwa [← List.append_assoc] at hread

theorem readStatement?_line {statement : Statement}
    (hdrawn : statement.IsDrawn) (rest : List Char) :
    readStatement? (statement.line ++ rest) = some (statement, rest) := by
  cases statement with
  | node id signature pinned =>
      have hother : readQuoted? " -> ".toList (" [label=".toList ++
          (quoted (escapeLabel signature.toList) ++
            ((pinned.map fun pinned =>
              ", pos=".toList ++ quoted (pinText pinned)).getD [] ++
                ("];\n".toList ++ rest)))) = none := rfl
      unfold readStatement? Statement.line
      simp only [List.append_assoc, readName?_append, readId?_nodeName, hother,
        readQuoted?_append, readPinned?_line hdrawn, dropPrefix?_append,
        Option.bind_eq_bind, Option.bind_some, String.ofList_toList]
      rfl
  | call caller callee =>
      unfold readStatement? Statement.line
      simp only [List.append_assoc, readName?_append, readId?_nodeName,
        dropPrefix?_append, Option.bind_eq_bind, Option.bind_some]
      rfl

theorem Statement.exists_line (statement : Statement) :
    ∃ rest, statement.line = ' ' :: rest := by
  cases statement with
  | node => exact ⟨_, rfl⟩
  | call => exact ⟨_, rfl⟩

theorem readStatements?_lines {statements : List Statement}
    (hdrawn : ∀ statement ∈ statements, statement.IsDrawn) {budget : Nat}
    (hbudget : statements.length ≤ budget) :
    readStatements? budget
      (statements.flatMap Statement.line ++ dotClosing) = some statements := by
  induction statements generalizing budget with
  | nil =>
      cases budget with
      | zero => exact if_pos rfl
      | succ budget => exact if_pos rfl
  | cons statement statements ih =>
      cases budget with
      | zero => cases hbudget
      | succ budget =>
          obtain ⟨line, hline⟩ := statement.exists_line
          have hopen : statement.line ++
              (statements.flatMap Statement.line ++ dotClosing) ≠
                dotClosing := by
            rw [hline]
            exact nofun
          have hrest := ih
            (fun other hother => hdrawn other (List.mem_cons_of_mem _ hother))
            (Nat.le_of_succ_le_succ hbudget)
          rw [List.flatMap_cons, List.append_assoc, readStatements?,
            if_neg hopen,
            readStatement?_line (hdrawn statement List.mem_cons_self)]
          dsimp only [Option.bind_eq_bind, Option.bind_some]
          rw [hrest]
          rfl

theorem length_le_lines (statements : List Statement) :
    statements.length ≤
      (statements.flatMap Statement.line ++ dotClosing).length := by
  induction statements with
  | nil => exact Nat.zero_le _
  | cons statement statements ih =>
      obtain ⟨line, hline⟩ := statement.exists_line
      rw [List.flatMap_cons, hline]
      simp only [List.length_cons, List.length_append] at ih ⊢
      omega

/-- A drawing is read back as the nodes and links that it shows, whatever the
signatures are made of. Two drawings thus have the same text exactly if they
show the same nodes and the same links in the same order. A label ends where its
signature does. -/
theorem readDot?_dot (graph other : Graph) :
    readDot? (dot graph) = some (Statement.ofGraph graph) ∧
      (dot graph = dot other ↔
        graph.nodes.map Statement.ofNode = other.nodes.map Statement.ofNode ∧
          graph.linkedNodes.map Statement.ofLink =
            other.linkedNodes.map Statement.ofLink) ∧
        ∀ label rest : List Char,
          readLabel? (escapeLabel label ++ '"' :: rest) =
            some (label, rest) := by
  have hread : ∀ shown : Graph,
      readDot? (dot shown) = some (Statement.ofGraph shown) := by
    intro shown
    unfold readDot? dot
    rw [String.toList_ofList, dotChars_eq, dropPrefix?_append]
    exact readStatements?_lines
      (fun _ hmem => Statement.isDrawn_of_mem_ofGraph hmem) (length_le_lines _)
  refine ⟨hread graph, ⟨fun hsame => ?_, fun ⟨hnodes, hlinks⟩ => ?_⟩,
    readLabel?_escapeLabel⟩
  · have hstatements : Statement.ofGraph graph = Statement.ofGraph other :=
      Option.some.inj ((hread graph).symm.trans (hsame ▸ hread other))
    obtain ⟨hnodes, hlinks⟩ := Statement.filter_isNode_ofGraph graph
    obtain ⟨hnodes', hlinks'⟩ := Statement.filter_isNode_ofGraph other
    exact ⟨hnodes.symm.trans (hstatements ▸ hnodes'),
      hlinks.symm.trans (hstatements ▸ hlinks')⟩
  · unfold dot
    rw [dotChars_eq, dotChars_eq, Statement.ofGraph, Statement.ofGraph, hnodes,
      hlinks]

example : readLabel? (escapeLabel "a\"]; b -> \\".toList ++ "\"];".toList) =
    some ("a\"]; b -> \\".toList, "];".toList) := by
  decide

example : String.ofList (nodeLine ⟨⟨⟨2⟩, ⟨"A.java"⟩, "A", "f", [⟨"int", "n"⟩]⟩,
    some ⟨0.5, 2⟩⟩) =
      "    \"0000000000000002\" [label=\"A::f(int n)\", pos=\"0.5,2!\"];\n" := by
  decide +kernel

end CallGraph.Render
