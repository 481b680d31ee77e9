import CallGraph.Json.Reader
import CallGraph.Json.Writer
import CallGraph.Proofs.Text.Digits

namespace CallGraph.Json

/-! What is written is read back: texts, numbers without a sign, and objects of
such members with one member a line. -/

theorem skipBlank_of_head {character : Char} {rest : Rest}
    (hcharacter : isBlank character = false) :
    skipBlank (character :: rest) = character :: rest := by
  rw [skipBlank, List.dropWhile_cons, hcharacter]
  rfl

theorem skipBlank_newLine (level : Nat) (rest : Rest) :
    skipBlank (newLine level ++ rest) = skipBlank rest := by
  have hblanks : ∀ count, skipBlank (List.replicate count ' ' ++ rest) =
      skipBlank rest := by
    intro count
    induction count with
    | zero => rfl
    | succ count ih => exact ih
  exact hblanks (2 * level)

theorem control_escape :
    ∀ code < 32,
      Text.readDigits? 16 (Text.fixedDigits 16 4 code) = some code := by
  decide

theorem stringChars?_plain {character : Char} {rest : Rest}
    (hquote : character ≠ '"') (hescape : character ≠ '\\')
    (hcode : 32 ≤ character.toNat) :
    stringChars? (character :: rest) =
      (stringChars? rest).map fun (taken, rest) =>
        (character :: taken, rest) := by
  rw [stringChars?.eq_def]
  split <;> grind

theorem stringChars?_escape {mark character : Char} {rest : Rest}
    (hmark : mark ≠ 'u') (hsimple : simpleEscape? mark = some character) :
    stringChars? ('\\' :: mark :: rest) =
      (stringChars? rest).map fun (taken, rest) =>
        (character :: taken, rest) := by
  rw [stringChars?.eq_def]
  split
  case h_4 =>
    rename_i hcons
    obtain ⟨rfl, rfl⟩ := List.cons.inj (List.cons.inj hcons).2
    rw [hsimple]
  case h_5 =>
    rename_i hnot hcons
    exact absurd (List.cons.inj hcons).2.symm
      (hnot _ _ (List.cons.inj hcons).1.symm)
  all_goals simp_all

theorem stringChars?_code {code : Nat} (hcode : code < 32) (rest : Rest) :
    stringChars? ('\\' :: 'u' :: Text.fixedDigits 16 4 code ++ rest) =
      (stringChars? rest).map fun (taken, rest) =>
        (Char.ofNat code :: taken, rest) := by
  have hread := control_escape code hcode
  have hplain : isHighSurrogate code = false ∧
      isLowSurrogate code = false := by
    constructor <;> simp [isHighSurrogate, isLowSurrogate] <;> omega
  rw [stringChars?.eq_def]
  simp [Text.fixedDigits] at hread ⊢
  simp [hread, hplain]

theorem stringChars?_escapeChar (character : Char) (rest : Rest) :
    stringChars? (escapeChar character ++ rest) =
      (stringChars? rest).map fun (taken, rest) =>
        (character :: taken, rest) := by
  -- The short escapes, by the character that they stand for.
  have hshort : ∀ {mark : Char}, mark ≠ 'u' →
      simpleEscape? mark = some character →
      stringChars? (['\\', mark] ++ rest) =
        (stringChars? rest).map fun (taken, rest) =>
          (character :: taken, rest) := stringChars?_escape
  have hcode : ∀ {code : Nat}, (character.toNat == code) = true →
      Char.ofNat code = character := by
    intro code hcode
    rw [← beq_iff_eq.mp hcode]
    exact Char.ofNat_toNat character
  unfold escapeChar
  split
  · rename_i hquote
    exact hshort (by decide) (by rw [beq_iff_eq.mp hquote]; rfl)
  split
  · rename_i hescape
    exact hshort (by decide) (by rw [beq_iff_eq.mp hescape]; rfl)
  split
  · rename_i hback
    exact hshort (by decide) (congrArg some (hcode hback))
  split
  · rename_i htab
    exact hshort (by decide) (congrArg some (hcode htab))
  split
  · rename_i hline
    exact hshort (by decide) (congrArg some (hcode hline))
  split
  · rename_i hfeed
    exact hshort (by decide) (congrArg some (hcode hfeed))
  split
  · rename_i hreturn
    exact hshort (by decide) (congrArg some (hcode hreturn))
  split
  · rename_i hcontrol
    rw [List.cons_append, List.singleton_append, stringChars?_code hcontrol,
      Char.ofNat_toNat]
  · rename_i hquote hescape _ _ _ _ _ hprintable
    exact stringChars?_plain (by simpa using hquote) (by simpa using hescape)
      (Nat.not_lt.mp hprintable)

theorem stringChars?_quoted (characters : List Char) (rest : Rest) :
    stringChars? (characters.flatMap escapeChar ++ '"' :: rest) =
      some (characters, rest) := by
  induction characters with
  | nil => rfl
  | cons character more ih =>
      rw [List.flatMap_cons, List.append_assoc, stringChars?_escapeChar, ih]
      rfl

theorem isDigit_digitChar :
    ∀ digit < 10, isDigit (Text.digitChar digit) = true := by
  decide

theorem isBlank_digitChar :
    ∀ digit < 10, isBlank (Text.digitChar digit) = false := by
  decide

theorem ne_zero_digitChar :
    ∀ digit < 10, digit ≠ 0 → Text.digitChar digit ≠ '0' := by
  decide

theorem isDigit_of_mem {number : Nat} {character : Char}
    (hmem : character ∈ Text.decimalDigits number) :
    isDigit character = true := by
  obtain ⟨digit, hsmall, rfl⟩ := Text.mem_decimalDigits hmem
  exact isDigit_digitChar digit hsmall

theorem digits?_append {digits : List Char} {mark : Char} {rest : Rest}
    (hdigits : ∀ digit ∈ digits, isDigit digit = true) (hsome : digits ≠ [])
    (hmark : isDigit mark = false) :
    digits? (digits ++ mark :: rest) = some (digits, mark :: rest) := by
  have htaken : (digits ++ mark :: rest).takeWhile isDigit = digits := by
    rw [List.takeWhile_append_of_pos hdigits, List.takeWhile_cons, hmark]
    simp
  have hleft : (digits ++ mark :: rest).dropWhile isDigit = mark :: rest := by
    rw [List.dropWhile_append_of_pos hdigits, List.dropWhile_cons, hmark]
    simp
  unfold digits?
  rw [htaken, hleft]
  cases digits with
  | nil => exact absurd rfl hsome
  | cons digit digits => rfl

def EndsNumber (mark : Char) : Prop :=
  isDigit mark = false ∧ mark ≠ '.' ∧ mark ≠ 'e' ∧ mark ≠ 'E'

theorem integerPart?_decimalDigits (number : Nat) {mark : Char} {rest : Rest}
    (hmark : EndsNumber mark) :
    integerPart? (Text.decimalDigits number ++ mark :: rest) =
      some (Text.decimalDigits number, mark :: rest) := by
  have hdigits := @digits?_append (Text.decimalDigits number) mark rest
    fun _ => isDigit_of_mem
  obtain ⟨digit, more, hwritten, hsmall, hzero⟩ :=
    Text.exists_decimalDigits number
  rw [hwritten] at hdigits ⊢
  by_cases hdigit : digit = 0
  · rw [hzero hdigit, hdigit]
    rfl
  · have hfirst := ne_zero_digitChar digit hsmall hdigit
    rw [List.cons_append]
    unfold integerPart?
    split
    · rename_i hcons
      exact absurd (List.cons.inj hcons).1 hfirst
    · exact hdigits (List.cons_ne_nil _ _) hmark.1

theorem number?_decimalDigits (number : Nat) {mark : Char} {rest : Rest}
    (hmark : EndsNumber mark) :
    number? (Text.decimalDigits number ++ mark :: rest) =
      some (Text.decimalDigits number, mark :: rest) := by
  have hsign : ∀ rest', Text.decimalDigits number ++ mark :: rest ≠
      '-' :: rest' := by
    intro rest' hsigned
    obtain ⟨digit, more, hwritten, hsmall, _⟩ :=
      Text.exists_decimalDigits number
    rw [hwritten] at hsigned
    have hdigit := isDigit_digitChar digit hsmall
    rw [(List.cons.inj hsigned).1] at hdigit
    cases hdigit
  have hinteger := @integerPart?_decimalDigits number mark rest hmark
  obtain ⟨_, hpoint, he, hE⟩ := hmark
  have hfraction : fraction? (mark :: rest) = some ([], mark :: rest) := by
    unfold fraction?
    split
    · rename_i hcons
      exact absurd (List.cons.inj hcons).1 hpoint
    · rfl
  have hexponent : exponent? (mark :: rest) = some ([], mark :: rest) := by
    simp [exponent?, he, hE]
  unfold number?
  split
  rename_i sign characters hsplit
  split at hsplit
  · rename_i rest' hcons
    exact absurd hcons (hsign rest')
  · obtain ⟨rfl, rfl⟩ := Prod.mk.inj hsplit
    simp [hinteger, hfraction, hexponent]

theorem word?_ofNat (word : UInt64) :
    (ofNat word.toNat).word? = some word := by
  have hdigits : (Text.decimal word.toNat).toList.all isDigit = true := by
    rw [Text.decimal, String.toList_ofList, List.all_eq_true]
    exact fun _ => isDigit_of_mem
  have hread : Text.readDigits? 10 (Text.decimal word.toNat).toList =
      some word.toNat := by
    rw [Text.decimal, String.toList_ofList, Text.readDigits?_decimalDigits]
  have hsmall : word.toNat < UInt64.size := word.toNat_lt_size
  simp [ofNat, word?, hdigits, hread, hsmall]

inductive IsPlain : Json → Prop where
  | string (text : String) : IsPlain (.string text)
  | number (value : Nat) : IsPlain (.ofNat value)

theorem name?_quote (text : String) (rest : Rest) :
    name? (quote text ++ rest) = some (text, rest) := by
  have hread := stringChars?_quoted text.toList rest
  unfold quote
  rw [List.append_assoc, List.cons_append, List.singleton_append]
  change Option.map _ (stringChars? _) = _
  rw [hread]
  exact congrArg (fun text => some (text, rest)) String.ofList_toList

theorem value?_plain {value : Json} (hplain : value.IsPlain)
    (budget level : Nat) {mark : Char} {rest : Rest} (hmark : EndsNumber mark) :
    value? (budget + 1) (' ' :: prettyChars level value ++ mark :: rest) =
      some (value, mark :: rest) := by
  cases hplain with
  | string text =>
      have hread := stringChars?_quoted text.toList (mark :: rest)
      rw [prettyChars, value?, quote]
      simp only [List.cons_append, List.append_assoc]
      change Option.map _ (stringChars? (_ ++ '"' :: mark :: rest)) = _
      rw [hread, Option.map_some, String.ofList_toList]
  | number value =>
      have hread := @number?_decimalDigits value mark rest hmark
      obtain ⟨digit, more, hwritten, hsmall, _⟩ :=
        Text.exists_decimalDigits value
      have hdigit := isDigit_digitChar digit hsmall
      have hskip : skipBlank (' ' :: Text.decimalDigits value ++
          mark :: rest) = Text.decimalDigits value ++ mark :: rest := by
        rw [hwritten]
        exact skipBlank_of_head (isBlank_digitChar digit hsmall)
      have hwrites : (ofNat value).prettyChars level =
          Text.decimalDigits value := by
        rw [ofNat, prettyChars, Text.decimal, String.toList_ofList]
      rw [hwrites, value?, hskip]
      -- A digit is none of the marks that begin the other values.
      split
      case h_7 =>
        rw [hread, Option.map_some]
        rfl
      all_goals
        rename_i hcons
        rw [hwritten, List.cons_append] at hcons
        rw [(List.cons.inj hcons).1] at hdigit
        cases hdigit

theorem prettyMember_eq (level : Nat) (member : String × Json) :
    prettyMember level member =
      quote member.1 ++ ':' :: ' ' :: prettyChars level member.2 := by
  rw [prettyMember, List.append_assoc]
  rfl

def membersBehind? (budget : Nat) (member : String × Json) :
    Rest → Option (List (String × Json) × Rest)
  | '}' :: rest => some ([member], rest)
  | ',' :: rest => (members? budget rest).map
      fun (members, rest) => (member :: members, rest)
  | _ => none

theorem members?_member {member : String × Json} (hplain : member.2.IsPlain)
    (budget level : Nat) {mark : Char} {rest : Rest} (hmark : EndsNumber mark) :
    members? (budget + 2) (newLine (level + 1) ++
        (prettyMember (level + 1) member ++ mark :: rest)) =
      membersBehind? (budget + 1) member (skipBlank (mark :: rest)) := by
  obtain ⟨name, value⟩ := member
  have hname := name?_quote name
    (':' :: (' ' :: prettyChars (level + 1) value ++ mark :: rest))
  have hvalue := @value?_plain value hplain budget (level + 1) mark rest hmark
  have hskip : skipBlank (quote name ++
      (':' :: (' ' :: prettyChars (level + 1) value ++ mark :: rest))) =
        quote name ++
          (':' :: (' ' :: prettyChars (level + 1) value ++ mark :: rest)) := rfl
  rw [members?, skipBlank_newLine, prettyMember_eq, List.append_assoc]
  simp only [List.cons_append] at hname hvalue hskip ⊢
  have hcolon : ∀ rest, skipBlank (':' :: rest) = ':' :: rest :=
    fun _ => rfl
  simp only [hskip, hname, hcolon, hvalue]
  rfl

theorem endsNumber_comma : EndsNumber ',' := by
  unfold EndsNumber
  decide

theorem endsNumber_newLine : EndsNumber '\n' := by
  unfold EndsNumber
  decide

theorem members?_pretty (level : Nat) {member : String × Json}
    {more : List (String × Json)} (hplain : member.2.IsPlain)
    (hmore : ∀ other ∈ more, other.2.IsPlain) {budget : Nat}
    (hbudget : more.length < budget) (rest : Rest) :
    members? (budget + 1) (newLine (level + 1) ++
        (prettyMember (level + 1) member ++
          (prettyMoreMembers level more ++ '}' :: rest))) =
      some (member :: more, rest) := by
  induction more generalizing member budget with
  | nil =>
      obtain ⟨budget, rfl⟩ := Nat.exists_eq_add_one_of_ne_zero
        (Nat.ne_of_gt hbudget)
      have hwritten : prettyMoreMembers level [] ++ '}' :: rest =
          '\n' :: (List.replicate (2 * level) ' ' ++ '}' :: rest) := rfl
      have hend : skipBlank ('\n' :: (List.replicate (2 * level) ' ' ++
          '}' :: rest)) = '}' :: rest := skipBlank_newLine level ('}' :: rest)
      rw [hwritten, members?_member hplain budget level endsNumber_newLine,
        hend]
      rfl
  | cons next more ih =>
      obtain ⟨budget, rfl⟩ := Nat.exists_eq_add_one_of_ne_zero
        (Nat.ne_of_gt (Nat.zero_lt_of_lt hbudget))
      have hwritten : prettyMoreMembers level (next :: more) ++ '}' :: rest =
          ',' :: (newLine (level + 1) ++ (prettyMember (level + 1) next ++
            (prettyMoreMembers level more ++ '}' :: rest))) := by
        rw [prettyMoreMembers]
        simp only [List.append_assoc, List.cons_append]
      have hnext := ih (hmore next (by simp))
        (fun other hother => hmore other (by simp [hother]))
        (Nat.lt_of_succ_lt_succ hbudget)
      rw [hwritten, members?_member hplain budget level endsNumber_comma,
        skipBlank_of_head (by decide)]
      change Option.map _ (members? (budget + 1) _) = _
      rw [hnext]
      rfl

theorem length_prettyMoreMembers (level : Nat) (more : List (String × Json)) :
    more.length < (prettyMoreMembers level more).length := by
  induction more with
  | nil => exact Nat.zero_lt_succ _
  | cons next more ih =>
      rw [prettyMoreMembers]
      simp only [List.length_append, List.length_cons]
      omega

theorem members?_newLine (budget level : Nat) (rest : Rest) :
    members? budget (newLine level ++ rest) = members? budget rest := by
  cases budget with
  | zero => rfl
  | succ budget => rw [members?, members?, skipBlank_newLine]

theorem value?_object (budget : Nat) (rest : Rest) :
    value? (budget + 1) ('{' :: rest) =
      match skipBlank rest with
      | '}' :: rest => some (.object [], rest)
      | rest => (members? budget rest).map fun (members, rest) =>
          (.object members, rest) := by
  rw [value?, skipBlank_of_head (by decide)]
  rfl

theorem parse?_pretty {member : String × Json} {more : List (String × Json)}
    (hplain : ∀ other ∈ member :: more, other.2.IsPlain) :
    parse? (Json.object (member :: more)).pretty =
      some (.object (member :: more)) := by
  have hchars : (Json.object (member :: more)).prettyChars 0 =
      '{' :: (newLine 1 ++ (prettyMember 1 member ++
        (prettyMoreMembers 0 more ++ ['}']))) := by
    rw [prettyChars, prettyMembers]
    simp only [List.append_assoc, List.cons_append]
  have hlength : (Json.object (member :: more)).pretty.length =
      ((Json.object (member :: more)).prettyChars 0).length := by
    rw [pretty, String.length_ofList]
  have hbudget : more.length <
      2 * (Json.object (member :: more)).pretty.length := by
    have hmore := length_prettyMoreMembers 0 more
    rw [hlength, hchars]
    simp only [List.length_cons, List.length_append]
    omega
  have hread := members?_pretty 0 (hplain member (by simp))
    (fun other hother => hplain other (by simp [hother])) hbudget []
  rw [members?_newLine] at hread
  -- The members begin with a quote, not with the end of the object.
  have hskip : skipBlank (newLine 1 ++ (prettyMember 1 member ++
      (prettyMoreMembers 0 more ++ ['}']))) = prettyMember 1 member ++
        (prettyMoreMembers 0 more ++ ['}']) := by
    rw [skipBlank_newLine, prettyMember_eq]
    rfl
  have hvalue : value? (2 * (Json.object (member :: more)).pretty.length + 2)
      ((Json.object (member :: more)).prettyChars 0) =
        some (.object (member :: more), []) := by
    rw [hchars, value?_object, hskip]
    split
    · rename_i hclosed
      rw [prettyMember_eq, quote] at hclosed
      cases (List.cons.inj hclosed).1
    · rw [hread]
      rfl
  rw [parse?, pretty, String.toList_ofList]
  rw [pretty] at hvalue
  rw [hvalue]
  rfl

end CallGraph.Json
