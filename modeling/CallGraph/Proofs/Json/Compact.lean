import CallGraph.Proofs.Json

namespace CallGraph.Json

/-! What is written without blanks is read back: texts, numbers without a sign,
and the arrays and objects that are built of them. -/

inductive IsData : Json → Prop where
  | plain {value : Json} (hplain : value.IsPlain) : IsData value
  | array {items : List Json} (hitems : ∀ item ∈ items, IsData item) :
      IsData (.array items)
  | object {members : List (String × Json)}
      (hmembers : ∀ member ∈ members, IsData member.2) :
      IsData (.object members)

def ReadsBack (value : Json) : Prop :=
  ∀ {budget : Nat} {mark : Char} {rest : Rest}, EndsNumber mark →
    value.compactChars.length ≤ budget →
      value? budget (value.compactChars ++ mark :: rest) =
        some (value, mark :: rest)

theorem endsNumber_bracket : EndsNumber ']' := by
  unfold EndsNumber
  decide

theorem endsNumber_brace : EndsNumber '}' := by
  unfold EndsNumber
  decide

theorem IsData.exists_compactChars {value : Json} (hdata : value.IsData) :
    ∃ first rest, value.compactChars = first :: rest ∧
      isBlank first = false ∧ first ≠ ']' := by
  cases hdata with
  | array => exact ⟨_, _, by rw [compactChars]; rfl, by decide, by decide⟩
  | object => exact ⟨_, _, by rw [compactChars]; rfl, by decide, by decide⟩
  | plain hplain =>
      cases hplain with
      | string text =>
          exact ⟨_, _, by rw [compactChars, quote]; rfl, by decide, by decide⟩
      | number value =>
          obtain ⟨digit, rest, hwritten, hsmall, _⟩ :=
            Text.exists_decimalDigits value
          have hdigit := isDigit_digitChar digit hsmall
          refine ⟨Text.digitChar digit, rest, ?_,
            isBlank_digitChar digit hsmall, ?_⟩
          · rw [ofNat, compactChars, Text.decimal, String.toList_ofList,
              hwritten]
          · intro hclosed
            rw [hclosed] at hdigit
            cases hdigit

theorem IsData.length_pos {value : Json} (hdata : value.IsData) :
    0 < value.compactChars.length := by
  obtain ⟨first, rest, hwritten, _⟩ := hdata.exists_compactChars
  rw [hwritten]
  exact Nat.zero_lt_succ _

theorem value?_blank (budget : Nat) (rest : Rest) :
    value? budget (' ' :: rest) = value? budget rest := by
  cases budget with
  | zero => rfl
  | succ budget =>
      have hskip : skipBlank (' ' :: rest) = skipBlank rest := rfl
      rw [value?, value?, hskip]

theorem readsBack_of_plain {value : Json} (hplain : value.IsPlain) :
    value.ReadsBack := by
  intro budget mark rest hmark hbudget
  have hpretty : value.prettyChars 0 = value.compactChars := by
    cases hplain with
    | string text => rw [prettyChars, compactChars]
    | number value => rw [ofNat, prettyChars, compactChars]
  cases budget with
  | zero =>
      exact absurd hbudget (Nat.not_le.mpr (IsData.plain hplain).length_pos)
  | succ budget =>
      have hread := @value?_plain value hplain budget 0 mark rest hmark
      rw [List.cons_append, value?_blank, hpretty] at hread
      exact hread

theorem value?_array (budget : Nat) (rest : Rest) :
    value? (budget + 1) ('[' :: rest) =
      match skipBlank rest with
      | ']' :: rest => some (.array [], rest)
      | rest => (items? budget rest).map fun (items, rest) =>
          (.array items, rest) := by
  rw [value?, skipBlank_of_head (by decide)]
  rfl

def itemsBehind? (budget : Nat) (item : Json) :
    Rest → Option (List Json × Rest)
  | ']' :: rest => some ([item], rest)
  | ',' :: rest => (items? budget rest).map
      fun (items, rest) => (item :: items, rest)
  | _ => none

theorem items?_item {item : Json} (hreads : item.ReadsBack) {budget : Nat}
    (hbudget : item.compactChars.length ≤ budget) {mark : Char} {rest : Rest}
    (hmark : EndsNumber mark) :
    items? (budget + 1) (item.compactChars ++ mark :: rest) =
      itemsBehind? budget item (skipBlank (mark :: rest)) := by
  rw [items?, hreads hmark hbudget]
  rfl

theorem items?_compact {item : Json} {more : List Json}
    (hreads : ∀ other ∈ item :: more, other.ReadsBack) {budget : Nat}
    (hbudget : (item.compactChars ++ compactMoreItems more).length ≤ budget)
    (rest : Rest) :
    items? (budget + 1)
        (item.compactChars ++ (compactMoreItems more ++ ']' :: rest)) =
      some (item :: more, rest) := by
  induction more generalizing item budget with
  | nil =>
      rw [compactMoreItems, List.append_nil] at hbudget
      rw [compactMoreItems, List.nil_append,
        items?_item (hreads item (by simp)) hbudget endsNumber_bracket,
        skipBlank_of_head (by decide)]
      rfl
  | cons next more ih =>
      have hwritten : compactMoreItems (next :: more) ++ ']' :: rest =
          ',' :: (next.compactChars ++
            (compactMoreItems more ++ ']' :: rest)) := by
        simp [compactMoreItems]
      simp only [compactMoreItems, List.length_append, List.length_cons]
        at hbudget
      cases budget with
      | zero => omega
      | succ budget =>
          rw [hwritten, items?_item (hreads item (by simp)) (by omega)
            endsNumber_comma, skipBlank_of_head (by decide)]
          change Option.map _ (items? (budget + 1) _) = _
          rw [ih (fun other hother =>
              hreads other (List.mem_cons_of_mem item hother))
            (by rw [List.length_append]; omega)]
          rfl

theorem readsBack_array {items : List Json}
    (hdata : ∀ item ∈ items, item.IsData)
    (hreads : ∀ item ∈ items, item.ReadsBack) : (array items).ReadsBack := by
  intro budget mark rest _ hbudget
  rw [compactChars] at hbudget ⊢
  simp only [List.length_cons, List.length_append, List.length_nil,
    List.cons_append, List.append_assoc, List.nil_append] at hbudget ⊢
  obtain ⟨budget, rfl⟩ : ∃ less, budget = less + 2 :=
    ⟨budget - 2, by omega⟩
  rw [value?_array]
  cases items with
  | nil => rfl
  | cons item more =>
      rw [compactItems] at hbudget ⊢
      have hread := @items?_compact item more hreads budget (by omega)
        (mark :: rest)
      obtain ⟨first, others, hwritten, hblank, hopen⟩ :=
        (hdata item (by simp)).exists_compactChars
      rw [List.append_assoc]
      rw [hwritten, List.cons_append] at hread ⊢
      rw [skipBlank_of_head hblank]
      split
      · rename_i hclosed
        exact absurd (List.cons.inj hclosed).1 hopen
      · rw [hread]
        rfl

theorem members?_compactMember {member : String × Json}
    (hreads : member.2.ReadsBack) {budget : Nat}
    (hbudget : (compactMember member).length ≤ budget) {mark : Char}
    {rest : Rest} (hmark : EndsNumber mark) :
    members? (budget + 1) (compactMember member ++ mark :: rest) =
      membersBehind? budget member (skipBlank (mark :: rest)) := by
  obtain ⟨name, value⟩ := member
  change value.ReadsBack at hreads
  rw [compactMember] at hbudget ⊢
  simp only [List.length_append, List.length_cons] at hbudget
  have hname := name?_quote name (':' :: (value.compactChars ++ mark :: rest))
  have hvalue : value? budget (value.compactChars ++ mark :: rest) =
      some (value, mark :: rest) := hreads hmark (by omega)
  have hskip : ∀ rest, skipBlank (quote name ++ rest) = quote name ++ rest :=
    fun rest => rfl
  have hcolon : ∀ rest, skipBlank (':' :: rest) = ':' :: rest :=
    fun rest => rfl
  rw [members?, List.append_assoc, hskip, List.cons_append, hname]
  simp only [hcolon, hvalue]
  rfl

theorem members?_compact {member : String × Json} {more : List (String × Json)}
    (hreads : ∀ other ∈ member :: more, other.2.ReadsBack) {budget : Nat}
    (hbudget : (compactMember member ++ compactMoreMembers more).length ≤ budget)
    (rest : Rest) :
    members? (budget + 1)
        (compactMember member ++ (compactMoreMembers more ++ '}' :: rest)) =
      some (member :: more, rest) := by
  induction more generalizing member budget with
  | nil =>
      rw [compactMoreMembers, List.append_nil] at hbudget
      rw [compactMoreMembers, List.nil_append, members?_compactMember
        (hreads member (by simp)) hbudget endsNumber_brace,
        skipBlank_of_head (by decide)]
      rfl
  | cons next more ih =>
      have hwritten : compactMoreMembers (next :: more) ++ '}' :: rest =
          ',' :: (compactMember next ++
            (compactMoreMembers more ++ '}' :: rest)) := by
        simp [compactMoreMembers]
      simp only [compactMoreMembers, List.length_append, List.length_cons]
        at hbudget
      cases budget with
      | zero => omega
      | succ budget =>
          rw [hwritten, members?_compactMember (hreads member (by simp)) (by omega)
            endsNumber_comma, skipBlank_of_head (by decide)]
          change Option.map _ (members? (budget + 1) _) = _
          rw [ih (fun other hother =>
              hreads other (List.mem_cons_of_mem member hother))
            (by rw [List.length_append]; omega)]
          rfl

theorem value?_compactObject {members : List (String × Json)}
    (hreads : ∀ member ∈ members, member.2.ReadsBack) {budget : Nat}
    (hbudget : (object members).compactChars.length ≤ budget) (rest : Rest) :
    value? budget ((object members).compactChars ++ rest) =
      some (object members, rest) := by
  rw [compactChars] at hbudget ⊢
  simp only [List.length_cons, List.length_append, List.length_nil,
    List.cons_append, List.append_assoc, List.nil_append] at hbudget ⊢
  obtain ⟨budget, rfl⟩ : ∃ less, budget = less + 2 :=
    ⟨budget - 2, by omega⟩
  rw [value?_object]
  cases members with
  | nil => rfl
  | cons member more =>
      rw [compactMembers] at hbudget ⊢
      have hread := @members?_compact member more hreads budget (by omega) rest
      obtain ⟨name, value⟩ := member
      rw [List.append_assoc]
      rw [compactMember, quote, List.cons_append] at hread ⊢
      simp only [List.cons_append] at hread ⊢
      rw [skipBlank_of_head (by decide)]
      split
      · rename_i hclosed
        cases (List.cons.inj hclosed).1
      · rw [hread]
        rfl

theorem IsData.readsBack {value : Json} (hdata : value.IsData) :
    value.ReadsBack := by
  induction hdata with
  | plain hplain => exact readsBack_of_plain hplain
  | array hitems ih => exact readsBack_array hitems ih
  | object _ ih =>
      intro budget mark rest _ hbudget
      exact value?_compactObject ih hbudget (mark :: rest)

theorem parse?_compact {members : List (String × Json)}
    (hdata : ∀ member ∈ members, member.2.IsData) :
    parse? (object members).compact = some (object members) := by
  have hbudget : (object members).compactChars.length ≤
      2 * (object members).compact.length + 2 := by
    rw [compact, String.length_ofList]
    omega
  have hread := value?_compactObject
    (fun member hmember => (hdata member hmember).readsBack) hbudget []
  rw [List.append_nil] at hread
  have hchars : (object members).compact.toList =
      (object members).compactChars := String.toList_ofList
  rw [parse?, hchars, hread]
  rfl

end CallGraph.Json
