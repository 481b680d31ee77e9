import CallGraph.Method
import CallGraph.Proofs.Text.Blank
import CallGraph.Proofs.Text.Hexadecimal
import CallGraph.Proofs.Text.Utf8

namespace CallGraph

/-! Which methods a selector names. -/

namespace Selector

structure IsWord (text : String) : Prop where
  sixteen : text.length = 16
  digits : ∀ character ∈ text.toList, Text.IsHexDigit character

/-- The text is the identity as it is printed, with small or capital letters. -/
def Spells (text : String) (id : MethodId) : Prop :=
  text.toLower = Text.hexWord id.word

instance (text : String) (id : MethodId) : Decidable (Spells text id) :=
  inferInstanceAs (Decidable (_ = _))

/-- A text with no blanks around it names a method by its identity, its
signature or its type and name, by the first of these forms that it fits. -/
inductive Names (text : String) (method : Method) : Prop
  | identity (spells : Spells text method.id)
  | signature (noWord : ¬IsWord text) (opened : '(' ∈ text.toList)
      (same : Text.compact text = Text.compact method.signature)
  | qualified (noWord : ¬IsWord text) (unopened : '(' ∉ text.toList)
      (cut : Text.IsFirstCut "::".toList text.toList
        method.enclosingType.toList method.name.toList)

/-- A plus sign stands in for the first digit of an identity, a zero. -/
def SpellsSigned (text : String) (id : MethodId) : Prop :=
  ∃ digits : String, text = "+" ++ digits ∧ Spells ("0" ++ digits) id

variable {text : String} {id : MethodId} {method : Method}

theorem spells_iff :
    Spells text id ↔
      text.length = 16 ∧
        Text.readDigits? 16 text.toList = some id.word.toNat := by
  have hword : (Text.hexWord id.word).toList =
      Text.fixedDigits 16 16 id.word.toNat := String.toList_ofList
  have hlower : text.toLower.toList = text.toList.map Char.toLower :=
    String.toList_map
  rw [Spells, ← String.toList_inj, hword, hlower,
    Text.readDigits?_eq_some_iff, String.length_toList]
  constructor
  · intro hsame
    have hlength := congrArg List.length hsame
    rw [List.length_map, String.length_toList, Text.length_fixedDigits]
      at hlength
    rw [hlength]
    exact ⟨rfl, id.word.toNat_lt, hsame⟩
  · rintro ⟨hlength, -, hsame⟩
    rwa [hlength] at hsame

theorem Spells.isWord (hspells : Spells text id) : IsWord text := by
  obtain ⟨hlength, hread⟩ := spells_iff.mp hspells
  exact ⟨hlength, Text.exists_readDigits?_iff.mp ⟨_, hread⟩⟩

theorem spells_ofNat {number : Nat} (hlength : text.length = 16)
    (hread : Text.readDigits? 16 text.toList = some number) :
    Spells text ⟨UInt64.ofNat number⟩ := by
  have hsmall : number < 2 ^ 64 := by
    have hbound := (Text.readDigits?_eq_some_iff.mp hread).1
    rwa [String.length_toList, hlength] at hbound
  rw [spells_iff, UInt64.toNat_ofNat_of_lt' hsmall]
  exact ⟨hlength, hread⟩

theorem IsWord.spells (hword : IsWord text) : ∃ id, Spells text id := by
  obtain ⟨number, hread⟩ := Text.exists_readDigits?_iff.mpr hword.digits
  exact ⟨_, spells_ofNat hword.sixteen hread⟩

theorem identity?_of_unsigned {characters : List Char}
    (hunsigned : ∀ rest, characters ≠ '+' :: rest) :
    identity? characters =
      if (Utf8.encodeChars characters).length == 16 then
        (Text.readDigits? 16 characters).map fun number =>
          ⟨UInt64.ofNat number⟩
      else none := by
  refine if_congr Iff.rfl ?_ rfl
  dsimp only
  split
  · rename_i rest
    exact absurd rfl (hunsigned rest)
  · rfl

theorem identity?_plus (rest : List Char) :
    identity? ('+' :: rest) = identity? ('0' :: rest) := by
  have hzero : ∀ others, '0' :: rest ≠ '+' :: others := by simp
  exact (identity?_of_unsigned hzero).symm

theorem identity?_iff_spells (hunsigned : ∀ rest, text.toList ≠ '+' :: rest) :
    identity? text.toList = some id ↔ Spells text id := by
  rw [identity?_of_unsigned hunsigned, spells_iff,
    Option.ite_none_right_eq_some, beq_iff_eq]
  have hbytes : ∀ {number}, Text.readDigits? 16 text.toList = some number →
      (Utf8.encodeChars text.toList).length = text.length := by
    intro number hread
    have hdigits := Text.exists_readDigits?_iff.mp ⟨number, hread⟩
    rw [Utf8.length_encodeChars fun character hmem =>
      (hdigits character hmem).isAscii, String.length_toList]
  constructor
  · rintro ⟨hlength, hread⟩
    obtain ⟨number, hnumber, rfl⟩ := Option.map_eq_some_iff.mp hread
    rw [hbytes hnumber] at hlength
    exact spells_iff.mp (spells_ofNat hlength hnumber)
  · rintro ⟨hlength, hread⟩
    rw [hbytes hread, hread, Option.map_some, UInt64.ofNat_toNat]
    exact ⟨hlength, rfl⟩

theorem not_isWord_plus (digits : String) : ¬IsWord ("+" ++ digits) :=
  fun hword => absurd (hword.digits '+' (by simp)) (by decide)

theorem identity?_eq_some_iff :
    identity? text.toList = some id ↔
      Spells text id ∨ SpellsSigned text id := by
  -- Behind a sign the text reads like the one that has a zero there.
  by_cases hsigned : ∃ digits : String, text = "+" ++ digits
  · obtain ⟨digits, rfl⟩ := hsigned
    have hplus : ("+" ++ digits).toList = '+' :: digits.toList :=
      String.toList_append
    have hzero : ("0" ++ digits).toList = '0' :: digits.toList :=
      String.toList_append
    have hnone : ¬Spells ("+" ++ digits) id := fun hspells =>
      not_isWord_plus digits hspells.isWord
    rw [hplus, identity?_plus, ← hzero, identity?_iff_spells (by simp [hzero]),
      or_iff_right hnone]
    constructor
    · exact fun hspells => ⟨digits, rfl, hspells⟩
    · rintro ⟨others, hsame, hspells⟩
      rwa [(String.append_right_inj "+").mp hsame]
  · rw [identity?_iff_spells, or_iff_left]
    · exact fun ⟨digits, hdigits, _⟩ => hsigned ⟨digits, hdigits⟩
    · intro rest hrest
      exact hsigned ⟨String.ofList rest, String.ext (by simp [hrest])⟩

theorem identity?_eq_none_iff :
    identity? text.toList = none ↔
      ¬IsWord text ∧ ∀ id, ¬SpellsSigned text id := by
  rw [Option.eq_none_iff_forall_ne_some]
  simp only [ne_eq, identity?_eq_some_iff, not_or, forall_and]
  refine and_congr_left fun _ => ⟨fun hnone hword => ?_, fun hno id hspells =>
    hno hspells.isWord⟩
  obtain ⟨id, hspells⟩ := hword.spells
  exact hnone id hspells

theorem mem_of_identity? {character : Char}
    (hread : identity? text.toList = some id)
    (hmem : character ∈ text.toList) :
    character = '+' ∨ Text.IsHexDigit character := by
  rcases identity?_eq_some_iff.mp hread with hspells | ⟨digits, rfl, hspells⟩
  · exact Or.inr (hspells.isWord.digits character hmem)
  · rw [String.toList_append, List.mem_append] at hmem
    refine hmem.imp (fun hsign => List.mem_singleton.mp hsign) fun hdigit => ?_
    exact hspells.isWord.digits character
      (String.toList_append ▸ List.mem_append_right _ hdigit)

theorem Names.spells (hread : identity? text.toList = some id)
    (hnames : Names text method) : Spells text method.id := by
  cases hnames with
  | identity hspells => exact hspells
  | signature _ hopened _ =>
      exact absurd (mem_of_identity? hread hopened) (by decide)
  | qualified _ _ hcut =>
      have hcolon : ':' ∈ text.toList := by simp [hcut.parts]
      exact absurd (mem_of_identity? hread hcolon) (by decide)

theorem names_iff_same (hword : ¬IsWord text) (hopened : '(' ∈ text.toList) :
    Names text method ↔
      Text.compact text = Text.compact method.signature := by
  constructor
  · intro hnames
    cases hnames with
    | identity hspells => exact absurd hspells.isWord hword
    | signature _ _ hsame => exact hsame
    | qualified _ hunopened _ => exact absurd hopened hunopened
  · exact .signature hword hopened

theorem names_iff_cut (hword : ¬IsWord text) (hunopened : '(' ∉ text.toList) :
    Names text method ↔
      Text.IsFirstCut "::".toList text.toList method.enclosingType.toList
        method.name.toList := by
  constructor
  · intro hnames
    cases hnames with
    | identity hspells => exact absurd hspells.isWord hword
    | signature _ hopened _ => exact absurd hopened hunopened
    | qualified _ _ hcut => exact hcut
  · exact .qualified hword hunopened

theorem SpellsSigned.not_names (hsigned : SpellsSigned text id) :
    ¬Names text method := by
  intro hnames
  have hword := (hnames.spells
    (identity?_eq_some_iff.mpr (Or.inr hsigned))).isWord
  obtain ⟨digits, rfl, -⟩ := hsigned
  exact not_isWord_plus digits hword

end Selector

namespace Method

open Selector (Names Spells SpellsSigned)

variable {method : Method} {selector : String}

theorem matches_of_identity? {id : MethodId}
    (hread : Selector.identity? (Text.trim selector).toList = some id) :
    method.matches selector = true ↔
      Names (Text.trim selector) method ∨
        SpellsSigned (Text.trim selector) method.id := by
  have hparse : Selector.parse selector = .identity id := by
    rw [Selector.parse, hread]
  rw [Method.matches, hparse, Selector.selects, beq_iff_eq]
  generalize Text.trim selector = text at hread
  constructor
  · rintro rfl
    exact (Selector.identity?_eq_some_iff.mp hread).imp_left Names.identity
  · intro hsaid
    have hspelled := Selector.identity?_eq_some_iff.mpr
      (hsaid.imp_left (Names.spells hread))
    exact Option.some.inj (hspelled.symm.trans hread)

theorem matches_of_not_identity?
    (hread : Selector.identity? (Text.trim selector).toList = none) :
    method.matches selector = true ↔
      Names (Text.trim selector) method ∨
        SpellsSigned (Text.trim selector) method.id := by
  rw [Method.matches, Selector.parse, hread]
  generalize Text.trim selector = text at hread
  obtain ⟨hword, hsigned⟩ := Selector.identity?_eq_none_iff.mp hread
  rw [or_iff_left (hsigned method.id)]
  dsimp only
  by_cases hopened : '(' ∈ text.toList
  · rw [if_pos (List.contains_iff_mem.mpr hopened), Selector.selects,
      beq_iff_eq, Selector.names_iff_same hword hopened]
    exact eq_comm
  · rw [if_neg (mt List.contains_iff_mem.mp hopened),
      Selector.names_iff_cut hword hopened, ← Text.cutAt?_eq_some_iff]
    cases hcut : Text.cutAt? [':', ':'] text.toList with
    | none => simp [Selector.selects, hcut]
    | some parts =>
        simp [Selector.selects, hcut, Prod.ext_iff, ← String.toList_inj]

/-- Nothing in the type and the name is taken for a mark between them. -/
def IsPlain (method : Method) : Prop :=
  ∀ character ∈ method.enclosingType.toList ++ method.name.toList,
    character ≠ '(' ∧ character ≠ ':' ∧ Text.isBlank character = false

instance : DecidablePred IsPlain := fun method =>
  List.decidableBAll _ (method.enclosingType.toList ++ method.name.toList)

theorem names_signature (method : Method) :
    Names (Text.trim method.signature) method := by
  have hopened : '(' ∈ (Text.trim method.signature).toList := by
    have hmem : '(' ∈ (Text.compact method.signature).toList :=
      Text.mem_compact.mpr ⟨by simp [signature], by decide⟩
    rw [← Text.compact_trim] at hmem
    exact (Text.mem_compact.mp hmem).1
  have hword : ¬Selector.IsWord (Text.trim method.signature) := fun hword =>
    absurd (hword.digits '(' hopened) (by decide)
  exact .signature hword hopened (Text.compact_trim method.signature)

theorem names_qualifiedName (hplain : method.IsPlain) :
    Names (Text.trim method.qualifiedName) method := by
  have hname : method.qualifiedName.toList =
      method.enclosingType.toList ++ "::".toList ++ method.name.toList := by
    simp [qualifiedName]
  have hmem : ∀ character ∈ method.qualifiedName.toList,
      character ≠ '(' ∧ Text.isBlank character = false := by
    rw [hname]
    intro character hcharacter
    simp only [List.mem_append] at hcharacter
    rcases hcharacter with (htype | hmark) | hname
    · have hpart := hplain character (List.mem_append_left _ htype)
      exact ⟨hpart.1, hpart.2.2⟩
    · obtain rfl : character = ':' := by simpa using hmark
      decide
    · have hpart := hplain character (List.mem_append_right _ hname)
      exact ⟨hpart.1, hpart.2.2⟩
  rw [Text.trim_of_forall fun character hcharacter =>
    (hmem character hcharacter).2]
  refine .qualified (fun hword => ?_) (fun hopened => (hmem _ hopened).1 rfl) ?_
  · exact absurd (hword.digits ':' (by simp [hname])) (by decide)
  · rw [hname]
    refine Text.isFirstCut_of_not_mem (fun hcolon => ?_) _
    exact (hplain ':' (List.mem_append_left _ hcolon)).2.1 rfl

theorem spells_hexWord (id : MethodId) : Spells (Text.hexWord id.word) id := by
  rw [Selector.spells_iff, ← String.length_toList, Text.hexWord,
    String.toList_ofList, Text.length_fixedDigits, Text.readDigits?_fixedDigits,
    Nat.mod_eq_of_lt id.word.toNat_lt]
  exact ⟨rfl, rfl⟩

theorem names_hexWord (method : Method) :
    Names (Text.trim (Text.hexWord method.id.word)) method := by
  have hspells := spells_hexWord method.id
  rw [Text.trim_of_forall fun character hcharacter =>
    (hspells.isWord.digits character hcharacter).isBlank_eq_false]
  exact .identity hspells

theorem matches_eq_true_iff :
    method.matches selector = true ↔
      Names (Text.trim selector) method ∨
        SpellsSigned (Text.trim selector) method.id := by
  cases hread : Selector.identity? (Text.trim selector).toList with
  | none => exact matches_of_not_identity? hread
  | some id => exact matches_of_identity? hread

/-- A method matches the selectors that name it, and those that spell its
identity with a sign, which names nothing.  It matches its own signature, its
identity as it is printed and, if they are plain, its type and name. -/
theorem matches_iff_named (method : Method) :
    (∀ selector : String,
      (method.matches selector = true ↔
        Names (Text.trim selector) method ∨
          SpellsSigned (Text.trim selector) method.id) ∧
      ¬(Names (Text.trim selector) method ∧
        SpellsSigned (Text.trim selector) method.id)) ∧
    method.matches method.signature = true ∧
    method.matches (Text.hexWord method.id.word) = true ∧
    (method.IsPlain → method.matches method.qualifiedName = true) := by
  refine ⟨fun selector => ⟨matches_eq_true_iff, ?_⟩, ?_, ?_, fun hplain => ?_⟩
  · exact fun ⟨hnames, hsigned⟩ => hsigned.not_names hnames
  · exact matches_eq_true_iff.mpr (Or.inl (names_signature method))
  · exact matches_eq_true_iff.mpr (Or.inl (names_hexWord method))
  · exact matches_eq_true_iff.mpr (Or.inl (names_qualifiedName hplain))

end Method

namespace Sample

def storeRead : Method := .declare ⟨"Store.java"⟩ "Store" "read" []

theorem storeRead_isNamed :
    storeRead.IsPlain ∧ storeRead.matches "Store::read" = true := by
  have hplain : storeRead.IsPlain := by decide
  exact ⟨hplain, (Method.matches_iff_named storeRead).2.2.2 hplain⟩

/-- Fifteen digits and a sign are taken for sixteen digits. -/
theorem storeRead_matchesSigned :
    storeRead.matches "+6bdbf975a790790" = true ∧
      ¬Selector.Names (Text.trim "+6bdbf975a790790") storeRead := by
  have hsigned : Selector.SpellsSigned (Text.trim "+6bdbf975a790790")
      storeRead.id :=
    ⟨"6bdbf975a790790", by decide +kernel, by decide +kernel⟩
  exact ⟨by decide +kernel, hsigned.not_names⟩

end Sample

end CallGraph
