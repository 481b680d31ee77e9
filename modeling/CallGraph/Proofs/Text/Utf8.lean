import CallGraph.Text.Utf8

namespace CallGraph.Utf8

theorem isContinuation_iff {byte : UInt8} :
    isContinuation byte = true ↔ 0x80 ≤ byte.toNat ∧ byte.toNat ≤ 0xBF := by
  simp [isContinuation, UInt8.le_iff_toNat_le]

theorem toNat_ofNat {number : Nat} (hnumber : number < 0x100) :
    (UInt8.ofNat number).toNat = number :=
  UInt8.toNat_ofNat_of_lt' hnumber

theorem toNat_continuation (number : Nat) :
    (UInt8.ofNat (0x80 + number % 0x40)).toNat = 0x80 + number % 0x40 :=
  toNat_ofNat (by omega)

theorem isContinuation_ofNat (number : Nat) :
    isContinuation (UInt8.ofNat (0x80 + number % 0x40)) = true := by
  rw [isContinuation_iff, toNat_continuation]
  omega

theorem payload_ofNat (number : Nat) :
    payload (UInt8.ofNat (0x80 + number % 0x40)) = number % 0x40 := by
  rw [payload, toNat_continuation]
  omega

theorem secondByteFits_of {lead second : UInt8}
    (hsecond : 0x80 ≤ second.toNat ∧ second.toNat ≤ 0xBF)
    (hE0 : lead.toNat = 0xE0 → 0xA0 ≤ second.toNat)
    (hED : lead.toNat = 0xED → second.toNat ≤ 0x9F)
    (hF0 : lead.toNat = 0xF0 → 0x90 ≤ second.toNat)
    (hF4 : lead.toNat = 0xF4 → second.toNat ≤ 0x8F) :
    secondByteFits lead second = true := by
  have hbyte : ∀ {byte : UInt8}, (lead == byte) = true ↔
      lead.toNat = byte.toNat := by simp [UInt8.toNat_inj]
  unfold secondByteFits
  split
  · rename_i hlead
    simpa [UInt8.le_iff_toNat_le, hsecond] using hE0 (hbyte.mp hlead)
  · split
    · rename_i hlead
      simpa [UInt8.le_iff_toNat_le, hsecond] using hED (hbyte.mp hlead)
    · split
      · rename_i hlead
        simpa [UInt8.le_iff_toNat_le, hsecond] using hF0 (hbyte.mp hlead)
      · split
        · rename_i hlead
          simpa [UInt8.le_iff_toNat_le, hsecond] using hF4 (hbyte.mp hlead)
        · exact isContinuation_iff.mpr hsecond

section Decode

variable (index : Nat) (rest : List UInt8) {lead second third fourth : UInt8}

theorem decodeFrom_one (hlead : lead.toNat < 0x80) :
    decodeFrom index (lead :: rest) =
      (decodeFrom (index + 1) rest).map (Char.ofNat lead.toNat :: ·) := by
  rw [decodeFrom.eq_def]
  exact if_pos (UInt8.lt_iff_toNat_lt.mpr hlead)

theorem decodeFrom_two (hlead : 0xC2 ≤ lead.toNat ∧ lead.toNat ≤ 0xDF)
    (hsecond : secondByteFits lead second = true) :
    decodeFrom index (lead :: second :: rest) =
      (decodeFrom (index + 2) rest).map
        (Char.ofNat ((lead.toNat - 0xC0) * 0x40 + payload second) :: ·) := by
  have hone : ¬lead.toNat < 0x80 := by omega
  rw [decodeFrom.eq_def]
  simp [UInt8.lt_iff_toNat_lt, UInt8.le_iff_toNat_le, hone, hlead, hsecond]

theorem decodeFrom_three (hlead : 0xE0 ≤ lead.toNat ∧ lead.toNat ≤ 0xEF)
    (hsecond : secondByteFits lead second = true)
    (hthird : isContinuation third = true) :
    decodeFrom index (lead :: second :: third :: rest) =
      (decodeFrom (index + 3) rest).map
        (Char.ofNat ((lead.toNat - 0xE0) * 0x1000 + payload second * 0x40 +
          payload third) :: ·) := by
  have hone : ¬lead.toNat < 0x80 := by omega
  have htwo : ¬lead.toNat ≤ 0xDF := by omega
  rw [decodeFrom.eq_def]
  simp [UInt8.lt_iff_toNat_lt, UInt8.le_iff_toNat_le, hone, htwo, hlead,
    hsecond, hthird]

theorem decodeFrom_four (hlead : 0xF0 ≤ lead.toNat ∧ lead.toNat ≤ 0xF4)
    (hsecond : secondByteFits lead second = true)
    (hthird : isContinuation third = true)
    (hfourth : isContinuation fourth = true) :
    decodeFrom index (lead :: second :: third :: fourth :: rest) =
      (decodeFrom (index + 4) rest).map
        (Char.ofNat ((lead.toNat - 0xF0) * 0x40000 +
          payload second * 0x1000 + payload third * 0x40 +
          payload fourth) :: ·) := by
  have hone : ¬lead.toNat < 0x80 := by omega
  have htwo : ¬lead.toNat ≤ 0xDF := by omega
  have hthree : ¬lead.toNat ≤ 0xEF := by omega
  rw [decodeFrom.eq_def]
  simp [UInt8.lt_iff_toNat_lt, UInt8.le_iff_toNat_le, hone, htwo, hthree,
    hlead, hsecond, hthird, hfourth]

end Decode

theorem decodeFrom_encodeChar (index : Nat) (character : Char)
    (rest : List UInt8) :
    decodeFrom index (encodeChar character ++ rest) =
      (decodeFrom (index + (encodeChar character).length) rest).map
        (character :: ·) := by
  have hvalid : character.toNat < 0xD800 ∨
      0xDFFF < character.toNat ∧ character.toNat < 0x110000 := character.valid
  have hsame : ∀ {code : Nat}, code = character.toNat →
      Char.ofNat code = character := by
    rintro _ rfl
    exact Char.ofNat_toNat character
  unfold encodeChar
  dsimp only
  generalize character.toNat = code at hvalid hsame
  split
  · rw [List.singleton_append, decodeFrom_one _ _ (by rw [toNat_ofNat] <;> omega),
      toNat_ofNat (by omega), hsame rfl]
    rfl
  · split
    · have hlead : (UInt8.ofNat (0xC0 + code / 0x40)).toNat =
          0xC0 + code / 0x40 := toNat_ofNat (by omega)
      refine (decodeFrom_two index rest (by omega) ?_).trans ?_
      · refine secondByteFits_of ?_ ?_ ?_ ?_ ?_ <;>
          rw [toNat_continuation] <;> omega
      · rw [payload_ofNat, hlead, hsame (by omega)]
        rfl
    · split
      · have hlead : (UInt8.ofNat (0xE0 + code / 0x1000)).toNat =
            0xE0 + code / 0x1000 := toNat_ofNat (by omega)
        refine (decodeFrom_three index rest (by omega) ?_
          (isContinuation_ofNat _)).trans ?_
        · refine secondByteFits_of ?_ ?_ ?_ ?_ ?_ <;>
            rw [toNat_continuation] <;> omega
        · rw [payload_ofNat, payload_ofNat, hlead, hsame (by omega)]
          rfl
      · have hlead : (UInt8.ofNat (0xF0 + code / 0x40000)).toNat =
            0xF0 + code / 0x40000 := toNat_ofNat (by omega)
        refine (decodeFrom_four index rest (by omega) ?_
          (isContinuation_ofNat _) (isContinuation_ofNat _)).trans ?_
        · refine secondByteFits_of ?_ ?_ ?_ ?_ ?_ <;>
            rw [toNat_continuation] <;> omega
        · rw [payload_ofNat, payload_ofNat, payload_ofNat, hlead,
            hsame (by omega)]
          rfl

theorem decodeFrom_encodeChars (index : Nat) (characters : List Char) :
    decodeFrom index (encodeChars characters) = .ok characters := by
  induction characters generalizing index with
  | nil => rw [encodeChars, List.flatMap_nil, decodeFrom.eq_def]
  | cons character rest ih =>
      rw [encodeChars, List.flatMap_cons, decodeFrom_encodeChar]
      change (decodeFrom _ (encodeChars rest)).map _ = _
      rw [ih]
      rfl

theorem decode_encode (text : String) : decode (encode text) = .ok text := by
  rw [decode, encode, decodeFrom_encodeChars]
  exact congrArg Except.ok (String.ofList_toList)

/-! Bytes that are read as a text are the bytes of that text: there is no second
way to write a character. -/

theorem bounds_of_secondByteFits {lead second : UInt8}
    (hfits : secondByteFits lead second = true) :
    (0x80 ≤ second.toNat ∧ second.toNat ≤ 0xBF) ∧
      (lead.toNat = 0xE0 → 0xA0 ≤ second.toNat) ∧
      (lead.toNat = 0xED → second.toNat ≤ 0x9F) ∧
      (lead.toNat = 0xF0 → 0x90 ≤ second.toNat) ∧
      (lead.toNat = 0xF4 → second.toNat ≤ 0x8F) := by
  have hbyte : ∀ {byte : UInt8}, (lead == byte) = true ↔
      lead.toNat = byte.toNat := by simp [UInt8.toNat_inj]
  simp only [secondByteFits, isContinuation, hbyte,
    UInt8.le_iff_toNat_le] at hfits
  grind

theorem toNat_charOfNat {code : Nat} (hvalid : code.isValidChar) :
    (Char.ofNat code).toNat = code := by
  rw [Char.ofNat, dif_pos hvalid]
  rfl

theorem ofNat_eq {byte : UInt8} {number : Nat} (heq : number = byte.toNat) :
    UInt8.ofNat number = byte := by
  rw [heq, UInt8.ofNat_toNat]

theorem payload_eq {byte : UInt8}
    (hbyte : 0x80 ≤ byte.toNat ∧ byte.toNat ≤ 0xBF) :
    payload byte = byte.toNat - 0x80 := by
  rw [payload]
  omega

section Encode

variable {lead second third fourth : UInt8}

theorem encodeChar_one (hlead : lead.toNat < 0x80) :
    encodeChar (Char.ofNat lead.toNat) = [lead] := by
  have hcode : (Char.ofNat lead.toNat).toNat = lead.toNat :=
    toNat_charOfNat (Or.inl (by omega))
  simp only [encodeChar, hcode, if_pos hlead, UInt8.ofNat_toNat]

theorem encodeChar_two (hlead : 0xC2 ≤ lead.toNat ∧ lead.toNat ≤ 0xDF)
    (hfits : secondByteFits lead second = true) :
    encodeChar (Char.ofNat ((lead.toNat - 0xC0) * 0x40 + payload second)) =
      [lead, second] := by
  have hsecond := (bounds_of_secondByteFits hfits).1
  rw [payload_eq hsecond]
  generalize hcode : (lead.toNat - 0xC0) * 0x40 + (second.toNat - 0x80) = code
  have hvalid : code.isValidChar := Or.inl (by omega)
  have hfirst : UInt8.ofNat (0xC0 + code / 0x40) = lead := ofNat_eq (by omega)
  have hlast : UInt8.ofNat (0x80 + code % 0x40) = second := ofNat_eq (by omega)
  unfold encodeChar
  dsimp only
  rw [toNat_charOfNat hvalid, if_neg (by omega), if_pos (by omega), hfirst,
    hlast]

theorem encodeChar_three (hlead : 0xE0 ≤ lead.toNat ∧ lead.toNat ≤ 0xEF)
    (hfits : secondByteFits lead second = true)
    (hcontinues : isContinuation third = true) :
    encodeChar (Char.ofNat ((lead.toNat - 0xE0) * 0x1000 +
      payload second * 0x40 + payload third)) = [lead, second, third] := by
  obtain ⟨hsecond, hE0, hED, -, -⟩ := bounds_of_secondByteFits hfits
  have hthird := isContinuation_iff.mp hcontinues
  rw [payload_eq hsecond, payload_eq hthird]
  generalize hcode : (lead.toNat - 0xE0) * 0x1000 +
    (second.toNat - 0x80) * 0x40 + (third.toNat - 0x80) = code
  have hvalid : code < 0xD800 ∨ 0xDFFF < code ∧ code < 0x110000 := by omega
  have hfirst : UInt8.ofNat (0xE0 + code / 0x1000) = lead :=
    ofNat_eq (by omega)
  have hmiddle : UInt8.ofNat (0x80 + code / 0x40 % 0x40) = second :=
    ofNat_eq (by omega)
  have hlast : UInt8.ofNat (0x80 + code % 0x40) = third := ofNat_eq (by omega)
  unfold encodeChar
  dsimp only
  rw [toNat_charOfNat hvalid, if_neg (by omega), if_neg (by omega),
    if_pos (by omega), hfirst, hmiddle, hlast]

theorem encodeChar_four (hlead : 0xF0 ≤ lead.toNat ∧ lead.toNat ≤ 0xF4)
    (hfits : secondByteFits lead second = true)
    (hcontinues : isContinuation third = true)
    (hends : isContinuation fourth = true) :
    encodeChar (Char.ofNat ((lead.toNat - 0xF0) * 0x40000 +
      payload second * 0x1000 + payload third * 0x40 + payload fourth)) =
      [lead, second, third, fourth] := by
  obtain ⟨hsecond, -, -, hF0, hF4⟩ := bounds_of_secondByteFits hfits
  have hthird := isContinuation_iff.mp hcontinues
  have hfourth := isContinuation_iff.mp hends
  rw [payload_eq hsecond, payload_eq hthird, payload_eq hfourth]
  generalize hcode : (lead.toNat - 0xF0) * 0x40000 +
    (second.toNat - 0x80) * 0x1000 + (third.toNat - 0x80) * 0x40 +
      (fourth.toNat - 0x80) = code
  have hvalid : code < 0xD800 ∨ 0xDFFF < code ∧ code < 0x110000 := by omega
  have hfirst : UInt8.ofNat (0xF0 + code / 0x40000) = lead :=
    ofNat_eq (by omega)
  have hmiddle : UInt8.ofNat (0x80 + code / 0x1000 % 0x40) = second :=
    ofNat_eq (by omega)
  have hnext : UInt8.ofNat (0x80 + code / 0x40 % 0x40) = third :=
    ofNat_eq (by omega)
  have hlast : UInt8.ofNat (0x80 + code % 0x40) = fourth := ofNat_eq (by omega)
  unfold encodeChar
  dsimp only
  rw [toNat_charOfNat hvalid, if_neg (by omega), if_neg (by omega),
    if_neg (by omega), hfirst, hmiddle, hnext, hlast]

end Encode

theorem encodeChars_of_map {front : Char} {bytes rest : List UInt8}
    {read : Except Fault (List Char)} {characters : List Char}
    (hfront : encodeChar front = bytes)
    (hmap : read.map (front :: ·) = .ok characters)
    (hread : ∀ {more}, read = .ok more → encodeChars more = rest) :
    encodeChars characters = bytes ++ rest := by
  cases read with
  | error fault => cases hmap
  | ok more =>
      cases hmap
      rw [encodeChars, List.flatMap_cons, hfront]
      exact congrArg (bytes ++ ·) (hread rfl)

theorem within_iff {byte least most : UInt8} :
    (decide (least ≤ byte) && decide (byte ≤ most)) = true ↔
      least.toNat ≤ byte.toNat ∧ byte.toNat ≤ most.toNat := by
  simp [UInt8.le_iff_toNat_le]

theorem encodeChars_of_decodeFrom {index : Nat} {bytes : List UInt8}
    {characters : List Char} (hdecode : decodeFrom index bytes = .ok characters) :
    encodeChars characters = bytes := by
  fun_induction decodeFrom index bytes generalizing characters
  case case1 =>
    cases hdecode
    rfl
  case case2 index lead rest hlead ih =>
    exact encodeChars_of_map (encodeChar_one (UInt8.lt_iff_toNat_lt.mp hlead))
      hdecode ih
  case case4 index lead _ hlead second rest hsecond ih =>
    exact encodeChars_of_map (encodeChar_two (within_iff.mp hlead) hsecond)
      hdecode ih
  case case8 index lead _ _ hlead second hsecond third rest hthird ih =>
    exact encodeChars_of_map
      (encodeChar_three (within_iff.mp hlead) hsecond hthird) hdecode ih
  case case14 index lead _ _ _ hlead second hsecond third hthird fourth rest
      hfourth ih =>
    exact encodeChars_of_map
      (encodeChar_four (within_iff.mp hlead) hsecond hthird hfourth) hdecode ih
  -- Otherwise the bytes end inside a character or one of them does not fit.
  all_goals cases hdecode

theorem encode_decode {bytes : List UInt8} {text : String}
    (hdecode : decode bytes = .ok text) : encode text = bytes := by
  unfold decode at hdecode
  cases hfrom : decodeFrom 0 bytes with
  | error fault =>
      rw [hfrom] at hdecode
      cases hdecode
  | ok characters =>
      rw [hfrom] at hdecode
      cases hdecode
      rw [encode, String.toList_ofList]
      exact encodeChars_of_decodeFrom hfrom

theorem encodeChar_of_isAscii {character : Char}
    (hcode : character.toNat < 0x80) :
    encodeChar character = [UInt8.ofNat character.toNat] := by
  rw [encodeChar]
  exact if_pos hcode

theorem length_encodeChars {characters : List Char}
    (hascii : ∀ character ∈ characters, character.toNat < 0x80) :
    (encodeChars characters).length = characters.length := by
  induction characters with
  | nil => rfl
  | cons first rest ih =>
      obtain ⟨hfirst, hrest⟩ := List.forall_mem_cons.mp hascii
      rw [encodeChars, List.flatMap_cons, encodeChar_of_isAscii hfirst,
        List.singleton_append, List.length_cons, List.length_cons,
        ← encodeChars, ih hrest]

end CallGraph.Utf8
