import CallGraph.Text.Digits

namespace CallGraph.Text

theorem readDigits?_concat (base : Nat) (characters : List Char)
    (last : Char) :
    readDigits? base (characters ++ [last]) =
      (readDigits? base characters).bind fun total =>
        (digitValue? base last).map (total * base + ·) := by
  unfold readDigits?
  rw [List.foldl_append]
  generalize characters.foldl _ _ = total?
  cases total? with
  | none => rfl
  | some total =>
      change ((digitValue? base last).bind fun digit =>
        some (total * base + digit)) = _
      cases digitValue? base last <;> rfl

theorem digitValue?_decimal :
    ∀ digit < 10, digitValue? 10 (digitChar digit) = some digit := by
  decide

theorem digitValue?_hexadecimal :
    ∀ digit < 16, digitValue? 16 (digitChar digit) = some digit := by
  decide

theorem readDigits?_decimalDigits (number : Nat) :
    readDigits? 10 (decimalDigits number) = some number := by
  induction number using Nat.strongRecOn with
  | ind number ih =>
      rw [decimalDigits]
      split
      · rename_i hsmall
        have hdigit := digitValue?_decimal number hsmall
        change readDigits? 10 ([] ++ [digitChar number]) = _
        rw [readDigits?_concat, hdigit]
        exact congrArg some (Nat.zero_add number)
      · have hdigit := digitValue?_decimal (number % 10) (by omega)
        rw [readDigits?_concat, ih (number / 10) (by omega), hdigit]
        change some (number / 10 * 10 + number % 10) = _
        rw [Nat.div_add_mod']

theorem readDigits?_fixedDigits (width number : Nat) :
    readDigits? 16 (fixedDigits 16 width number) =
      some (number % Nat.pow 16 width) := by
  induction width generalizing number with
  | zero => exact congrArg some (Nat.mod_one number).symm
  | succ width ih =>
      have hdigit := digitValue?_hexadecimal (number % 16)
        (Nat.mod_lt _ (by decide))
      have hpow : Nat.pow 16 (width + 1) = 16 * Nat.pow 16 width :=
        Nat.mul_comm _ _
      rw [fixedDigits, readDigits?_concat, ih, hdigit, hpow, Nat.mod_mul]
      change some (number / 16 % Nat.pow 16 width * 16 + number % 16) = _
      rw [Nat.mul_comm, Nat.add_comm]

theorem length_fixedDigits (base width number : Nat) :
    (fixedDigits base width number).length = width := by
  induction width generalizing number with
  | zero => rfl
  | succ width ih =>
      rw [fixedDigits, List.length_append, ih]
      rfl

theorem mem_fixedDigits {base width number : Nat} (hbase : 0 < base)
    {character : Char} (hmem : character ∈ fixedDigits base width number) :
    ∃ digit < base, character = digitChar digit := by
  induction width generalizing number with
  | zero => cases hmem
  | succ width ih =>
      rcases List.mem_append.mp hmem with hfront | hlast
      · exact ih hfront
      · exact ⟨number % base, Nat.mod_lt _ hbase, List.mem_singleton.mp hlast⟩

theorem mem_decimalDigits {number : Nat} {character : Char}
    (hmem : character ∈ decimalDigits number) :
    ∃ digit < 10, character = digitChar digit := by
  induction number using Nat.strongRecOn with
  | ind number ih =>
      rw [decimalDigits] at hmem
      split at hmem
      · rename_i hsmall
        exact ⟨number, hsmall, List.mem_singleton.mp hmem⟩
      · rcases List.mem_append.mp hmem with hfront | hlast
        · exact ih (number / 10) (by omega) hfront
        · exact ⟨number % 10, Nat.mod_lt _ (by decide),
            List.mem_singleton.mp hlast⟩

theorem exists_decimalDigits (number : Nat) :
    ∃ digit rest, decimalDigits number = digitChar digit :: rest ∧
      digit < 10 ∧ (digit = 0 → rest = []) := by
  induction number using Nat.strongRecOn with
  | ind number ih =>
      rw [decimalDigits]
      split
      · rename_i hsmall
        exact ⟨number, [], rfl, hsmall, fun _ => rfl⟩
      · obtain ⟨digit, rest, hdigits, hsmall, hzero⟩ :=
          ih (number / 10) (by omega)
        refine ⟨digit, rest ++ [digitChar (number % 10)], by rw [hdigits]; rfl,
          hsmall, fun hdigit => ?_⟩
        -- A leading zero would be all of a number that is not zero.
        have hread := readDigits?_decimalDigits (number / 10)
        rw [hdigits, hzero hdigit, hdigit] at hread
        have : number / 10 = 0 := (Option.some.inj hread).symm
        omega

end CallGraph.Text
