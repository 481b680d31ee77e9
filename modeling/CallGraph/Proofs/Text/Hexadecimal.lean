import Mathlib.Data.List.Induction
import CallGraph.Proofs.Text.Digits
import CallGraph.Text.Blank

namespace CallGraph.Text

def IsHexDigit (character : Char) : Prop :=
  ('0' ≤ character ∧ character ≤ '9') ∨ ('a' ≤ character ∧ character ≤ 'f') ∨
    ('A' ≤ character ∧ character ≤ 'F')

instance : DecidablePred IsHexDigit := fun _ =>
  inferInstanceAs (Decidable (_ ∨ _))

theorem isHexDigit_iff {character : Char} :
    IsHexDigit character ↔
      (48 ≤ character.toNat ∧ character.toNat ≤ 57) ∨
        (97 ≤ character.toNat ∧ character.toNat ≤ 102) ∨
          (65 ≤ character.toNat ∧ character.toNat ≤ 70) := by
  simp only [IsHexDigit, Char.le_def, UInt32.le_iff_toNat_le]
  rfl

theorem IsHexDigit.isAscii {character : Char}
    (hdigit : IsHexDigit character) : character.toNat < 0x80 := by
  rw [isHexDigit_iff] at hdigit
  omega

theorem IsHexDigit.isBlank_eq_false {character : Char}
    (hdigit : IsHexDigit character) : isBlank character = false := by
  rw [isHexDigit_iff] at hdigit
  simp only [isBlank, Bool.or_eq_false_iff, Bool.and_eq_false_iff,
    decide_eq_false_iff_not, beq_eq_false_iff_ne]
  omega

theorem toNat_toLower (character : Char) :
    character.toLower.toNat =
      if 65 ≤ character.toNat ∧ character.toNat ≤ 90 then
        character.toNat + 32
      else character.toNat := by
  have hcapital : (character.val ≥ 'A'.val ∧ character.val ≤ 'Z'.val) ↔
      65 ≤ character.toNat ∧ character.toNat ≤ 90 := by
    simp only [ge_iff_le, UInt32.le_iff_toNat_le]
    rfl
  unfold Char.toLower
  split
  · rename_i hbetween
    have hcode := hcapital.mp hbetween
    rw [if_pos hcode]
    change (character.val + 32).toNat = character.toNat + 32
    rw [UInt32.toNat_add]
    change (character.toNat + 32) % _ = _
    omega
  · rename_i hbeside
    rw [if_neg (mt hcapital.mpr hbeside)]

theorem toNat_digitChar :
    ∀ digit < 16, (digitChar digit).toNat =
      if digit < 10 then 48 + digit else 87 + digit := by
  decide

theorem digitValue?_eq_some_iff {character : Char} {digit : Nat} :
    digitValue? 16 character = some digit ↔
      digit < 16 ∧ character.toLower = digitChar digit := by
  have hcode : digit < 16 → (character.toLower = digitChar digit ↔
      (if 65 ≤ character.toNat ∧ character.toNat ≤ 90 then
        character.toNat + 32 else character.toNat) =
        if digit < 10 then 48 + digit else 87 + digit) := fun hdigit => by
    rw [← Char.toNat_inj, toNat_toLower, toNat_digitChar digit hdigit]
  rw [and_congr_right hcode]
  unfold digitValue?
  dsimp only
  generalize character.toNat = code
  grind

theorem exists_digitValue?_iff {character : Char} :
    (∃ digit, digitValue? 16 character = some digit) ↔
      IsHexDigit character := by
  rw [isHexDigit_iff, ← Option.isSome_iff_exists]
  unfold digitValue?
  dsimp only
  generalize character.toNat = code
  grind

/-- A number is read from the digits that write it in as many places, and from
these in capital letters. -/
theorem readDigits?_eq_some_iff {characters : List Char} {number : Nat} :
    readDigits? 16 characters = some number ↔
      number < Nat.pow 16 characters.length ∧
        characters.map Char.toLower =
          fixedDigits 16 characters.length number := by
  -- The last digit is the remainder, and those before it read as the quotient.
  induction characters using List.reverseRecOn generalizing number with
  | nil =>
      change some 0 = some number ↔ number < 1 ∧ [] = []
      simp [eq_comm]
  | append_singleton front last ih =>
      have hpow : Nat.pow 16 (front.length + 1) =
          Nat.pow 16 front.length * 16 := rfl
      rw [readDigits?_concat, Option.bind_eq_some_iff, List.length_append,
        List.length_singleton, List.map_append, fixedDigits, hpow]
      constructor
      · rintro ⟨total, htotal, hlast⟩
        obtain ⟨digit, hdigit, rfl⟩ := Option.map_eq_some_iff.mp hlast
        obtain ⟨hbound, hfront⟩ := ih.mp htotal
        obtain ⟨hsmall, hchar⟩ := digitValue?_eq_some_iff.mp hdigit
        have hdiv : (total * 16 + digit) / 16 = total := by omega
        have hmod : (total * 16 + digit) % 16 = digit := by omega
        rw [hdiv, hmod, hfront, ← hchar]
        exact ⟨by omega, rfl⟩
      · rintro ⟨hbound, hsame⟩
        obtain ⟨hfront, hlast⟩ := List.append_inj' hsame rfl
        have hdigit : digitValue? 16 last = some (number % 16) :=
          digitValue?_eq_some_iff.mpr
            ⟨Nat.mod_lt _ (by decide), (List.cons.inj hlast).1⟩
        refine ⟨number / 16, ih.mpr ⟨by omega, hfront⟩, ?_⟩
        rw [hdigit]
        exact congrArg some (Nat.div_add_mod' number 16)

theorem exists_readDigits?_iff {characters : List Char} :
    (∃ number, readDigits? 16 characters = some number) ↔
      ∀ character ∈ characters, IsHexDigit character := by
  induction characters using List.reverseRecOn with
  | nil => simp [readDigits?]
  | append_singleton front last ih =>
      rw [List.forall_mem_append, List.forall_mem_singleton, ← ih,
        ← exists_digitValue?_iff]
      constructor
      · rintro ⟨number, hnumber⟩
        rw [readDigits?_concat] at hnumber
        obtain ⟨total, htotal, hlast⟩ := Option.bind_eq_some_iff.mp hnumber
        obtain ⟨digit, hdigit, -⟩ := Option.map_eq_some_iff.mp hlast
        exact ⟨⟨total, htotal⟩, digit, hdigit⟩
      · rintro ⟨⟨total, htotal⟩, digit, hdigit⟩
        refine ⟨total * 16 + digit, ?_⟩
        rw [readDigits?_concat, htotal, hdigit]
        rfl

end CallGraph.Text
