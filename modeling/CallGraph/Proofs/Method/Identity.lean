import CallGraph.Proofs.Plan
import CallGraph.Proofs.Text.Utf8

namespace CallGraph

namespace Utf8

theorem toNat_le_of_mem_encodeChar {character : Char} {byte : UInt8}
    (hbyte : byte ∈ encodeChar character) : byte.toNat ≤ 0xF4 := by
  have hvalid : character.toNat < 0x110000 :=
    character.valid.elim (fun hlow => Nat.lt_trans hlow (by decide)) And.right
  have hcontinuation : ∀ number,
      (UInt8.ofNat (0x80 + number % 0x40)).toNat ≤ 0xF4 := by
    intro number
    rw [toNat_continuation]
    omega
  unfold encodeChar at hbyte
  dsimp only at hbyte
  generalize character.toNat = code at hbyte hvalid
  split at hbyte
  · rw [List.mem_singleton.mp hbyte, toNat_ofNat (by omega)]
    omega
  · split at hbyte
    · simp only [List.mem_cons, List.not_mem_nil, or_false] at hbyte
      rcases hbyte with rfl | rfl
      · rw [toNat_ofNat (by omega)]
        omega
      · exact hcontinuation _
    · split at hbyte
      · simp only [List.mem_cons, List.not_mem_nil, or_false] at hbyte
        rcases hbyte with rfl | rfl | rfl
        · rw [toNat_ofNat (by omega)]
          omega
        · exact hcontinuation _
        · exact hcontinuation _
      · simp only [List.mem_cons, List.not_mem_nil, or_false] at hbyte
        rcases hbyte with rfl | rfl | rfl | rfl
        · rw [toNat_ofNat (by omega)]
          omega
        · exact hcontinuation _
        · exact hcontinuation _
        · exact hcontinuation _

theorem encode_injective : Function.Injective encode := by
  intro first second hsame
  have hdecoded := congrArg decode hsame
  rw [decode_encode, decode_encode] at hdecoded
  exact Except.ok.inj hdecoded

end Utf8

namespace Digest

theorem endMark_not_mem (text : String) : 0xFF ∉ Utf8.encode text := by
  intro hmark
  obtain ⟨character, -, hbyte⟩ := List.mem_flatMap.mp hmark
  exact absurd (Utf8.toNat_le_of_mem_encodeChar hbyte) (by decide)

theorem append_mark_inj {mark : UInt8} {first second rest others : List UInt8}
    (hfirst : mark ∉ first) (hsecond : mark ∉ second) :
    first ++ mark :: rest = second ++ mark :: others ↔
      first = second ∧ rest = others := by
  induction first generalizing second with
  | nil =>
      cases second with
      | nil => simp
      | cons head second =>
          simp [List.ne_of_not_mem_cons hsecond]
  | cons byte first ih =>
      cases second with
      | nil => simp [(List.ne_of_not_mem_cons hfirst).symm]
      | cons head second =>
          rw [List.cons_append, List.cons_append, List.cons.injEq,
            ih (List.not_mem_of_not_mem_cons hfirst)
              (List.not_mem_of_not_mem_cons hsecond), List.cons.injEq,
            and_assoc]

theorem textBytes_append_inj {first second : String}
    {rest others : List UInt8} :
    textBytes first ++ rest = textBytes second ++ others ↔
      first = second ∧ rest = others := by
  unfold textBytes
  rw [List.append_assoc, List.append_assoc, List.singleton_append,
    List.singleton_append, append_mark_inj (endMark_not_mem first)
      (endMark_not_mem second), Utf8.encode_injective.eq_iff]

theorem textBytes_ne_nil (text : String) : textBytes text ≠ [] := by
  simp [textBytes]

theorem flatMap_textBytes_inj {texts others : List String} :
    texts.flatMap textBytes = others.flatMap textBytes ↔ texts = others := by
  induction texts generalizing others with
  | nil => cases others <;> simp [textBytes_ne_nil]
  | cons text rest ih =>
      cases others with
      | nil => simp [textBytes_ne_nil]
      | cons other more =>
          rw [List.flatMap_cons, List.flatMap_cons, textBytes_append_inj, ih,
            List.cons.injEq]

/-- Two inputs with one digest. -/
structure Collides (first second : List UInt8) : Prop where
  apart : first ≠ second
  same : ofBytes first = ofBytes second

end Digest

namespace Method

variable {source source' : SourceUnit} {enclosingType enclosingType' : String}
  {name name' : String} {params params' : List Param}

theorem identityBytes_eq (source : SourceUnit) (enclosingType name : String)
    (params : List Param) :
    identityBytes source enclosingType name params =
      (source.path :: enclosingType :: name ::
        params.map Param.type).flatMap Digest.textBytes := by
  simp only [identityBytes, List.flatMap_cons, List.flatMap_map,
    List.append_assoc]

theorem identityBytes_inj :
    identityBytes source enclosingType name params =
        identityBytes source' enclosingType' name' params' ↔
      source = source' ∧ enclosingType = enclosingType' ∧ name = name' ∧
        params.map Param.type = params'.map Param.type := by
  have hpath : source.path = source'.path ↔ source = source' :=
    ⟨SourceUnit.eq_of_path_eq, congrArg SourceUnit.path⟩
  rw [identityBytes_eq, identityBytes_eq, Digest.flatMap_textBytes_inj]
  simp only [List.cons.injEq, hpath]

/-- Two declarations have one identity if they are the same but for the names of
their parameters, or if the digest does not tell their bytes apart. -/
theorem identity_unambiguous (source source' : SourceUnit)
    (enclosingType enclosingType' name name' : String)
    (params params' : List Param) :
    (identityBytes source enclosingType name params =
        identityBytes source' enclosingType' name' params' ↔
      source = source' ∧ enclosingType = enclosingType' ∧ name = name' ∧
        params.map Param.type = params'.map Param.type) ∧
    (identity source enclosingType name params =
        identity source' enclosingType' name' params' ↔
      (source = source' ∧ enclosingType = enclosingType' ∧ name = name' ∧
        params.map Param.type = params'.map Param.type) ∨
      Digest.Collides (identityBytes source enclosingType name params)
        (identityBytes source' enclosingType' name' params')) := by
  refine ⟨identityBytes_inj, ?_⟩
  rw [← identityBytes_inj, identity, identity, MethodId.mk.injEq]
  constructor
  · intro hsame
    by_cases hbytes : identityBytes source enclosingType name params =
        identityBytes source' enclosingType' name' params'
    · exact Or.inl hbytes
    · exact Or.inr ⟨hbytes, hsame⟩
  · rintro (hbytes | hcollides)
    · rw [hbytes]
    · exact hcollides.same

end Method

end CallGraph
