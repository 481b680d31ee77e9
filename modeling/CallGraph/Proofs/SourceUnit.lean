import CallGraph.Proofs.Path

namespace CallGraph

namespace Path

variable {root path : Path}

theorem exists_of_isAbsolute (habsolute : path.isAbsolute = true) :
    ∃ rest, path = ⟨String.ofList ('/' :: rest)⟩ := by
  obtain ⟨rest, hrest⟩ := List.head?_eq_some_iff.mp (eq_of_beq habsolute)
  exact ⟨rest, eq_ofList hrest⟩

theorem components_of_isAbsolute (habsolute : path.isAbsolute = true) :
    ∃ pieces : List Component, path.components = .root :: pieces ∧
      ∀ piece ∈ pieces, IsPiece piece := by
  obtain ⟨rest, rfl⟩ := exists_of_isAbsolute habsolute
  exact ⟨named rest, components_slash rest, fun _ => isPiece_of_mem_named⟩

theorem text_ne_of_isAbsolute (habsolute : path.isAbsolute = true) :
    path.text ≠ "" := by
  intro htext
  unfold isAbsolute at habsolute
  rw [htext] at habsolute
  cases habsolute

def relativeComponents (root path : Path) : List Component :=
  if path.startsWith root then
    path.components.drop root.components.length
  else path.components

theorem joined_root (pieces : List Component) :
    ∃ rest, joined (.root :: pieces) = '/' :: rest ∧
      named rest = named (joined pieces) := by
  cases pieces with
  | nil => exact ⟨[], rfl, rfl⟩
  | cons first rest =>
      refine ⟨'/' :: joined (first :: rest), ?_, named_append [] _⟩
      simp only [joined, joinPieces, List.map_cons]
      rw [List.intercalate_cons_cons]
      rfl

theorem components_join_relative (hroot : root.isAbsolute = true)
    (hpath : path.isAbsolute = true) :
    (root.join ⟨String.ofList
        (joined (relativeComponents root path))⟩).components =
      path.components := by
  unfold relativeComponents
  split
  · rename_i hbelow
    obtain ⟨below, hbelow⟩ := List.isPrefixOf_iff_prefix.mp hbelow
    obtain ⟨above, habove, -⟩ := components_of_isAbsolute hroot
    have hsome : 0 < root.components.length := by
      rw [habove]
      exact Nat.succ_pos _
    have hdrop : path.components.drop root.components.length = below := by
      rw [← hbelow, List.drop_left]
    have hpieces : ∀ piece ∈ below, IsPiece piece := by
      intro piece hpiece
      rw [← hdrop] at hpiece
      exact isPiece_of_mem_drop hsome hpiece
    rw [hdrop, ← hbelow,
      components_join (text_ne_of_isAbsolute hroot)
        (isAbsolute_of_isLoose (isLoose_joined hpieces)),
      String.toList_ofList, named_joined hpieces]
  · obtain ⟨pieces, hcomponents, hpieces⟩ := components_of_isAbsolute hpath
    obtain ⟨rest, hjoined, hrest⟩ := joined_root pieces
    have habsolute : (Path.mk (String.ofList ('/' :: rest))).isAbsolute =
        true := by simp [isAbsolute]
    rw [hcomponents, hjoined]
    unfold join
    rw [if_pos habsolute, components_slash, hrest, named_joined hpieces]

end Path

namespace SourceUnit

variable {root path : Path}

theorem ofPath_eq (hroot : root.isAbsolute = true) :
    ofPath root path = ⟨String.intercalate "/"
      ((Path.relativeComponents root path).map Path.Component.text)⟩ := by
  have hsome : 0 < root.components.length := by
    obtain ⟨_, habove, _⟩ := Path.components_of_isAbsolute hroot
    rw [habove]
    exact Nat.succ_pos _
  unfold ofPath Path.below? Path.relativeComponents
  dsimp only
  split
  · rw [Option.getD_some, Path.components_behind path hsome]
  · rw [Option.getD_none]

/-- The unit of a file leads back to its path, whether this lies below the root
or not.  Two paths have the same unit exactly if they have the same
components. -/
theorem ofPath_identifies (hroot : root.isAbsolute = true)
    (hpath : path.isAbsolute = true) :
    ((ofPath root path).toPath root).components = path.components ∧
      ∀ other : Path, other.isAbsolute = true →
        (ofPath root path = ofPath root other ↔
          path.components = other.components) := by
  have hback : ∀ other : Path, other.isAbsolute = true →
      ((ofPath root other).toPath root).components = other.components := by
    intro other hother
    have hnamed : Path.mk (ofPath root other).path = ⟨String.ofList
        (Path.joined (Path.relativeComponents root other))⟩ := by
      rw [ofPath_eq hroot]
      exact Path.eq_ofList (Path.toList_intercalate_text _)
    unfold toPath
    rw [hnamed]
    exact Path.components_join_relative hroot hother
  refine ⟨hback path hpath, fun other hother =>
    ⟨fun hsame => ?_, fun hsame => ?_⟩⟩
  · rw [← hback path hpath, hsame, hback other hother]
  · rw [ofPath_eq hroot, ofPath_eq hroot]
    unfold Path.relativeComponents Path.startsWith
    rw [hsame]

end SourceUnit

namespace Sample

theorem outsidePath_identified :
    (Path.mk "/p/").isAbsolute = true ∧
      (Path.mk "/q/.//../p2//A.java/").isAbsolute = true ∧
      SourceUnit.ofPath ⟨"/p/"⟩ ⟨"/q/.//../p2//A.java/"⟩ =
        ⟨"//q/../p2/A.java"⟩ ∧
      ((SourceUnit.ofPath ⟨"/p/"⟩ ⟨"/q/.//../p2//A.java/"⟩).toPath
          ⟨"/p/"⟩).components =
        (Path.mk "/q/.//../p2//A.java/").components ∧
      SourceUnit.ofPath ⟨"/p/"⟩ ⟨"/q/.//../p2//A.java/"⟩ ≠
        SourceUnit.ofPath ⟨"/p/"⟩ ⟨"/p//q/../p2/A.java"⟩ := by
  have hroot : (Path.mk "/p/").isAbsolute = true := by decide +kernel
  have hpath : (Path.mk "/q/.//../p2//A.java/").isAbsolute = true := by
    decide +kernel
  obtain ⟨hback, hsame⟩ := SourceUnit.ofPath_identifies hroot hpath
  refine ⟨hroot, hpath, by decide +kernel, hback, ?_⟩
  rw [ne_eq, hsame ⟨"/p//q/../p2/A.java"⟩ (by decide +kernel)]
  decide +kernel

end Sample

end CallGraph
