import CallGraph.Plan
import CallGraph.Proofs.Keyed

namespace CallGraph

open Keyed (key)

namespace SourceUnit

theorem eq_of_path_eq {first second : SourceUnit}
    (hpath : first.path = second.path) : first = second := by
  cases first
  cases second
  exact congrArg SourceUnit.mk hpath

theorem contains_iff_mem {units : UnitSet} {source : SourceUnit} :
    units.contains source = true ↔ source ∈ units := by
  constructor
  · intro hcontains
    obtain ⟨found, hfound, hkey⟩ := KeyedSet.contains_iff.mp hcontains
    rwa [← eq_of_path_eq hkey]
  · exact KeyedSet.contains_of_mem

theorem mem_ofList {entries : List SourceUnit} {source : SourceUnit} :
    source ∈ (KeyedSet.ofList entries : UnitSet) ↔ source ∈ entries := by
  constructor
  · exact KeyedSet.mem_of_mem_ofList
  · intro hmem
    obtain ⟨found, hfound, hkey⟩ :=
      KeyedSet.exists_mem_ofList.mpr ⟨source, hmem, rfl⟩
    rwa [← eq_of_path_eq hkey]

end SourceUnit

namespace VersionMap

variable {versions : VersionMap} {source : SourceUnit} {token : VersionToken}

theorem token?_eq_some_iff :
    versions.token? source = some token ↔ ⟨source, token⟩ ∈ versions := by
  unfold token?
  rw [Option.map_eq_some_iff]
  constructor
  · rintro ⟨found, hfind, rfl⟩
    obtain ⟨hmem, hkey⟩ := KeyedSet.find?_eq_some_iff.mp hfind
    have hsource : found.source = source := SourceUnit.eq_of_path_eq hkey
    rwa [← hsource]
  · intro hmem
    exact ⟨⟨source, token⟩, KeyedSet.find?_eq_some_iff.mpr ⟨hmem, rfl⟩, rfl⟩

theorem records_iff :
    versions.records source = true ↔ ∃ token, ⟨source, token⟩ ∈ versions := by
  unfold records
  rw [KeyedSet.has_iff]
  constructor
  · rintro ⟨⟨found, token⟩, hmem, hkey⟩
    have hsource : found = source := SourceUnit.eq_of_path_eq hkey
    exact ⟨token, hsource ▸ hmem⟩
  · rintro ⟨token, hmem⟩
    exact ⟨⟨source, token⟩, hmem, rfl⟩

theorem records_of_mem {version : UnitVersion} (hmem : version ∈ versions) :
    versions.records version.source = true :=
  records_iff.mpr ⟨version.token, hmem⟩

theorem token_unique {first second : VersionToken}
    (hfirst : ⟨source, first⟩ ∈ versions)
    (hsecond : ⟨source, second⟩ ∈ versions) : first = second :=
  congrArg UnitVersion.token (KeyedSet.eq_of_key_eq hfirst hsecond rfl)

theorem mem_units :
    source ∈ versions.units ↔ versions.records source = true := by
  unfold units
  rw [SourceUnit.mem_ofList, List.mem_map, records_iff]
  constructor
  · rintro ⟨⟨found, token⟩, hmem, rfl⟩
    exact ⟨token, hmem⟩
  · rintro ⟨token, hmem⟩
    exact ⟨⟨source, token⟩, hmem, rfl⟩

end VersionMap

namespace ChangeSet

variable {previous current : VersionMap} {failed : UnitSet}
  {source : SourceUnit}

theorem mem_unitsWhere {versions : VersionMap} {keep : UnitVersion → Bool} :
    source ∈ unitsWhere versions keep ↔
      ∃ token, ⟨source, token⟩ ∈ versions ∧ keep ⟨source, token⟩ = true := by
  unfold unitsWhere
  simp only [VersionMap.mem_units, VersionMap.records_iff, KeyedSet.mem_filter]

theorem mem_added :
    source ∈ (between previous failed current).added ↔
      current.records source = true ∧ previous.records source = false := by
  simp only [between, mem_unitsWhere, VersionMap.records_iff,
    Bool.not_eq_true']
  grind

theorem mem_removed :
    source ∈ (between previous failed current).removed ↔
      previous.records source = true ∧ current.records source = false := by
  simp only [between, mem_unitsWhere, VersionMap.records_iff,
    Bool.not_eq_true']
  grind

theorem mem_changed :
    source ∈ (between previous failed current).changed ↔
      ∃ token seen, ⟨source, token⟩ ∈ current ∧ ⟨source, seen⟩ ∈ previous ∧
        (seen ≠ token ∨ source ∈ failed) := by
  simp only [between, mem_unitsWhere, Option.any_eq_true,
    VersionMap.token?_eq_some_iff, hasMoved, Bool.or_eq_true,
    Bool.not_eq_true', beq_eq_false_iff_ne, SourceUnit.contains_iff_mem]
  grind

theorem contains_invalidated :
    (between previous failed current).invalidated.contains source = true ↔
      source ∈ (between previous failed current).changed ∨
        source ∈ (between previous failed current).removed := by
  unfold invalidated
  rw [KeyedSet.contains_iff, KeyedSet.exists_mem_union, ← KeyedSet.contains_iff,
    ← KeyedSet.contains_iff, SourceUnit.contains_iff_mem,
    SourceUnit.contains_iff_mem]

theorem unmoved_of_not_invalidated {token : VersionToken}
    (hprevious : previous.records source = true)
    (hcurrent : ⟨source, token⟩ ∈ current)
    (hnot : (between previous failed current).invalidated.contains source =
      false) :
    ⟨source, token⟩ ∈ previous ∧ source ∉ failed := by
  obtain ⟨seen, hseen⟩ := VersionMap.records_iff.mp hprevious
  rw [← Bool.not_eq_true, contains_invalidated, not_or, mem_changed] at hnot
  have hsame : ¬(seen ≠ token ∨ source ∈ failed) := fun hmoved =>
    hnot.1 ⟨token, seen, hcurrent, hseen, hmoved⟩
  rw [not_or, Decidable.not_not] at hsame
  exact ⟨hsame.1 ▸ hseen, hsame.2⟩

theorem recorded_of_not_invalidated
    (hprevious : previous.records source = true)
    (hnot : (between previous failed current).invalidated.contains source =
      false) :
    current.records source = true := by
  rw [← Bool.not_eq_true, contains_invalidated, not_or, mem_removed] at hnot
  simpa [hprevious] using hnot.2

end ChangeSet

namespace Invalidation

variable {prior : EdgeSet} {invalidated added existing : UnitSet}
  {edge : Edge} {source : SourceUnit}

theorem isStale_iff :
    isStale invalidated edge = true ↔
      invalidated.contains edge.caller.source = true ∨
        invalidated.contains edge.callee.source = true := by
  simp [isStale]

theorem mem_valid :
    edge ∈ (split prior invalidated added existing).valid ↔
      edge ∈ prior ∧ invalidated.contains edge.caller.source = false ∧
        invalidated.contains edge.callee.source = false := by
  simp only [split, KeyedSet.mem_filter, isStale, Bool.not_eq_true',
    Bool.or_eq_false_iff]

theorem mem_stale :
    edge ∈ (split prior invalidated added existing).stale ↔
      edge ∈ prior ∧ isStale invalidated edge = true := by
  simp only [split, KeyedSet.mem_filter]

theorem mem_endUnits {edges : EdgeSet} :
    source ∈ endUnits edges ↔
      ∃ edge ∈ edges, edge.touches source = true := by
  simp only [endUnits, List.mem_flatMap, List.mem_cons, List.not_mem_nil,
    or_false, Edge.touches, Bool.or_eq_true, beq_iff_eq, KeyedSet.mem_def]
  grind

theorem mem_reparse :
    source ∈ (split prior invalidated added existing).reparse ↔
      source ∈ existing ∧
        ((∃ edge ∈ (split prior invalidated added existing).stale,
            edge.touches source = true) ∨
          source ∈ added ∨ source ∈ invalidated) := by
  rw [← mem_endUnits]
  simp only [split, SourceUnit.mem_ofList, List.mem_filter, List.mem_append,
    SourceUnit.contains_iff_mem]
  grind [KeyedSet.mem_def]

end Invalidation

end CallGraph
