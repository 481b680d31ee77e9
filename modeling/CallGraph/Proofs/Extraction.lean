import CallGraph.Extraction
import CallGraph.Proofs.Alike
import CallGraph.Proofs.Plan

namespace CallGraph.Recomputed

open Keyed (key)

variable {valid : EdgeSet} {versions : VersionMap}
  {results : List UnitOutcome} {edge : Edge} {source : SourceUnit}

theorem mem_foundEdges :
    edge ∈ foundEdges results ↔
      ∃ result ∈ results, ∃ extraction,
        result.outcome = .ok extraction ∧ edge ∈ extraction.edges := by
  unfold foundEdges
  rw [List.mem_flatMap]
  constructor
  · rintro ⟨result, hresult, hedge⟩
    cases houtcome : result.outcome with
    | error fault => simp [houtcome] at hedge
    | ok extraction =>
        rw [houtcome] at hedge
        exact ⟨result, hresult, extraction, houtcome, hedge⟩
  · rintro ⟨result, hresult, extraction, houtcome, hedge⟩
    exact ⟨result, hresult, by rwa [houtcome]⟩

theorem isInside_iff :
    isInside versions edge = true ↔
      versions.records edge.caller.source = true ∧
        versions.records edge.callee.source = true := by
  simp [isInside]

theorem mem_failed :
    source ∈ (merge valid versions results).snapshot.failed ↔
      ∃ result ∈ results, result.source = source ∧
        ∃ fault, result.outcome = .error fault := by
  simp only [merge, failuresOf, SourceUnit.mem_ofList, List.mem_map,
    List.mem_filterMap]
  constructor
  · rintro ⟨failure, ⟨result, hresult, hfailure⟩, rfl⟩
    cases houtcome : result.outcome with
    | ok extraction => simp [houtcome] at hfailure
    | error fault =>
        rw [houtcome] at hfailure
        obtain rfl := Option.some.inj hfailure
        exact ⟨result, hresult, rfl, fault, houtcome⟩
  · rintro ⟨result, hresult, rfl, fault, houtcome⟩
    exact ⟨⟨result.source, fault.message⟩, ⟨result, hresult, by rw [houtcome]⟩,
      rfl⟩

theorem mem_merge :
    edge ∈ (merge valid versions results).snapshot.edges ↔
      edge ∈ valid.union
          (KeyedSet.ofList ((foundEdges results).filter (isInside versions))) ∧
        edge.caller.source ∉
          (merge valid versions results).snapshot.failed := by
  rw [← SourceUnit.contains_iff_mem, Bool.not_eq_true, ← Bool.not_eq_true']
  exact KeyedSet.mem_filter

theorem valid_or_found_of_mem_merge
    (hedge : edge ∈ (merge valid versions results).snapshot.edges) :
    edge ∈ valid ∨
      edge ∈ foundEdges results ∧ isInside versions edge = true := by
  refine (KeyedSet.mem_or_mem_of_mem_union (mem_merge.mp hedge).1).imp_right
    fun hfresh => ?_
  exact List.mem_filter.mp (KeyedSet.mem_of_mem_ofList hfresh)

theorem caller_not_failed_of_mem_merge
    (hedge : edge ∈ (merge valid versions results).snapshot.edges) :
    edge.caller.source ∉ (merge valid versions results).snapshot.failed :=
  (mem_merge.mp hedge).2

theorem dropped_merge_eq_zero
    (hinside : ∀ edge ∈ foundEdges results, isInside versions edge = true) :
    (merge valid versions results).dropped = 0 := by
  refine List.length_eq_zero_iff.mpr (List.filter_eq_nil_iff.mpr ?_)
  intro edge hedge
  rw [hinside edge hedge]
  exact Bool.false_ne_true

theorem exists_mem_union_fresh {wanted : EdgeKey} :
    (∃ held ∈ valid.union
          (KeyedSet.ofList ((foundEdges results).filter (isInside versions))),
        key held = wanted) ↔
      (∃ held ∈ valid, key held = wanted) ∨
        ∃ found ∈ foundEdges results,
          isInside versions found = true ∧ key found = wanted := by
  rw [KeyedSet.exists_mem_union, KeyedSet.exists_mem_ofList]
  simp only [List.mem_filter, and_assoc]

inductive IsAlike : Outcome → Outcome → Prop where
  | found (methods : List Method) {edges edges' : List Edge}
      (alike : AlikeBy key edges edges') :
      IsAlike (.ok ⟨methods, edges⟩) (.ok ⟨methods, edges'⟩)
  | failed (fault : Fault) : IsAlike (.error fault) (.error fault)

theorem IsAlike.trans {first middle last : Outcome}
    (hfirst : IsAlike first middle) (hlast : IsAlike middle last) :
    IsAlike first last := by
  cases hfirst with
  | found methods hedges =>
      cases hlast with
      | found _ hedges' => exact .found methods (hedges.trans hedges')
  | failed fault => exact hlast

section Alike

variable {outcomeOf : SourceUnit → Outcome}
  (halike : ∀ result ∈ results,
    IsAlike result.outcome (outcomeOf result.source))
include halike

theorem foundEdges_alike :
    AlikeBy key (foundEdges results)
      (foundEdges ((results.map UnitOutcome.source).map fun source =>
        ⟨source, outcomeOf source⟩)) := by
  unfold foundEdges
  rw [List.map_map, List.flatMap_map]
  refine AlikeBy.flatMap fun result hresult => ?_
  have hresult := halike result hresult
  dsimp only [Function.comp_apply]
  generalize result.outcome = outcome at hresult
  generalize outcomeOf result.source = outcome' at hresult
  cases hresult with
  | found methods hedges => exact hedges
  | failed fault => exact AlikeBy.refl key []

theorem failuresOf_alike :
    failuresOf results =
      failuresOf ((results.map UnitOutcome.source).map fun source =>
        ⟨source, outcomeOf source⟩) := by
  unfold failuresOf
  induction results with
  | nil => rfl
  | cons result rest ih =>
      have hresult := halike result (by simp)
      rw [List.map_cons, List.map_cons, List.filterMap_cons,
        List.filterMap_cons,
        ih fun other hother => halike other (by simp [hother])]
      dsimp only
      generalize result.outcome = outcome at hresult
      generalize outcomeOf result.source = outcome' at hresult
      cases hresult <;> rfl

theorem merge_congr :
    merge valid versions results =
      merge valid versions
        ((results.map UnitOutcome.source).map fun source =>
          ⟨source, outcomeOf source⟩) := by
  have hfound := foundEdges_alike halike
  unfold merge
  dsimp only
  rw [(hfound.filter _).ofList_eq, (hfound.filter _).length_eq,
    failuresOf_alike halike]

end Alike

end CallGraph.Recomputed
