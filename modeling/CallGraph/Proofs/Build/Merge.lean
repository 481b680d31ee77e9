import CallGraph.Proofs.Build.Conduct
import CallGraph.Proofs.Build.Table
import Mathlib.Data.Finset.Card

namespace CallGraph

open Keyed (key)

/-! What recomputing comes to, whatever order the units are extracted in and
whatever order their results are merged in. -/

namespace KeyedSet

variable {α κ : Type} [Keyed α κ] [KeyOrder κ]

theorem size_ofList [DecidableEq κ] (entries : List α) :
    (ofList entries : KeyedSet α).size =
      (entries.map (key : α → κ)).toFinset.card := by
  have hkeys : ((ofList entries : KeyedSet α).entries.map key).toFinset =
      (entries.map (key : α → κ)).toFinset := by
    apply Finset.ext
    intro wanted
    rw [List.mem_toFinset, List.mem_toFinset, List.mem_map, List.mem_map]
    exact exists_mem_ofList
  rw [← hkeys, List.toFinset_card_of_nodup (nodup_keys _), List.length_map]
  rfl

end KeyedSet

def edgesOf : Outcome → List Edge
  | .ok extraction => extraction.edges
  | .error _ => []

def extractedEdges (analyze : SourceUnit → Outcome) (reparse : UnitSet) :
    List Edge :=
  reparse.entries.flatMap fun source => edgesOf (analyze source)

def FailsIn (analyze : SourceUnit → Outcome) (reparse : UnitSet)
    (source : SourceUnit) : Prop :=
  source ∈ reparse ∧ ∃ fault, analyze source = .error fault

/-- The edges that may be merged: those that stayed valid and those extracted
between recorded units. -/
def IsCandidate (analyze : SourceUnit → Outcome) (reparse : UnitSet)
    (valid : EdgeSet) (versions : VersionMap) (edge : Edge) : Prop :=
  edge ∈ valid ∨
    edge ∈ extractedEdges analyze reparse ∧
      Recomputed.isInside versions edge = true

/-- Methods with one identity that make calls stand in one unit. -/
def CallersAgree (analyze : SourceUnit → Outcome) (reparse : UnitSet)
    (valid : EdgeSet) : Prop :=
  ∀ first ∈ valid.entries ++ extractedEdges analyze reparse,
    ∀ second ∈ valid.entries ++ extractedEdges analyze reparse,
      first.caller.id = second.caller.id →
        first.caller.source = second.caller.source

instance (analyze : SourceUnit → Outcome) (reparse : UnitSet)
    (valid : EdgeSet) : Decidable (CallersAgree analyze reparse valid) :=
  inferInstanceAs (Decidable (∀ first ∈ _, ∀ second ∈ _, _ = _ → _ = _))

theorem IsCandidate.mem {analyze : SourceUnit → Outcome} {reparse : UnitSet}
    {valid : EdgeSet} {versions : VersionMap} {edge : Edge}
    (hedge : IsCandidate analyze reparse valid versions edge) :
    edge ∈ valid.entries ++ extractedEdges analyze reparse :=
  List.mem_append.mpr (hedge.imp_right And.left)

namespace Recomputed

/-- The result of recomputing, told without any order.  A set of edges is known
by the ends that it holds. -/
structure IsMerge (analyze : SourceUnit → Outcome) (reparse : UnitSet)
    (valid : EdgeSet) (versions : VersionMap) (merged : Recomputed) : Prop where
  edges : ∀ ends : EdgeKey,
    merged.snapshot.edges.has ends = true ↔
      ∃ edge, IsCandidate analyze reparse valid versions edge ∧
        ¬FailsIn analyze reparse edge.caller.source ∧ key edge = ends
  held : ∀ edge ∈ merged.snapshot.edges,
    IsCandidate analyze reparse valid versions edge
  failed : ∀ source, source ∈ merged.snapshot.failed ↔
    FailsIn analyze reparse source
  recorded : merged.snapshot.versions = versions
  fresh : merged.fresh =
    (((extractedEdges analyze reparse).filter
      (isInside versions)).map key).toFinset.card
  dropped : merged.dropped =
    ((extractedEdges analyze reparse).filter fun edge =>
      !isInside versions edge).length

variable {analyze : SourceUnit → Outcome} {reparse : UnitSet}
  {valid : EdgeSet} {versions : VersionMap} {results : List UnitOutcome}

section Results

variable (hresults : results.Perm (reparse.entries.map fun source =>
  ⟨source, analyze source⟩))
include hresults

theorem perm_foundEdges :
    (foundEdges results).Perm (extractedEdges analyze reparse) := by
  apply (hresults.flatMap_right _).trans
  rw [List.flatMap_map]
  apply List.Perm.of_eq
  apply congrArg (List.flatMap · reparse.entries)
  funext source
  cases analyze source <;> rfl

theorem failed_iff_of_perm (source : SourceUnit) :
    source ∈ (merge valid versions results).snapshot.failed ↔
      FailsIn analyze reparse source := by
  rw [mem_failed]
  simp only [hresults.mem_iff, List.mem_map]
  constructor
  · rintro ⟨_, ⟨found, hfound, rfl⟩, rfl, hfails⟩
    exact ⟨hfound, hfails⟩
  · intro hfails
    exact ⟨⟨source, analyze source⟩, ⟨source, hfails.1, rfl⟩, rfl, hfails.2⟩

theorem candidate_of_mem_union {edge : Edge}
    (hedge : edge ∈ valid.union
      (KeyedSet.ofList ((foundEdges results).filter (isInside versions)))) :
    IsCandidate analyze reparse valid versions edge := by
  apply (KeyedSet.mem_or_mem_of_mem_union hedge).imp_right
  intro hfresh
  have hfound := List.mem_filter.mp (KeyedSet.mem_of_mem_ofList hfresh)
  exact ⟨(perm_foundEdges hresults).mem_iff.mp hfound.1, hfound.2⟩

theorem exists_mem_union_of_candidate {edge : Edge}
    (hedge : IsCandidate analyze reparse valid versions edge) :
    ∃ merged ∈ valid.union
      (KeyedSet.ofList ((foundEdges results).filter (isInside versions))),
        key merged = key edge := by
  apply exists_mem_union_fresh.mpr
  cases hedge with
  | inl hvalid => exact Or.inl ⟨edge, hvalid, rfl⟩
  | inr hextracted =>
      have hfound := (perm_foundEdges hresults).mem_iff.mpr hextracted.1
      exact Or.inr ⟨edge, hfound, hextracted.2, rfl⟩

/-- The edge that was merged need not be the one that was extracted, but its
caller has the same identity, so both are left out for the same unit. -/
theorem has_merge_iff (hcallers : CallersAgree analyze reparse valid)
    (ends : EdgeKey) :
    (merge valid versions results).snapshot.edges.has ends = true ↔
      ∃ edge, IsCandidate analyze reparse valid versions edge ∧
        ¬FailsIn analyze reparse edge.caller.source ∧ key edge = ends := by
  rw [KeyedSet.has_iff]
  constructor
  · intro hhas
    obtain ⟨edge, hedge, hends⟩ := hhas
    obtain ⟨hunion, hcaller⟩ := mem_merge.mp hedge
    rw [failed_iff_of_perm hresults] at hcaller
    exact ⟨edge, candidate_of_mem_union hresults hunion, hcaller, hends⟩
  · intro hcandidate
    obtain ⟨edge, hedge, hcaller, hends⟩ := hcandidate
    obtain ⟨merged, hunion, hmerged⟩ :=
      exists_mem_union_of_candidate hresults hedge
    have hidentity : merged.caller.id = edge.caller.id :=
      congrArg MethodId.mk (congrArg EdgeKey.caller hmerged)
    have hsource := hcallers merged
      (candidate_of_mem_union hresults hunion).mem edge hedge.mem hidentity
    refine ⟨merged, mem_merge.mpr ⟨hunion, ?_⟩, hmerged.trans hends⟩
    rw [failed_iff_of_perm hresults, hsource]
    exact hcaller

theorem merge_isMerge (hcallers : CallersAgree analyze reparse valid) :
    (merge valid versions results).IsMerge analyze reparse valid versions where
  edges := has_merge_iff hresults hcallers
  held edge hedge :=
    candidate_of_mem_union hresults (mem_merge.mp hedge).1
  failed := failed_iff_of_perm hresults
  recorded := rfl
  fresh := by
    have hfresh := (perm_foundEdges hresults).filter (isInside versions)
    apply (KeyedSet.size_ofList _).trans
    rw [List.toFinset_eq_of_perm _ _ (hfresh.map key)]
  dropped := ((perm_foundEdges hresults).filter _).length_eq

end Results

theorem IsMerge.agree {first second : Recomputed}
    (hfirst : first.IsMerge analyze reparse valid versions)
    (hsecond : second.IsMerge analyze reparse valid versions) :
    (∀ ends, first.snapshot.edges.has ends = second.snapshot.edges.has ends) ∧
      first.snapshot.failed = second.snapshot.failed ∧
      first.snapshot.versions = second.snapshot.versions ∧
      first.fresh = second.fresh ∧ first.dropped = second.dropped := by
  refine ⟨fun ends => ?_, ?_, ?_, ?_, ?_⟩
  · apply Bool.eq_iff_iff.mpr
    exact (hfirst.edges ends).trans (hsecond.edges ends).symm
  · apply KeyedSet.ext_of_mem
    exact fun source => (hfirst.failed source).trans (hsecond.failed source).symm
  · exact hfirst.recorded.trans hsecond.recorded.symm
  · exact hfirst.fresh.trans hsecond.fresh.symm
  · exact hfirst.dropped.trans hsecond.dropped.symm

end Recomputed

/-- A host that, whatever else it does meanwhile, answers an extraction with
what the analysis of the unit gives. -/
def Host.Analyzes {σ : Type} (host : Host σ)
    (analyze : SourceUnit → Outcome) : Prop :=
  ∀ source start, (host.extract source start).Obeys (fun _ _ => True)
    (fun outcome _ => outcome = analyze source) start

namespace Build

variable {σ : Type} {nested : Nested σ} {host : Host σ} {id : BuildId}
  {analyze : SourceUnit → Outcome}

/-- A round in which the units are extracted along `order` and the results are
merged as `arrange` has them. -/
def recomputeAlong (nested : Nested σ) (host : Host σ) (id : BuildId)
    (order : List SourceUnit)
    (arrange : List UnitOutcome → List UnitOutcome) (valid : EdgeSet)
    (versions : VersionMap) (world : World σ) : World σ × Option Recomputed :=
  let world := world.withHost (host.resetProgress order.length world.host)
  let (world, results) := visitEach (visit nested host id) order world
  if world.coordinator.isCancelled id then (world, none)
  else (world, some (Recomputed.merge valid versions (arrange results)))

theorem ask_extract (hanalyzes : host.Analyzes analyze) (source : SourceUnit)
    (world : World σ) :
    (ask nested (host.extract source) world).2 = analyze source :=
  (perform_obeys ⟨fun _ => trivial, fun _ _ => trivial⟩ (fun _ _ => trivial)
    (hanalyzes source world.host) world.coordinator).2

theorem visitEach_of_cancelled (order : List SourceUnit) {world : World σ}
    (hcancelled : world.coordinator.isCancelled id = true) :
    visitEach (visit nested host id) order world = (world, []) := by
  induction order with
  | nil => rfl
  | cons source rest ih =>
      simp only [visitEach, visit, hcancelled, if_true, ih]

theorem results_of_not_cancelled (hanalyzes : host.Analyzes analyze)
    (order : List SourceUnit) {world : World σ}
    (hcurrent : (visitEach (visit nested host id) order
      world).1.coordinator.isCancelled id = false) :
    (visitEach (visit nested host id) order world).2 =
      order.map fun source => ⟨source, analyze source⟩ := by
  induction order generalizing world with
  | nil => rfl
  | cons source rest ih =>
      cases hcancelled : world.coordinator.isCancelled id with
      | true =>
          rw [visitEach_of_cancelled _ hcancelled, hcancelled] at hcurrent
          cases hcurrent
      | false =>
          simp only [visitEach, visit, hcancelled] at hcurrent ⊢
          rw [ask_extract hanalyzes, List.map_cons]
          exact congrArg (List.cons _) (ih hcurrent)

/-- A build extracts the units as they are listed and merges the results as they
come.  Along every order there is a result exactly when the build is not
cancelled by the end, and the result is the merge. -/
theorem recompute_isMerge_of_perm (nested : Nested σ)
    (hanalyzes : host.Analyzes analyze) (id : BuildId) {reparse : UnitSet}
    {valid : EdgeSet} (versions : VersionMap)
    (hcallers : CallersAgree analyze reparse valid) {order : List SourceUnit}
    (horder : order.Perm reparse.entries)
    {arrange : List UnitOutcome → List UnitOutcome}
    (harrange : ∀ results, (arrange results).Perm results) (world : World σ) :
    recompute nested host id reparse valid versions world =
        recomputeAlong nested host id reparse.entries (fun results => results)
          valid versions world ∧
      match recomputeAlong nested host id order arrange valid versions world with
      | (last, none) => last.coordinator.isCancelled id = true
      | (last, some recomputed) =>
          last.coordinator.isCancelled id = false ∧
            recomputed.IsMerge analyze reparse valid versions := by
  refine ⟨rfl, ?_⟩
  unfold recomputeAlong
  dsimp only
  generalize world.withHost (host.resetProgress order.length world.host) = start
  cases hcancelled : (visitEach (visit nested host id) order
      start).1.coordinator.isCancelled id with
  | true => exact hcancelled
  | false =>
      refine ⟨hcancelled, Recomputed.merge_isMerge ?_ hcallers⟩
      rw [results_of_not_cancelled hanalyzes order hcancelled]
      exact (harrange _).trans (horder.map _)

end Build

namespace Sample

def firstMethod : Method := ⟨⟨1⟩, firstUnit, "A", "a", []⟩

def secondMethod : Method := ⟨⟨2⟩, secondUnit, "B", "b", []⟩

def lostMethod : Method := ⟨⟨3⟩, ⟨"D.java"⟩, "D", "d", []⟩

def mixedOutcomes (source : SourceUnit) : Outcome :=
  if source = firstUnit then
    .ok ⟨[], [⟨firstMethod, secondMethod⟩, ⟨firstMethod, lostMethod⟩,
      ⟨firstMethod, secondMethod⟩]⟩
  else if source = secondUnit then .error (.because "B.java cannot be read")
  else
    .ok ⟨[], [⟨secondMethod, firstMethod⟩, ⟨firstMethod, secondMethod⟩]⟩

def mixedHost : Host VersionMap :=
  { Host.ofTable (fun _ versions => versions) fun _ _ => [] with
    extract := fun source versions => .done versions (mixedOutcomes source) }

def mixedUnits : UnitSet :=
  KeyedSet.ofList [firstUnit, secondUnit, ⟨"C.java"⟩]

def mixedVersions : VersionMap :=
  KeyedSet.ofList [⟨firstUnit, ⟨1⟩⟩, ⟨secondUnit, ⟨1⟩⟩]

def keptCalls : EdgeSet :=
  KeyedSet.ofList [⟨secondMethod, secondMethod⟩, ⟨firstMethod, firstMethod⟩]

theorem mixedUnits_merged :
    ∃ recomputed,
      (Build.recomputeAlong (Build.nestedWithin mixedHost 0) mixedHost 1
        mixedUnits.entries.reverse List.reverse keptCalls mixedVersions
          ⟨default, mixedVersions⟩).2 = some recomputed ∧
      recomputed.IsMerge mixedOutcomes mixedUnits keptCalls mixedVersions ∧
      recomputed.snapshot.edges.entries =
        [⟨firstMethod, firstMethod⟩, ⟨firstMethod, secondMethod⟩] ∧
      recomputed.snapshot.failed.entries = [secondUnit] ∧
      recomputed.fresh = 2 ∧ recomputed.dropped = 1 := by
  have hanalyzes : mixedHost.Analyzes mixedOutcomes :=
    fun source start => ⟨trivial, rfl⟩
  have hcallers : CallersAgree mixedOutcomes mixedUnits keptCalls := by decide
  obtain ⟨_, _, hmerge⟩ := Build.recompute_isMerge_of_perm
    (Build.nestedWithin mixedHost 0) hanalyzes 1 mixedVersions hcallers
    (List.reverse_perm mixedUnits.entries) List.reverse_perm
    ⟨default, mixedVersions⟩
  exact ⟨_, rfl, hmerge, by decide, by decide, by decide, by decide⟩

end Sample

end CallGraph
