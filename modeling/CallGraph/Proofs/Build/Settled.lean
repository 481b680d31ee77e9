import CallGraph.Proofs.Build.Round

namespace CallGraph

open Keyed (key)

/-- What comes of a unit at a version: the calls in it, or nothing when it cannot
be extracted. -/
abbrev Yield := SourceUnit → VersionToken → Option (List Edge)

/-- The calls that are found in a unit lead out of it. -/
def Yield.LeadsOut (found? : Yield) : Prop :=
  ∀ {source token edges}, found? source token = some edges →
    ∀ edge ∈ edges, edge.caller.source = source

def UnitOutcome.edges? (result : UnitOutcome) : Option (List Edge) :=
  match result.outcome with
  | .ok extraction => some extraction.edges
  | .error _ => none

theorem UnitOutcome.edges?_eq_none_iff {result : UnitOutcome} :
    result.edges? = none ↔ ∃ fault, result.outcome = .error fault := by
  unfold edges?
  cases result.outcome <;> simp

namespace ChangeSet

variable {versions : VersionMap} {failed : UnitSet} {source : SourceUnit}

theorem not_mem_added_of_same :
    source ∉ (between versions failed versions).added := by
  rw [mem_added]
  rintro ⟨hrecorded, hnot⟩
  rw [hrecorded] at hnot
  cases hnot

theorem contains_invalidated_of_same
    (hfailed : source ∈ failed → versions.records source = true) :
    (between versions failed versions).invalidated.contains source = true ↔
      source ∈ failed := by
  rw [contains_invalidated, mem_changed, mem_removed]
  constructor
  · rintro (⟨token, seen, htoken, hseen, hmoved⟩ | ⟨hrecorded, hnot⟩)
    · exact hmoved.resolve_left
        (not_not_intro (VersionMap.token_unique hseen htoken))
    · rw [hrecorded] at hnot
      cases hnot
  · intro hmem
    obtain ⟨token, htoken⟩ := VersionMap.records_iff.mp (hfailed hmem)
    exact Or.inl ⟨token, token, htoken, htoken, Or.inr hmem⟩

end ChangeSet

/-- A snapshot whose failed units yield nothing at their recorded versions, and
whose other units yield something. -/
structure Snapshot.IsSettled (found? : Yield) (snapshot : Snapshot) : Prop where
  consistent : snapshot.isSelfConsistent = true
  recorded : ∀ {source}, source ∈ snapshot.failed →
    snapshot.versions.records source = true
  yields : ∀ {source token}, ⟨source, token⟩ ∈ snapshot.versions →
    (source ∈ snapshot.failed ↔ found? source token = none)

theorem Snapshot.isSettled_initial (found? : Yield) :
    Snapshot.initial.IsSettled found? where
  consistent := rfl
  recorded hfailed := absurd hfailed KeyedSet.not_mem_empty
  yields hversion := absurd hversion KeyedSet.not_mem_empty

namespace Round

variable {found? : Yield} {round : Round} {baseline : Snapshot}
  {source : SourceUnit} {token : VersionToken} {edge : Edge}

def Yields (found? : Yield) (round : Round) : Prop :=
  ∀ result ∈ round.results, ∀ token, ⟨result.source, token⟩ ∈ round.reads →
    result.edges? = found? result.source token

def FailsAs (found? : Yield) (round : Round) : Prop :=
  ∀ result ∈ round.results, ∀ token, ⟨result.source, token⟩ ∈ round.reads →
    (result.edges? = none ↔ found? result.source token = none)

def yieldOf (found? : Yield) (round : Round) (source : SourceUnit) : List Edge :=
  ((round.versions.token? source).bind (found? source)).getD []

theorem yieldOf_eq (htoken : ⟨source, token⟩ ∈ round.versions) :
    round.yieldOf found? source = (found? source token).getD [] := by
  rw [yieldOf, VersionMap.token?_eq_some_iff.mpr htoken, Option.bind_some]

theorem caller_of_mem_yieldOf (hleads : found?.LeadsOut)
    (hedge : edge ∈ round.yieldOf found? source) :
    edge.caller.source = source := by
  unfold yieldOf at hedge
  cases hyield : (round.versions.token? source).bind (found? source) with
  | none =>
      rw [hyield] at hedge
      cases hedge
  | some edges =>
      obtain ⟨token, _, hfound⟩ := Option.bind_eq_some_iff.mp hyield
      rw [hyield] at hedge
      exact hleads hfound edge hedge

theorem flatMap_filter_of_callers {edgesOf : SourceUnit → List Edge}
    (hcallers : ∀ source, ∀ edge ∈ edgesOf source, edge.caller.source = source)
    (keep : SourceUnit → Bool) (sources : List SourceUnit) :
    (sources.filter keep).flatMap edgesOf =
      (sources.flatMap edgesOf).filter fun edge => keep edge.caller.source := by
  induction sources with
  | nil => rfl
  | cons source rest ih =>
      have hblock : (edgesOf source).filter
          (fun edge => keep edge.caller.source) =
            if keep source then edgesOf source else [] := by
        rw [List.filter_congr fun edge hedge =>
          congrArg keep (hcallers source edge hedge)]
        cases keep source <;> simp
      rw [List.flatMap_cons, List.filter_append, ← ih, hblock]
      cases hkeep : keep source <;> simp [hkeep]

namespace FailsAs

variable (hfails : round.FailsAs found?) (hfits : round.Fits baseline)
include hfails hfits

theorem edges?_iff {result : UnitOutcome} (hresult : result ∈ round.results)
    (htoken : ⟨result.source, token⟩ ∈ round.versions) :
    result.edges? = none ↔ found? result.source token = none :=
  hfails result hresult token (hfits.mem_versions.mp htoken)

theorem mem_failed_iff :
    source ∈ (round.snapshot baseline).failed ↔
      source ∈ (round.plan baseline).invalidation.reparse ∧
        ∃ token, ⟨source, token⟩ ∈ round.versions ∧
          found? source token = none := by
  rw [Round.mem_failed_iff, ← hfits.exists_result_iff]
  constructor
  · rintro ⟨result, hresult, rfl, hfault⟩
    obtain ⟨token, htoken⟩ :=
      VersionMap.records_iff.mp (hfits.records_result hresult)
    refine ⟨⟨result, hresult, rfl⟩, token, htoken, ?_⟩
    rw [← hfails.edges?_iff hfits hresult htoken]
    exact UnitOutcome.edges?_eq_none_iff.mpr hfault
  · rintro ⟨⟨result, hresult, rfl⟩, token, htoken, hnone⟩
    rw [← hfails.edges?_iff hfits hresult htoken] at hnone
    exact ⟨result, hresult, rfl, UnitOutcome.edges?_eq_none_iff.mp hnone⟩

theorem snapshot_isSettled (hsettled : baseline.IsSettled found?) :
    (round.snapshot baseline).IsSettled found? where
  consistent := snapshot_isSelfConsistent hsettled.consistent
  recorded := hfits.records_of_failed
  yields {source token} htoken := by
    by_cases hresult : ∃ result ∈ round.results, result.source = source
    · rw [hfails.mem_failed_iff hfits, ← hfits.exists_result_iff]
      refine ⟨fun ⟨_, seen, hseen, hnone⟩ => ?_,
        fun hnone => ⟨hresult, token, htoken, hnone⟩⟩
      rwa [← VersionMap.token_unique hseen htoken]
    · -- What was not extracted is as it was, and had not failed.
      obtain ⟨hprior, hsound, _⟩ :=
        hfits.unmoved_of_not_extracted htoken hresult
      refine iff_of_false ?_ (mt (hsettled.yields hprior).mpr hsound)
      rw [hfails.mem_failed_iff hfits, ← hfits.exists_result_iff]
      exact fun hfailed => hresult hfailed.1

theorem not_failed_of_not_invalidated (hsettled : baseline.IsSettled found?)
    (hprior : baseline.versions.records source = true)
    (hnot : (round.plan baseline).changes.invalidated.contains source =
      false) :
    source ∉ (round.snapshot baseline).failed := by
  intro hfailed
  obtain ⟨token, htoken⟩ :=
    VersionMap.records_iff.mp (hfits.records_of_failed hfailed)
  obtain ⟨hseen, hsound⟩ :=
    ChangeSet.unmoved_of_not_invalidated hprior htoken hnot
  have hnone := ((hfails.snapshot_isSettled hfits hsettled).yields htoken).mp
    hfailed
  exact hsound ((hsettled.yields hseen).mpr hnone)

theorem not_failed_of_mem_valid (hsettled : baseline.IsSettled found?)
    (hvalid : edge ∈ (round.plan baseline).invalidation.valid) :
    edge.caller.source ∉ (round.snapshot baseline).failed ∧
      edge.callee.source ∉ (round.snapshot baseline).failed := by
  obtain ⟨hprior, hcaller, hcallee⟩ := mem_valid_iff.mp hvalid
  have hcovers := Snapshot.covers_iff.mp
    (Snapshot.isSelfConsistent_iff.mp hsettled.consistent edge hprior)
  exact ⟨hfails.not_failed_of_not_invalidated hfits hsettled hcovers.1 hcaller,
    hfails.not_failed_of_not_invalidated hfits hsettled hcovers.2 hcallee⟩

end FailsAs

namespace Yields

variable (hyields : round.Yields found?) (hfits : round.Fits baseline)
include hyields

theorem failsAs : round.FailsAs found? := fun result hresult token htoken =>
  iff_of_eq (congrArg (· = none) (hyields result hresult token htoken))

include hfits

theorem edges?_eq {result : UnitOutcome} (hresult : result ∈ round.results)
    (htoken : ⟨result.source, token⟩ ∈ round.versions) :
    result.edges? = found? result.source token :=
  hyields result hresult token (hfits.mem_versions.mp htoken)

theorem foundEdges_eq :
    Recomputed.foundEdges round.results =
      (round.plan baseline).invalidation.reparse.entries.flatMap
        (round.yieldOf found?) := by
  rw [← hfits.results, List.flatMap_map]
  unfold Recomputed.foundEdges
  rw [List.flatMap_def, List.flatMap_def]
  refine congrArg List.flatten (List.map_congr_left fun result hresult => ?_)
  obtain ⟨token, htoken⟩ :=
    VersionMap.records_iff.mp (hfits.records_result hresult)
  rw [yieldOf_eq htoken, ← hyields.edges?_eq hfits hresult htoken]
  unfold UnitOutcome.edges?
  cases result.outcome <;> rfl

end Yields

/-! An edge is in the new snapshot when it stayed valid, or when it is the first
one that was found between its ends and none between them stayed valid. -/

def freshEdges (round : Round) : List Edge :=
  (Recomputed.foundEdges round.results).filter
    (Recomputed.isInside round.versions)

theorem mem_edges_iff :
    edge ∈ (round.snapshot baseline).edges ↔
      (edge ∈ (round.plan baseline).invalidation.valid ∨
        round.freshEdges.find? (fun other => key other == key edge) =
            some edge ∧
          ∀ held ∈ (round.plan baseline).invalidation.valid,
            key held ≠ key edge) ∧
      edge.caller.source ∉ (round.snapshot baseline).failed := by
  have hmerge : edge ∈ (round.snapshot baseline).edges ↔
      edge ∈ (round.plan baseline).invalidation.valid.union
          (KeyedSet.ofList round.freshEdges) ∧
        edge.caller.source ∉ (round.snapshot baseline).failed :=
    Recomputed.mem_merge
  rw [hmerge, KeyedSet.mem_union_iff, KeyedSet.mem_ofList_iff]

def extractsCaller (round : Round) (baseline : Snapshot) (edge : Edge) : Bool :=
  decide (edge.caller.source ∈ (round.plan baseline).invalidation.reparse)

theorem find?_filter_of_find? {edges : List Edge} {keep wanted : Edge → Bool}
    (hfind : edges.find? wanted = some edge) (hkeep : keep edge = true) :
    (edges.filter keep).find? wanted = some edge := by
  obtain ⟨hwanted, before, after, rfl, hbefore⟩ :=
    List.find?_eq_some_iff_append.mp hfind
  rw [List.filter_append, List.filter_cons_of_pos hkeep]
  refine List.find?_eq_some_iff_append.mpr ⟨hwanted, _, _, rfl, ?_⟩
  intro other hother
  exact hbefore other (List.mem_filter.mp hother).1

/-- A round that enumerates and reads the same once more, against the snapshot
that the first one has left. -/
structure Repeats (again round : Round) : Prop where
  units : again.units = round.units
  reads : again.reads = round.reads

section Repeated

variable {again : Round} (hagain : again.Repeats round)
  (hsettled : baseline.IsSettled found?) (hleads : found?.LeadsOut)
  (hfits : round.Fits baseline) (hfails : round.FailsAs found?)
  (hyields : round.Yields found?)
  (hfits' : again.Fits (round.snapshot baseline))
  (hfails' : again.FailsAs found?) (hyields' : again.Yields found?)

include hagain in
theorem Repeats.versions : again.versions = round.versions := by
  unfold Round.versions
  rw [hagain.reads]

include hagain in
theorem Repeats.yieldOf : again.yieldOf found? = round.yieldOf found? := by
  funext source
  unfold Round.yieldOf
  rw [hagain.versions]

include hagain hfits in
theorem Repeats.contains_invalidated :
    (again.plan (round.snapshot baseline)).changes.invalidated.contains source =
        true ↔
      source ∈ (round.snapshot baseline).failed := by
  unfold plan Build.Plan.against
  rw [hagain.versions]
  exact ChangeSet.contains_invalidated_of_same hfits.records_of_failed

include hagain hfits in
theorem Repeats.mem_valid_iff :
    edge ∈ (again.plan (round.snapshot baseline)).invalidation.valid ↔
      edge ∈ (round.snapshot baseline).edges ∧
        edge.callee.source ∉ (round.snapshot baseline).failed := by
  rw [Round.mem_valid_iff, ← Bool.not_eq_true, ← Bool.not_eq_true,
    hagain.contains_invalidated hfits, hagain.contains_invalidated hfits]
  refine and_congr_right fun hedge => and_iff_right ?_
  exact caller_not_failed hedge

include hagain hsettled hfits hfails in
theorem Repeats.mem_reparse_iff :
    source ∈ (again.plan (round.snapshot baseline)).invalidation.reparse ↔
      source ∈ (round.snapshot baseline).failed ∨
        ∃ edge ∈ (round.snapshot baseline).edges,
          edge.callee.source ∈ (round.snapshot baseline).failed ∧
            edge.caller.source = source := by
  have hinvalidated : ∀ {unit},
      (again.plan (round.snapshot baseline)).changes.invalidated.contains unit =
        true ↔ unit ∈ (round.snapshot baseline).failed :=
    hagain.contains_invalidated hfits
  have hadded : source ∉
      (again.plan (round.snapshot baseline)).changes.added := by
    unfold plan Build.Plan.against
    rw [hagain.versions]
    exact ChangeSet.not_mem_added_of_same
  have hunit : ∀ {unit}, (round.snapshot baseline).versions.records unit =
      true → unit ∈ again.units := by
    intro unit hrecorded
    rw [hagain.units]
    exact hfits.records_iff.mp hrecorded
  have hconsistent :=
    (hfails.snapshot_isSettled hfits hsettled).consistent
  have hreparse : source ∈
      (again.plan (round.snapshot baseline)).invalidation.reparse ↔ _ :=
    Invalidation.mem_reparse
  have hstale : ∀ {edge}, edge ∈
      (again.plan (round.snapshot baseline)).invalidation.stale ↔
        edge ∈ (round.snapshot baseline).edges ∧
          edge.callee.source ∈ (round.snapshot baseline).failed := by
    intro edge
    have hmem : edge ∈
        (again.plan (round.snapshot baseline)).invalidation.stale ↔ _ :=
      Invalidation.mem_stale
    rw [hmem, Invalidation.isStale_iff]
    refine and_congr_right fun hedge => ?_
    refine (or_congr hinvalidated hinvalidated).trans (or_iff_right ?_)
    exact caller_not_failed hedge
  rw [hreparse]
  constructor
  · rintro ⟨_, ⟨edge, hedge, htouches⟩ | hmem | hmem⟩
    · obtain ⟨hedge, hcallee⟩ := hstale.mp hedge
      simp only [Edge.touches, Bool.or_eq_true, beq_iff_eq] at htouches
      rcases htouches with hcaller | hsame
      · exact Or.inr ⟨edge, hedge, hcallee, hcaller⟩
      · exact Or.inl (hsame ▸ hcallee)
    · exact absurd hmem hadded
    · exact Or.inl (hinvalidated.mp (SourceUnit.contains_iff_mem.mpr hmem))
  · rintro (hfailed | ⟨edge, hedge, hcallee, rfl⟩)
    · refine ⟨hunit (hfits.records_of_failed hfailed), Or.inr (Or.inr ?_)⟩
      exact SourceUnit.contains_iff_mem.mp (hinvalidated.mpr hfailed)
    · have hcovers := Snapshot.covers_iff.mp
        (Snapshot.isSelfConsistent_iff.mp hconsistent edge hedge)
      refine ⟨hunit hcovers.1, Or.inl ⟨edge, hstale.mpr ⟨hedge, hcallee⟩, ?_⟩⟩
      simp [Edge.touches]

include hsettled hleads hfits hyields in
/-- An edge into a failed unit was found in the round itself: had it stayed
valid, the unit would not have failed. -/
theorem Yields.fresh_of_callee_failed
    (hedge : edge ∈ (round.snapshot baseline).edges)
    (hcallee : edge.callee.source ∈ (round.snapshot baseline).failed) :
    round.freshEdges.find? (fun other => key other == key edge) = some edge ∧
      edge.caller.source ∈ (round.plan baseline).invalidation.reparse := by
  rcases (mem_edges_iff.mp hedge).1 with hvalid | ⟨hfresh, _⟩
  · exact absurd hcallee
      (hyields.failsAs.not_failed_of_mem_valid hfits hsettled hvalid).2
  · have hfound := (List.mem_filter.mp (List.mem_of_find?_eq_some hfresh)).1
    rw [hyields.foundEdges_eq hfits] at hfound
    obtain ⟨source, hsource, hyield⟩ := List.mem_flatMap.mp hfound
    rw [caller_of_mem_yieldOf hleads hyield]
    exact ⟨hfresh, hsource⟩

include hsettled hleads hfits hyields in
theorem Yields.not_failed_of_mem_freshEdges (hedge : edge ∈ round.freshEdges) :
    edge.caller.source ∉ (round.snapshot baseline).failed := by
  intro hfailed
  obtain ⟨token, htoken⟩ :=
    VersionMap.records_iff.mp (hfits.records_of_failed hfailed)
  have hafter := hyields.failsAs.snapshot_isSettled hfits hsettled
  have hnone := (hafter.yields htoken).mp
    hfailed
  have hfound := (List.mem_filter.mp hedge).1
  rw [hyields.foundEdges_eq hfits] at hfound
  obtain ⟨source, _, hyield⟩ := List.mem_flatMap.mp hfound
  have hsource := caller_of_mem_yieldOf hleads hyield
  rw [← hsource, yieldOf_eq htoken, hnone] at hyield
  cases hyield

include hagain hsettled hleads hfits hyields in
theorem Repeats.mem_reparse_of_mem
    (hsource : source ∈
      (again.plan (round.snapshot baseline)).invalidation.reparse) :
    source ∈ (round.plan baseline).invalidation.reparse := by
  rcases (hagain.mem_reparse_iff hsettled hfits hyields.failsAs).mp hsource with
    hfailed | ⟨edge, hedge, hcallee, rfl⟩
  · exact ((hyields.failsAs.mem_failed_iff hfits).mp hfailed).1
  · exact (hyields.fresh_of_callee_failed hsettled hleads hfits hedge hcallee).2

include hagain hsettled hleads hfits hyields hfits' hyields' in
theorem Repeats.freshEdges_eq :
    again.freshEdges = round.freshEdges.filter
      (again.extractsCaller (round.snapshot baseline)) := by
  have hentries := KeyedSet.entries_eq_filter
    (fun _ => hagain.mem_reparse_of_mem hsettled hleads hfits hyields)
  unfold freshEdges
  rw [hyields'.foundEdges_eq hfits', hyields.foundEdges_eq hfits,
    hagain.versions, hagain.yieldOf, hentries,
    flatMap_filter_of_callers fun source edge => caller_of_mem_yieldOf hleads,
    List.filter_filter, List.filter_filter]
  exact List.filter_congr fun _ _ => Bool.and_comm _ _

include hagain hsettled hfits hfails hfits' hfails' in
theorem Repeats.mem_failed_iff :
    source ∈ (again.snapshot (round.snapshot baseline)).failed ↔
      source ∈ (round.snapshot baseline).failed := by
  have hafter := hfails.snapshot_isSettled hfits hsettled
  rw [hfails'.mem_failed_iff hfits', hagain.versions]
  constructor
  · rintro ⟨_, token, htoken, hnone⟩
    exact (hafter.yields htoken).mpr hnone
  · intro hfailed
    obtain ⟨token, htoken⟩ :=
      VersionMap.records_iff.mp (hfits.records_of_failed hfailed)
    refine ⟨?_, token, htoken, (hafter.yields htoken).mp hfailed⟩
    exact (hagain.mem_reparse_iff hsettled hfits hfails).mpr (Or.inl hfailed)

include hagain hsettled hleads hfits hyields hfits' hyields' in
theorem Repeats.mem_edges_iff :
    edge ∈ (again.snapshot (round.snapshot baseline)).edges ↔
      edge ∈ (round.snapshot baseline).edges := by
  have hvalid : ∀ {edge}, edge ∈
      (again.plan (round.snapshot baseline)).invalidation.valid ↔ _ :=
    hagain.mem_valid_iff hfits
  have hreparse : ∀ {source}, source ∈
      (again.plan (round.snapshot baseline)).invalidation.reparse ↔ _ :=
    hagain.mem_reparse_iff hsettled hfits hyields.failsAs
  rw [Round.mem_edges_iff, hvalid, hagain.mem_failed_iff hsettled hfits
      hyields.failsAs hfits' hyields'.failsAs,
    hagain.freshEdges_eq hsettled hleads hfits hyields hfits' hyields']
  constructor
  · rintro ⟨⟨hedge, _⟩ | ⟨hfind, hfree⟩, _⟩
    · exact hedge
    · have hmem := (List.mem_filter.mp (List.mem_of_find?_eq_some hfind)).1
      -- The second round keeps no other edge between the two ends; so in the
      -- first one none had stayed valid, and the first one found was kept.
      have hfree' : ∀ held ∈ (round.plan baseline).invalidation.valid,
          key held ≠ key edge := by
        intro held hheld hkey
        obtain ⟨hcaller, hcallee⟩ :=
          hyields.failsAs.not_failed_of_mem_valid hfits hsettled hheld
        have hkept := Round.mem_edges_iff.mpr ⟨Or.inl hheld, hcaller⟩
        exact hfree held (hvalid.mpr ⟨hkept, hcallee⟩) hkey
      cases hfirst : round.freshEdges.find?
          (fun other => key other == key edge) with
      | none => exact absurd (List.find?_eq_none.mp hfirst edge hmem) (by simp)
      | some held =>
          have hkey : key held = key edge := by
            simpa using List.find?_some hfirst
          have hkept : held ∈ (round.snapshot baseline).edges := by
            refine Round.mem_edges_iff.mpr ⟨Or.inr ?_, ?_⟩
            · rw [hkey]
              exact ⟨hfirst, hfree'⟩
            · exact hyields.not_failed_of_mem_freshEdges hsettled hleads hfits
                (List.mem_of_find?_eq_some hfirst)
          have hcallee : held.callee.source ∈ (round.snapshot baseline).failed :=
            Decidable.not_not.mp fun hsound =>
              hfree held (hvalid.mpr ⟨hkept, hsound⟩) hkey
          have hextracted :
              again.extractsCaller (round.snapshot baseline) held = true :=
            decide_eq_true (hreparse.mpr (Or.inr ⟨held, hkept, hcallee, rfl⟩))
          have hagainFirst := find?_filter_of_find? hfirst hextracted
          rw [hfind] at hagainFirst
          rwa [Option.some.inj hagainFirst]
  · intro hedge
    refine ⟨?_, caller_not_failed hedge⟩
    by_cases hcallee : edge.callee.source ∈ (round.snapshot baseline).failed
    · obtain ⟨hfresh, _⟩ := hyields.fresh_of_callee_failed hsettled hleads hfits
        hedge hcallee
      have hextracted :
          again.extractsCaller (round.snapshot baseline) edge = true :=
        decide_eq_true (hreparse.mpr (Or.inr ⟨edge, hedge, hcallee, rfl⟩))
      refine Or.inr ⟨find?_filter_of_find? hfresh hextracted, ?_⟩
      intro held hheld hkey
      obtain ⟨hkept, hsound⟩ := hvalid.mp hheld
      have hsame := KeyedSet.eq_of_key_eq hkept hedge hkey
      rw [hsame] at hsound
      exact hsound hcallee
    · exact Or.inl ⟨hedge, hcallee⟩

include hagain in
/-- The versions are those that were read before.  Where the edges and the failed
units are the same, too, nothing but the generation changes. -/
theorem Repeats.snapshot_eq_of_mem
    (hedges : ∀ edge, edge ∈ (again.snapshot (round.snapshot baseline)).edges ↔
      edge ∈ (round.snapshot baseline).edges)
    (hfailed : ∀ source,
      source ∈ (again.snapshot (round.snapshot baseline)).failed ↔
        source ∈ (round.snapshot baseline).failed) :
    again.snapshot (round.snapshot baseline) =
      (round.snapshot baseline).succeeding (round.snapshot baseline) := by
  have hedges := KeyedSet.ext_of_mem hedges
  have hfailed := KeyedSet.ext_of_mem hfailed
  have hversions : (again.snapshot (round.snapshot baseline)).versions =
      (round.snapshot baseline).versions := hagain.versions
  have hgeneration :
      (again.snapshot (round.snapshot baseline)).generation =
        (round.snapshot baseline).generation + 1 := rfl
  cases hagainst : again.snapshot (round.snapshot baseline) with
  | mk generation edges versions failed =>
      rw [hagainst] at hedges hfailed hversions hgeneration
      rw [Snapshot.succeeding, Snapshot.mk.injEq]
      exact ⟨hgeneration, hedges, hversions, hfailed⟩

include hagain hsettled hleads hfits hyields hfits' hyields' in
theorem Repeats.snapshot_eq :
    again.snapshot (round.snapshot baseline) =
      (round.snapshot baseline).succeeding (round.snapshot baseline) :=
  hagain.snapshot_eq_of_mem
    (fun _ => hagain.mem_edges_iff hsettled hleads hfits hyields hfits'
      hyields')
    (fun _ => hagain.mem_failed_iff hsettled hfits hyields.failsAs hfits'
      hyields'.failsAs)

section Clean

variable (hclean : ∀ edge ∈ (round.snapshot baseline).edges,
  edge.callee.source ∉ (round.snapshot baseline).failed)
include hagain hsettled hfits hfails hfits' hfails' hclean

theorem Repeats.foundEdges_eq_nil :
    Recomputed.foundEdges again.results = [] := by
  refine List.eq_nil_iff_forall_not_mem.mpr fun edge hedge => ?_
  obtain ⟨result, hresult, extraction, houtcome, _⟩ :=
    Recomputed.mem_foundEdges.mp hedge
  have hreparse : result.source ∈
      (again.plan (round.snapshot baseline)).invalidation.reparse :=
    hfits'.exists_result_iff.mp ⟨result, hresult, rfl⟩
  rcases (hagain.mem_reparse_iff hsettled hfits hfails).mp hreparse with
    hfailed | ⟨held, hheld, hcallee, _⟩
  · obtain ⟨token, htoken⟩ :=
      VersionMap.records_iff.mp (hfits.records_of_failed hfailed)
    have hnone := ((hfails.snapshot_isSettled hfits hsettled).yields htoken).mp
      hfailed
    have htoken' : ⟨result.source, token⟩ ∈ again.versions := by
      rw [hagain.versions]
      exact htoken
    obtain ⟨fault, hfault⟩ := UnitOutcome.edges?_eq_none_iff.mp
      ((hfails'.edges?_iff hfits' hresult htoken').mpr hnone)
    cases houtcome.symm.trans hfault
  · exact hclean held hheld hcallee

theorem Repeats.snapshot_eq_of_clean :
    again.snapshot (round.snapshot baseline) =
      (round.snapshot baseline).succeeding (round.snapshot baseline) := by
  have hfailed : ∀ source,
      source ∈ (again.snapshot (round.snapshot baseline)).failed ↔
        source ∈ (round.snapshot baseline).failed := fun _ =>
    hagain.mem_failed_iff hsettled hfits hfails hfits' hfails'
  refine hagain.snapshot_eq_of_mem (fun edge => ?_) hfailed
  have hfresh : again.freshEdges = [] := by
    unfold freshEdges
    rw [hagain.foundEdges_eq_nil hsettled hfits hfails hfits' hfails' hclean]
    rfl
  rw [Round.mem_edges_iff, hagain.mem_valid_iff hfits, hfailed, hfresh]
  constructor
  · rintro ⟨⟨hedge, _⟩ | ⟨hfind, _⟩, _⟩
    · exact hedge
    · cases hfind
  · intro hedge
    exact ⟨Or.inl ⟨hedge, hclean edge hedge⟩, caller_not_failed hedge⟩

end Clean

end Repeated

end Round

end CallGraph
