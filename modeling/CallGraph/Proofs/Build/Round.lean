import CallGraph.Build.Run
import CallGraph.Proofs.Extraction

namespace CallGraph

namespace Snapshot

variable {snapshot : Snapshot} {edge : Edge}

theorem covers_iff :
    snapshot.covers edge = true ↔
      snapshot.versions.records edge.caller.source = true ∧
        snapshot.versions.records edge.callee.source = true := by
  simp [covers]

theorem isSelfConsistent_iff :
    snapshot.isSelfConsistent = true ↔
      ∀ edge ∈ snapshot.edges, snapshot.covers edge = true :=
  List.all_eq_true

end Snapshot

/-- What a build has gathered when it commits: the units it enumerated, the
version it read of each, and what the extraction of each unit that was not up to
date gave. -/
structure Round where
  units : UnitSet
  reads : List UnitVersion
  results : List UnitOutcome

namespace Round

variable (round : Round) (baseline : Snapshot)

def versions : VersionMap := KeyedSet.putAll ∅ round.reads

def plan : Build.Plan :=
  Build.Plan.against baseline round.units round.versions

def merged : Recomputed :=
  Recomputed.merge (round.plan baseline).invalidation.valid round.versions
    round.results

def snapshot : Snapshot :=
  (round.merged baseline).snapshot.succeeding baseline

/-- Every enumerated unit was read once, and every unit to be extracted again
was extracted once. -/
structure Fits : Prop where
  reads : round.reads.map UnitVersion.source = round.units.entries
  results : round.results.map UnitOutcome.source =
    (round.plan baseline).invalidation.reparse.entries

variable {round : Round} {baseline : Snapshot} {source : SourceUnit}
  {token : VersionToken} {version : UnitVersion} {edge : Edge}

theorem Fits.reads_keys (hfits : round.Fits baseline) :
    round.reads.Pairwise fun first second =>
      Keyed.key first ≠ Keyed.key second := by
  have hunits : round.units.entries.Pairwise fun first second =>
      Keyed.key first ≠ Keyed.key second :=
    round.units.ascending.imp KeyedSet.key_ne_of_before
  rw [← hfits.reads, List.pairwise_map] at hunits
  exact hunits

theorem Fits.mem_versions (hfits : round.Fits baseline) :
    version ∈ round.versions ↔ version ∈ round.reads := by
  unfold versions
  rw [KeyedSet.mem_putAll hfits.reads_keys]
  exact or_iff_left fun hempty => KeyedSet.not_mem_empty hempty.1

theorem Fits.records_iff (hfits : round.Fits baseline) :
    round.versions.records source = true ↔ source ∈ round.units := by
  have hunit : source ∈ round.units ↔ ∃ read ∈ round.reads,
      read.source = source := by
    rw [KeyedSet.mem_def, ← hfits.reads, List.mem_map]
  rw [hunit, VersionMap.records_iff]
  simp only [hfits.mem_versions]
  constructor
  · rintro ⟨token, hread⟩
    exact ⟨⟨source, token⟩, hread, rfl⟩
  · rintro ⟨⟨_, token⟩, hread, rfl⟩
    exact ⟨token, hread⟩

theorem Fits.exists_result_iff (hfits : round.Fits baseline) :
    (∃ result ∈ round.results, result.source = source) ↔
      source ∈ (round.plan baseline).invalidation.reparse := by
  rw [KeyedSet.mem_def, ← hfits.results, List.mem_map]

theorem Fits.records_result (hfits : round.Fits baseline) {result : UnitOutcome}
    (hresult : result ∈ round.results) :
    round.versions.records result.source = true := by
  have hreparse := hfits.exists_result_iff.mp ⟨result, hresult, rfl⟩
  exact hfits.records_iff.mpr (Invalidation.mem_reparse.mp hreparse).1

theorem mem_valid_iff :
    edge ∈ (round.plan baseline).invalidation.valid ↔
      edge ∈ baseline.edges ∧
        (round.plan baseline).changes.invalidated.contains edge.caller.source =
          false ∧
        (round.plan baseline).changes.invalidated.contains edge.callee.source =
          false :=
  Invalidation.mem_valid

theorem unmoved_of_mem_valid (hconsistent : baseline.isSelfConsistent = true)
    (hedge : edge ∈ (round.plan baseline).invalidation.valid)
    (htoken : ⟨edge.caller.source, token⟩ ∈ round.versions) :
    ⟨edge.caller.source, token⟩ ∈ baseline.versions ∧
      edge.caller.source ∉ baseline.failed := by
  obtain ⟨hprior, hcaller, _⟩ := mem_valid_iff.mp hedge
  have hcovers := Snapshot.isSelfConsistent_iff.mp hconsistent edge hprior
  exact ChangeSet.unmoved_of_not_invalidated
    (Snapshot.covers_iff.mp hcovers).1 htoken hcaller

theorem mem_failed_iff :
    source ∈ (round.snapshot baseline).failed ↔
      ∃ result ∈ round.results, result.source = source ∧
        ∃ fault, result.outcome = .error fault := by
  change source ∈ (round.merged baseline).snapshot.failed ↔ _
  exact Recomputed.mem_failed

theorem valid_or_found (hedge : edge ∈ (round.snapshot baseline).edges) :
    edge ∈ (round.plan baseline).invalidation.valid ∨
      edge ∈ Recomputed.foundEdges round.results ∧
        Recomputed.isInside round.versions edge = true :=
  Recomputed.valid_or_found_of_mem_merge hedge

theorem caller_not_failed (hedge : edge ∈ (round.snapshot baseline).edges) :
    edge.caller.source ∉ (round.snapshot baseline).failed :=
  Recomputed.caller_not_failed_of_mem_merge hedge

theorem Fits.records_of_failed (hfits : round.Fits baseline)
    (hfailed : source ∈ (round.snapshot baseline).failed) :
    (round.snapshot baseline).versions.records source = true := by
  obtain ⟨result, hresult, rfl, _⟩ := mem_failed_iff.mp hfailed
  exact hfits.records_result hresult

/-- Edges that stay valid are not looked up in the new version map: it is the
consistency of the baseline that keeps them inside it. -/
theorem snapshot_isSelfConsistent
    (hconsistent : baseline.isSelfConsistent = true) :
    (round.snapshot baseline).isSelfConsistent = true := by
  rw [Snapshot.isSelfConsistent_iff]
  intro edge hedge
  rcases valid_or_found hedge with hvalid | ⟨_, hinside⟩
  · obtain ⟨hprior, hcaller, hcallee⟩ := mem_valid_iff.mp hvalid
    have hcovers := Snapshot.covers_iff.mp
      (Snapshot.isSelfConsistent_iff.mp hconsistent edge hprior)
    exact Snapshot.covers_iff.mpr
      ⟨ChangeSet.recorded_of_not_invalidated hcovers.1 hcaller,
        ChangeSet.recorded_of_not_invalidated hcovers.2 hcallee⟩
  · exact Snapshot.covers_iff.mpr (Recomputed.isInside_iff.mp hinside)

/-- A unit that was not extracted was there before with the same version, had
not failed, and is at neither end of a stale call. -/
theorem Fits.unmoved_of_not_extracted (hfits : round.Fits baseline)
    (htoken : ⟨source, token⟩ ∈ (round.snapshot baseline).versions)
    (hresult : ¬∃ result ∈ round.results, result.source = source) :
    ⟨source, token⟩ ∈ baseline.versions ∧ source ∉ baseline.failed ∧
      (round.plan baseline).changes.invalidated.contains source = false ∧
      ∀ edge ∈ (round.plan baseline).invalidation.stale,
        edge.touches source = false := by
  have hrecorded := VersionMap.records_of_mem htoken
  have hunit : source ∈ round.units := hfits.records_iff.mp hrecorded
  rw [hfits.exists_result_iff] at hresult
  have hnot := mt Invalidation.mem_reparse.mpr hresult
  simp only [not_and, not_or] at hnot
  obtain ⟨hstale, hadded, hinvalidated⟩ := hnot hunit
  rw [← SourceUnit.contains_iff_mem, Bool.not_eq_true] at hinvalidated
  have hprior : baseline.versions.records source = true := by
    cases hprior : baseline.versions.records source with
    | true => rfl
    | false => exact absurd (ChangeSet.mem_added.mpr ⟨hrecorded, hprior⟩) hadded
  obtain ⟨hsame, hsound⟩ :=
    ChangeSet.unmoved_of_not_invalidated hprior htoken hinvalidated
  refine ⟨hsame, hsound, hinvalidated, ?_⟩
  intro edge hedge
  exact Bool.eq_false_iff.mpr fun htouches => hstale ⟨edge, hedge, htouches⟩

def record (round : Round) (id : BuildId) : List BuildEvent :=
  .enumerated id round.units :: round.reads.map (BuildEvent.versionRead id) ++
    round.results.map fun result => .extracted id result.source

end Round

end CallGraph
