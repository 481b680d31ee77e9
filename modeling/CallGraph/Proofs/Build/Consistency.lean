import CallGraph.Build.Script
import CallGraph.Proofs.Build.History
import CallGraph.Proofs.Build.Table

namespace CallGraph

open BuildLog (latest record)

/-- What a snapshot that the build `id` commits has in common with the log up to
the commit. -/
structure Snapshot.AgreesWith (snapshot : Snapshot) (id : BuildId)
    (before : List BuildEvent) : Prop where
  callers : ∀ edge ∈ snapshot.edges,
    snapshot.versions.records edge.caller.source = true
  callees : ∀ edge ∈ snapshot.edges,
    snapshot.versions.records edge.callee.source = true
  failed : ∀ source ∈ snapshot.failed, snapshot.versions.records source = true
  silent : ∀ edge ∈ snapshot.edges, edge.caller.source ∉ snapshot.failed
  units : ∃ units, (∀ other, .enumerated id other ∈ before ↔ other = units) ∧
    ∀ source, snapshot.versions.records source = true ↔ source ∈ units
  versions : ∀ version,
    version ∈ snapshot.versions ↔ .versionRead id version ∈ before

namespace Round

variable {round : Round} {id : BuildId} {baseline : Snapshot}
  {earlier : List BuildEvent}

theorem enumerated_mem_iff (hfresh : ∀ event ∈ earlier, event.build ≠ id)
    {units : UnitSet} :
    .enumerated id units ∈ earlier ++ .began id :: round.record id ↔
      units = round.units := by
  have hearlier : .enumerated id units ∉ earlier :=
    fun hmem => hfresh _ hmem rfl
  simp [hearlier, record]

theorem versionRead_mem_iff (hfresh : ∀ event ∈ earlier, event.build ≠ id)
    {version : UnitVersion} :
    .versionRead id version ∈ earlier ++ .began id :: round.record id ↔
      version ∈ round.reads := by
  have hearlier : .versionRead id version ∉ earlier :=
    fun hmem => hfresh _ hmem rfl
  simp [hearlier, record]

theorem extracted_mem_iff (hfresh : ∀ event ∈ earlier, event.build ≠ id)
    {source : SourceUnit} :
    .extracted id source ∈ earlier ++ .began id :: round.record id ↔
      ∃ result ∈ round.results, result.source = source := by
  have hearlier : .extracted id source ∉ earlier :=
    fun hmem => hfresh _ hmem rfl
  simp [hearlier, record]

theorem Fits.agrees (hfits : round.Fits baseline)
    (hconsistent : baseline.isSelfConsistent = true)
    (hfresh : ∀ event ∈ earlier, event.build ≠ id) :
    (round.snapshot baseline).AgreesWith id
      (earlier ++ .began id :: round.record id) := by
  have hcovers := Snapshot.isSelfConsistent_iff.mp
    (@snapshot_isSelfConsistent round baseline hconsistent)
  exact {
    callers := fun edge hedge =>
      (Snapshot.covers_iff.mp (hcovers edge hedge)).1
    callees := fun edge hedge =>
      (Snapshot.covers_iff.mp (hcovers edge hedge)).2
    failed := fun source hfailed => hfits.records_of_failed hfailed
    silent := fun edge hedge => caller_not_failed hedge
    units := ⟨round.units, fun other => enumerated_mem_iff hfresh,
      fun source => hfits.records_iff⟩
    versions := fun version =>
      hfits.mem_versions.trans (versionRead_mem_iff hfresh).symm }

end Round

theorem Chronicle.latest_isSelfConsistent {Told : Round → Prop}
    {seed : Snapshot} {log : List BuildEvent} (hlog : Chronicle Told seed log)
    (hseed : seed.isSelfConsistent = true) :
    (latest seed log).isSelfConsistent = true :=
  hlog.latest_induction
    (P := fun snapshot => snapshot.isSelfConsistent = true) hseed
    fun _ _ _ _ hbaseline => Round.snapshot_isSelfConsistent hbaseline

/-- Whatever the host does, every snapshot that a coordinator commits is
consistent in itself and agrees with what its build enumerated and read. -/
theorem World.Reaches.agrees_of_committed {σ : Type} {host : Host σ}
    {edits : σ → σ → Prop} {seed : Snapshot} {state : σ} {world : World σ}
    {before after : List BuildEvent} {id : BuildId} {snapshot : Snapshot}
    (hseed : seed.isSelfConsistent = true)
    (hreaches : World.Reaches host edits ⟨.startingFrom seed, state⟩ world)
    (hcommit : world.coordinator.events =
      before ++ .committed id snapshot :: after) :
    snapshot.AgreesWith id before := by
  have hchronicled :
      world.coordinator.IsChronicled (fun _ => True) seed :=
    Build.isChronicled_of_reaches host.follows_all (fun _ _ => trivial)
      hreaches (.startingFrom _ seed)
  obtain ⟨hbefore, earlier, round, rfl, hfresh, hfits, _, rfl⟩ :=
    hchronicled.chronicle.exists_round hcommit
  exact hfits.agrees (hbefore.latest_isSelfConsistent hseed) hfresh

namespace Sample

def linked : Script :=
  ((Script.empty.setVersion firstUnit ⟨1⟩).setVersion secondUnit ⟨1⟩).setEdges
    firstUnit [linkingCall]

def linkedBuild : World Script :=
  ((⟨default, linked⟩ : World Script).build (Script.bareHost false) 0
    default).1

theorem linkedBuild_agrees :
    Snapshot.initial.isSelfConsistent = true ∧
      linkedBuild.coordinator.snapshot.edges.entries = [linkingCall] ∧
      linkedBuild.coordinator.snapshot.AgreesWith 1
        (linkedBuild.coordinator.events.take 6) := by
  have hreaches : World.Reaches (Script.bareHost false) (fun _ _ => False)
      ⟨.startingFrom .initial, linked⟩ linkedBuild :=
    .build .start 0 default
  have hcommit : linkedBuild.coordinator.events =
      linkedBuild.coordinator.events.take 6 ++
        .committed 1 linkedBuild.coordinator.snapshot ::
          [.presented 1, .finished 1 .committed] := by decide
  exact ⟨rfl, by decide, World.Reaches.agrees_of_committed rfl hreaches hcommit⟩

end Sample

end CallGraph
