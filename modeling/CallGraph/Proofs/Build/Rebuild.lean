import CallGraph.Build.Script
import CallGraph.Proofs.Build.Steady
import CallGraph.Proofs.Build.Table

namespace CallGraph

open BuildLog (record)

namespace Build

variable {σ : Type} {nested : Nested σ} {host : Host σ} {sight : Sight σ}
  {found? : Yield} {Rel : World σ → World σ → Prop} {scope : ViewScope}
  {world ready last : World σ} {round : Round}

theorem Stopped.isCancelled {id : BuildId} {start : World σ}
    {result : BuildResult} {baseline : Snapshot}
    (hstopped : Stopped nested host Rel id start last result)
    (hsteady : host.IsSteady sight found?)
    (hrel : ∀ {first last}, Rel first last → sight.Same first.host last.host)
    (hnested : ∀ scope world,
      sight.Same world.host (nested scope world).1.host)
    (hsees : round.Sees sight start.host) (hfits : round.Fits baseline) :
    last.coordinator.isCancelled id = true := by
  have hunits : ∀ asked : World σ, sight.Same start.host asked.host →
      (ask nested host.allUnits asked).2 = .ok round.units := by
    intro asked hsame
    have hanswered := (perform_obeys sight.timeline hnested
      (hsteady.allUnits asked.host) asked.coordinator).2
    rw [← hsees.units, ← hsame.1]
    exact hanswered
  cases hstopped with
  | unlisted fault hfault =>
      obtain ⟨asked, hbefore, hanswer, _⟩ := hfault
      cases hanswer.symm.trans (hunits asked (hrel hbefore))
  | unread units reads source rest fault henumerated _ hfailed horder =>
      obtain rfl := Except.ok.inj (henumerated.answer.symm.trans
        (hunits start (sight.timeline.refl start.host)))
      have hsource : source ∈ round.reads.map UnitVersion.source := by
        rw [hfits.reads, horder]
        simp
      obtain ⟨version, hversion, rfl⟩ := List.mem_map.mp hsource
      obtain ⟨asked, hbefore, hanswer, _⟩ := hfailed
      have hanswered := (perform_obeys sight.timeline hnested
        (hsteady.versionOf version.source asked.host) asked.coordinator).2
      have hread := hsees.versions version hversion
      rw [← (hrel hbefore).2, ← hanswered] at hread
      cases hanswer.symm.trans hread
  | cancelled stats hcancelled => exact hcancelled

end Build

/-- A build whose snapshot differs from the one that it found in nothing but the
generation, and that extracted the failed units and those that call into them.
-/
structure BuildLog.Renews (id : BuildId) (found : Snapshot)
    (log : List BuildEvent) : Prop where
  committed : ∀ snapshot, .committed id snapshot ∈ log ↔
    snapshot = found.succeeding found
  extracted : ∀ source, .extracted id source ∈ log ↔
    source ∈ found.failed ∨
      ∃ edge ∈ found.edges, edge.callee.source ∈ found.failed ∧
        edge.caller.source = source

theorem BuildLog.renews_of_record {id : BuildId} {found : Snapshot}
    {log closing : List BuildEvent} {state : BuildState} {round : Round}
    (hclosing : ∀ event ∈ closing,
      event = .presented id ∨ event = .finished id state)
    (hrecord : record id log = .began id :: round.record id ++
      .committed id (found.succeeding found) :: closing)
    (hresults : ∀ source, (∃ result ∈ round.results, result.source = source) ↔
      source ∈ found.failed ∨
        ∃ edge ∈ found.edges, edge.callee.source ∈ found.failed ∧
          edge.caller.source = source) :
    BuildLog.Renews id found log := by
  have hmem : ∀ {event : BuildEvent}, event.build = id →
      (event ∈ log ↔ event ∈ record id log) := by
    intro event hevent
    rw [record, List.mem_filter, hevent]
    simp
  have hstep := @Build.step_of_record id round
  constructor
  · intro snapshot
    have hquiet : .committed id snapshot ∉ round.record id := by
      intro hmem
      cases (hstep _ hmem).1
    have hafter : .committed id snapshot ∉ closing := by
      intro hmem
      rcases hclosing _ hmem with hevent | hevent <;> cases hevent
    rw [hmem rfl, hrecord]
    simp [hquiet, hafter]
  · intro source
    have hafter : .extracted id source ∉ closing := by
      intro hmem
      rcases hclosing _ hmem with hevent | hevent <;> cases hevent
    rw [← hresults source, hmem rfl, hrecord]
    simp [hafter, Round.record]

namespace Build

variable {σ : Type} {host : Host σ} {sight : Sight σ} {found? : Yield}
  {world : World σ}

theorem build_renews (hsteady : host.IsSteady sight found?)
    (hleads : found?.LeadsOut) (depth : Nat) (scope : ViewScope)
    (hupToDate : world.IsUpToDate sight found?)
    (hturns : world.coordinator.IsTakingTurns) :
    (leavesCommit (world.build host depth scope).2 = true →
      BuildLog.Renews world.coordinator.nextId world.coordinator.snapshot
        (world.build host depth scope).1.coordinator.events) ∧
      (host.IsQuiet →
        leavesCommit (world.build host depth scope).2 = true ∧
          (world.build host depth scope).1.coordinator.snapshot =
            world.coordinator.snapshot.succeeding
              world.coordinator.snapshot) := by
  obtain ⟨round, baseline, hsettled, hfits, hyields, hsees, hcurrent⟩ :=
    hupToDate
  have hstable := stable_steadily hsteady
  have hnested := hstable.nestedWithin depth
  have hframe := (hstable.frame _ hnested).and
    (frame_undisturbed (nestedWithin host depth) host)
  have hsame : ∀ {first last : World σ},
      Steadily sight found? first last ∧ Undisturbed host first last →
        sight.Same first.host last.host := fun hrel => hrel.1.same
  obtain ⟨last, result, hcourse, hrunOnce⟩ := runOnce_course
    (orderly_nestedWithin host depth) hframe scope world
  unfold World.build
  rw [hrunOnce]
  cases hcourse with
  | stopped hpasses _ hstopped =>
      refine ⟨fun hcommits => ?_, fun hquiet => ?_⟩
      · rw [hstopped.leaves_nothing] at hcommits
        cases hcommits
      · have hcancelled := hstopped.isCancelled hsteady hsame
          (fun scope world => (hnested scope world).same) hsees hfits
        have hcurrent := hpasses.related.2.not_cancelled hquiet hturns
        cases hcancelled.symm.trans hcurrent
  | @committed again ready own _ hgathered hpasses hquiet hreported =>
      obtain ⟨hsees', hyields'⟩ := hgathered.steady hsteady
        hsame fun scope world => (hnested scope world).same
      have hfits' := hgathered.fits
      rw [snapshot_begunIn, hcurrent] at hfits'
      have hagain : again.Repeats round :=
        (hsees.congr hgathered.passes.related.1.same).repeats hsees' hfits hfits'
      have hsnapshot : again.snapshot world.coordinator.snapshot =
          world.coordinator.snapshot.succeeding world.coordinator.snapshot := by
        rw [hcurrent]
        exact hagain.snapshot_eq hsettled hleads hfits hyields hfits' hyields'
      rw [snapshot_begunIn] at hpasses
      refine ⟨fun _ => ?_, fun hhost => ⟨hreported.leaves_commit, ?_⟩⟩
      · obtain ⟨closing, hclosing, hrecord⟩ := record_of_committed
          (BuildState.ofResult result) hturns hgathered.passes hpasses hquiet
        rw [hsnapshot] at hrecord
        refine BuildLog.renews_of_record hclosing hrecord fun source => ?_
        rw [hfits'.exists_result_iff, hcurrent]
        exact hagain.mem_reparse_iff hsettled hfits hyields.failsAs
      · rw [show (last.withCoordinator (last.coordinator.finish
          world.coordinator.nextId
          (BuildState.ofResult result))).coordinator.snapshot =
            last.coordinator.snapshot from
          Coordinator.snapshot_finish last.coordinator _ _,
          (hpasses.related.2 hhost).2, ← hsnapshot]
        rfl

end Build

namespace World.Reaches

variable {σ : Type} {host : Host σ} {sight : Sight σ} {found? : Yield}
  {edits : σ → σ → Prop} {state : σ} {world : World σ}

theorem isSettled (hsteady : host.IsSteady sight found?)
    (hreaches : World.Reaches host edits ⟨.startingFrom .initial, state⟩ world) :
    world.coordinator.snapshot.IsSettled found? := by
  induction hreaches with
  | start => exact Snapshot.isSettled_initial found?
  | edit _ _ ih => exact ih
  | build _ depth scope ih =>
      exact ((Build.stable_steadily hsteady).build depth scope _).settled ih
  | cancel _ ih =>
      change Snapshot.IsSettled found? (Coordinator.cancelRunning _).snapshot
      rw [Coordinator.snapshot_cancelRunning]
      exact ih

/-- A build that follows on one that has committed, with the host unchanged,
commits the same once more.  It extracts the units that have failed and those
that call into them, and nothing when none has failed.  On a host that neither
cancels builds nor starts any it does commit. -/
theorem rebuild_renews (hsteady : host.IsSteady sight found?)
    (hleads : found?.LeadsOut)
    (hreaches : World.Reaches host edits ⟨.startingFrom .initial, state⟩ world)
    {depth : Nat} {scope : ViewScope}
    (hcommits : Build.leavesCommit (world.build host depth scope).2 = true)
    {first : World σ} (hfirst : (world.build host depth scope).1 = first)
    (depth' : Nat) (scope' : ViewScope) :
    (Build.leavesCommit (first.build host depth' scope').2 = true →
      BuildLog.Renews first.coordinator.nextId first.coordinator.snapshot
          (first.build host depth' scope').1.coordinator.events ∧
        (first.coordinator.snapshot.failed = ∅ → ∀ source,
          .extracted first.coordinator.nextId source ∉
            (first.build host depth' scope').1.coordinator.events)) ∧
      (host.IsQuiet →
        Build.leavesCommit (first.build host depth' scope').2 = true ∧
          (first.build host depth' scope').1.coordinator.snapshot =
            first.coordinator.snapshot.succeeding
              first.coordinator.snapshot) := by
  subst hfirst
  have hturns := (hreaches.build depth scope).isTakingTurns (.startingFrom _)
  have hupToDate := Build.build_isUpToDate hsteady depth scope
    (hreaches.isSettled hsteady) hcommits
  obtain ⟨hrenews, hquiet⟩ := Build.build_renews hsteady hleads depth' scope'
    hupToDate hturns
  refine ⟨fun hagain => ⟨hrenews hagain, fun hnone source hextracted => ?_⟩,
    hquiet⟩
  have hempty : ∀ {unit : SourceUnit}, unit ∉ (∅ : UnitSet) :=
    KeyedSet.not_mem_empty
  rcases ((hrenews hagain).extracted source).mp hextracted with
    hfailed | ⟨edge, _, hcallee, _⟩
  · exact hempty (hnone ▸ hfailed)
  · exact hempty (hnone ▸ hcallee)

end World.Reaches

namespace Host

def ofYield (found? : Yield) : Host VersionMap :=
  { ofTable (fun _ versions => versions) fun _ _ => [] with
    extract := fun source versions =>
      .done versions (match versions.token? source with
        | none => .error (.because (source.path ++ " vanished"))
        | some token =>
            match found? source token with
            | none => .error (.because (source.path ++ " cannot be extracted"))
            | some edges => .ok ⟨[], edges⟩) }

def tableSight : Sight VersionMap :=
  ⟨fun versions => .ok versions.units, VersionMap.read⟩

theorem ofYield_isSteady (found? : Yield) :
    (ofYield found?).IsSteady tableSight found? where
  follows := {
    timeline := tableSight.timeline
    asked := by
      intro α question hasks start
      cases hasks <;> exact ⟨tableSight.timeline.refl start, trivial⟩
    resetProgress := fun _ => tableSight.timeline.refl
    countProgress := tableSight.timeline.refl }
  allUnits start := ⟨tableSight.timeline.refl start, rfl⟩
  versionOf source start := ⟨tableSight.timeline.refl start, rfl⟩
  extract source start := by
    refine ⟨tableSight.timeline.refl start, fun token hread => ?_⟩
    rw [token?_of_read hread]
    cases hyield : found? source token <;> simp [UnitOutcome.edges?, hyield]

theorem ofYield_isQuiet (found? : Yield) : (ofYield found?).IsQuiet := by
  intro α question hasks start
  cases hasks <;> exact trivial

end Host

namespace Sample

def brokenCallee : Yield := fun source _ =>
  if source = firstUnit then some [linkingCall] else none

theorem brokenCallee_leadsOut : brokenCallee.LeadsOut := by
  intro source token edges hfound edge hedge
  unfold brokenCallee at hfound
  split at hfound
  · rename_i hsource
    obtain rfl := Option.some.inj hfound
    rw [List.mem_singleton.mp hedge, hsource]
    rfl
  · cases hfound

def brokenStart : World VersionMap :=
  ⟨default, ((∅ : VersionMap).put ⟨firstUnit, ⟨1⟩⟩).put ⟨secondUnit, ⟨1⟩⟩⟩

def brokenBuild : World VersionMap :=
  (brokenStart.build (Host.ofYield brokenCallee) 0 default).1

theorem brokenBuild_renews :
    brokenBuild.coordinator.snapshot.failed.entries = [secondUnit] ∧
      brokenBuild.coordinator.snapshot.edges.entries = [linkingCall] ∧
      BuildLog.Renews 2 brokenBuild.coordinator.snapshot
        (brokenBuild.build (Host.ofYield brokenCallee) 0
          default).1.coordinator.events ∧
      (brokenBuild.build (Host.ofYield brokenCallee) 0
          default).1.coordinator.snapshot =
        brokenBuild.coordinator.snapshot.succeeding
          brokenBuild.coordinator.snapshot := by
  have hreaches : World.Reaches (Host.ofYield brokenCallee) (fun _ _ => False)
      ⟨.startingFrom .initial, brokenStart.host⟩ brokenStart := .start
  have hcommits : Build.leavesCommit
      (brokenStart.build (Host.ofYield brokenCallee) 0 default).2 = true := by
    decide
  have hfirst : (brokenStart.build (Host.ofYield brokenCallee) 0 default).1 =
      brokenBuild := rfl
  obtain ⟨hrenews, hquiet⟩ := World.Reaches.rebuild_renews
    (Host.ofYield_isSteady brokenCallee) brokenCallee_leadsOut hreaches hcommits
    hfirst 0 default
  obtain ⟨hagain, hsnapshot⟩ := hquiet (Host.ofYield_isQuiet brokenCallee)
  exact ⟨by decide, by decide, (hrenews hagain).1, hsnapshot⟩

end Sample

end CallGraph
