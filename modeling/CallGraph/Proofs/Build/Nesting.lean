import CallGraph.Proofs.Build.Course

namespace CallGraph

namespace Coordinator

variable (coordinator : Coordinator)

def begun : Coordinator := coordinator.begin.2

theorem begin_eq :
    coordinator.begin = (coordinator.nextId, coordinator.begun) := rfl

theorem cancelReplaced_eq (replaced : Option BuildId) :
    coordinator.cancelReplaced replaced =
      { coordinator with
        cancelled := replaced.toList ++ coordinator.cancelled } := by
  cases replaced <;> rfl

theorem snapshot_cancelRunning :
    coordinator.cancelRunning.snapshot = coordinator.snapshot := by
  rw [cancelRunning, cancelReplaced_eq]
  rfl

/-- The build in flight is told to stop, and no other one. -/
theorem isCancelled_cancelRunning {id : BuildId} :
    coordinator.cancelRunning.isCancelled id = true ↔
      coordinator.inFlight = some id ∨ coordinator.isCancelled id = true := by
  rw [cancelRunning, cancelReplaced_eq]
  simp only [isCancelled, List.contains_iff_mem, List.mem_append,
    Option.mem_toList]

theorem begun_eq :
    coordinator.begun =
      { coordinator with
        inFlight := some coordinator.nextId
        cancelled := coordinator.inFlight.toList ++ coordinator.cancelled
        state := .running
        nextId := coordinator.nextId + 1
        events := coordinator.events ++ [.began coordinator.nextId] } := by
  simp [begun, begin, drawId, register, cancelReplaced_eq, markRunning, note]

theorem isCancelled_begun {id : BuildId}
    (hcancelled : coordinator.isCancelled id = true ∨
      coordinator.inFlight = some id) :
    coordinator.begun.isCancelled id = true := by
  rw [begun_eq]
  rcases hcancelled with hcancelled | hinFlight
  · simp only [isCancelled, List.contains_iff_mem, List.mem_append] at *
    exact Or.inr hcancelled
  · simp [isCancelled, hinFlight]

theorem finish_eq (id : BuildId) (state : BuildState) :
    coordinator.finish id state = coordinator ∨
      coordinator.finish id state =
        { coordinator with inFlight := none, state := state }.note
          (.finished id state) := by
  unfold finish
  split
  · exact Or.inr rfl
  · exact Or.inl rfl

theorem snapshot_finish (id : BuildId) (state : BuildState) :
    (coordinator.finish id state).snapshot = coordinator.snapshot := by
  unfold finish
  split <;> rfl

theorem Grows.enclosed {coordinator last : Coordinator}
    {later : List BuildEvent}
    (hgrows : Grows (some coordinator.nextId) coordinator.begun later last)
    (state : BuildState) :
    ∃ closing,
      (∀ event ∈ closing, event.build = coordinator.nextId ∧
        event.isCommit = false) ∧
      Grows none coordinator
        (.began coordinator.nextId :: later ++ closing)
        (last.finish coordinator.nextId state) := by
  have hevents := hgrows.events
  have hsnapshot := hgrows.snapshot
  have hnextId := hgrows.nextId
  have hnumbered := hgrows.numbered
  rw [begun_eq] at hevents hsnapshot hnextId hnumbered
  have hcancelled : ∀ id, coordinator.isCancelled id = true ∨
      coordinator.inFlight = some id → last.isCancelled id = true :=
    fun id hid => hgrows.cancelled id (coordinator.isCancelled_begun hid)
  have hgrown : Grows none coordinator (.began coordinator.nextId :: later)
      last := {
    events := by simp [hevents]
    snapshot := hsnapshot
    nextId := Nat.le_of_succ_le hnextId
    numbered := by
      intro event hevent
      refine Or.inr ?_
      rcases List.mem_cons.mp hevent with rfl | hevent
      · exact ⟨Nat.le_refl _, hnextId⟩
      · rcases hnumbered event hevent with hown | ⟨hfrom, hto⟩
        · rw [Option.some.inj hown]
          exact ⟨Nat.le_refl _, hnextId⟩
        · exact ⟨Nat.le_of_succ_le hfrom, hto⟩
    cancelled := fun id hid => hcancelled id (Or.inl hid)
    inFlight := Or.inr fun id hid => hcancelled id (Or.inr hid) }
  rcases last.finish_eq coordinator.nextId state with hfinish | hfinish
  · refine ⟨[], nofun, ?_⟩
    rw [hfinish, List.append_nil]
    exact hgrown
  · refine ⟨[.finished coordinator.nextId state], ?_, ?_⟩
    · simp [BuildEvent.build, BuildEvent.isCommit]
    · rw [hfinish]
      exact {
        events := by simp [hgrown.events]
        snapshot := by rw [BuildLog.latest_append]; exact hgrown.snapshot
        nextId := hgrown.nextId
        numbered := by
          intro event hevent
          rcases List.mem_append.mp hevent with hevent | hevent
          · exact hgrown.numbered event hevent
          · rw [List.mem_singleton.mp hevent]
            exact Or.inr ⟨Nat.le_refl _, hnextId⟩
        cancelled := hgrown.cancelled
        inFlight := Or.inr fun id hid => hcancelled id (Or.inr hid) }

end Coordinator

namespace Build

open BuildLog (record commits)
open Coordinator (Grows)

variable {σ : Type} {nested : Nested σ} {host : Host σ}
  {Rel : World σ → World σ → Prop} {id : BuildId} {scope : ViewScope}
  {world start last : World σ} {result : BuildResult}

def begunIn (world : World σ) : World σ :=
  world.withCoordinator world.coordinator.begun

theorem snapshot_begunIn (world : World σ) :
    (begunIn world).coordinator.snapshot = world.coordinator.snapshot := by
  simp only [begunIn, World.withCoordinator, Coordinator.begun_eq,
    Coordinator.snapshot]

theorem numbered_begunIn (world : World σ) :
    world.coordinator.nextId < (begunIn world).coordinator.nextId := by
  simp only [begunIn, World.withCoordinator, Coordinator.begun_eq]
  exact Nat.lt_succ_self _

theorem inFlight_begunIn (world : World σ) :
    (begunIn world).coordinator.inFlight = some world.coordinator.nextId := by
  simp only [begunIn, World.withCoordinator, Coordinator.begun_eq]

theorem events_begunIn (world : World σ) :
    (begunIn world).coordinator.events =
      world.coordinator.events ++ [.began world.coordinator.nextId] := by
  simp only [begunIn, World.withCoordinator, Coordinator.begun_eq]

theorem runOnce_of_run
    (hrun : run nested host world.coordinator.nextId scope (begunIn world) =
      (last, result)) :
    runOnce nested host scope world =
      (last.withCoordinator (last.coordinator.finish world.coordinator.nextId
        (BuildState.ofResult result)), result) := by
  simp only [runOnce, Coordinator.begin_eq]
  unfold begunIn at hrun
  rw [hrun]

theorem runOnce_course (horderly : Orderly nested)
    (hframe : Frame nested host Rel) (scope : ViewScope) (world : World σ) :
    ∃ last result,
      Course nested host Rel world.coordinator.nextId scope (begunIn world) last
        result ∧
      runOnce nested host scope world =
        (last.withCoordinator (last.coordinator.finish
          world.coordinator.nextId (BuildState.ofResult result)), result) := by
  cases hrun : run nested host world.coordinator.nextId scope
      (begunIn world) with
  | mk last result =>
      have hcourse := run_course horderly hframe scope (numbered_begunIn world)
        (inFlight_begunIn world) ⟨_, events_begunIn world⟩ hrun
      exact ⟨last, result, hcourse, runOnce_of_run hrun⟩

/-- Whether a build has put its snapshot in the place of the current one.  One
whose scope could not be resolved has. -/
def leavesCommit : BuildResult → Bool
  | .ok report => report.isCommitted
  | .error (.scope _) => true
  | .error _ => false

theorem Stopped.leaves_nothing
    (hstopped : Stopped nested host Rel id start last result) :
    leavesCommit result = false := by
  cases hstopped <;> rfl

theorem Reported.leaves_commit {units : UnitSet} {snapshot : Snapshot}
    {stats : BuildStats} {failures : List AnalysisFailure}
    (hreported : Reported nested host Rel id scope units snapshot stats failures
      start last result) :
    leavesCommit result = true := by
  cases hreported <;> rfl

/-- The log shows at most one commit of a build, and one exactly when the answer
of the build says so. -/
inductive Settled (id : BuildId) (baseline : Snapshot) (log : List BuildEvent)
    (result : BuildResult) : Prop where
  | kept (hresult : leavesCommit result = false)
      (hcommits : commits id log = [])
  | replaced (snapshot : Snapshot) (hresult : leavesCommit result = true)
      (hgeneration : snapshot.generation = baseline.generation + 1)
      (hcommits : commits id log = [.committed id snapshot])

theorem Course.grows
    (hcourse : Course nested host Rel id scope start last result) :
    ∃ later, Grows (some id) start.coordinator later last.coordinator ∧
      Settled id start.coordinator.snapshot later result := by
  cases hcourse with
  | stopped hpasses hquiet hanswer =>
      obtain ⟨later, hgrows, rfl⟩ := hpasses.grows
      exact ⟨later, hgrows,
        .kept hanswer.leaves_nothing (BuildLog.commits_eq_nil hquiet)⟩
  | @committed round ready own _ hgathered hpasses hquiet hanswer =>
      obtain ⟨earlier, hearlier, hrecord⟩ := hgathered.passes.grows
      obtain ⟨later, hlater, rfl⟩ := hpasses.grows
      have hcommit : Grows (some id) ready.coordinator _ _ :=
        Grows.committing ready.coordinator
          (round.snapshot start.coordinator.snapshot)
      -- The record of the round and what follows the commit hold no other commit.
      refine ⟨_, (hearlier.trans hcommit).trans hlater,
        .replaced (round.snapshot start.coordinator.snapshot)
          hanswer.leaves_commit rfl ?_⟩
      have hbefore : commits id earlier = [] :=
        BuildLog.commits_eq_nil (hrecord ▸ quiet_of_record round)
      have hafter : commits id later = [] :=
        BuildLog.commits_eq_nil fun event hevent => hquiet event hevent ▸ rfl
      rw [BuildLog.commits_append, BuildLog.commits_append, hbefore, hafter]
      simp [commits, record, BuildEvent.build, BuildEvent.isCommit]

theorem runOnce_grows (horderly : Orderly nested)
    (hframe : Frame nested host Rel) (scope : ViewScope) (world : World σ) :
    ∃ later,
      Grows none world.coordinator later
        (runOnce nested host scope world).1.coordinator ∧
      Settled world.coordinator.nextId world.coordinator.snapshot later
        (runOnce nested host scope world).2 := by
  obtain ⟨last, result, hcourse, hrunOnce⟩ :=
    runOnce_course horderly hframe scope world
  obtain ⟨later, hgrows, hsettled⟩ := hcourse.grows
  obtain ⟨closing, hclosing, hgrown⟩ :=
    hgrows.enclosed (BuildState.ofResult result)
  have hquiet : commits world.coordinator.nextId closing = [] :=
    BuildLog.commits_eq_nil fun event hevent =>
      (hclosing event (BuildLog.mem_of_mem_record hevent)).2
  have hsame : commits world.coordinator.nextId
      (.began world.coordinator.nextId :: later ++ closing) =
        commits world.coordinator.nextId later := by
    rw [BuildLog.commits_append, hquiet, List.append_nil]
    simp [commits, record, BuildEvent.build, BuildEvent.isCommit]
  rw [snapshot_begunIn] at hsettled
  rw [hrunOnce]
  refine ⟨.began world.coordinator.nextId :: later ++ closing, hgrown, ?_⟩
  cases hsettled with
  | kept hresult hcommits => exact .kept hresult (hsame.trans hcommits)
  | replaced snapshot hresult hgeneration hcommits =>
      exact .replaced snapshot hresult hgeneration (hsame.trans hcommits)

theorem frame_true (nested : Nested σ) (host : Host σ) :
    Frame nested host fun _ _ => True := by
  constructor <;> intros <;> trivial

theorem orderly_nestedWithin (host : Host σ) (depth : Nat) :
    Orderly (nestedWithin host depth) := by
  induction depth with
  | zero => exact fun _ world => ⟨[], Grows.refl world.coordinator⟩
  | succ depth ih =>
      intro scope world
      obtain ⟨later, hgrows, _⟩ := runOnce_grows ih
        (frame_true (nestedWithin host depth) host) scope world
      exact ⟨later, hgrows⟩

/-- A relation between worlds that holds across all that a build does, its
commit included, whenever it holds across the builds nested in it. -/
structure Stable (host : Host σ) (Rel : World σ → World σ → Prop) : Prop where
  refl : ∀ world, Rel world world
  frame : ∀ nested : Nested σ,
    (∀ scope world, Rel world (nested scope world).1) → Frame nested host Rel
  begun : ∀ world, Rel world (begunIn world)
  finished : ∀ (world : World σ) (id : BuildId) (state : BuildState),
    id < world.coordinator.nextId →
    Rel world (world.withCoordinator (world.coordinator.finish id state))
  committed : ∀ {nested : Nested σ} {world ready : World σ} {round : Round},
    (∀ scope world, Rel world (nested scope world).1) →
    Gathered nested host Rel world.coordinator.nextId (begunIn world) ready
      round →
    Rel world (commitIn ready world.coordinator.nextId
      (round.snapshot world.coordinator.snapshot))

namespace Stable

theorem runOnce (hstable : Stable host Rel) (horderly : Orderly nested)
    (hnested : ∀ scope world, Rel world (nested scope world).1)
    (scope : ViewScope) (world : World σ) :
    Rel world (Build.runOnce nested host scope world).1 := by
  have hframe := hstable.frame nested hnested
  obtain ⟨last, result, hcourse, hrunOnce⟩ :=
    runOnce_course horderly hframe scope world
  have hid := numbered_begunIn world
  rw [hrunOnce]
  cases hcourse with
  | stopped hpasses hquiet hanswer =>
      refine hframe.trans (hstable.begun world) ?_
      refine hframe.trans hpasses.related ?_
      exact hstable.finished last _ _ (hpasses.numbered hid)
  | committed hgathered hpasses hquiet hanswer =>
      have hready := hgathered.passes.numbered hid
      rw [snapshot_begunIn] at hpasses
      refine hframe.trans (hstable.committed hnested hgathered) ?_
      refine hframe.trans hpasses.related ?_
      exact hstable.finished last _ _ (hpasses.numbered hready)

theorem nestedWithin (hstable : Stable host Rel) (depth : Nat)
    (scope : ViewScope) (world : World σ) :
    Rel world (Build.nestedWithin host depth scope world).1 := by
  induction depth generalizing scope world with
  | zero => exact hstable.refl world
  | succ depth ih =>
      exact hstable.runOnce (orderly_nestedWithin host depth) ih scope world

theorem build (hstable : Stable host Rel) (depth : Nat) (scope : ViewScope)
    (world : World σ) : Rel world (world.build host depth scope).1 :=
  hstable.runOnce (orderly_nestedWithin host depth)
    (hstable.nestedWithin depth) scope world

end Stable

end Build

end CallGraph
