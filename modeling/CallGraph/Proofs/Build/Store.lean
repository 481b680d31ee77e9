import CallGraph.Build.Script
import CallGraph.Proofs.Build.Nesting

namespace CallGraph.Build

open BuildLog (commits latest)

variable {σ : Type} {id : BuildId} {baseline : Snapshot}
  {later : List BuildEvent} {result : BuildResult}

theorem Settled.commits_iff (hsettled : Settled id baseline later result) :
    (∃ event ∈ later, event.build = id ∧ event.isCommit = true) ↔
      leavesCommit result = true := by
  cases hsettled with
  | kept hresult hcommits =>
      rw [hresult]
      refine iff_of_false ?_ nofun
      rintro ⟨event, hevent⟩
      have hmem := BuildLog.mem_commits.mpr hevent
      rw [hcommits] at hmem
      cases hmem
  | replaced snapshot hresult _ hcommits =>
      rw [hresult]
      refine iff_of_true ⟨.committed id snapshot, ?_⟩ rfl
      refine BuildLog.mem_commits.mp ?_
      rw [hcommits]
      exact List.mem_singleton_self _

/-- With no commit by others the snapshot is as before just when the build left
none either: a commit counts the generation on. -/
theorem Settled.latest_eq_iff (hsettled : Settled id baseline later result)
    (hown : ∀ event ∈ later, event.isCommit = true → event.build = id) :
    latest baseline later = baseline ↔ leavesCommit result = false := by
  rw [BuildLog.latest_of_own_commits hown]
  cases hsettled with
  | kept hresult hcommits =>
      rw [hcommits]
      exact iff_of_true rfl hresult
  | replaced snapshot hresult hgeneration hcommits =>
      rw [hcommits, hresult]
      refine iff_of_false ?_ nofun
      intro hsame
      have hnext : baseline.generation = baseline.generation + 1 :=
        (congrArg Snapshot.generation hsame).symm.trans hgeneration
      exact absurd hnext.symm (by simp)

/-- A build that ends with an error or cancelled leaves the store to the others,
unless the error is that the scope could not be resolved: then its own commit
stands. -/
theorem build_leaves_store_iff (host : Host σ) (depth : Nat) (scope : ViewScope)
    (world : World σ) :
    ∃ later : List BuildEvent,
      (world.build host depth scope).1.coordinator.events =
        world.coordinator.events ++ later ∧
      (world.build host depth scope).1.coordinator.snapshot =
        latest world.coordinator.snapshot later ∧
      ((∃ event ∈ later, event.build = world.coordinator.nextId ∧
          event.isCommit = true) ↔
        leavesCommit (world.build host depth scope).2 = true) ∧
      ((∀ event ∈ later, event.isCommit = true →
          event.build = world.coordinator.nextId) →
        ((world.build host depth scope).1.coordinator.snapshot =
            world.coordinator.snapshot ↔
          leavesCommit (world.build host depth scope).2 = false)) := by
  obtain ⟨later, hgrows, hsettled⟩ := runOnce_grows
    (orderly_nestedWithin host depth)
    (frame_true (nestedWithin host depth) host) scope world
  refine ⟨later, hgrows.events, hgrows.snapshot, hsettled.commits_iff, ?_⟩
  intro hown
  have hiff := hsettled.latest_eq_iff hown
  rw [← hgrows.snapshot] at hiff
  exact hiff

def unresolvable : World Script :=
  ⟨default, Script.empty.setFault Script.scopePlace (.because "boom")⟩

theorem unresolvable_scope_commits :
    (unresolvable.build (Script.bareHost false) 0 default).2 =
        .error (.scope (.because "boom")) ∧
      (∀ event ∈ (unresolvable.build (Script.bareHost false) 0
          default).1.coordinator.events,
        event.build = unresolvable.coordinator.nextId) ∧
      (unresolvable.build (Script.bareHost false) 0
          default).1.coordinator.snapshot ≠
        unresolvable.coordinator.snapshot := by
  refine ⟨rfl, ?_, ?_⟩ <;> decide

end CallGraph.Build
