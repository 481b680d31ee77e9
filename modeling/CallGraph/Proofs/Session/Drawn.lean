import CallGraph.Proofs.Session.Stages

namespace CallGraph

/-! What a build of a session leaves in its files and on the screen: the graph
that it reports, drawn once, and nothing else. -/

namespace Workspace

variable {parser : Parser} {layout : LayeredLayout}
  {drawing : Option Drawing} {result : BuildResult}
  {surface : Drawing.Surface}

/-- A surface after the graph of a build was drawn, if the build has come to
one. -/
def drawnOn (drawing : Option Drawing) (result : BuildResult)
    (surface : Drawing.Surface) : Drawing.Surface :=
  match drawing, result.toOption.bind BuildReport.graph? with
  | some drawing, some graph => drawing.draw .plain graph surface
  | _, _ => surface

theorem drawnOn_of_no_graph
    (hnone : result.toOption.bind BuildReport.graph? = none) :
    drawnOn drawing result surface = surface := by
  unfold drawnOn
  rw [hnone]
  cases drawing <;> rfl

theorem drawnOn_of_graph {report : BuildReport} {graph : Graph}
    (hgraph : report.graph? = some graph) (workspace : Workspace) :
    drawnOn drawing (.ok report) workspace.surface =
      (workspace.draw drawing graph).surface := by
  have hbind : (Except.ok report : BuildResult).toOption.bind
      BuildReport.graph? = some graph := hgraph
  unfold drawnOn draw
  rw [hbind]
  cases drawing <;> rfl

def KeepsSurface (first last : World Workspace) : Prop :=
  last.host.surface = first.host.surface

theorem frame_keepsSurface (nested : Build.Nested Workspace) :
    Build.Frame nested (undrawn parser layout) KeepsSurface :=
  @frame_of_step parser layout none
    (fun first last => last.surface = first.surface) (fun _ => rfl)
    (fun hfirst hlast => hlast.trans hfirst)
    (fun hstep => by cases hstep <;> rfl) nested

theorem surface_present (nested : Build.Nested Workspace) {id : BuildId}
    {world : World Workspace}
    (hmay : world.coordinator.mayPresent id = true) (graph : Graph) :
    (Build.present nested (host parser layout drawing) id graph
        world).host.surface = (world.host.draw drawing graph).surface := by
  unfold Build.present
  rw [if_pos hmay]
  rfl

theorem resolve_eq (nested : Build.Nested Workspace) (scope : ViewScope)
    (units : UnitSet) (world : World Workspace) :
    ∃ resolved methods unknown,
      Build.resolve nested (host parser layout drawing) scope units world =
          (⟨world.coordinator, resolved⟩, .ok (methods, unknown)) ∧
        resolved.surface = world.host.surface :=
  ⟨_, _, _, rfl, rfl⟩

theorem surface_conclude (nested : Build.Nested Workspace) (id : BuildId)
    (scope : ViewScope) (plan : Build.Plan) (recomputed : Recomputed)
    (world : World Workspace) :
    (Build.conclude nested (host parser layout drawing) id scope plan recomputed
        world).1.host.surface =
      drawnOn drawing (Build.conclude nested (host parser layout drawing) id
        scope plan recomputed world).2 world.host.surface := by
  unfold Build.conclude
  dsimp only
  cases hcancelled : world.coordinator.isCancelled id with
  | true =>
      have hrefused :
          world.coordinator.commit? id recomputed.snapshot = none := by
        simp [Coordinator.commit?, SnapshotStore.commit?, hcancelled]
      rw [hrefused]
      exact (drawnOn_of_no_graph rfl).symm
  | false =>
      rw [Coordinator.commit?_of_current hcancelled]
      dsimp only
      obtain ⟨resolved, methods, unknown, hresolve, hsurface⟩ :=
        @resolve_eq parser layout drawing nested scope plan.units
          (world.withCoordinator (world.coordinator.committing id
            (recomputed.snapshot.succeeding world.coordinator.snapshot)))
      rw [hresolve]
      dsimp only
      have hmay : (!world.coordinator.isCancelled id) = true := by
        rw [hcancelled]
        rfl
      have hsurface : resolved.surface = world.host.surface := hsurface
      rw [surface_present nested (by exact hmay), ← hsurface]
      exact (drawnOn_of_graph rfl resolved).symm

theorem surface_run {nested : Build.Nested Workspace}
    (horderly : Build.Orderly nested) {id : BuildId} (scope : ViewScope)
    {world : World Workspace} (hid : id < world.coordinator.nextId) :
    (Build.run nested (host parser layout drawing) id scope
        world).1.host.surface =
      drawnOn drawing
        (Build.run nested (host parser layout drawing) id scope world).2
          world.host.surface := by
  have hframe := @frame_keepsSurface parser layout nested
  have hsurvey : Build.survey nested (host parser layout drawing) =
      Build.survey nested (undrawn parser layout) := rfl
  have hrecompute : Build.recompute nested (host parser layout drawing) =
      Build.recompute nested (undrawn parser layout) := rfl
  unfold Build.run
  rw [hsurvey, hrecompute]
  cases hfirst : Build.survey nested (undrawn parser layout) id
      world.coordinator.snapshot world with
  | mk surveyed outcome =>
      obtain ⟨own, hpasses⟩ : ∃ own,
          Build.Passes KeepsSurface id own world surveyed := by
        rcases Build.survey_passes horderly hframe _ hid hfirst with
          ⟨_, _, _, hpasses⟩ | ⟨_, _, hpasses, _⟩
        · exact ⟨_, hpasses⟩
        · exact ⟨_, hpasses⟩
      cases outcome with
      | error reason =>
          exact hpasses.related.trans (drawnOn_of_no_graph rfl).symm
      | ok plan =>
          dsimp only
          cases hsecond : Build.recompute nested (undrawn parser layout) id
              plan.invalidation.reparse plan.invalidation.valid
              plan.changes.current surveyed with
          | mk ready recomputed? =>
              obtain ⟨_, hmore, _⟩ := Build.recompute_passes horderly hframe _ _
                _ (hpasses.numbered hid) hsecond
              have hsurface : ready.host.surface = world.host.surface :=
                hmore.related.trans hpasses.related
              cases recomputed? with
              | none => exact hsurface.trans (drawnOn_of_no_graph rfl).symm
              | some recomputed =>
                  rw [← hsurface]
                  exact surface_conclude _ id scope plan recomputed ready

theorem surface_build (scope : ViewScope) (world : World Workspace) :
    (world.build (host parser layout drawing) 0 scope).1.host.surface =
      drawnOn drawing (world.build (host parser layout drawing) 0 scope).2
        world.host.surface := by
  have hrun := @surface_run parser layout drawing _
    (Build.orderly_nestedWithin (host parser layout drawing) 0) _ scope _
    (Build.numbered_begunIn world)
  cases hran : Build.run (Build.nestedWithin (host parser layout drawing) 0)
      (host parser layout drawing) world.coordinator.nextId scope
      (Build.begunIn world) with
  | mk last result =>
      rw [hran] at hrun
      unfold World.build
      rw [Build.runOnce_of_run hran]
      exact hrun

end Workspace

namespace Session

variable {parser : Parser} {session : Session}

/-- What was on the screen is followed by the graph of the build, if it has come
to one. -/
theorem screen_build {format : OutputFormat} {scope : ViewScope}
    {report : BuildReport}
    (hdrawing : session.drawing = some ⟨format, none⟩)
    (hresult : (session.build parser scope).2 = .ok report) :
    (session.build parser scope).1.screen =
      session.screen ++ (report.graph?.map format.render).getD "" := by
  rw [result_build, hdrawing] at hresult
  have hsurface := @Workspace.surface_build parser session.layout
    (some ⟨format, none⟩) scope session.world
  rw [screen, world_build, hdrawing, hsurface, hresult]
  cases hgraph : report.graph? with
  | none =>
      have hnone : (Except.ok report : BuildResult).toOption.bind
          BuildReport.graph? = none := hgraph
      rw [Workspace.drawnOn_of_no_graph hnone, Option.map_none,
        Option.getD_none, String.append_empty]
      rfl
  | some graph =>
      rw [Workspace.drawnOn_of_graph hgraph]
      rfl

end Session

end CallGraph
