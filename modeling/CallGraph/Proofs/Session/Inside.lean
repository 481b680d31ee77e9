import CallGraph.Proofs.Analyzer.Inside
import CallGraph.Proofs.Session.Drawn

namespace CallGraph

/-! A build of a session drops no edge that it finds: what its analyzer knows is
what the build has enumerated. -/

namespace Build

def recomputed? {σ : Type} (nested : Nested σ) (host : Host σ) (id : BuildId)
    (world : World σ) : Option Recomputed :=
  match survey nested host id world.coordinator.snapshot world with
  | (_, .error _) => none
  | (world, .ok plan) =>
      (recompute nested host id plan.invalidation.reparse
        plan.invalidation.valid plan.changes.current world).2

theorem gathered_of_recomputed? {σ : Type} {nested : Nested σ} {host : Host σ}
    {Rel : World σ → World σ → Prop} {id : BuildId} {world : World σ}
    {recomputed : Recomputed} (horderly : Orderly nested)
    (hframe : Frame nested host Rel) (hid : id < world.coordinator.nextId)
    (hrecomputed : recomputed? nested host id world = some recomputed) :
    ∃ ready round, Gathered nested host Rel id world ready round ∧
      round.merged world.coordinator.snapshot = recomputed := by
  unfold recomputed? at hrecomputed
  split at hrecomputed
  · cases hrecomputed
  · rename_i surveyed plan hsurvey
    rcases survey_passes horderly hframe _ hid hsurvey with
      ⟨_, hstopped, _⟩ | ⟨units, reads, hfirst, hunits, hread, hended⟩
    · cases hstopped
    · obtain ⟨hreads, hplan⟩ :=
        hended.resolve_left fun ⟨_, _, hstopped, _⟩ => nomatch hstopped
      obtain rfl := Except.ok.inj hplan
      cases hrecompute : recompute nested host id
          (Plan.against world.coordinator.snapshot units
            (KeyedSet.putAll ∅ reads)).invalidation.reparse
          (Plan.against world.coordinator.snapshot units
            (KeyedSet.putAll ∅ reads)).invalidation.valid
          (Plan.against world.coordinator.snapshot units
            (KeyedSet.putAll ∅ reads)).changes.current surveyed with
      | mk ready result? =>
          rw [hrecompute] at hrecomputed
          obtain rfl : result? = some recomputed := hrecomputed
          obtain ⟨results, hrest, hanswered, hended⟩ := recompute_passes
            horderly hframe _ _ _ (hfirst.numbered hid) hrecompute
          obtain ⟨hresults, hmerged, hcurrent⟩ :=
            hended.resolve_left fun hcancelled => nomatch hcancelled.1
          exact ⟨ready, ⟨units, reads, results⟩,
            ⟨⟨hreads, hresults⟩, hfirst.trans hframe hrest,
              ⟨surveyed, hfirst.related, hrest.related, hunits, hread,
                hanswered⟩, hcurrent⟩,
            (Option.some.inj hmerged).symm⟩

def leaving (recomputed? : Option Recomputed) (baseline : Snapshot) :
    Snapshot :=
  match recomputed? with
  | none => baseline
  | some recomputed => recomputed.snapshot.succeeding baseline

end Build

namespace Workspace

open Build (Stable leaving nestedWithin recomputed?)

variable {parser : Parser} {layout : LayeredLayout}
  {drawing : Option Drawing} {first last workspace : Workspace}
  {units : UnitSet}

def IsReached (parser : Parser) (workspace : Workspace) : Prop :=
  Analyzer.Reached parser (fun _ _ => True) workspace.analyzer workspace.files

def KeepsReached (parser : Parser) (first last : Workspace) : Prop :=
  first.IsReached parser → last.IsReached parser

theorem Step.keepsReached (hstep : Step parser drawing first last) :
    KeepsReached parser first last := by
  intro hreached
  cases hstep with
  | answered => exact hreached
  | enumerated => exact hreached.enumerated
  | asked request => exact hreached.asked trivial request
  | drawn graph =>
      cases drawing with
      | none => exact hreached
      | some drawn => exact hreached.edited _

variable (parser layout drawing) in
theorem stable_keepsReached :
    Stable (host parser layout drawing) fun first last =>
      KeepsReached parser first.host last.host :=
  stable_of_step (fun _ => id) (fun hfirst hlast => hlast ∘ hfirst)
    Step.keepsReached

structure Lists (units : UnitSet) (workspace : Workspace) : Prop where
  enumerated : 0 < workspace.project.epoch
  known : workspace.project.units = units
  found : workspace.project.sources workspace.files = units

theorem lists_enumerated (workspace : Workspace) :
    (workspace.withProject
      (workspace.project.enumerate workspace.files).1).Lists
        (workspace.project.sources workspace.files) :=
  ⟨Nat.succ_pos _, rfl, rfl⟩

def KeepsList (first last : Workspace) : Prop :=
  ∀ ⦃units⦄, first.Lists units → last.Lists units

theorem Step.keepsList (hstep : Step parser none first last) :
    KeepsList first last := by
  intro units hlists
  cases hstep with
  | answered => exact hlists
  | enumerated =>
      rw [← hlists.found]
      exact lists_enumerated first
  | asked request =>
      have hproject : (first.withAnalyzer (first.analyzer.asked parser
          first.files request)).project = first.project :=
        (Analyzer.project_asked first.analyzer request).trans
          (congrArg Prod.fst
            (Project.currentUnits_of_epoch_pos hlists.enumerated))
      constructor <;> rw [hproject]
      · exact hlists.enumerated
      · exact hlists.known
      · exact hlists.found
  | drawn graph => exact hlists

theorem frame_keepsList (nested : Build.Nested Workspace) :
    Build.Frame nested (undrawn parser layout) fun first last =>
      KeepsList first.host last.host :=
  frame_of_step (fun _ _ => id) (fun hfirst hlast _ => @hlast _ ∘ @hfirst _)
    Step.keepsList nested

theorem isInside_of_extract (hreached : workspace.IsReached parser)
    (hlists : workspace.Lists units) {source : SourceUnit}
    (hsource : source ∈ units) {extraction : Extraction}
    (houtcome : (workspace.analyzer.extract parser workspace.files source).2 =
      .ok extraction) {edge : Edge} (hedge : edge ∈ extraction.edges) :
    edge.caller.source ∈ units ∧ edge.callee.source ∈ units := by
  have hinside := hreached.isConfined.extract_leadsInside houtcome edge hedge
  have hasked : Step parser none workspace (workspace.withAnalyzer
      (workspace.analyzer.extract parser workspace.files source).1) :=
    .asked (.extract source)
  have hkept := (hasked.keepsList hlists).known
  unfold project withAnalyzer at hkept
  refine ⟨hinside.own ▸ hsource, ?_⟩
  rw [← hkept]
  exact hinside.known

theorem recomputed?_undrawn (nested : Build.Nested Workspace) :
    recomputed? nested (host parser layout drawing) =
      recomputed? nested (undrawn parser layout) := by
  have hsurvey : Build.survey nested (host parser layout drawing) =
      Build.survey nested (undrawn parser layout) := rfl
  have hrecompute : Build.recompute nested (host parser layout drawing) =
      Build.recompute nested (undrawn parser layout) := rfl
  unfold recomputed?
  rw [hsurvey, hrecompute]

theorem dropped_of_recomputed? {id : BuildId} {world : World Workspace}
    (hid : id < world.coordinator.nextId)
    (hreached : world.host.IsReached parser) {recomputed : Recomputed}
    (hrecomputed : recomputed? (nestedWithin (host parser layout drawing) 0)
      (host parser layout drawing) id world = some recomputed) :
    recomputed.dropped = 0 := by
  have hnested : nestedWithin (host parser layout drawing) 0 =
      nestedWithin (undrawn parser layout) 0 := rfl
  rw [recomputed?_undrawn, hnested] at hrecomputed
  have hreaches := stable_keepsReached parser layout none
  have hframe := (hreaches.frame _ (hreaches.nestedWithin 0)).and
    (frame_keepsList _)
  obtain ⟨ready, round, hgathered, rfl⟩ := Build.gathered_of_recomputed?
    (Build.orderly_nestedWithin _ 0) hframe hid hrecomputed
  obtain ⟨surveyed, hfirst, _, hunits, _, hanswers⟩ := hgathered.answers
  have hfits := hgathered.fits
  -- The units that the build goes by are the ones that its analyzer knows.
  have hlists : surveyed.host.Lists round.units := by
    refine hunits.related.2 ?_
    rw [← Except.ok.inj hunits.answer]
    exact lists_enumerated world.host
  refine Recomputed.dropped_merge_eq_zero fun edge hedge => ?_
  obtain ⟨result, hresult, extraction, houtcome, hmem⟩ :=
    Recomputed.mem_foundEdges.mp hedge
  obtain ⟨asked, hbefore, hanswer, _⟩ := hanswers result hresult
  rw [houtcome] at hanswer
  obtain ⟨hcaller, hcallee⟩ := isInside_of_extract
    (hbefore.1 (hfirst.1 hreached)) (hbefore.2 hlists)
    (hfits.records_iff.mp (hfits.records_result hresult)) hanswer hmem
  exact Recomputed.isInside_iff.mpr
    ⟨hfits.records_iff.mpr hcaller, hfits.records_iff.mpr hcallee⟩

theorem snapshot_conclude (nested : Build.Nested Workspace) {id : BuildId}
    (scope : ViewScope) (plan : Build.Plan) (recomputed : Recomputed)
    {world : World Workspace}
    (hcurrent : world.coordinator.isCancelled id = false) :
    (Build.conclude nested (host parser layout drawing) id scope plan recomputed
        world).1.coordinator.snapshot =
      recomputed.snapshot.succeeding world.coordinator.snapshot := by
  unfold Build.conclude
  rw [Coordinator.commit?_of_current hcurrent]
  dsimp only
  obtain ⟨resolved, methods, unknown, hresolve, -⟩ :=
    @resolve_eq parser layout drawing nested scope plan.units
      (world.withCoordinator (world.coordinator.committing id
        (recomputed.snapshot.succeeding world.coordinator.snapshot)))
  rw [hresolve]
  dsimp only
  unfold Build.present
  split <;> rfl

theorem snapshot_run {nested : Build.Nested Workspace}
    (horderly : Build.Orderly nested) {id : BuildId} (scope : ViewScope)
    {world : World Workspace} (hid : id < world.coordinator.nextId) :
    (Build.run nested (host parser layout drawing) id scope
        world).1.coordinator.snapshot =
      leaving (recomputed? nested (host parser layout drawing) id world)
        world.coordinator.snapshot := by
  have hquiet : (host parser layout drawing).IsQuiet :=
    host_isQuiet parser layout drawing
  have hframe := Build.frame_undisturbed nested (host parser layout drawing)
  unfold Build.run recomputed?
  cases hsurvey : Build.survey nested (host parser layout drawing) id
      world.coordinator.snapshot world with
  | mk surveyed outcome =>
      obtain ⟨own, hpasses⟩ : ∃ own, Build.Passes
          (Build.Undisturbed (host parser layout drawing)) id own world
            surveyed := by
        rcases Build.survey_passes horderly hframe _ hid hsurvey with
          ⟨_, _, _, hpasses⟩ | ⟨_, _, hpasses, _⟩
        · exact ⟨_, hpasses⟩
        · exact ⟨_, hpasses⟩
      cases outcome with
      | error reason => exact (hpasses.related hquiet).2
      | ok plan =>
          dsimp only
          cases hrecompute : Build.recompute nested
              (host parser layout drawing) id plan.invalidation.reparse
              plan.invalidation.valid plan.changes.current surveyed with
          | mk ready result? =>
              obtain ⟨_, hmore, _, hended⟩ := Build.recompute_passes horderly
                hframe _ _ _ (hpasses.numbered hid) hrecompute
              have hsnapshot : ready.coordinator.snapshot =
                  world.coordinator.snapshot :=
                (hframe.trans hpasses.related hmore.related hquiet).2
              rcases hended with ⟨rfl, -⟩ | ⟨-, rfl, hcurrent⟩
              · exact hsnapshot
              · rw [← hsnapshot]
                exact snapshot_conclude nested scope plan _ hcurrent

end Workspace

namespace Session

variable {parser : Parser} {session : Session}

def recomputed? (parser : Parser) (session : Session) : Option Recomputed :=
  let host := Workspace.host parser session.layout session.drawing
  Build.recomputed? (Build.nestedWithin host 0) host
    session.world.coordinator.nextId (Build.begunIn session.world)

theorem snapshot_build (session : Session) (scope : ViewScope) :
    (session.build parser scope).1.snapshot =
      Build.leaving (session.recomputed? parser) session.snapshot := by
  have hrun := @Workspace.snapshot_run parser session.layout session.drawing _
    (Build.orderly_nestedWithin
      (Workspace.host parser session.layout session.drawing) 0) _ scope _
    (Build.numbered_begunIn session.world)
  cases hran : Build.run (Build.nestedWithin
      (Workspace.host parser session.layout session.drawing) 0)
      (Workspace.host parser session.layout session.drawing)
      session.world.coordinator.nextId scope
      (Build.begunIn session.world) with
  | mk last result =>
      rw [hran, Build.snapshot_begunIn] at hrun
      unfold snapshot
      rw [world_build]
      unfold World.build
      rw [Build.runOnce_of_run hran]
      exact (Coordinator.snapshot_finish _ _ _).trans hrun

/-- A session that was opened on any files: they are edited in any way, and the
session builds and stores its snapshot now and then. -/
inductive Reached (parser : Parser) : Session → Prop where
  | opened {root : Path} {config : Config} {drawing : Option Drawing}
      {files : FileSystem} {session : Session}
      (opened : openAt root config drawing files = .ok session) :
      Reached parser session
  | edited {session : Session} (reached : Reached parser session)
      (files : FileSystem) : Reached parser (session.withFiles files)
  | built {session : Session} (reached : Reached parser session)
      (scope : ViewScope) : Reached parser (session.build parser scope).1
  | stored {session : Session} (reached : Reached parser session)
      (time : String) : Reached parser (session.persist time).1

theorem isReached_of_openAt {root : Path} {config : Config}
    {drawing : Option Drawing} {files : FileSystem}
    (hopened : openAt root config drawing files = .ok session) :
    session.world.host.IsReached parser := by
  unfold openAt at hopened
  split at hopened
  · cases hopened
  · rename_i hproject
    obtain rfl := Except.ok.inj hopened
    exact .opened hproject

theorem Reached.isReached (hreached : session.Reached parser) :
    session.world.host.IsReached parser := by
  induction hreached with
  | opened hopened => exact isReached_of_openAt hopened
  | edited _ files ih => exact ih.edited files
  | @built session _ scope ih =>
      rw [world_build]
      exact (Workspace.stable_keepsReached parser session.layout
        session.drawing).build 0 scope session.world ih
  | stored _ time ih => exact ih.edited _

/-- A build leaves what it puts together, and drops no edge on the way. -/
structure DropsNothing (parser : Parser) (session : Session) : Prop where
  leaves : ∀ scope, (session.build parser scope).1.snapshot =
    Build.leaving (session.recomputed? parser) session.snapshot
  keeps : ∀ recomputed, session.recomputed? parser = some recomputed →
    recomputed.dropped = 0

/-- What is extracted never leaves the project: an edge leads from a method of its
unit to one that the index holds for a unit of the last enumeration.  So a build
has no edge to drop, wherever its session has got to. -/
theorem extracted_inside (parser : Parser) :
    (∀ analyzer files,
      Analyzer.Reached parser (fun _ _ => True) analyzer files →
        ∀ source extraction,
          (analyzer.extract parser files source).2 = .ok extraction →
            ∀ edge ∈ extraction.edges,
              Analyzer.LeadsInside parser files
                (analyzer.extract parser files source).1.project
                (analyzer.extract parser files source).1.symbols source
                extraction edge) ∧
      ∀ session : Session, session.Reached parser →
        session.DropsNothing parser := by
  refine ⟨fun analyzer files hreached source extraction houtcome => ?_,
    fun session hreached => ⟨snapshot_build session, ?_⟩⟩
  · exact hreached.isConfined.extract_leadsInside houtcome
  · intro recomputed hrecomputed
    unfold recomputed? at hrecomputed
    exact Workspace.dropped_of_recomputed?
      (Build.numbered_begunIn session.world) hreached.isReached hrecomputed

end Session

namespace Sample

theorem calleeWritten_dropsNothing :
    (∀ source extraction,
      (newAnalyzer.extract classParser bothFiles source).2 =
          .ok extraction →
        ∀ edge ∈ extraction.edges,
          Analyzer.LeadsInside classParser bothFiles
            (newAnalyzer.extract classParser bothFiles source).1.project
            (newAnalyzer.extract classParser bothFiles source).1.symbols source
            extraction edge) ∧
      ((newAnalyzer.extract classParser bothFiles
        ⟨"A.java"⟩).2.toOption.map fun extraction =>
          extraction.edges.length) = some 1 ∧
      calleeWritten.DropsNothing classParser ∧
      (calleeWritten.recomputed? classParser).map Recomputed.fresh =
        some 0 ∧
      (newSession bothFiles).DropsNothing classParser ∧
      ((newSession bothFiles).recomputed? classParser).map Recomputed.fresh =
        some 1 := by
  have hopened : Analyzer.Reached classParser (fun _ _ => True) newAnalyzer
      bothFiles := .opened (openAt_newAnalyzer (by decide +kernel))
  have hcallee : calleeWritten.Reached classParser :=
    ((Session.Reached.opened openAt_callerFile).built default).edited bothFiles
  have hboth : (newSession bothFiles).Reached classParser :=
    .opened openAt_bothFiles
  obtain ⟨hextracted, hdrops⟩ := Session.extracted_inside classParser
  exact ⟨hextracted _ _ hopened, by decide +kernel, hdrops _ hcallee,
    by decide +kernel, hdrops _ hboth, by decide +kernel⟩

end Sample

end CallGraph
