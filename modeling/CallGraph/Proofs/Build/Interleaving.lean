import CallGraph.Proofs.Build.Race
import Mathlib.Logic.Relation

namespace CallGraph

/-! Builds on one thread, nested in each other and cancelled in any way, are one
of the courses that builds may take which run at the same time.  What a build
enumerates, reads and extracts is its own affair and no access to what they
share. -/

namespace Coordinator

/-- A coordinator whose log leaves out the steps of single builds. -/
def outline (coordinator : Coordinator) : Coordinator :=
  { coordinator with
    events := coordinator.events.filter fun event => !event.isStep }

variable {coordinator : Coordinator} {id : BuildId} {event : BuildEvent}

theorem outline_note_of_isStep (hevent : event.isStep = true) :
    (coordinator.note event).outline = coordinator.outline := by
  simp [outline, note, hevent]

theorem outline_note (hevent : event.isStep = false) :
    (coordinator.note event).outline = coordinator.outline.note event := by
  simp [outline, note, hevent]

theorem outline_cancelReplaced (replaced : Option BuildId) :
    (coordinator.cancelReplaced replaced).outline =
      coordinator.outline.cancelReplaced replaced := by
  cases replaced <;> rfl

theorem outline_cancelRunning :
    coordinator.cancelRunning.outline = coordinator.outline.cancelRunning :=
  outline_cancelReplaced _

theorem isCancelled_outline :
    coordinator.outline.isCancelled id = coordinator.isCancelled id := rfl

theorem commit?_outline (next : Snapshot) :
    coordinator.outline.commit? id next =
      (coordinator.commit? id next).map outline := by
  cases hcancelled : coordinator.isCancelled id with
  | true =>
      simp [commit?, SnapshotStore.commit?, isCancelled_outline, hcancelled]
  | false =>
      rw [commit?_of_current hcancelled,
        commit?_of_current (isCancelled_outline.trans hcancelled),
        Option.map_some]
      have hcommitting : (coordinator.committing id
          (next.succeeding coordinator.snapshot)).outline =
          coordinator.outline.committing id
            (next.succeeding coordinator.outline.snapshot) := outline_note rfl
      rw [hcommitting]

theorem outline_finish (state : BuildState) :
    (coordinator.finish id state).outline =
      coordinator.outline.finish id state := by
  have hslot : coordinator.outline.inFlight = coordinator.inFlight := rfl
  unfold finish
  rw [hslot]
  split
  · exact outline_note rfl
  · rfl

theorem filterMap_outline {α : Type} {read? : BuildEvent → Option α}
    (hsteps : ∀ event, event.isStep = true → read? event = none) :
    coordinator.outline.events.filterMap read? =
      coordinator.events.filterMap read? := by
  unfold outline
  rw [List.filterMap_filter]
  refine congrArg (coordinator.events.filterMap ·) (funext fun event => ?_)
  cases hevent : event.isStep with
  | true => simp [hsteps event hevent]
  | false => simp

theorem committers_outline :
    BuildLog.committers coordinator.outline.events =
      BuildLog.committers coordinator.events :=
  filterMap_outline fun _ => BuildEvent.committer?_of_isStep

theorem presenters_outline :
    BuildLog.presenters coordinator.outline.events =
      BuildLog.presenters coordinator.events :=
  filterMap_outline fun _ => BuildEvent.presenter?_of_isStep

end Coordinator

namespace Race

variable {race middle next last : Race} {mine : Option BuildId}
  {seed : Snapshot} {movers : List (Option BuildId)}

structure Mirrors (race : Race) (coordinator : Coordinator) : Prop where
  orderly : race.IsOrderly
  outline : race.coordinator = coordinator.outline

/-- Steps of the build `mine` and of builds that were not known before.  All
others are where they were. -/
structure GoesOn (mine : Option BuildId) (race last : Race) : Prop where
  steps : Relation.ReflTransGen
    (fun first second => ∃ mover, Step first mover second) race last
  others : ∀ id, some id ≠ mine → race.phase id ≠ .unknown →
    last.phase id = race.phase id

namespace GoesOn

theorem refl (race : Race) : GoesOn mine race race :=
  ⟨.refl, fun _ _ _ => rfl⟩

theorem trans (hfirst : GoesOn mine race middle)
    (hlast : GoesOn mine middle last) : GoesOn mine race last := by
  refine ⟨hfirst.steps.trans hlast.steps, fun id hother hknown => ?_⟩
  have hsame := hfirst.others id hother hknown
  rw [hlast.others id hother (hsame ▸ hknown), hsame]

theorem step {mover : Option BuildId} (hstep : race.Step mover next)
    (hothers : ∀ id, some id ≠ mine → next.phase id = race.phase id) :
    GoesOn mine race next :=
  ⟨.single ⟨mover, hstep⟩, fun id hother _ => hothers id hother⟩

theorem around (hgoes : GoesOn none race last) : GoesOn mine race last :=
  ⟨hgoes.steps, fun id _ => hgoes.others id nofun⟩

/-- Seen from before its beginning, a build is one of those that were not
known. -/
theorem enclosed {id : BuildId} (hgoes : GoesOn (some id) race last)
    (hnew : race.phase id = .unknown) : GoesOn none race last := by
  refine ⟨hgoes.steps, fun other _ hknown => hgoes.others other ?_ hknown⟩
  intro heq
  rw [Option.some.inj heq] at hknown
  exact hknown hnew

theorem reached (hgoes : GoesOn mine race last)
    (hreached : Reached seed movers race) :
    ∃ more, Reached seed more last := by
  obtain ⟨hsteps, -⟩ := hgoes
  induction hsteps with
  | refl => exact ⟨movers, hreached⟩
  | tail _ hstep ih =>
      obtain ⟨mover, hstep⟩ := hstep
      obtain ⟨more, hmore⟩ := ih
      exact ⟨more ++ [mover], hmore.step hstep⟩

end GoesOn

def Allows (first last : Coordinator) : Prop :=
  ∀ race : Race, race.Mirrors first →
    ∃ next, GoesOn none race next ∧ next.Mirrors last

def Brings (id : BuildId) (before : Phase) (first : Coordinator) (after : Phase)
    (last : Coordinator) : Prop :=
  ∀ race : Race, race.Mirrors first → race.phase id = before →
    ∃ next, GoesOn (some id) race next ∧ next.Mirrors last ∧
      next.phase id = after

section Courses

variable {first second last : Coordinator} {id : BuildId}
  {before between after : Phase}

theorem Allows.of_outline (houtline : last.outline = first.outline) :
    Allows first last :=
  fun race hrace => ⟨race, .refl race, hrace.orderly,
    hrace.outline.trans houtline.symm⟩

theorem Allows.refl (coordinator : Coordinator) :
    Allows coordinator coordinator :=
  .of_outline rfl

theorem Allows.trans (hfirst : Allows first second)
    (hlast : Allows second last) : Allows first last := by
  intro race hrace
  obtain ⟨middle, hbefore, hmiddle⟩ := hfirst race hrace
  obtain ⟨next, hafter, hnext⟩ := hlast middle hmiddle
  exact ⟨next, hbefore.trans hafter, hnext⟩

theorem Allows.note (coordinator : Coordinator) {event : BuildEvent}
    (hevent : event.isStep = true) :
    Allows coordinator (coordinator.note event) :=
  .of_outline (Coordinator.outline_note_of_isStep hevent)

theorem Allows.cancelRunning (coordinator : Coordinator) :
    Allows coordinator coordinator.cancelRunning := by
  intro race hrace
  refine ⟨_, .step .cancelRunning fun _ _ => rfl,
    hrace.orderly.cancelRunning, ?_⟩
  rw [Coordinator.outline_cancelRunning, ← hrace.outline]

theorem Brings.trans (hfirst : Brings id before first between second)
    (hlast : Brings id between second after last) :
    Brings id before first after last := by
  intro race hrace hbefore
  obtain ⟨middle, hgoes, hmiddle, hbetween⟩ := hfirst race hrace hbefore
  obtain ⟨next, hmore, hnext, hafter⟩ := hlast middle hmiddle hbetween
  exact ⟨next, hgoes.trans hmore, hnext, hafter⟩

theorem Allows.brings (hallows : Allows first last)
    (hknown : before ≠ .unknown) : Brings id before first before last := by
  intro race hrace hbefore
  obtain ⟨next, hgoes, hnext⟩ := hallows race hrace
  refine ⟨next, hgoes.around, hnext, ?_⟩
  rw [hgoes.others id nofun (hbefore ▸ hknown), hbefore]

theorem Brings.allows
    (hbrings : Brings first.nextId .unknown first after last) :
    Allows first last := by
  intro race hrace
  have hnew : race.phase first.nextId = .unknown := by
    refine hrace.orderly.unknown ?_
    rw [hrace.outline]
    exact Nat.le_refl _
  obtain ⟨next, hgoes, hnext, _⟩ := hbrings race hrace hnew
  exact ⟨next, hgoes.enclosed hnew, hnext⟩

theorem Brings.move (hmove : ∀ race : Race, race.coordinator = first.outline →
      race.phase id = before → ∃ (mover : Option BuildId) (next : Race),
        next.phase = race.phase ∧ next.coordinator = last.outline ∧
          race.Step mover (next.moveTo id after)) :
    Brings id before first after last := by
  intro race hrace hbefore
  obtain ⟨mover, next, hphase, hnext, hstep⟩ := hmove race hrace.outline hbefore
  refine ⟨_, .step hstep fun other hother => ?_,
    ⟨hrace.orderly.step hstep, hnext⟩, phase_moveTo_self⟩
  rw [phase_moveTo_of_ne fun heq => hother (congrArg some heq), hphase]

theorem Brings.turn (hturn : Turn id first.outline before last.outline after) :
    Brings id before first after last := by
  refine .move fun race hrace hbefore => ?_
  rw [← hrace, ← hbefore] at hturn
  exact ⟨some id, race.withCoordinator last.outline, rfl, rfl, .turn hturn⟩

theorem brings_drawId (coordinator : Coordinator) :
    Brings coordinator.nextId .unknown coordinator .numbered
      coordinator.drawId.2 := by
  refine .move fun race hrace _ => ?_
  have hid : coordinator.nextId = race.coordinator.drawId.1 := by
    rw [hrace]
    rfl
  rw [hid]
  refine ⟨none, race.withCoordinator race.coordinator.drawId.2, rfl, ?_, .draw⟩
  rw [hrace]
  rfl

theorem brings_register (coordinator : Coordinator) (id : BuildId) :
    Brings id .numbered coordinator (.registered coordinator.inFlight)
      (coordinator.register id).2 := by
  refine .move fun race hrace hnumbered => ?_
  have hslot : coordinator.inFlight = race.coordinator.inFlight := by
    rw [hrace]
    rfl
  rw [hslot]
  refine ⟨some id, { race with
    coordinator := (race.coordinator.register id).2
    registered := race.registered ++ [id] }, rfl, ?_, .register hnumbered⟩
  rw [hrace]
  rfl

theorem brings_begun (coordinator : Coordinator) :
    Brings coordinator.nextId .unknown coordinator
      (.reading coordinator.begun.snapshot) coordinator.begun := by
  let registered := (coordinator.drawId.2.register coordinator.nextId).2
  let superseding := registered.cancelReplaced coordinator.inFlight
  have hregister : Brings coordinator.nextId .numbered coordinator.drawId.2
      (.registered coordinator.inFlight) registered :=
    brings_register coordinator.drawId.2 coordinator.nextId
  have hsupersede : Brings coordinator.nextId
      (.registered coordinator.inFlight) registered .superseding superseding := by
    refine .turn ?_
    rw [Coordinator.outline_cancelReplaced]
    exact .supersede
  have hmark : Brings coordinator.nextId .superseding superseding .running
      coordinator.begun := by
    refine .turn ?_
    have hbegun : coordinator.begun.outline = superseding.outline.markRunning.note
        (.began coordinator.nextId) := Coordinator.outline_note rfl
    rw [hbegun]
    exact .markRunning
  have hread : Brings coordinator.nextId .running coordinator.begun
      (.reading coordinator.begun.snapshot) coordinator.begun :=
    .turn .readBaseline
  exact (brings_drawId coordinator).trans
    (hregister.trans (hsupersede.trans (hmark.trans hread)))

theorem brings_finish (coordinator : Coordinator) (id : BuildId)
    (state : BuildState) :
    Brings id (.ended state) coordinator .finished
      (coordinator.finish id state) := by
  refine .turn ?_
  rw [Coordinator.outline_finish]
  exact .finish

end Courses

end Race

namespace Build

open Race (Allows Brings)

variable {σ α : Type}

section Nested

variable {nested : Nested σ} (host : Host σ) (id : BuildId)
  (hnested : ∀ scope (world : World σ),
    Allows world.coordinator (nested scope world).1.coordinator)
include hnested

theorem ask_allows (question : σ → Activity σ α) (world : World σ) :
    Allows world.coordinator (ask nested question world).1.coordinator :=
  perform_keeps (P := Allows world.coordinator)
    (fun coordinator hallows => hallows.trans (.cancelRunning coordinator))
    (fun scope world hallows => hallows.trans (hnested scope world)) _
    (.refl world.coordinator)

theorem readVersions_allows (sources : List SourceUnit) (read : VersionMap)
    (world : World σ) :
    Allows world.coordinator (readVersions (askVersion nested host id) sources
      read world).1.coordinator := by
  induction sources generalizing read world with
  | nil => exact .refl _
  | cons source rest ih =>
      have hasked := ask_allows hnested (host.versionOf source) world
      cases hask : ask nested (host.versionOf source) world with
      | mk asked answer =>
          rw [hask] at hasked
          cases answer with
          | error fault => simpa only [readVersions, askVersion, hask] using hasked
          | ok token =>
              let noted := asked.note (.versionRead id ⟨source, token⟩)
              have hnoted : Allows asked.coordinator noted.coordinator :=
                .note asked.coordinator rfl
              have hrest := ih (read.put ⟨source, token⟩) noted
              simp only [readVersions, askVersion, hask]
              exact (hasked.trans hnoted).trans hrest

theorem survey_allows (baseline : Snapshot) (world : World σ) :
    Allows world.coordinator
      (survey nested host id baseline world).1.coordinator := by
  have hasked := ask_allows hnested host.allUnits world
  cases hask : ask nested host.allUnits world with
  | mk asked answer =>
      rw [hask] at hasked
      cases answer with
      | error fault => simpa only [survey, hask] using hasked
      | ok units =>
          have hread := readVersions_allows host id hnested
            units.entries ∅ (asked.note (.enumerated id units))
          have hlast := (hasked.trans (.note _ rfl)).trans hread
          cases hreads : readVersions (askVersion nested host id) units.entries
              ∅ (asked.note (.enumerated id units)) with
          | mk surveyed result =>
              rw [hreads] at hlast
              cases result <;> simpa only [survey, hask, hreads] using hlast

theorem visit_allows (source : SourceUnit) (world : World σ) :
    Allows world.coordinator
      (visit nested host id source world).1.coordinator := by
  unfold visit
  split
  · exact .refl _
  · exact (ask_allows hnested (host.extract source) world).trans (.note _ rfl)

theorem visitEach_allows (sources : List SourceUnit) (world : World σ) :
    Allows world.coordinator
      (visitEach (visit nested host id) sources world).1.coordinator := by
  induction sources generalizing world with
  | nil => exact .refl _
  | cons source rest ih =>
      have hvisited := visit_allows host id hnested source
        world
      cases hvisit : visit nested host id source world with
      | mk visited outcome? =>
          rw [hvisit] at hvisited
          have hlast := hvisited.trans (ih visited)
          cases outcome? <;> simpa only [visitEach, hvisit] using hlast

theorem recompute_allows (reparse : UnitSet) (valid : EdgeSet)
    (versions : VersionMap) (world : World σ) :
    Allows world.coordinator (recompute nested host id reparse valid versions
      world).1.coordinator := by
  have hvisited := visitEach_allows host id hnested
    reparse.entries
    (world.withHost (host.resetProgress reparse.size world.host))
  unfold recompute
  simp only
  split <;> exact hvisited

theorem resolve_allows (scope : ViewScope) (existing : UnitSet)
    (world : World σ) :
    Allows world.coordinator
      (resolve nested host scope existing world).1.coordinator := by
  have hasked := ask_allows hnested (host.unitsInScope scope) world
  cases hask : ask nested (host.unitsInScope scope) world with
  | mk asked answer =>
      rw [hask] at hasked
      cases answer with
      | error fault => simpa only [resolve, hask] using hasked
      | ok requested =>
          have hmethods := hasked.trans (ask_allows hnested (host.methodsInScope
            (ScopedUnits.part existing requested).known) asked)
          cases hask' : ask nested (host.methodsInScope
              (ScopedUnits.part existing requested).known) asked with
          | mk resolved answer =>
              rw [hask'] at hmethods
              cases answer <;> simpa only [resolve, hask, hask'] using hmethods

theorem present_brings (graph : Graph) (world : World σ) :
    Brings id .committed world.coordinator (.ended .committed)
      (present nested host id graph world).coordinator := by
  unfold present
  split
  · rename_i hmay
    have hclear : Brings id .committed world.coordinator .cleared
        world.coordinator := .turn (.clear hmay)
    have hpresent : Brings id .cleared world.coordinator (.ended .committed)
        (world.coordinator.present id) := by
      refine .turn ?_
      have hnoted : (world.coordinator.present id).outline =
          world.coordinator.outline.present id := Coordinator.outline_note rfl
      rw [hnoted]
      exact .present
    have hasked := ask_allows hnested (host.present graph)
      (world.withCoordinator (world.coordinator.present id))
    have hshown : Brings id (.ended .committed) (world.coordinator.present id)
        (.ended .committed) _ := hasked.brings nofun
    exact hclear.trans (hpresent.trans hshown)
  · rename_i hmay
    exact .turn (.withhold (Bool.eq_false_iff.mpr hmay))

theorem conclude_brings (scope : ViewScope) (plan : Plan)
    (recomputed : Recomputed) {world last : World σ} {result : BuildResult}
    (hconclude : conclude nested host id scope plan recomputed world =
      (last, result)) :
    Brings id (.merged recomputed.snapshot) world.coordinator
      (.ended (BuildState.ofResult result)) last.coordinator := by
  have hknown : Phase.committed ≠ .unknown := by simp
  have houtline : world.coordinator.outline.commit? id recomputed.snapshot =
      (world.coordinator.commit? id recomputed.snapshot).map
        Coordinator.outline := Coordinator.commit?_outline recomputed.snapshot
  cases hcommit : world.coordinator.commit? id recomputed.snapshot with
  | none =>
      simp only [conclude, hcommit] at hconclude
      obtain ⟨rfl, rfl⟩ := Prod.mk.inj hconclude
      rw [hcommit] at houtline
      exact .turn (.refuse houtline)
  | some committed =>
      rw [hcommit] at houtline
      have hcommitted : Brings id (.merged recomputed.snapshot)
          world.coordinator .committed committed := .turn (.commit houtline)
      have hresolved := resolve_allows host hnested scope plan.units
        (world.withCoordinator committed)
      cases hresolve : resolve nested host scope plan.units
          (world.withCoordinator committed) with
      | mk resolved answer =>
          rw [hresolve] at hresolved
          have hresolving : Brings id .committed committed .committed
              resolved.coordinator := hresolved.brings hknown
          simp only [conclude, hcommit, hresolve] at hconclude
          cases answer with
          | error reason =>
              obtain ⟨rfl, rfl⟩ := Prod.mk.inj hconclude
              exact hcommitted.trans (hresolving.trans (.turn .unresolved))
          | ok parts =>
              obtain ⟨rfl, rfl⟩ := Prod.mk.inj hconclude
              have hlaidOut := ask_allows hnested (host.layout
                (project scope parts.1 committed.snapshot)) resolved
              have hlayingOut : Brings id .committed resolved.coordinator
                  .committed _ := hlaidOut.brings hknown
              exact hcommitted.trans (hresolving.trans
                (hlayingOut.trans (present_brings host id hnested _ _)))

theorem run_brings (horderly : Orderly nested) (scope : ViewScope)
    {world last : World σ} {result : BuildResult}
    (hid : id < world.coordinator.nextId)
    (hrun : run nested host id scope world = (last, result)) :
    Brings id (.reading world.coordinator.snapshot) world.coordinator
      (.ended (BuildState.ofResult result)) last.coordinator := by
  have hframe := frame_true nested host
  have hsurveyed := survey_allows host id hnested world.coordinator.snapshot
    world
  cases hsurvey : survey nested host id world.coordinator.snapshot world with
  | mk surveyed outcome =>
      rw [hsurvey] at hsurveyed
      have hreading : Brings id (.reading world.coordinator.snapshot)
          world.coordinator (.reading world.coordinator.snapshot)
          surveyed.coordinator := hsurveyed.brings nofun
      rcases survey_passes horderly hframe world.coordinator.snapshot hid
          hsurvey with
        ⟨fault, rfl, _, _⟩ | ⟨units, reads, hfirst, _, _, hended⟩
      · simp only [run, hsurvey] at hrun
        obtain ⟨rfl, rfl⟩ := Prod.mk.inj hrun
        exact hreading.trans (.turn .fail)
      rcases hended with ⟨source, fault, rfl, _⟩ | ⟨hreads, rfl⟩
      · simp only [run, hsurvey] at hrun
        obtain ⟨rfl, rfl⟩ := Prod.mk.inj hrun
        exact hreading.trans (.turn .fail)
      let plan := Plan.against world.coordinator.snapshot units
        (KeyedSet.putAll ∅ reads)
      have hrecomputed := recompute_allows host id hnested
        plan.invalidation.reparse plan.invalidation.valid plan.changes.current
        surveyed
      cases hrecompute : recompute nested host id plan.invalidation.reparse
          plan.invalidation.valid plan.changes.current surveyed with
      | mk ready recomputed? =>
          rw [hrecompute] at hrecomputed
          have hready := hreading.trans (hrecomputed.brings nofun)
          simp only [run, hsurvey] at hrun
          rw [hrecompute] at hrun
          obtain ⟨results, _, _, hended⟩ := recompute_passes horderly hframe
            _ _ _ (hfirst.numbered hid) hrecompute
          rcases hended with ⟨rfl, hcancelled⟩ | ⟨hresults, rfl, hcurrent⟩
          · obtain ⟨rfl, rfl⟩ := Prod.mk.inj hrun
            exact hready.trans (.turn (.stop hcancelled))
          · -- A build that merges was cancelled nowhere, and passed over no unit.
            have hmerged : Brings id (.reading world.coordinator.snapshot)
                ready.coordinator
                (.merged ((⟨units, reads, results⟩ : Round).merged
                  world.coordinator.snapshot).snapshot) ready.coordinator :=
              .turn (.merge ⟨units, reads, results⟩ ⟨hreads, hresults⟩ hcurrent)
            exact hready.trans
              (hmerged.trans (conclude_brings host id hnested scope _ _ hrun))

theorem runOnce_allows (horderly : Orderly nested) (scope : ViewScope)
    (world : World σ) :
    Allows world.coordinator
      (runOnce nested host scope world).1.coordinator := by
  cases hrun : run nested host world.coordinator.nextId scope
      (begunIn world) with
  | mk last result =>
      have hbuild := run_brings host _ hnested horderly scope
        (numbered_begunIn world) hrun
      rw [runOnce_of_run hrun]
      exact ((Race.brings_begun world.coordinator).trans
        (hbuild.trans (Race.brings_finish last.coordinator
          world.coordinator.nextId (BuildState.ofResult result)))).allows

end Nested

theorem nestedWithin_allows (host : Host σ) (depth : Nat) (scope : ViewScope)
    (world : World σ) :
    Allows world.coordinator
      (nestedWithin host depth scope world).1.coordinator := by
  induction depth generalizing scope world with
  | zero => exact .refl world.coordinator
  | succ depth ih =>
      exact runOnce_allows host ih (orderly_nestedWithin host depth) scope world

theorem build_allows (host : Host σ) (depth : Nat) (scope : ViewScope)
    (world : World σ) :
    Allows world.coordinator (world.build host depth scope).1.coordinator :=
  runOnce_allows host (nestedWithin_allows host depth)
    (orderly_nestedWithin host depth) scope world

end Build

/-- Whatever builds, edits and cancellations on one thread have led to, builds
that run at the same time can come to as well: they commit and present in the
same order. -/
theorem World.Reaches.exists_race {σ : Type} {host : Host σ}
    {edits : σ → σ → Prop} {seed : Snapshot} {state : σ} {world : World σ}
    (hreaches : World.Reaches host edits ⟨.startingFrom seed, state⟩ world) :
    ∃ movers race, Race.Reached seed movers race ∧
      race.coordinator = world.coordinator.outline ∧
      BuildLog.committers race.coordinator.events =
        BuildLog.committers world.coordinator.events ∧
      BuildLog.presenters race.coordinator.events =
        BuildLog.presenters world.coordinator.events := by
  have hallows : Race.Allows (.startingFrom seed) world.coordinator := by
    induction hreaches with
    | start => exact .refl _
    | edit _ _ ih => exact ih
    | @build before _ depth scope ih =>
        exact ih.trans (Build.build_allows host depth scope before)
    | cancel _ ih => exact ih.trans (.cancelRunning _)
  obtain ⟨race, hgoes, hrace⟩ := hallows (Race.start seed) ⟨.start seed, rfl⟩
  obtain ⟨movers, hreached⟩ := hgoes.reached .start
  have houtline := hrace.outline
  refine ⟨movers, race, hreached, houtline, ?_, ?_⟩
  · rw [houtline, Coordinator.committers_outline]
  · rw [houtline, Coordinator.presenters_outline]

end CallGraph
