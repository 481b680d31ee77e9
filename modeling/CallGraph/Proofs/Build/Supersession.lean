import CallGraph.Proofs.Build.Soundness
import CallGraph.Proofs.Build.Turns

namespace CallGraph

open BuildLog (committers presenters)

variable {σ α : Type}

def World.seen (world : World (Watched σ)) : World (Watched σ) :=
  world.withHost (world.host.see world.coordinator)

namespace Build

variable {host : Host σ} {watched : Nested (Watched σ)}
  {Rel : World (Watched σ) → World (Watched σ) → Prop}

/-- A relation between watched worlds that holds across every step of an
activity.  A nested build counts from the world that is kept before it to the
one that is kept after it. -/
structure Watchable (watched : Nested (Watched σ))
    (Rel : World (Watched σ) → World (Watched σ) → Prop) : Prop where
  trans : ∀ {first middle last},
    Rel first middle → Rel middle last → Rel first last
  moved : ∀ (world : World (Watched σ)) (state : σ),
    Rel world (world.withHost ⟨state, world.host.moments⟩)
  seen : ∀ world, Rel world world.seen
  cancelled : ∀ world, Rel world
    (world.withCoordinator world.coordinator.cancelRunning)
  nested : ∀ scope world, Rel world (watched scope world.seen).1.seen

namespace Watchable

theorem perform (hwatchable : Watchable watched Rel) (activity : Activity σ α)
    (start : σ) (moments : List (World σ)) (coordinator : Coordinator) :
    Rel ⟨coordinator, ⟨start, moments⟩⟩
      (Build.perform watched (activity.watched moments) coordinator).1 := by
  induction activity generalizing start moments coordinator with
  | done host answer =>
      exact hwatchable.trans (hwatchable.moved _ host) (hwatchable.seen _)
  | cancelRunning next ih =>
      exact hwatchable.trans (hwatchable.cancelled _)
        (ih start moments coordinator.cancelRunning)
  | observe next ih => exact ih coordinator start moments coordinator
  | build host scope next ih =>
      refine hwatchable.trans (hwatchable.moved _ host) ?_
      exact hwatchable.trans
        (hwatchable.nested scope ⟨coordinator, ⟨host, moments⟩⟩)
        (ih _ _ _ _ _)

theorem asked (hwatchable : Watchable watched Rel)
    {question : Watched σ → Activity (Watched σ) α}
    (hasks : host.watched.Asks question) (world : World (Watched σ)) :
    Rel world (ask watched question world).1 := by
  obtain ⟨plain, _, rfl⟩ := hasks.exists_watching
  exact hwatchable.trans (hwatchable.seen world)
    (hwatchable.perform (plain world.host.host) _ _ world.coordinator)

end Watchable

end Build

/-- From `first` on, a build that has been told to stop neither commits nor
presents. -/
def Coordinator.Heeds (first last : Coordinator) : Prop :=
  ∃ later, last.events = first.events ++ later ∧
    ∀ id, first.isCancelled id = true →
      last.isCancelled id = true ∧ id ∉ committers later ∧ id ∉ presenters later

namespace Coordinator.Heeds

variable {first middle last coordinator : Coordinator}

theorem refl (coordinator : Coordinator) : coordinator.Heeds coordinator :=
  ⟨[], (List.append_nil _).symm,
    fun _ hcancelled => ⟨hcancelled, List.not_mem_nil, List.not_mem_nil⟩⟩

theorem trans (hfirst : first.Heeds middle) (hlast : middle.Heeds last) :
    first.Heeds last := by
  obtain ⟨earlier, hearlier, hheeds⟩ := hfirst
  obtain ⟨later, hlater, hheeds'⟩ := hlast
  refine ⟨earlier ++ later, by rw [hlater, hearlier, List.append_assoc], ?_⟩
  intro id hcancelled
  obtain ⟨hstill, hcommits, hpresents⟩ := hheeds id hcancelled
  obtain ⟨hlast, hcommits', hpresents'⟩ := hheeds' id hstill
  rw [BuildLog.committers_append, BuildLog.presenters_append]
  exact ⟨hlast, fun hmem => (List.mem_append.mp hmem).elim hcommits hcommits',
    fun hmem => (List.mem_append.mp hmem).elim hpresents hpresents'⟩

theorem note (event : BuildEvent)
    (hcommit : ∀ id, event.committer? = some id →
      coordinator.isCancelled id = false)
    (hpresent : ∀ id, event.presenter? = some id →
      coordinator.isCancelled id = false) :
    coordinator.Heeds (coordinator.note event) := by
  refine ⟨[event], rfl, fun id hcancelled => ⟨hcancelled, ?_, ?_⟩⟩
  · intro hmem
    have hcurrent := hcommit id (by simpa [committers] using hmem)
    rw [hcancelled] at hcurrent
    cases hcurrent
  · intro hmem
    have hcurrent := hpresent id (by simpa [presenters] using hmem)
    rw [hcancelled] at hcurrent
    cases hcurrent

theorem cancelRunning (coordinator : Coordinator) :
    coordinator.Heeds coordinator.cancelRunning := by
  refine ⟨[], ?_, fun id hcancelled => ⟨?_, List.not_mem_nil,
    List.not_mem_nil⟩⟩
  · rw [Coordinator.cancelRunning, cancelReplaced_eq, List.append_nil]
  · have hgrows : Grows none coordinator [] coordinator.cancelRunning :=
      .cancelRunning coordinator
    exact hgrows.cancelled id hcancelled

theorem begun (coordinator : Coordinator) :
    coordinator.Heeds coordinator.begun := by
  refine ⟨[.began coordinator.nextId], by rw [begun_eq], ?_⟩
  intro id hcancelled
  exact ⟨coordinator.isCancelled_begun (Or.inl hcancelled), List.not_mem_nil,
    List.not_mem_nil⟩

theorem finish (coordinator : Coordinator) (id : BuildId) (state : BuildState) :
    coordinator.Heeds (coordinator.finish id state) := by
  rcases coordinator.finish_eq id state with hfinish | hfinish
  · rw [hfinish]
    exact refl coordinator
  · rw [hfinish]
    exact ⟨[.finished id state], rfl, fun _ hcancelled =>
      ⟨hcancelled, List.not_mem_nil, List.not_mem_nil⟩⟩

theorem committing {id : BuildId} (hcurrent : coordinator.isCancelled id = false)
    (next : Snapshot) : coordinator.Heeds (coordinator.committing id next) := by
  refine ⟨[.committed id next], rfl, fun other hcancelled =>
    ⟨hcancelled, ?_, List.not_mem_nil⟩⟩
  intro hmem
  obtain rfl : other = id := by
    simpa [committers, BuildEvent.committer?] using hmem
  have hother : coordinator.isCancelled other = true := hcancelled
  rw [hcurrent] at hother
  cases hother

end Coordinator.Heeds

namespace Build

variable {host : Host σ} {watched : Nested (Watched σ)}
  {first middle last : World (Watched σ)}

/-- Builds that were told to stop are heeded from every kept world on. -/
structure Heeding (first last : World (Watched σ)) : Prop where
  heeds : first.coordinator.Heeds last.coordinator
  moments : ∀ moment ∈ last.host.moments,
    moment ∈ first.host.moments ∨ moment.coordinator.Heeds last.coordinator

namespace Heeding

theorem trans (hfirst : Heeding first middle) (hlast : Heeding middle last) :
    Heeding first last := by
  refine ⟨hfirst.heeds.trans hlast.heeds, fun moment hmoment => ?_⟩
  rcases hlast.moments moment hmoment with hmoment | hheeds
  · exact (hfirst.moments moment hmoment).imp_right (·.trans hlast.heeds)
  · exact Or.inr hheeds

theorem ofHeeds (hheeds : first.coordinator.Heeds last.coordinator)
    (hmoments : last.host.moments = first.host.moments) :
    Heeding first last :=
  ⟨hheeds, fun _ hmoment => Or.inl (hmoments ▸ hmoment)⟩

theorem seen (world : World (Watched σ)) : Heeding world world.seen := by
  refine ⟨.refl _, fun moment hmoment => ?_⟩
  rcases List.mem_append.mp hmoment with hmoment | hmoment
  · exact Or.inl hmoment
  · rw [List.mem_singleton.mp hmoment]
    exact Or.inr (.refl _)

end Heeding

theorem frame_heeding
    (hnested : ∀ scope world, Heeding world (watched scope world).1) :
    Frame watched host.watched Heeding where
  refl _ := .ofHeeds (.refl _) rfl
  trans := .trans
  note world event hevent _ := by
    refine .ofHeeds (.note event ?_ ?_) rfl
    · rw [BuildEvent.committer?_of_isStep hevent]
      nofun
    · rw [BuildEvent.presenter?_of_isStep hevent]
      nofun
  presented _ _ hcurrent := by
    refine .ofHeeds (.note _ nofun fun number hnumber => ?_) rfl
    rwa [← Option.some.inj hnumber]
  asked hasks world := by
    have hwatchable : Watchable watched Heeding := {
      trans := .trans
      moved := fun _ _ => .ofHeeds (.refl _) rfl
      seen := .seen
      cancelled := fun _ => .ofHeeds (.cancelRunning _) rfl
      nested := fun scope world =>
        (Heeding.seen world).trans ((hnested scope world.seen).trans (.seen _))
    }
    exact hwatchable.asked hasks world
  resetProgress _ _ := .ofHeeds (.refl _) rfl
  countProgress _ := .ofHeeds (.refl _) rfl

theorem stable_heeding (host : Host σ) : Stable host.watched Heeding where
  refl _ := .ofHeeds (.refl _) rfl
  frame _ hnested := frame_heeding hnested
  begun world := .ofHeeds (.begun world.coordinator) rfl
  finished _ id state _ := .ofHeeds (.finish _ id state) rfl
  committed {_ world ready round} _ hgathered := by
    have hbegun : Heeding world (begunIn world) :=
      .ofHeeds (.begun world.coordinator) rfl
    refine (hbegun.trans hgathered.passes.related).trans ?_
    exact .ofHeeds (.committing hgathered.current _) rfl

end Build

/-- The build that began last was run between two of the worlds, and the state
is what came of it. -/
def Coordinator.ShowsLastEnd (coordinator : Coordinator) (host : Host σ)
    (worlds : List (World σ)) : Prop :=
  ∃ depth scope, ∃ before ∈ worlds,
    (before.build host depth scope).1 ∈ worlds ∧
    before.coordinator.nextId + 1 = coordinator.nextId ∧
    coordinator.state = .ofResult (before.build host depth scope).2

theorem Coordinator.ShowsLastEnd.congr {coordinator other : Coordinator}
    {host : Host σ} {worlds more : List (World σ)}
    (hshows : coordinator.ShowsLastEnd host worlds)
    (hnextId : other.nextId = coordinator.nextId)
    (hstate : other.state = coordinator.state) (hworlds : worlds ⊆ more) :
    other.ShowsLastEnd host more := by
  obtain ⟨depth, scope, before, hbefore, hafter, hnumber, hended⟩ := hshows
  exact ⟨depth, scope, before, hworlds hbefore, hworlds hafter,
    hnumber.trans hnextId.symm, hstate.trans hended⟩

namespace Build

variable {host : Host σ} {watched : Nested (Watched σ)}
  {world first middle last : World (Watched σ)} {result : BuildResult}

/-- A world in which the registered build is the one that began last, or none is
registered and it is known how that build has ended. -/
structure IsTracked (host : Host σ) (world : World (Watched σ)) : Prop where
  running : ∀ id, world.coordinator.inFlight = some id →
    id + 1 = world.coordinator.nextId
  ended : world.coordinator.inFlight = none →
    world.coordinator.ShowsLastEnd host world.host.moments

/-- The registration of a build may only be taken back. -/
structure Tracks (host : Host σ) (first last : World (Watched σ)) : Prop where
  moments : first.host.moments ⊆ last.host.moments
  inFlight : last.coordinator.inFlight = none ∨
    last.coordinator.inFlight = first.coordinator.inFlight
  tracked : IsTracked host first → IsTracked host last

namespace Tracks

theorem trans (hfirst : Tracks host first middle)
    (hlast : Tracks host middle last) : Tracks host first last where
  moments := List.Subset.trans hfirst.moments hlast.moments
  inFlight := by
    rcases hlast.inFlight with hnone | hkept
    · exact Or.inl hnone
    · rw [hkept]
      exact hfirst.inFlight
  tracked := hlast.tracked ∘ hfirst.tracked

theorem ofKept
    (hinFlight : last.coordinator.inFlight = first.coordinator.inFlight)
    (hnextId : last.coordinator.nextId = first.coordinator.nextId)
    (hstate : last.coordinator.state = first.coordinator.state)
    (hmoments : first.host.moments ⊆ last.host.moments) :
    Tracks host first last where
  moments := hmoments
  inFlight := Or.inr hinFlight
  tracked htracked := by
    constructor
    · intro id hid
      rw [hnextId]
      exact htracked.running id (hinFlight ▸ hid)
    · intro hnone
      exact (htracked.ended (hinFlight ▸ hnone)).congr hnextId hstate hmoments

theorem seen (world : World (Watched σ)) : Tracks host world world.seen :=
  .ofKept rfl rfl rfl (List.subset_append_left _ _)

end Tracks

theorem frame_tracks
    (hnested : ∀ scope world,
      Tracks host world (watched scope world.seen).1.seen) :
    Frame watched host.watched (Tracks host) where
  refl _ := .ofKept rfl rfl rfl (List.Subset.refl _)
  trans := .trans
  note _ _ _ _ := .ofKept rfl rfl rfl (List.Subset.refl _)
  presented _ _ _ := .ofKept rfl rfl rfl (List.Subset.refl _)
  asked hasks world := by
    have hwatchable : Watchable watched (Tracks host) := {
      trans := .trans
      moved := fun _ _ => .ofKept rfl rfl rfl (List.Subset.refl _)
      seen := .seen
      cancelled := fun world => by
        refine .ofKept ?_ ?_ ?_ (List.Subset.refl _) <;>
          simp only [World.withCoordinator, Coordinator.cancelRunning,
            Coordinator.cancelReplaced_eq]
      nested := hnested }
    exact hwatchable.asked hasks world
  resetProgress _ _ := .ofKept rfl rfl rfl (List.Subset.refl _)
  countProgress _ := .ofKept rfl rfl rfl (List.Subset.refl _)

/-- What a build leaves when it returns. -/
structure Ends (host : Host σ) (first last : World (Watched σ))
    (result : BuildResult) : Prop where
  moments : first.host.moments ⊆ last.host.moments
  inFlight : last.coordinator.inFlight = none
  ended : first.coordinator.nextId + 1 = last.coordinator.nextId ∧
      last.coordinator.state = .ofResult result ∨
    last.coordinator.ShowsLastEnd host last.host.moments

theorem isTracked_begunIn (world : World (Watched σ)) :
    IsTracked host (begunIn world) := by
  constructor
  · intro id hid
    rw [inFlight_begunIn] at hid
    simp only [begunIn, World.withCoordinator, Coordinator.begun_eq,
      Option.some.inj hid]
  · rw [inFlight_begunIn]
    intro hnone
    cases hnone

/-- A build that is still registered records how it ended.  One that is not
anymore leaves the record of the one that took its place. -/
theorem runOnce_ends (horderly : Orderly watched)
    (hnested : ∀ scope world,
      Tracks host world (watched scope world.seen).1.seen)
    (scope : ViewScope) (world : World (Watched σ)) :
    Ends host world (runOnce watched host.watched scope world).1
      (runOnce watched host.watched scope world).2 := by
  obtain ⟨last, result, hcourse, hrunOnce⟩ := runOnce_course horderly
    (frame_tracks hnested) scope world
  have htracks : Tracks host (begunIn world) last := by
    cases hcourse with
    | stopped hpasses _ _ => exact hpasses.related
    | committed hgathered hpasses _ _ =>
        refine (hgathered.passes.related.trans ?_).trans hpasses.related
        exact .ofKept rfl rfl rfl (List.Subset.refl _)
  have htracked := htracks.tracked (isTracked_begunIn world)
  rw [hrunOnce]
  refine ⟨htracks.moments, ?_, ?_⟩
  · rcases htracks.inFlight with hnone | hkept
    · simp [World.withCoordinator, Coordinator.finish, hnone]
    · rw [inFlight_begunIn] at hkept
      simp [World.withCoordinator, Coordinator.finish, Coordinator.note, hkept]
  · rcases htracks.inFlight with hnone | hkept
    · refine Or.inr ?_
      simpa [World.withCoordinator, Coordinator.finish, hnone] using
        htracked.ended hnone
    · rw [inFlight_begunIn] at hkept
      have hnumber := htracked.running _ hkept
      refine Or.inl ?_
      simpa [World.withCoordinator, Coordinator.finish, Coordinator.note,
        hkept] using hnumber

theorem tracks_nestedWithin (host : Host σ) (depth : Nat) (scope : ViewScope)
    (world : World (Watched σ)) :
    Tracks host world
      (nestedWithin host.watched depth scope world.seen).1.seen := by
  induction depth generalizing scope world with
  | zero => exact (Tracks.seen world).trans (.seen world.seen)
  | succ depth ih =>
      have hends := runOnce_ends (orderly_nestedWithin host.watched depth) ih
        scope world.seen
      have herase : erase (runOnce (nestedWithin host.watched depth)
          host.watched scope world.seen) = world.plain.build host depth scope :=
        erase_runOnce (erases_nestedWithin host depth) scope world.seen
      change Tracks host world (runOnce (nestedWithin host.watched depth)
        host.watched scope world.seen).1.seen
      cases hrun : runOnce (nestedWithin host.watched depth) host.watched scope
          world.seen with
      | mk last result =>
          rw [hrun] at hends herase
          have hmoments := List.Subset.trans hends.moments
            (List.subset_append_left _ [last.plain])
          refine ⟨List.Subset.trans (List.subset_append_left _ _) hmoments,
            Or.inl hends.inFlight, fun _ => ⟨?_, fun _ => ?_⟩⟩
          · rw [show last.seen.coordinator = last.coordinator from rfl,
              hends.inFlight]
            nofun
          · rcases hends.ended with ⟨hnumber, hstate⟩ | hshows
            · refine ⟨depth, scope, world.plain, hmoments ?_, ?_, hnumber, ?_⟩
              · exact List.mem_append_right _ (List.mem_singleton_self _)
              · rw [← herase]
                exact List.mem_append_right _ (List.mem_singleton_self _)
              · rw [← herase]
                exact hstate
            · exact hshows.congr rfl rfl (List.subset_append_left _ _)

theorem build_ends (host : Host σ) (depth : Nat) (scope : ViewScope)
    (world : World σ) :
    (world.build host depth scope).1.coordinator.inFlight = none ∧
      (world.build host depth scope).1.coordinator.ShowsLastEnd host
        (world :: (world.build host depth scope).1 ::
          world.moments host depth scope) := by
  have hends := runOnce_ends (orderly_nestedWithin host.watched depth)
    (tracks_nestedWithin host depth) scope world.watch
  have herase : erase (world.watch.build host.watched depth scope) =
      world.build host depth scope :=
    erase_runOnce (erases_nestedWithin host depth) scope world.watch
  change Ends host world.watch (world.watch.build host.watched depth scope).1
    (world.watch.build host.watched depth scope).2 at hends
  rw [← herase]
  refine ⟨hends.inFlight, ?_⟩
  rcases hends.ended with ⟨hnumber, hstate⟩ | hshows
  · refine ⟨depth, scope, world, List.mem_cons_self, ?_, hnumber, ?_⟩
    · rw [← herase]
      exact List.mem_cons_of_mem _ List.mem_cons_self
    · rw [← herase]
      exact hstate
  · refine hshows.congr rfl rfl fun moment hmoment => ?_
    exact List.mem_cons_of_mem _ (List.mem_cons_of_mem _ hmoment)

end Build

/-- A world between builds: none has begun yet, or none is registered and the
state is how the last one ended, be it one that was nested in another. -/
inductive World.Rests (host : Host σ) (edits : σ → σ → Prop)
    (start world : World σ) : Prop where
  | fresh (coordinator : world.coordinator = start.coordinator)
  | ended {earlier : World σ} {depth : Nat} {scope : ViewScope}
      (reaches : World.Reaches host edits start earlier)
      (coordinator : world.coordinator =
        (earlier.build host depth scope).1.coordinator)
      (shows : world.coordinator.ShowsLastEnd host
        (earlier :: (earlier.build host depth scope).1 ::
          earlier.moments host depth scope))

namespace World.Reaches

variable {host : Host σ} {edits : σ → σ → Prop} {start world : World σ}

theorem rests (hreaches : World.Reaches host edits start world)
    (hstart : start.coordinator.inFlight = none) :
    world.coordinator.inFlight = none ∧ World.Rests host edits start world := by
  induction hreaches with
  | start => exact ⟨hstart, .fresh rfl⟩
  | edit _ _ ih =>
      refine ⟨ih.1, ?_⟩
      cases ih.2 with
      | fresh hsame => exact .fresh hsame
      | ended hreaches hsame hshows => exact .ended hreaches hsame hshows
  | build hreaches depth scope _ =>
      obtain ⟨hnone, hshows⟩ := Build.build_ends host depth scope _
      exact ⟨hnone, .ended hreaches rfl hshows⟩
  | @cancel world _ ih =>
      -- There is nothing to cancel.
      have hsame : world.coordinator.cancelRunning = world.coordinator := by
        rw [Coordinator.cancelRunning, ih.1]
        rfl
      rw [hsame]
      exact ih

/-- Builds may be started, cancelled and nested in every activity of the host,
which may also change or fail.  The builds that commit, and those that present,
do so in the order in which they began; none of them does after another one has
begun or after it was told to stop; and between builds none is registered and
the state is how the last one ended. -/
theorem supersedes {seed : Snapshot} {state : σ}
    (hreaches : World.Reaches host edits ⟨.startingFrom seed, state⟩ world) :
    BuildLog.IsSuperseding world.coordinator.events ∧
      (∀ depth scope, ∀ moment ∈ world.moments host depth scope,
        moment.coordinator.Heeds
          (world.build host depth scope).1.coordinator) ∧
      world.coordinator.inFlight = none ∧
      World.Rests host edits ⟨.startingFrom seed, state⟩ world := by
  have hturns := hreaches.isTakingTurns (.startingFrom seed)
  refine ⟨hturns.turns.isSuperseding, ?_, hreaches.rests rfl⟩
  intro depth scope moment hmoment
  have hheeding := (Build.stable_heeding host).build depth scope world.watch
  have hplain : (world.watch.build host.watched depth scope).1.plain =
      (world.build host depth scope).1 :=
    World.plain_build host depth scope world.watch
  rw [← hplain]
  exact (hheeding.moments moment hmoment).resolve_left List.not_mem_nil

end World.Reaches

namespace Sample

def nestingHost : Host Script := Script.host false none

def nesting : Script :=
  (linked.addAction (Script.extractPlace firstUnit) (.build default)).addAction
    Script.sinkPlace (.build default)

def nestedBuilds : World Script :=
  ((⟨default, nesting⟩ : World Script).build nestingHost 2 default).1

def supersededBuilds : World Script :=
  ((nestedBuilds.withHost
    (nestedBuilds.host.addAction Script.layoutPlace .cancel)).build nestingHost
      0 default).1

theorem supersededBuilds_supersedes :
    committers supersededBuilds.coordinator.events = [2, 3, 4] ∧
      presenters supersededBuilds.coordinator.events = [2, 3] ∧
      supersededBuilds.coordinator.state = .committed ∧
      BuildLog.IsSuperseding supersededBuilds.coordinator.events ∧
      (∀ depth scope, ∀ moment ∈ supersededBuilds.moments nestingHost depth
          scope,
        moment.coordinator.Heeds (supersededBuilds.build nestingHost depth
          scope).1.coordinator) ∧
      supersededBuilds.coordinator.inFlight = none ∧
      World.Rests nestingHost (fun _ _ => True)
        ⟨.startingFrom .initial, nesting⟩ supersededBuilds := by
  have hreaches : World.Reaches nestingHost (fun _ _ => True)
      ⟨.startingFrom .initial, nesting⟩ supersededBuilds :=
    .build (.edit (.build .start 2 default) trivial) 0 default
  exact ⟨by decide +kernel, by decide +kernel, by decide +kernel,
    World.Reaches.supersedes hreaches⟩

end Sample

end CallGraph
