import CallGraph.Proofs.Build.Settled
import CallGraph.Proofs.Build.Turns

namespace CallGraph

open BuildLog (record)

/-! Hosts that are left alone while a build runs, and builds that find nothing
new. -/

/-- What there is to be seen of a host: its units and their versions. -/
structure Sight (σ : Type) where
  units : σ → Except Fault UnitSet
  version : σ → SourceUnit → Except Fault VersionToken

namespace Sight

variable {σ : Type}

def Same (sight : Sight σ) (first last : σ) : Prop :=
  sight.units last = sight.units first ∧
    sight.version last = sight.version first

theorem timeline (sight : Sight σ) : Timeline sight.Same where
  refl _ := ⟨rfl, rfl⟩
  trans hfirst hlast :=
    ⟨hlast.1.trans hfirst.1, hlast.2.trans hfirst.2⟩

end Sight

/-- A host whose answers come from what there is to be seen, and that does not
change it while it is asked. -/
structure Host.IsSteady {σ : Type} (host : Host σ) (sight : Sight σ)
    (found? : Yield) : Prop where
  follows : host.Follows sight.Same
  allUnits : ∀ start, (host.allUnits start).Obeys sight.Same
    (fun answer _ => answer = sight.units start) start
  versionOf : ∀ source start, (host.versionOf source start).Obeys sight.Same
    (fun answer _ => answer = sight.version start source) start
  extract : ∀ source start, (host.extract source start).Obeys sight.Same
    (fun outcome _ => ∀ token, sight.version start source = .ok token →
      (UnitOutcome.mk source outcome).edges? = found? source token) start

def Activity.IsQuiet {σ α : Type} : Activity σ α → Prop
  | .done _ _ => True
  | .cancelRunning _ => False
  | .observe next => ∀ coordinator, (next coordinator).IsQuiet
  | .build _ _ _ => False

def Host.IsQuiet {σ : Type} (host : Host σ) : Prop :=
  ∀ {α : Type} {question : σ → Activity σ α}, host.Asks question →
    ∀ start, (question start).IsQuiet

structure Round.Sees {σ : Type} (sight : Sight σ) (state : σ) (round : Round) :
    Prop where
  units : sight.units state = .ok round.units
  versions : ∀ version ∈ round.reads,
    sight.version state version.source = .ok version.token

/-- The snapshot came of a round that saw what there is to be seen now. -/
def World.IsUpToDate {σ : Type} (sight : Sight σ) (found? : Yield)
    (world : World σ) : Prop :=
  ∃ (round : Round) (baseline : Snapshot),
    baseline.IsSettled found? ∧ round.Fits baseline ∧ round.Yields found? ∧
      round.Sees sight world.host ∧
      world.coordinator.snapshot = round.snapshot baseline

namespace Round

variable {σ : Type} {sight : Sight σ} {state other : σ} {round again : Round}
  {baseline : Snapshot}

theorem Sees.congr (hsees : round.Sees sight state)
    (hsame : sight.Same state other) : round.Sees sight other where
  units := hsame.1.trans hsees.units
  versions version hversion := by
    rw [hsame.2]
    exact hsees.versions version hversion

theorem Sees.repeats (hsees : round.Sees sight state)
    (hagain : again.Sees sight state) (hfits : round.Fits baseline)
    {baseline' : Snapshot} (hfits' : again.Fits baseline') :
    again.Repeats round := by
  have hunits : again.units = round.units :=
    Except.ok.inj (hagain.units.symm.trans hsees.units)
  refine ⟨hunits, ?_⟩
  have hsources : again.reads.map UnitVersion.source =
      round.reads.map UnitVersion.source := by
    rw [hfits.reads, hfits'.reads, hunits]
  have hread : ∀ {read : Round}, read.Sees sight state →
      (read.reads.map UnitVersion.source).map (fun source =>
        ⟨source, ((sight.version state source).toOption).getD ⟨0⟩⟩) =
          read.reads := by
    intro read hread
    rw [List.map_map]
    refine (List.map_congr_left fun version hversion => ?_).trans
      (List.map_id read.reads)
    rw [Function.comp_apply, hread.versions version hversion]
    rfl
  rw [← hread hagain, hsources, hread hsees]

end Round

namespace Build

variable {σ α : Type} {nested : Nested σ} {host : Host σ} {sight : Sight σ}
  {found? : Yield} {first middle last : World σ}

structure Steadily (sight : Sight σ) (found? : Yield) (first last : World σ) :
    Prop where
  same : sight.Same first.host last.host
  settled : first.coordinator.snapshot.IsSettled found? →
    last.coordinator.snapshot.IsSettled found?
  upToDate : first.IsUpToDate sight found? → last.IsUpToDate sight found?

namespace Steadily

theorem trans (hfirst : Steadily sight found? first middle)
    (hlast : Steadily sight found? middle last) :
    Steadily sight found? first last where
  same := sight.timeline.trans hfirst.same hlast.same
  settled := hlast.settled ∘ hfirst.settled
  upToDate := hlast.upToDate ∘ hfirst.upToDate

theorem ofSame (hsame : sight.Same first.host last.host)
    (hsnapshot : last.coordinator.snapshot = first.coordinator.snapshot) :
    Steadily sight found? first last where
  same := hsame
  settled hsettled := by rwa [hsnapshot]
  upToDate := by
    rintro ⟨round, baseline, hsettled, hfits, hyields, hsees, hcurrent⟩
    exact ⟨round, baseline, hsettled, hfits, hyields, hsees.congr hsame,
      hsnapshot.trans hcurrent⟩

theorem perform
    (hnested : ∀ scope world,
      Steadily sight found? world (nested scope world).1)
    {accepts : α → σ → Prop} {activity : Activity σ α} {start : σ}
    (hobeys : activity.Obeys sight.Same accepts start)
    (coordinator : Coordinator) :
    Steadily sight found? ⟨coordinator, start⟩
      (Build.perform nested activity coordinator).1 := by
  induction activity generalizing start coordinator with
  | done host answer => exact .ofSame hobeys.1 rfl
  | cancelRunning next ih =>
      have hcancelled : Steadily sight found? ⟨coordinator, start⟩
          ⟨coordinator.cancelRunning, start⟩ :=
        .ofSame (sight.timeline.refl start)
          (Coordinator.snapshot_cancelRunning coordinator)
      exact hcancelled.trans (ih hobeys coordinator.cancelRunning)
  | observe next ih => exact ih coordinator (hobeys coordinator) coordinator
  | build host scope next ih =>
      have hmoved : Steadily sight found? ⟨coordinator, start⟩
          ⟨coordinator, host⟩ := .ofSame hobeys.1 rfl
      have hbuilt := hnested scope ⟨coordinator, host⟩
      exact (hmoved.trans hbuilt).trans
        (ih _ _ (hobeys.2 _ _ hbuilt.same) _)

end Steadily

theorem frame_steadily (hfollows : host.Follows sight.Same)
    (hnested : ∀ scope world,
      Steadily sight found? world (nested scope world).1) :
    Frame nested host (Steadily sight found?) where
  refl world := .ofSame (sight.timeline.refl world.host) rfl
  trans := .trans
  note world _ _ _ := .ofSame (sight.timeline.refl world.host) rfl
  presented _ _ _ := .ofSame (sight.timeline.refl _) rfl
  asked hasks world :=
    .perform hnested (hfollows.asked hasks world.host) world.coordinator
  resetProgress total _ := .ofSame (hfollows.resetProgress total _) rfl
  countProgress _ := .ofSame (hfollows.countProgress _) rfl

theorem Gathered.steady (hsteady : host.IsSteady sight found?)
    {Rel : World σ → World σ → Prop} {id : BuildId} {start ready : World σ}
    {round : Round}
    (hrel : ∀ {first last}, Rel first last → sight.Same first.host last.host)
    (hnested : ∀ scope world,
      sight.Same world.host (nested scope world).1.host)
    (hgathered : Gathered nested host Rel id start ready round) :
    round.Sees sight ready.host ∧ round.Yields found? := by
  have htimeline := sight.timeline
  obtain ⟨surveyed, hfirst, hlast, hunits, hreads, hresults⟩ :=
    hgathered.answers
  have hsees : round.Sees sight start.host := by
    constructor
    · have hanswered := (perform_obeys htimeline hnested
        (hsteady.allUnits start.host) start.coordinator).2
      exact hanswered.symm.trans hunits.answer
    · intro version hversion
      obtain ⟨asked, hbefore, hanswer, _⟩ := hreads version hversion
      have hanswered := (perform_obeys htimeline hnested
        (hsteady.versionOf version.source asked.host) asked.coordinator).2
      rw [← (hrel hbefore).2]
      exact hanswered.symm.trans hanswer
  refine ⟨hsees.congr (htimeline.trans (hrel hfirst) (hrel hlast)), ?_⟩
  intro result hresult token htoken
  obtain ⟨asked, hbefore, hanswer, _⟩ := hresults result hresult
  have hanswered := (perform_obeys htimeline hnested
    (hsteady.extract result.source asked.host) asked.coordinator).2 token
  have hasked := htimeline.trans (hrel hfirst) (hrel hbefore)
  have hversion : sight.version asked.host result.source = .ok token := by
    rw [hasked.2]
    exact hsees.versions _ htoken
  have hyield := hanswered hversion
  change (UnitOutcome.mk result.source
    (ask nested (host.extract result.source) asked).2).edges? = _ at hyield
  rwa [hanswer] at hyield

theorem Gathered.upToDate (hsteady : host.IsSteady sight found?)
    (hnested : ∀ scope world,
      Steadily sight found? world (nested scope world).1)
    {world ready : World σ} {round : Round}
    (hgathered : Gathered nested host (Steadily sight found?)
      world.coordinator.nextId (begunIn world) ready round)
    (hsettled : world.coordinator.snapshot.IsSettled found?) :
    (commitIn ready world.coordinator.nextId
      (round.snapshot world.coordinator.snapshot)).IsUpToDate sight found? := by
  obtain ⟨hsees, hyields⟩ := hgathered.steady hsteady Steadily.same
    fun scope world => (hnested scope world).same
  have hfits := hgathered.fits
  rw [snapshot_begunIn] at hfits
  exact ⟨round, world.coordinator.snapshot, hsettled, hfits, hyields, hsees, rfl⟩

end Build

theorem World.IsUpToDate.settled {σ : Type} {sight : Sight σ} {found? : Yield}
    {world : World σ} (hupToDate : world.IsUpToDate sight found?) :
    world.coordinator.snapshot.IsSettled found? := by
  obtain ⟨round, baseline, hsettled, hfits, hyields, _, hcurrent⟩ := hupToDate
  rw [hcurrent]
  exact hyields.failsAs.snapshot_isSettled hfits hsettled

namespace Build

variable {σ α : Type} {nested : Nested σ} {host : Host σ} {sight : Sight σ}
  {found? : Yield}

theorem stable_steadily (hsteady : host.IsSteady sight found?) :
    Stable host (Steadily sight found?) where
  refl world := .ofSame (sight.timeline.refl world.host) rfl
  frame _ hnested := frame_steadily hsteady.follows hnested
  begun world :=
    .ofSame (sight.timeline.refl world.host) (snapshot_begunIn world)
  finished world id state _ := .ofSame (sight.timeline.refl world.host)
    (Coordinator.snapshot_finish world.coordinator id state)
  committed hnested hgathered := by
    have hcommitted := hgathered.upToDate hsteady hnested
    exact {
      same := hgathered.passes.related.same
      settled := fun hsettled => (hcommitted hsettled).settled
      upToDate := fun hupToDate => hcommitted hupToDate.settled }

/-- A build that commits leaves the snapshot up to date. -/
theorem build_isUpToDate (hsteady : host.IsSteady sight found?) (depth : Nat)
    (scope : ViewScope) {world : World σ}
    (hsettled : world.coordinator.snapshot.IsSettled found?)
    (hcommits : leavesCommit (world.build host depth scope).2 = true) :
    (world.build host depth scope).1.IsUpToDate sight found? := by
  have hstable := stable_steadily hsteady
  have hnested := hstable.nestedWithin depth
  obtain ⟨last, result, hcourse, hrunOnce⟩ := runOnce_course
    (orderly_nestedWithin host depth) (hstable.frame _ hnested) scope world
  unfold World.build at hcommits ⊢
  rw [hrunOnce] at hcommits ⊢
  cases hcourse with
  | stopped _ _ hstopped =>
      rw [hstopped.leaves_nothing] at hcommits
      cases hcommits
  | committed hgathered hpasses _ _ =>
      rw [snapshot_begunIn] at hpasses
      have hlast := hpasses.related.upToDate
        (hgathered.upToDate hsteady hnested hsettled)
      exact (hstable.finished last _ _ (hpasses.numbered
        (hgathered.passes.numbered (numbered_begunIn world)))).upToDate hlast

theorem perform_of_quiet {activity : Activity σ α} (hquiet : activity.IsQuiet)
    (coordinator : Coordinator) :
    (perform nested activity coordinator).1.coordinator = coordinator := by
  induction activity with
  | done host answer => rfl
  | cancelRunning next _ => cases hquiet
  | observe next ih => exact ih coordinator (hquiet coordinator)
  | build host scope next _ => cases hquiet

/-- On a quiet host nobody cancels a build or commits before it. -/
def Undisturbed (host : Host σ) (first last : World σ) : Prop :=
  host.IsQuiet →
    last.coordinator.cancelled = first.coordinator.cancelled ∧
      last.coordinator.snapshot = first.coordinator.snapshot

theorem Undisturbed.not_cancelled {start last : World σ}
    (hundisturbed : Undisturbed host (begunIn start) last)
    (hquiet : host.IsQuiet) (hturns : start.coordinator.IsTakingTurns) :
    last.coordinator.isCancelled start.coordinator.nextId = false := by
  rw [Coordinator.isCancelled, (hundisturbed hquiet).1]
  exact hturns.not_cancelled_begun

theorem frame_undisturbed (nested : Nested σ) (host : Host σ) :
    Frame nested host (Undisturbed host) where
  refl _ _ := ⟨rfl, rfl⟩
  trans hfirst hlast hquiet :=
    ⟨(hlast hquiet).1.trans (hfirst hquiet).1,
      (hlast hquiet).2.trans (hfirst hquiet).2⟩
  note _ _ _ _ _ := ⟨rfl, rfl⟩
  presented _ _ _ _ := ⟨rfl, rfl⟩
  asked {_ question} hasks world hquiet := by
    have hsame : (ask nested question world).1.coordinator =
        world.coordinator :=
      perform_of_quiet (hquiet hasks world.host) world.coordinator
    rw [hsame]
    exact ⟨rfl, rfl⟩
  resetProgress _ _ _ := ⟨rfl, rfl⟩
  countProgress _ _ := ⟨rfl, rfl⟩

theorem Frame.and {Rel Rel' : World σ → World σ → Prop}
    (hframe : Frame nested host Rel) (hframe' : Frame nested host Rel') :
    Frame nested host fun first last => Rel first last ∧ Rel' first last where
  refl world := ⟨hframe.refl world, hframe'.refl world⟩
  trans hfirst hlast :=
    ⟨hframe.trans hfirst.1 hlast.1, hframe'.trans hfirst.2 hlast.2⟩
  note world event hevent hnumbered :=
    ⟨hframe.note world event hevent hnumbered,
      hframe'.note world event hevent hnumbered⟩
  presented hjust hnumbered hcurrent :=
    ⟨hframe.presented hjust hnumbered hcurrent,
      hframe'.presented hjust hnumbered hcurrent⟩
  asked hasks world := ⟨hframe.asked hasks world, hframe'.asked hasks world⟩
  resetProgress total world :=
    ⟨hframe.resetProgress total world, hframe'.resetProgress total world⟩
  countProgress world :=
    ⟨hframe.countProgress world, hframe'.countProgress world⟩

end Build

end CallGraph
