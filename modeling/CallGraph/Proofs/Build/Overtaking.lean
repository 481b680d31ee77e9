import CallGraph.Proofs.Build.Race
import CallGraph.Proofs.Build.Table

namespace CallGraph

open BuildLog (committers presenters)

namespace Race

def Commits (race : Race) (id : BuildId) : Prop :=
  ∃ next, race.Step (some id) next ∧
    committers next.coordinator.events =
      committers race.coordinator.events ++ [id]

def Presents (race : Race) (id : BuildId) : Prop :=
  ∃ next, race.Step (some id) next ∧
    presenters next.coordinator.events =
      presenters race.coordinator.events ++ [id]

/-- A build is about to overwrite what another one has committed that registered
later. -/
structure CommitsBehind (race : Race) (id other : BuildId) : Prop where
  commits : race.Commits id
  before : race.RegisteredBefore id other
  committed : other ∈ committers race.coordinator.events

/-- A build is about to hand over its graph behind that of another one that
registered later. -/
structure PresentsBehind (race : Race) (id other : BuildId) : Prop where
  presents : race.Presents id
  before : race.RegisteredBefore id other
  presented : other ∈ presenters race.coordinator.events

variable {race before checked : Race} {id other : BuildId} {seed : Snapshot}
  {movers : List (Option BuildId)}

theorem ne_append_singleton {α : Type} (items : List α) (last : α) :
    items ≠ items ++ [last] := by
  intro heq
  have hlength := congrArg List.length heq
  simp at hlength

theorem committers_turn {phase next : Phase}
    {coordinator following : Coordinator}
    (hturn : Turn id coordinator phase following next) :
    committers following.events = committers coordinator.events ∨
      ∃ snapshot, phase = .merged snapshot ∧
        coordinator.isCancelled id = false := by
  cases hturn with
  | supersede => exact Or.inl (by rw [Coordinator.cancelReplaced_eq])
  | commit haccepted =>
      exact Or.inr ⟨_, rfl, (Coordinator.commit?_eq_some_iff.mp haccepted).1⟩
  | markRunning => exact Or.inl (BuildLog.committers_note rfl)
  | present => exact Or.inl (BuildLog.committers_note rfl)
  | @finish state =>
      rcases coordinator.finish_eq id state with hfinish | hfinish <;>
        rw [hfinish]
      · exact Or.inl rfl
      · exact Or.inl (BuildLog.committers_note rfl)
  | _ => exact Or.inl rfl

theorem presenters_turn {phase next : Phase}
    {coordinator following : Coordinator}
    (hturn : Turn id coordinator phase following next) :
    presenters following.events = presenters coordinator.events ∨
      phase = .cleared := by
  cases hturn with
  | supersede => exact Or.inl (by rw [Coordinator.cancelReplaced_eq])
  | commit haccepted =>
      obtain ⟨_, rfl⟩ := Coordinator.commit?_eq_some_iff.mp haccepted
      exact Or.inl (BuildLog.presenters_note rfl)
  | markRunning => exact Or.inl (BuildLog.presenters_note rfl)
  | present => exact Or.inr rfl
  | @finish state =>
      rcases coordinator.finish_eq id state with hfinish | hfinish <;>
        rw [hfinish]
      · exact Or.inl rfl
      · exact Or.inl (BuildLog.presenters_note rfl)
  | _ => exact Or.inl rfl

theorem commits_iff : race.Commits id ↔ ∃ next, race.phase id = .merged next ∧
    race.coordinator.isCancelled id = false := by
  constructor
  · rintro ⟨next, hstep, hcommitters⟩
    generalize hmover : some id = mover at hstep
    cases hstep with
    | draw => cases hmover
    | cancelRunning => cases hmover
    | register => exact absurd hcommitters (ne_append_singleton _ _)
    | turn hturn =>
        obtain rfl := Option.some.inj hmover
        refine (committers_turn hturn).resolve_left fun hsame => ?_
        exact ne_append_singleton _ _ (hsame.symm.trans hcommitters)
  · rintro ⟨next, hphase, hcurrent⟩
    have hturn : Turn id race.coordinator (race.phase id)
        (race.coordinator.committing id
          (next.succeeding race.coordinator.snapshot)) .committed := by
      rw [hphase]
      exact .commit (Coordinator.commit?_of_current hcurrent next)
    exact ⟨_, .turn hturn, BuildLog.committers_append _ _⟩

theorem presents_iff : race.Presents id ↔ race.phase id = .cleared := by
  constructor
  · rintro ⟨next, hstep, hpresenters⟩
    generalize hmover : some id = mover at hstep
    cases hstep with
    | draw => cases hmover
    | cancelRunning => cases hmover
    | register => exact absurd hpresenters (ne_append_singleton _ _)
    | turn hturn =>
        obtain rfl := Option.some.inj hmover
        refine (presenters_turn hturn).resolve_left fun hsame => ?_
        exact ne_append_singleton _ _ (hsame.symm.trans hpresenters)
  · intro hphase
    have hturn : Turn id race.coordinator (race.phase id)
        (race.coordinator.present id) (.ended .committed) := by
      rw [hphase]
      exact .present
    exact ⟨_, .turn hturn, BuildLog.presenters_append _ _⟩

/-- A build that has not finished may go on just when nobody has called it off
and the one that replaced it, if there is one, has yet to tell it to stop. -/
theorem IsOrderly.current_iff (horderly : race.IsOrderly)
    (hunfinished : race.phase id ≠ .finished) :
    race.coordinator.isCancelled id = false ↔
      id ∉ race.calledOff ∧ ∀ successor, race.IsReplacedBy id successor →
        race.phase successor = .registered (some id) := by
  rw [Coordinator.isCancelled_eq_false_iff]
  constructor
  · intro hcurrent
    refine ⟨fun hcalled => hcurrent (horderly.calledOff hcalled), ?_⟩
    intro successor hreplaced
    exact ((horderly.replaced hreplaced).resolve_left hunfinished).resolve_left
      hcurrent
  · rintro ⟨hcalled, hwaiting⟩ hcancelled
    obtain ⟨successor, hreplaced, hsuperseded⟩ :=
      (horderly.cancelled hcancelled).resolve_left hcalled
    rw [hwaiting successor hreplaced] at hsuperseded
    cases hsuperseded

theorem IsOrderly.hasSuperseded_of_committed (horderly : race.IsOrderly)
    (hcommitted : id ∈ committers race.coordinator.events) :
    (race.phase id).hasSuperseded = true := by
  obtain ⟨event, hevent, hcommitter⟩ := List.mem_filterMap.mp hcommitted
  obtain ⟨snapshot, rfl⟩ :=
    BuildEvent.committer?_eq_some_iff.mp hcommitter
  exact horderly.noted _ hevent

/-- A build overwrites what one that registered later has committed just when a
third one stands between them that has replaced it and not told it to stop. -/
theorem Reached.commitsBehind_iff (hreached : Reached seed movers race) :
    race.CommitsBehind id other ↔
      (∃ next, race.phase id = .merged next) ∧ id ∉ race.calledOff ∧
        race.RegisteredBefore id other ∧
        other ∈ committers race.coordinator.events ∧
        ∃ successor, successor ≠ other ∧ race.IsReplacedBy id successor ∧
          race.phase successor = .registered (some id) := by
  have horderly := hreached.isOrderly
  constructor
  · rintro ⟨hcommits, hbefore, hcommitted⟩
    obtain ⟨next, hphase, hcurrent⟩ := commits_iff.mp hcommits
    have hunfinished : race.phase id ≠ .finished := by
      rw [hphase]
      nofun
    obtain ⟨hcalled, hwaiting⟩ :=
      (horderly.current_iff hunfinished).mp hcurrent
    obtain ⟨successor, hreplaced⟩ := exists_adjacent hbefore
    have hregistered := hwaiting successor hreplaced
    refine ⟨⟨next, hphase⟩, hcalled, hbefore, hcommitted, successor, ?_,
      hreplaced, hregistered⟩
    rintro rfl
    have hsuperseded := horderly.hasSuperseded_of_committed hcommitted
    rw [hregistered] at hsuperseded
    cases hsuperseded
  · rintro ⟨⟨next, hphase⟩, hcalled, hbefore, hcommitted, successor, _,
      hreplaced, hregistered⟩
    have hunfinished : race.phase id ≠ .finished := by
      rw [hphase]
      nofun
    refine ⟨commits_iff.mpr ⟨next, hphase, ?_⟩, hbefore, hcommitted⟩
    refine (horderly.current_iff hunfinished).mpr ⟨hcalled, ?_⟩
    intro successor' hreplaced'
    rw [adjacent_unique horderly.distinct hreplaced' hreplaced]
    exact hregistered

end Race

/-! The second of three builds has replaced the first one and is held up before
it tells it to stop.  The third one enumerates a unit and commits; the first one
had found none. -/

namespace Sample

open Race

def emptyRound : Round := ⟨∅, [], []⟩

def firstUnitRound : Round :=
  ⟨KeyedSet.ofList [firstUnit], [⟨firstUnit, ⟨1⟩⟩],
    [⟨firstUnit, .ok ⟨[], []⟩⟩]⟩

theorem emptyRound_fits : emptyRound.Fits .initial := ⟨rfl, rfl⟩

theorem firstUnitRound_fits : firstUnitRound.Fits .initial :=
  ⟨by decide +kernel, by decide +kernel⟩

def overtakingMovers : List (Option BuildId) :=
  [none, some 1, some 1, some 1, some 1, some 1, none, some 2, none, some 3,
    some 3, some 3, some 3, some 3, some 3]

theorem exists_overtaking :
    ∃ race, Reached .initial overtakingMovers race ∧
      race.registered = [1, 2, 3] ∧
      committers race.coordinator.events = [3] ∧
      race.coordinator.snapshot.versions.entries = [⟨firstUnit, ⟨1⟩⟩] ∧
      race.coordinator.isCancelled 1 = false ∧
      race.phase 1 = .merged (emptyRound.merged .initial).snapshot := by
  have hmerged := ((@Reached.start .initial).step .draw).step
    (@Step.register _ 1 rfl) |>.step (@Step.turn _ 1 _ _ .supersede)
    |>.step (@Step.turn _ 1 _ _ .markRunning)
    |>.step (@Step.turn _ 1 _ _ .readBaseline)
    |>.step (@Step.turn _ 1 _ _ (.merge emptyRound emptyRound_fits rfl))
  have hreplaced := (hmerged.step .draw).step (@Step.register _ 2 rfl)
  have hovertaking := (hreplaced.step .draw).step (@Step.register _ 3 rfl)
    |>.step (@Step.turn _ 3 _ _ .supersede)
    |>.step (@Step.turn _ 3 _ _ .markRunning)
    |>.step (@Step.turn _ 3 _ _ .readBaseline)
    |>.step (@Step.turn _ 3 _ _
      (.merge firstUnitRound firstUnitRound_fits rfl))
    |>.step (@Step.turn _ 3 _ _ (.commit rfl))
  exact ⟨_, hovertaking, rfl, rfl, by decide +kernel, rfl, rfl⟩

theorem before_overtaking {race : Race} (hregistered : race.registered = [1, 2, 3]) :
    race.RegisteredBefore 1 3 := by
  rw [RegisteredBefore, hregistered]
  decide

theorem overtaking_commitsBehind_iff :
    ∃ race, Reached .initial overtakingMovers race ∧
      race.CommitsBehind 1 3 ∧
      (race.CommitsBehind 1 3 ↔
        (∃ next, race.phase 1 = .merged next) ∧ 1 ∉ race.calledOff ∧
          race.RegisteredBefore 1 3 ∧
          3 ∈ committers race.coordinator.events ∧
          ∃ successor, successor ≠ 3 ∧ race.IsReplacedBy 1 successor ∧
            race.phase successor = .registered (some 1)) := by
  obtain ⟨race, hreached, hregistered, hcommitters, _, hcurrent, hphase⟩ :=
    exists_overtaking
  refine ⟨race, hreached, ⟨?_, before_overtaking hregistered, ?_⟩,
    hreached.commitsBehind_iff⟩
  · exact commits_iff.mpr ⟨_, hphase, hcurrent⟩
  · rw [hcommitters]
    decide

/-- The first build commits behind the third one, and what that had committed is
gone. -/
theorem overtaking_overwrites :
    ∃ race last, Reached .initial overtakingMovers race ∧
      race.RegisteredBefore 1 3 ∧
      race.coordinator.snapshot.versions.entries = [⟨firstUnit, ⟨1⟩⟩] ∧
      race.Step (some 1) last ∧
      committers last.coordinator.events = [3, 1] ∧
      last.coordinator.snapshot.versions.entries = [] := by
  obtain ⟨race, hreached, hregistered, hcommitters, hversions, hcurrent,
    hphase⟩ := exists_overtaking
  have hturn : Turn 1 race.coordinator (race.phase 1)
      (race.coordinator.committing 1 ((emptyRound.merged
        .initial).snapshot.succeeding race.coordinator.snapshot))
      .committed := by
    rw [hphase]
    exact .commit (Coordinator.commit?_of_current hcurrent _)
  refine ⟨race, _, hreached, before_overtaking hregistered, hversions,
    .turn hturn, ?_, rfl⟩
  refine (BuildLog.committers_append _ _).trans ?_
  rw [hcommitters]
  rfl

end Sample

namespace Race

variable {race before checked : Race} {id other : BuildId} {seed : Snapshot}
  {movers : List (Option BuildId)}

/-- What other builds do while a build waits. -/
inductive Meanwhile (id : BuildId) (race : Race) : Race → Prop where
  | refl : Meanwhile id race race
  | step {middle last : Race} {mover : Option BuildId}
      (meanwhile : Meanwhile id race middle) (hmover : mover ≠ some id)
      (step : middle.Step mover last) : Meanwhile id race last

theorem IsOrderly.phase_of_step (horderly : race.IsOrderly) {next : Race}
    {mover : Option BuildId} (hstep : race.Step mover next)
    (hmover : mover ≠ some id) (hknown : race.phase id ≠ .unknown) :
    next.phase id = race.phase id := by
  cases hstep with
  | draw =>
      refine phase_moveTo_of_ne fun heq => hknown ?_
      exact horderly.unknown (Nat.le_of_eq heq.symm)
  | register | turn =>
      refine phase_moveTo_of_ne ?_
      rintro rfl
      exact hmover rfl
  | cancelRunning => rfl

theorem IsOrderly.phase_of_meanwhile (horderly : race.IsOrderly) {last : Race}
    (hmeanwhile : race.Meanwhile id last) (hknown : race.phase id ≠ .unknown) :
    last.IsOrderly ∧ last.phase id = race.phase id := by
  induction hmeanwhile with
  | refl => exact ⟨horderly, rfl⟩
  | step _ hmover hstep ih =>
      obtain ⟨hmiddle, hphase⟩ := ih
      refine ⟨hmiddle.step hstep, ?_⟩
      rw [hmiddle.phase_of_step hstep hmover (hphase ▸ hknown), hphase]

theorem phase_of_check (hcommitted : before.phase id = .committed)
    (hcheck : before.Step (some id) checked)
    (hresolved : checked.phase id ≠ .ended .idle) :
    checked.phase id = .cleared ∧ before.coordinator.isCancelled id = false ∨
      checked.phase id = .ended .committed ∧
        before.coordinator.isCancelled id = true := by
  generalize hmover : some id = mover at hcheck
  cases hcheck with
  | draw => cases hmover
  | cancelRunning => cases hmover
  | register hnumbered =>
      obtain rfl := Option.some.inj hmover
      cases hcommitted.symm.trans hnumbered
  | turn hturn =>
      obtain rfl := Option.some.inj hmover
      rw [phase_moveTo_self] at hresolved ⊢
      rw [hcommitted] at hturn
      cases hturn with
      | unresolved => exact absurd rfl hresolved
      | clear hcurrent =>
          exact Or.inl ⟨rfl, by simpa [Coordinator.mayPresent] using hcurrent⟩
      | withhold hcancelled =>
          exact Or.inr ⟨rfl, by simpa [Coordinator.mayPresent] using hcancelled⟩

/-- A build hands over its graph behind that of one that registered later just
when nobody had told it to stop before its check, whatever happened between the
check and now: the one that replaced it, if it had registered by then, had yet
to do so. -/
theorem Reached.presentsBehind_iff (hreached : Reached seed movers before)
    (hcommitted : before.phase id = .committed)
    (hcheck : before.Step (some id) checked)
    (hresolved : checked.phase id ≠ .ended .idle)
    (hmeanwhile : checked.Meanwhile id race) :
    race.PresentsBehind id other ↔
      (id ∉ before.calledOff ∧ ∀ successor, before.IsReplacedBy id successor →
        before.phase successor = .registered (some id)) ∧
      race.RegisteredBefore id other ∧
      other ∈ presenters race.coordinator.events := by
  have horderly := hreached.isOrderly
  have hunfinished : before.phase id ≠ .finished := by
    rw [hcommitted]
    nofun
  have hchecked := phase_of_check hcommitted hcheck hresolved
  have hknown : checked.phase id ≠ .unknown := by
    rcases hchecked with ⟨hphase, _⟩ | ⟨hphase, _⟩ <;> rw [hphase] <;> nofun
  obtain ⟨_, hphase⟩ :=
    (horderly.step hcheck).phase_of_meanwhile hmeanwhile hknown
  have hpresents : race.Presents id ↔
      before.coordinator.isCancelled id = false := by
    rw [presents_iff, hphase]
    rcases hchecked with ⟨hphase, hcurrent⟩ | ⟨hphase, hcancelled⟩
    · exact iff_of_true hphase hcurrent
    · refine iff_of_false (fun hcleared => ?_) fun hcurrent => ?_
      · cases hphase.symm.trans hcleared
      · cases hcancelled.symm.trans hcurrent
  rw [← horderly.current_iff hunfinished, ← hpresents]
  exact ⟨fun hbehind => ⟨hbehind.presents, hbehind.before, hbehind.presented⟩,
    fun ⟨hpresents, hbefore, hpresented⟩ => ⟨hpresents, hbefore, hpresented⟩⟩

end Race

/-! The second build goes through all of its life while the first one, which has
made its check, is about to present. -/

namespace Sample

open Race

def checkingMovers : List (Option BuildId) :=
  [none, some 1, some 1, some 1, some 1, some 1, some 1]

theorem exists_passing :
    ∃ before checked race, Reached .initial checkingMovers before ∧
      before.phase 1 = .committed ∧ before.Step (some 1) checked ∧
      checked.phase 1 = .cleared ∧ checked.Meanwhile 1 race ∧
      race.phase 1 = .cleared ∧ race.registered = [1, 2] ∧
      presenters race.coordinator.events = [2] := by
  have hcommitted := ((@Reached.start .initial).step .draw).step
    (@Step.register _ 1 rfl) |>.step (@Step.turn _ 1 _ _ .supersede)
    |>.step (@Step.turn _ 1 _ _ .markRunning)
    |>.step (@Step.turn _ 1 _ _ .readBaseline)
    |>.step (@Step.turn _ 1 _ _ (.merge emptyRound emptyRound_fits rfl))
    |>.step (@Step.turn _ 1 _ _ (.commit rfl))
  have hother : some 2 ≠ some 1 := by decide
  refine ⟨_, _, _, hcommitted, rfl, @Step.turn _ 1 _ _ (.clear rfl), rfl,
    (@Meanwhile.step 1 _ _ _ none .refl nofun .draw).step hother
      (@Step.register _ 2 rfl)
    |>.step hother (@Step.turn _ 2 _ _ .supersede)
    |>.step hother (@Step.turn _ 2 _ _ .markRunning)
    |>.step hother (@Step.turn _ 2 _ _ .readBaseline)
    |>.step hother (@Step.turn _ 2 _ _ (.merge emptyRound ⟨rfl, rfl⟩ rfl))
    |>.step hother (@Step.turn _ 2 _ _ (.commit rfl))
    |>.step hother (@Step.turn _ 2 _ _ (.clear rfl))
    |>.step hother (@Step.turn _ 2 _ _ .present), rfl, rfl, rfl⟩

theorem before_passing {race : Race} (hregistered : race.registered = [1, 2]) :
    race.RegisteredBefore 1 2 := by
  simp [RegisteredBefore, hregistered]

theorem passing_presentsBehind_iff :
    ∃ before checked race : Race, Reached .initial checkingMovers before ∧
      before.phase 1 = .committed ∧ before.Step (some 1) checked ∧
      checked.phase 1 ≠ .ended .idle ∧ checked.Meanwhile 1 race ∧
      race.PresentsBehind 1 2 ∧
      (race.PresentsBehind 1 2 ↔
        (1 ∉ before.calledOff ∧ ∀ successor, before.IsReplacedBy 1 successor →
          before.phase successor = .registered (some 1)) ∧
        race.RegisteredBefore 1 2 ∧
        2 ∈ presenters race.coordinator.events) := by
  obtain ⟨before, checked, race, hreached, hcommitted, hcheck, hcleared,
    hmeanwhile, hphase, hregistered, hpresenters⟩ := exists_passing
  have hresolved : checked.phase 1 ≠ .ended .idle := by
    rw [hcleared]
    nofun
  refine ⟨before, checked, race, hreached, hcommitted, hcheck, hresolved,
    hmeanwhile, ⟨presents_iff.mpr hphase, before_passing hregistered, ?_⟩,
    hreached.presentsBehind_iff hcommitted hcheck hresolved hmeanwhile⟩
  rw [hpresenters]
  decide

/-- The graph of the first build comes after that of the second one. -/
theorem passing_presents_late :
    ∃ before checked race last, Reached .initial checkingMovers before ∧
      before.Step (some 1) checked ∧ checked.Meanwhile 1 race ∧
      race.Step (some 1) last ∧ last.RegisteredBefore 1 2 ∧
      presenters last.coordinator.events = [2, 1] := by
  obtain ⟨before, checked, race, hreached, _, hcheck, _, hmeanwhile, hphase,
    hregistered, hpresenters⟩ := exists_passing
  have hturn : Turn 1 race.coordinator (race.phase 1)
      (race.coordinator.present 1) (.ended .committed) := by
    rw [hphase]
    exact .present
  refine ⟨before, checked, race, _, hreached, hcheck, hmeanwhile, .turn hturn,
    before_passing hregistered, ?_⟩
  refine (BuildLog.presenters_append _ _).trans ?_
  rw [hpresenters]
  rfl

end Sample

end CallGraph
