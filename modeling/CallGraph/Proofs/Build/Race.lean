import CallGraph.Proofs.Build.Turns

namespace CallGraph

namespace Coordinator

variable {coordinator committed : Coordinator} {id : BuildId} {next : Snapshot}

theorem isCancelled_eq_false_iff :
    coordinator.isCancelled id = false ↔ id ∉ coordinator.cancelled := by
  simp [isCancelled]

theorem commit?_eq_some_iff :
    coordinator.commit? id next = some committed ↔
      coordinator.isCancelled id = false ∧
        coordinator.committing id (next.succeeding coordinator.snapshot) =
          committed := by
  cases hcancelled : coordinator.isCancelled id with
  | true => simp [commit?, SnapshotStore.commit?, hcancelled]
  | false => simp [commit?_of_current hcancelled]

end Coordinator

/-! Builds that run at the same time, each on a thread of its own.  They share
one coordinator, and each access to it is a step by itself: between two steps of
a build any number of others may take theirs. -/

/-- How far a build has come. -/
inductive Phase where
  | unknown
  | numbered
  | registered (replaced : Option BuildId)
  | superseding
  | running
  | reading (baseline : Snapshot)
  | merged (next : Snapshot)
  | committed
  | cleared
  | ended (state : BuildState)
  | finished

namespace Phase

def hasRegistered : Phase → Bool
  | unknown | numbered => false
  | _ => true

def hasSuperseded : Phase → Bool
  | unknown | numbered | registered _ => false
  | _ => true

/-- Two phases that count the same for whoever registers before or after, as
long as the build has not finished. -/
structure Alike (first second : Phase) : Prop where
  hasRegistered : first.hasRegistered = second.hasRegistered
  hasSuperseded : first.hasSuperseded = second.hasSuperseded
  registered : ∀ replaced,
    first = .registered replaced ↔ second = .registered replaced

theorem Alike.refl (phase : Phase) : phase.Alike phase :=
  ⟨rfl, rfl, fun _ => Iff.rfl⟩

theorem Alike.of_superseded {first second : Phase}
    (hfirst : first.hasSuperseded = true)
    (hsecond : second.hasSuperseded = true) : first.Alike second where
  hasRegistered := by cases first <;> cases second <;> trivial
  hasSuperseded := hfirst.trans hsecond.symm
  registered replaced :=
    iff_of_false (fun heq => by rw [heq] at hfirst; cases hfirst)
      fun heq => by rw [heq] at hsecond; cases hsecond

end Phase

/-- One step of a build that has registered: the coordinator before it, and
after it.  What its host answers is not known beforehand, and at two places the
host may fail. -/
inductive Turn (id : BuildId) (coordinator : Coordinator) :
    Phase → Coordinator → Phase → Prop where
  | supersede {replaced : Option BuildId} :
      Turn id coordinator (.registered replaced)
        (coordinator.cancelReplaced replaced) .superseding
  | markRunning :
      Turn id coordinator .superseding
        (coordinator.markRunning.note (.began id)) .running
  | readBaseline :
      Turn id coordinator .running coordinator (.reading coordinator.snapshot)
  | fail {baseline : Snapshot} :
      Turn id coordinator (.reading baseline) coordinator (.ended .idle)
  | stop {baseline : Snapshot} (cancelled : coordinator.isCancelled id = true) :
      Turn id coordinator (.reading baseline) coordinator (.ended .cancelled)
  | merge {baseline : Snapshot} (round : Round) (fits : round.Fits baseline)
      (current : coordinator.isCancelled id = false) :
      Turn id coordinator (.reading baseline) coordinator
        (.merged (round.merged baseline).snapshot)
  | commit {next : Snapshot} {committed : Coordinator}
      (accepted : coordinator.commit? id next = some committed) :
      Turn id coordinator (.merged next) committed .committed
  | refuse {next : Snapshot} (refused : coordinator.commit? id next = none) :
      Turn id coordinator (.merged next) coordinator (.ended .cancelled)
  | unresolved :
      Turn id coordinator .committed coordinator (.ended .idle)
  | clear (current : coordinator.mayPresent id = true) :
      Turn id coordinator .committed coordinator .cleared
  | withhold (cancelled : coordinator.mayPresent id = false) :
      Turn id coordinator .committed coordinator (.ended .committed)
  | present :
      Turn id coordinator .cleared (coordinator.present id) (.ended .committed)
  | finish {state : BuildState} :
      Turn id coordinator (.ended state) (coordinator.finish id state) .finished

/-- The coordinator with the builds that share it.  Beside it are recorded the
order in which they registered and those that were told to stop from outside. -/
structure Race where
  coordinator : Coordinator
  phase : BuildId → Phase
  registered : List BuildId
  calledOff : List BuildId

namespace Race

def start (seed : Snapshot) : Race :=
  ⟨.startingFrom seed, fun _ => .unknown, [], []⟩

def withCoordinator (race : Race) (coordinator : Coordinator) : Race :=
  { race with coordinator := coordinator }

def moveTo (race : Race) (id : BuildId) (phase : Phase) : Race :=
  { race with phase := fun other => if other = id then phase else race.phase other }

/-- One step of the build `mover`, or of somebody else. -/
inductive Step (race : Race) : Option BuildId → Race → Prop where
  | draw :
      Step race none
        ((race.withCoordinator race.coordinator.drawId.2).moveTo
          race.coordinator.drawId.1 .numbered)
  | register {id : BuildId} (numbered : race.phase id = .numbered) :
      Step race (some id)
        ({ race with
            coordinator := (race.coordinator.register id).2
            registered := race.registered ++ [id] }.moveTo id
          (.registered (race.coordinator.register id).1))
  | turn {id : BuildId} {coordinator : Coordinator} {phase : Phase}
      (turn : Turn id race.coordinator (race.phase id) coordinator phase) :
      Step race (some id) ((race.withCoordinator coordinator).moveTo id phase)
  | cancelRunning :
      Step race none
        { race with
          coordinator := race.coordinator.cancelRunning
          calledOff := race.coordinator.inFlight.toList ++ race.calledOff }

/-- What comes about by steps of any builds in any order.  The movers are listed
in the order in which they took their steps. -/
inductive Reached (seed : Snapshot) : List (Option BuildId) → Race → Prop where
  | start : Reached seed [] (start seed)
  | step {movers : List (Option BuildId)} {mover : Option BuildId}
      {race next : Race} (reached : Reached seed movers race)
      (step : race.Step mover next) : Reached seed (movers ++ [mover]) next

def RegisteredBefore (race : Race) (first second : BuildId) : Prop :=
  [first, second].Sublist race.registered

def IsReplacedBy (race : Race) (first second : BuildId) : Prop :=
  [first, second] <:+: race.registered

section Adjacent

variable {α : Type} {items : List α} {first second third last : α}

theorem exists_adjacent (hbefore : [first, third].Sublist items) :
    ∃ second, [first, second] <:+: items := by
  induction items with
  | nil => cases hbefore
  | cons item rest ih =>
      rcases List.sublist_cons_iff.mp hbefore with hrest | ⟨more, heq, hmore⟩
      · obtain ⟨second, hsecond⟩ := ih hrest
        exact ⟨second, hsecond.trans (List.suffix_cons item rest).isInfix⟩
      · obtain ⟨rfl, rfl⟩ := List.cons.inj heq
        cases rest with
        | nil => cases hmore
        | cons second rest =>
            exact ⟨second, ⟨[], rest, rfl⟩⟩

theorem adjacent_unique (hdistinct : items.Nodup)
    (hsecond : [first, second] <:+: items)
    (hthird : [first, third] <:+: items) : second = third := by
  induction items with
  | nil => cases List.infix_nil.mp hsecond
  | cons item rest ih =>
      obtain ⟨hnot, hrest⟩ := List.nodup_cons.mp hdistinct
      have hmem : ∀ {next}, [first, next] <:+: rest → first ∈ rest :=
        fun hnext => hnext.subset List.mem_cons_self
      rcases List.infix_cons_iff.mp hsecond with hsecond | hsecond <;>
        rcases List.infix_cons_iff.mp hthird with hthird | hthird
      · obtain ⟨_, hsecond⟩ := List.cons_prefix_cons.mp hsecond
        obtain ⟨_, hthird⟩ := List.cons_prefix_cons.mp hthird
        exact List.cons.inj
          ((List.prefix_of_prefix_length_le hsecond hthird (Nat.le_refl _)
            ).eq_of_length rfl) |>.1
      · exact absurd ((List.cons_prefix_cons.mp hsecond).1 ▸ hmem hthird) hnot
      · exact absurd ((List.cons_prefix_cons.mp hthird).1 ▸ hmem hsecond) hnot
      · exact ih hrest hsecond hthird

theorem adjacent_concat_iff :
    [first, second] <:+: items ++ [last] ↔
      [first, second] <:+: items ∨
        second = last ∧ items.getLast? = some first := by
  rw [List.infix_concat_iff, or_comm]
  refine or_congr_right ?_
  rw [List.suffix_concat_iff]
  constructor
  · rintro (hnil | ⟨front, heq, hfront⟩)
    · cases hnil
    · have hparts : [first] ++ [second] = front ++ [last] := heq
      obtain ⟨rfl, hlast⟩ := List.append_inj' hparts rfl
      obtain ⟨more, rfl⟩ := hfront
      exact ⟨List.singleton_inj.mp hlast, by simp⟩
  · rintro ⟨rfl, hlast⟩
    obtain ⟨more, rfl⟩ := List.getLast?_eq_some_iff.mp hlast
    exact Or.inr ⟨[first], rfl, ⟨more, rfl⟩⟩

end Adjacent

section Moves

variable {race : Race} {id other : BuildId} {phase : Phase}

@[simp] theorem phase_moveTo_self : (race.moveTo id phase).phase id = phase :=
  if_pos rfl

theorem phase_moveTo_of_ne (hother : other ≠ id) :
    (race.moveTo id phase).phase other = race.phase other :=
  if_neg hother

theorem phase_moveTo_of_phase {held : Phase} (hid : race.phase id ≠ held)
    (hother : race.phase other = held) :
    (race.moveTo id phase).phase other = held := by
  rw [phase_moveTo_of_ne, hother]
  rintro rfl
  exact hid hother

theorem hasSuperseded_moveTo (hid : (race.phase id).hasSuperseded = false)
    (hother : (race.phase other).hasSuperseded = true) :
    ((race.moveTo id phase).phase other).hasSuperseded = true := by
  rw [phase_moveTo_of_ne, hother]
  rintro rfl
  exact Bool.false_ne_true (hid.symm.trans hother)

theorem moveTo_alike (halike : phase.Alike (race.phase id)) (other : BuildId) :
    ((race.moveTo id phase).phase other).Alike (race.phase other) := by
  by_cases hother : other = id
  · rw [hother, phase_moveTo_self]
    exact halike
  · rw [phase_moveTo_of_ne hother]
    exact .refl _

end Moves

/-- What holds between any two steps.  Of two builds that registered one behind
the other, the first one has finished or has been told to stop, or the second
one has yet to tell it. -/
structure IsOrderly (race : Race) : Prop where
  unknown : ∀ {id}, race.coordinator.nextId ≤ id → race.phase id = .unknown
  registered : ∀ {id},
    id ∈ race.registered ↔ (race.phase id).hasRegistered = true
  distinct : race.registered.Nodup
  inFlight : ∀ {id}, race.coordinator.inFlight = some id ↔
    race.registered.getLast? = some id ∧ race.phase id ≠ .finished
  replaces : ∀ {id other}, race.phase id = .registered (some other) →
    race.IsReplacedBy other id
  replaced : ∀ {id successor}, race.IsReplacedBy id successor →
    race.phase id = .finished ∨ id ∈ race.coordinator.cancelled ∨
      race.phase successor = .registered (some id)
  calledOff : ∀ {id}, id ∈ race.calledOff → id ∈ race.coordinator.cancelled
  cancelled : ∀ {id}, id ∈ race.coordinator.cancelled →
    id ∈ race.calledOff ∨ ∃ successor, race.IsReplacedBy id successor ∧
      (race.phase successor).hasSuperseded = true
  noted : ∀ event ∈ race.coordinator.events,
    (race.phase event.build).hasSuperseded = true

namespace IsOrderly

variable {race : Race} {id : BuildId} {coordinator : Coordinator}
  {phase : Phase}

theorem start (seed : Snapshot) : (Race.start seed).IsOrderly where
  unknown _ := rfl
  registered := by simp [Race.start, Phase.hasRegistered]
  distinct := List.nodup_nil
  inFlight := by simp [Race.start, Coordinator.startingFrom]
  replaces hphase := by cases hphase
  replaced hreplaced := by cases List.infix_nil.mp hreplaced
  calledOff hmem := by cases hmem
  cancelled hmem := by cases hmem
  noted _ hmem := by cases hmem

theorem moved (horderly : race.IsOrderly) (halike : phase.Alike (race.phase id))
    (hunfinished : race.phase id ≠ .finished)
    (hunknown : ∀ other, coordinator.nextId ≤ other →
      race.coordinator.nextId ≤ other ∧ other ≠ id)
    (hinFlight : ∀ {other}, coordinator.inFlight = some other ↔
      race.registered.getLast? = some other ∧
        (race.moveTo id phase).phase other ≠ .finished)
    (hcancelled : coordinator.cancelled = race.coordinator.cancelled)
    (hevents : ∀ event ∈ coordinator.events, event ∈ race.coordinator.events ∨
      event.build = id ∧ phase.hasSuperseded = true) :
    ((race.withCoordinator coordinator).moveTo id phase).IsOrderly := by
  have hphase : ∀ other, (((race.withCoordinator coordinator).moveTo id
      phase).phase other).Alike (race.phase other) := moveTo_alike halike
  constructor
  · intro other hother
    obtain ⟨hknown, hne⟩ := hunknown other hother
    rw [phase_moveTo_of_ne hne]
    exact horderly.unknown hknown
  · intro other
    rw [(hphase other).hasRegistered]
    exact horderly.registered
  · exact horderly.distinct
  · exact hinFlight
  · intro other replaced hregistered
    exact horderly.replaces (((hphase other).registered _).mp hregistered)
  · intro other successor hreplaced
    rw [(hphase successor).registered]
    change _ ∨ other ∈ coordinator.cancelled ∨ _
    rw [hcancelled]
    refine (horderly.replaced hreplaced).imp_left fun hfinished => ?_
    have hne : other ≠ id := by
      rintro rfl
      exact hunfinished hfinished
    rw [phase_moveTo_of_ne hne]
    exact hfinished
  · intro other hother
    change other ∈ coordinator.cancelled
    rw [hcancelled]
    exact horderly.calledOff hother
  · intro other hother
    simp only [(hphase _).hasSuperseded]
    refine horderly.cancelled ?_
    rw [← hcancelled]
    exact hother
  · intro event hevent
    rw [(hphase _).hasSuperseded]
    rcases hevents event hevent with hevent | ⟨rfl, hsuperseded⟩
    · exact horderly.noted event hevent
    · exact halike.hasSuperseded.symm.trans hsuperseded

theorem inFlight_of_unfinished (horderly : race.IsOrderly)
    (hunfinished : race.phase id ≠ .finished) (hphase : phase ≠ .finished)
    {other : BuildId} :
    race.coordinator.inFlight = some other ↔
      race.registered.getLast? = some other ∧
        (race.moveTo id phase).phase other ≠ .finished := by
  refine horderly.inFlight.trans (and_congr_right' ?_)
  by_cases hother : other = id
  · rw [hother, phase_moveTo_self]
    exact iff_of_true hunfinished hphase
  · rw [phase_moveTo_of_ne hother]

theorem draw (horderly : race.IsOrderly) :
    ((race.withCoordinator race.coordinator.drawId.2).moveTo
      race.coordinator.drawId.1 .numbered).IsOrderly := by
  have hunknown : race.phase race.coordinator.drawId.1 = .unknown :=
    horderly.unknown (Nat.le_refl _)
  have hunfinished : race.phase race.coordinator.drawId.1 ≠ .finished := by
    rw [hunknown]
    nofun
  have hphase : Phase.numbered ≠ .finished := nofun
  refine horderly.moved ?_ hunfinished (fun other hother => ?_)
    (horderly.inFlight_of_unfinished hunfinished hphase) rfl
    fun _ hevent => Or.inl hevent
  · rw [hunknown]
    exact ⟨rfl, rfl, fun _ => by simp⟩
  · exact ⟨Nat.le_of_succ_le hother, Nat.ne_of_gt hother⟩

theorem advance (horderly : race.IsOrderly)
    (hbefore : (race.phase id).hasSuperseded = true)
    (hunfinished : race.phase id ≠ .finished)
    (hafter : phase.hasSuperseded = true)
    (hnextId : coordinator.nextId = race.coordinator.nextId)
    (hinFlight : ∀ {other}, coordinator.inFlight = some other ↔
      race.registered.getLast? = some other ∧
        (race.moveTo id phase).phase other ≠ .finished)
    (hcancelled : coordinator.cancelled = race.coordinator.cancelled)
    (hevents : ∀ event ∈ coordinator.events,
      event ∈ race.coordinator.events ∨ event.build = id) :
    ((race.withCoordinator coordinator).moveTo id phase).IsOrderly := by
  refine horderly.moved (.of_superseded hafter hbefore) hunfinished
    (fun other hother => ?_) hinFlight hcancelled
    fun event hevent => (hevents event hevent).imp_right fun hbuild =>
      ⟨hbuild, hafter⟩
  rw [hnextId] at hother
  refine ⟨hother, fun heq => ?_⟩
  rw [← heq, horderly.unknown hother] at hbefore
  cases hbefore

theorem register (horderly : race.IsOrderly)
    (hnumbered : race.phase id = .numbered) :
    ({ race with
        coordinator := (race.coordinator.register id).2
        registered := race.registered ++ [id] }.moveTo id
      (.registered (race.coordinator.register id).1)).IsOrderly := by
  have hnew : id ∉ race.registered := by
    rw [horderly.registered, hnumbered]
    exact Bool.false_ne_true
  have hphase : ∀ {other}, other ≠ id →
      ({ race with
          coordinator := (race.coordinator.register id).2
          registered := race.registered ++ [id] }.moveTo id
        (.registered (race.coordinator.register id).1)).phase other =
          race.phase other := phase_moveTo_of_ne
  have hold : ∀ {first second}, race.IsReplacedBy first second →
      first ≠ id ∧ second ≠ id := by
    intro first second hreplaced
    have hmem := hreplaced.subset
    exact ⟨fun heq => hnew (heq ▸ hmem List.mem_cons_self),
      fun heq => hnew (heq ▸ hmem (by simp))⟩
  have hlast : ∀ {other}, race.registered.getLast? = some other →
      other ≠ id := by
    rintro other hlast rfl
    exact hnew (List.mem_of_getLast? hlast)
  have hknown : race.phase id ≠ .unknown := by
    rw [hnumbered]
    nofun
  have hbefore : (race.phase id).hasSuperseded = false := by
    rw [hnumbered]
    rfl
  constructor
  · exact fun hother => phase_moveTo_of_phase hknown (horderly.unknown hother)
  · intro other
    change other ∈ race.registered ++ [id] ↔ _
    rw [List.mem_append, List.mem_singleton]
    by_cases hother : other = id
    · subst hother
      simp [Phase.hasRegistered]
    · rw [hphase hother, ← horderly.registered]
      exact or_iff_left hother
  · exact List.nodup_append.mpr ⟨horderly.distinct, by simp,
      fun first hfirst second hsecond heq =>
        hnew (List.mem_singleton.mp hsecond ▸ heq ▸ hfirst)⟩
  · intro other
    change some id = some other ↔
      (race.registered ++ [id]).getLast? = some other ∧ _
    rw [List.getLast?_concat]
    refine ⟨fun heq => ⟨heq, ?_⟩, And.left⟩
    rw [← Option.some.inj heq, phase_moveTo_self]
    nofun
  · intro other replaced hregistered
    by_cases hother : other = id
    · rw [hother, phase_moveTo_self] at hregistered
      have hslot : race.coordinator.inFlight = some replaced :=
        Phase.registered.inj hregistered
      rw [hother]
      exact adjacent_concat_iff.mpr
        (Or.inr ⟨rfl, (horderly.inFlight.mp hslot).1⟩)
    · rw [hphase hother] at hregistered
      exact adjacent_concat_iff.mpr (Or.inl (horderly.replaces hregistered))
  · intro other successor hreplaced
    rcases adjacent_concat_iff.mp hreplaced with hreplaced | ⟨rfl, hfirst⟩
    · obtain ⟨hne, hne'⟩ := hold hreplaced
      rw [hphase hne, hphase hne']
      exact horderly.replaced hreplaced
    · rw [phase_moveTo_self, hphase (hlast hfirst)]
      -- The one that registered last is in flight unless it has finished.
      by_cases hfinished : race.phase other = .finished
      · exact Or.inl hfinished
      · exact Or.inr (Or.inr (congrArg Phase.registered
          (horderly.inFlight.mpr ⟨hfirst, hfinished⟩)))
  · exact horderly.calledOff
  · intro other hother
    exact (horderly.cancelled hother).imp_right fun ⟨successor, hreplaced,
      hsuperseded⟩ => ⟨successor, adjacent_concat_iff.mpr (Or.inl hreplaced),
        hasSuperseded_moveTo hbefore hsuperseded⟩
  · exact fun event hevent =>
      hasSuperseded_moveTo hbefore (horderly.noted event hevent)

theorem supersede (horderly : race.IsOrderly) {replaced : Option BuildId}
    (hregistered : race.phase id = .registered replaced) :
    ((race.withCoordinator (race.coordinator.cancelReplaced replaced)).moveTo id
      .superseding).IsOrderly := by
  have hphase : ∀ {other}, other ≠ id →
      ((race.withCoordinator (race.coordinator.cancelReplaced
        replaced)).moveTo id .superseding).phase other = race.phase other :=
    phase_moveTo_of_ne
  have hknown : race.phase id ≠ .unknown := by
    rw [hregistered]
    nofun
  have hunfinished : race.phase id ≠ .finished := by
    rw [hregistered]
    nofun
  have hbefore : (race.phase id).hasSuperseded = false := by
    rw [hregistered]
    rfl
  rw [Coordinator.cancelReplaced_eq] at hphase ⊢
  constructor
  · exact fun hother => phase_moveTo_of_phase hknown (horderly.unknown hother)
  · intro other
    refine horderly.registered.trans ?_
    by_cases hother : other = id
    · rw [hother, phase_moveTo_self, hregistered]
      simp [Phase.hasRegistered]
    · rw [hphase hother]
  · exact horderly.distinct
  · intro other
    refine horderly.inFlight.trans (and_congr_right' ?_)
    by_cases hother : other = id
    · rw [hother, phase_moveTo_self, hregistered]
      simp
    · rw [hphase hother]
  · intro other former hformer
    by_cases hother : other = id
    · rw [hother, phase_moveTo_self] at hformer
      cases hformer
    · rw [hphase hother] at hformer
      exact horderly.replaces hformer
  · intro other successor hreplaced
    refine (horderly.replaced hreplaced).imp
      (phase_moveTo_of_phase hunfinished) ?_
    rintro (hcancelled | hwaiting)
    · exact Or.inl (List.mem_append_right _ hcancelled)
    · by_cases hsuccessor : successor = id
      · rw [hsuccessor, hregistered] at hwaiting
        rw [Phase.registered.inj hwaiting]
        exact Or.inl (List.mem_append_left _ (by simp))
      · rw [hphase hsuccessor]
        exact Or.inr hwaiting
  · exact fun hcalled => List.mem_append_right _ (horderly.calledOff hcalled)
  · intro other hother
    rcases List.mem_append.mp hother with hreplaced | hother
    · rw [Option.mem_toList.mp hreplaced] at hregistered
      refine Or.inr ⟨id, horderly.replaces hregistered, ?_⟩
      rw [phase_moveTo_self]
      rfl
    · exact (horderly.cancelled hother).imp_right fun ⟨successor, hreplaced,
        hsuperseded⟩ => ⟨successor, hreplaced,
          hasSuperseded_moveTo hbefore hsuperseded⟩
  · exact fun event hevent =>
      hasSuperseded_moveTo hbefore (horderly.noted event hevent)

theorem finish (horderly : race.IsOrderly) {state : BuildState}
    (hended : race.phase id = .ended state) :
    ((race.withCoordinator (race.coordinator.finish id state)).moveTo id
      .finished).IsOrderly := by
  have hbefore : (race.phase id).hasSuperseded = true := by
    rw [hended]
    rfl
  have hunfinished : race.phase id ≠ .finished := by
    rw [hended]
    nofun
  have hlast : race.coordinator.inFlight = some id ↔
      race.registered.getLast? = some id := by
    rw [horderly.inFlight]
    exact and_iff_left hunfinished
  by_cases hslot : race.coordinator.inFlight = some id
  · have hfinish : race.coordinator.finish id state =
        { race.coordinator with inFlight := none, state := state }.note
          (.finished id state) := by
      simp [Coordinator.finish, hslot]
    rw [hfinish]
    refine horderly.advance hbefore hunfinished rfl rfl ?_ rfl ?_
    · intro other
      refine iff_of_false nofun fun ⟨hother, hphase⟩ => hphase ?_
      rw [← Option.some.inj ((hlast.mp hslot).symm.trans hother),
        phase_moveTo_self]
    · intro event hevent
      refine (List.mem_append.mp hevent).imp_right fun hnoted => ?_
      rw [List.mem_singleton.mp hnoted]
      rfl
  · have hfinish : race.coordinator.finish id state = race.coordinator := by
      simp [Coordinator.finish, hslot]
    rw [hfinish]
    refine horderly.advance hbefore hunfinished rfl rfl ?_ rfl
      fun _ hevent => Or.inl hevent
    intro other
    refine horderly.inFlight.trans (and_congr_right fun hother => ?_)
    rw [phase_moveTo_of_ne]
    rintro rfl
    exact hslot (hlast.mpr hother)

theorem cancelRunning (horderly : race.IsOrderly) :
    ({ race with
        coordinator := race.coordinator.cancelRunning
        calledOff := race.coordinator.inFlight.toList ++ race.calledOff } :
      Race).IsOrderly := by
  rw [Coordinator.cancelRunning, Coordinator.cancelReplaced_eq]
  refine ⟨horderly.unknown, horderly.registered, horderly.distinct,
    horderly.inFlight, horderly.replaces, fun hreplaced => ?_, fun hcalled => ?_,
    fun hcancelled => ?_, horderly.noted⟩
  · exact (horderly.replaced hreplaced).imp_right
      (Or.imp_left (List.mem_append_right _))
  · exact List.mem_append.mpr
      ((List.mem_append.mp hcalled).imp_right horderly.calledOff)
  · rcases List.mem_append.mp hcancelled with hrunning | hcancelled
    · exact Or.inl (List.mem_append_left _ hrunning)
    · exact (horderly.cancelled hcancelled).imp_left
        (List.mem_append_right _)

theorem turn (horderly : race.IsOrderly)
    (hturn : Turn id race.coordinator (race.phase id) coordinator phase) :
    ((race.withCoordinator coordinator).moveTo id phase).IsOrderly := by
  -- The steps of a build that goes on alone and leaves a note at most.
  have hadvance : (race.phase id).hasSuperseded = true →
      race.phase id ≠ .finished → phase.hasSuperseded = true →
      phase ≠ .finished → coordinator.nextId = race.coordinator.nextId →
      coordinator.inFlight = race.coordinator.inFlight →
      coordinator.cancelled = race.coordinator.cancelled →
      (∀ event ∈ coordinator.events,
        event ∈ race.coordinator.events ∨ event.build = id) →
      ((race.withCoordinator coordinator).moveTo id phase).IsOrderly := by
    intro hbefore hunfinished hafter hphase hnextId hinFlight hcancelled hevents
    refine horderly.advance hbefore hunfinished hafter hnextId ?_ hcancelled
      hevents
    rw [hinFlight]
    exact horderly.inFlight_of_unfinished hunfinished hphase
  have hnoted : ∀ {event : BuildEvent} {events : List BuildEvent},
      event.build = id → ∀ other ∈ events ++ [event],
        other ∈ events ∨ other.build = id := by
    intro event events hbuild other hother
    refine (List.mem_append.mp hother).imp_right fun hlast => ?_
    rw [List.mem_singleton.mp hlast, hbuild]
  generalize hbefore : race.phase id = before at hturn hadvance
  cases hturn with
  | supersede => exact horderly.supersede hbefore
  | finish => exact horderly.finish hbefore
  | markRunning =>
      exact hadvance rfl nofun rfl nofun rfl rfl rfl (hnoted rfl)
  | commit haccepted =>
      obtain ⟨_, rfl⟩ := Coordinator.commit?_eq_some_iff.mp haccepted
      exact hadvance rfl nofun rfl nofun rfl rfl rfl (hnoted rfl)
  | present => exact hadvance rfl nofun rfl nofun rfl rfl rfl (hnoted rfl)
  | _ =>
      exact hadvance rfl nofun rfl nofun rfl rfl rfl fun _ hevent =>
        Or.inl hevent

theorem step (horderly : race.IsOrderly) {mover : Option BuildId} {next : Race}
    (hstep : race.Step mover next) : next.IsOrderly := by
  cases hstep with
  | draw => exact horderly.draw
  | register hnumbered => exact horderly.register hnumbered
  | turn hturn => exact horderly.turn hturn
  | cancelRunning => exact horderly.cancelRunning

end IsOrderly

theorem Reached.isOrderly {seed : Snapshot} {movers : List (Option BuildId)}
    {race : Race} (hreached : Reached seed movers race) : race.IsOrderly := by
  induction hreached with
  | start => exact .start seed
  | step _ hstep ih => exact ih.step hstep

end Race

end CallGraph
