import CallGraph.Proofs.Build.Conduct

namespace CallGraph

open BuildLog (latest record)

/-- Logs in which each commit closes a build that had its whole round against
the snapshot that was current, with nothing in between. -/
inductive Chronicle (Told : Round → Prop) (seed : Snapshot) :
    List BuildEvent → Prop where
  | nil : Chronicle Told seed []
  | note {log : List BuildEvent} {event : BuildEvent}
      (hlog : Chronicle Told seed log) (hevent : event.isCommit = false) :
      Chronicle Told seed (log ++ [event])
  | commit {log earlier : List BuildEvent} {id : BuildId} {round : Round}
      (hlog : Chronicle Told seed log)
      (hrecord : log = earlier ++ .began id :: round.record id)
      (hfresh : ∀ event ∈ earlier, event.build ≠ id)
      (hfits : round.Fits (latest seed log)) (htold : Told round) :
      Chronicle Told seed
        (log ++ [.committed id (round.snapshot (latest seed log))])

namespace Chronicle

variable {Told : Round → Prop} {seed : Snapshot}
  {log before after : List BuildEvent} {id : BuildId} {snapshot : Snapshot}

theorem exists_round (hlog : Chronicle Told seed log)
    (hsplit : log = before ++ .committed id snapshot :: after) :
    Chronicle Told seed before ∧
      ∃ earlier round, before = earlier ++ .began id :: round.record id ∧
        (∀ event ∈ earlier, event.build ≠ id) ∧
        round.Fits (latest seed before) ∧ Told round ∧
        snapshot = round.snapshot (latest seed before) := by
  induction hlog generalizing after with
  | nil => simp at hsplit
  | note hlog hevent ih =>
      rcases BuildLog.split_snoc hsplit with ⟨_, rfl⟩ | ⟨rest, hrest⟩
      · cases hevent
      · exact ih hrest
  | @commit log earlier _ round hlog hrecord hfresh hfits htold ih =>
      rcases BuildLog.split_snoc hsplit with ⟨rfl, hcommit⟩ | ⟨rest, hrest⟩
      · obtain ⟨rfl, rfl⟩ := BuildEvent.committed.inj hcommit
        exact ⟨hlog, earlier, round, hrecord, hfresh, hfits, htold, rfl⟩
      · exact ih hrest

/-- What every round keeps of its baseline, the current snapshot keeps of the
first one. -/
theorem latest_induction {P : Snapshot → Prop} (hseed : P seed)
    (hround : ∀ (round : Round) (baseline : Snapshot),
      round.Fits baseline → Told round → P baseline →
      P (round.snapshot baseline))
    (hlog : Chronicle Told seed log) : P (latest seed log) := by
  induction hlog with
  | nil => exact hseed
  | note _ hevent ih =>
      rw [BuildLog.latest_note hevent]
      exact ih
  | commit _ _ _ hfits htold ih =>
      rw [BuildLog.latest_commit]
      exact hround _ _ hfits htold ih

end Chronicle

/-- A coordinator whose log is a chronicle that ends with its snapshot. -/
structure Coordinator.IsChronicled (coordinator : Coordinator)
    (Told : Round → Prop) (seed : Snapshot) : Prop where
  chronicle : Chronicle Told seed coordinator.events
  current : coordinator.snapshot = latest seed coordinator.events
  numbered : ∀ event ∈ coordinator.events,
    event.build < coordinator.nextId

namespace Coordinator.IsChronicled

variable {Told : Round → Prop} {seed : Snapshot} {coordinator : Coordinator}

theorem startingFrom (Told : Round → Prop) (seed : Snapshot) :
    (Coordinator.startingFrom seed).IsChronicled Told seed :=
  ⟨.nil, rfl, nofun⟩

theorem congr {other : Coordinator}
    (hchronicled : coordinator.IsChronicled Told seed)
    (hevents : other.events = coordinator.events)
    (hsnapshot : other.snapshot = coordinator.snapshot)
    (hnextId : coordinator.nextId ≤ other.nextId) :
    other.IsChronicled Told seed where
  chronicle := hevents ▸ hchronicled.chronicle
  current := by rw [hsnapshot, hchronicled.current, hevents]
  numbered := fun event hevent =>
    Nat.lt_of_lt_of_le (hchronicled.numbered event (hevents ▸ hevent)) hnextId

theorem note {event : BuildEvent}
    (hchronicled : coordinator.IsChronicled Told seed)
    (hevent : event.isCommit = false)
    (hnumbered : event.build < coordinator.nextId) :
    (coordinator.note event).IsChronicled Told seed where
  chronicle := hchronicled.chronicle.note hevent
  current := by
    rw [snapshot_note, events_note, BuildLog.latest_note hevent]
    exact hchronicled.current
  numbered := by
    intro other hother
    rcases List.mem_append.mp hother with hother | hother
    · exact hchronicled.numbered other hother
    · rw [List.mem_singleton.mp hother]
      exact hnumbered

theorem cancelRunning (hchronicled : coordinator.IsChronicled Told seed) :
    coordinator.cancelRunning.IsChronicled Told seed := by
  rw [Coordinator.cancelRunning, cancelReplaced_eq]
  exact hchronicled.congr rfl rfl (Nat.le_refl _)

theorem begun (hchronicled : coordinator.IsChronicled Told seed) :
    coordinator.begun.IsChronicled Told seed := by
  have hnext : ({ coordinator with
      inFlight := some coordinator.nextId
      cancelled := coordinator.inFlight.toList ++ coordinator.cancelled
      state := .running
      nextId := coordinator.nextId + 1 } : Coordinator).IsChronicled Told
      seed := hchronicled.congr rfl rfl (Nat.le_succ _)
  rw [begun_eq]
  exact hnext.note rfl (Nat.lt_succ_self _)

theorem finish (hchronicled : coordinator.IsChronicled Told seed)
    {id : BuildId} (hid : id < coordinator.nextId) (state : BuildState) :
    (coordinator.finish id state).IsChronicled Told seed := by
  rcases coordinator.finish_eq id state with hfinish | hfinish
  · rwa [hfinish]
  · have hended : ({ coordinator with
        inFlight := none, state := state } : Coordinator).IsChronicled Told
        seed := hchronicled.congr rfl rfl (Nat.le_refl _)
    rw [hfinish]
    exact hended.note rfl hid

theorem commit {earlier : List BuildEvent} {id : BuildId} {round : Round}
    (hchronicled : coordinator.IsChronicled Told seed)
    (hrecord : coordinator.events = earlier ++ .began id :: round.record id)
    (hfresh : ∀ event ∈ earlier, event.build ≠ id)
    (hfits : round.Fits coordinator.snapshot) (htold : Told round)
    (hid : id < coordinator.nextId) :
    (coordinator.committing id
      (round.snapshot coordinator.snapshot)).IsChronicled Told seed where
  chronicle := by
    rw [hchronicled.current] at hfits ⊢
    exact hchronicled.chronicle.commit hrecord hfresh hfits htold
  current := BuildLog.latest_commit.symm
  numbered := by
    intro event hevent
    rcases List.mem_append.mp hevent with hevent | hevent
    · exact hchronicled.numbered event hevent
    · rw [List.mem_singleton.mp hevent]
      exact hid

end Coordinator.IsChronicled

namespace Build

variable {σ : Type} {host : Host σ} {later : σ → σ → Prop}
  {Told : Round → Prop} {seed : Snapshot}

/-- The host moves along the order, and a coordinator that was chronicled still
is. -/
def Recounts (later : σ → σ → Prop) (Told : Round → Prop) (seed : Snapshot)
    (first last : World σ) : Prop :=
  later first.host last.host ∧
    (first.coordinator.IsChronicled Told seed →
      last.coordinator.IsChronicled Told seed)

theorem frame_recounts (hfollows : host.Follows later) {nested : Nested σ}
    (hnested : ∀ scope world,
      Recounts later Told seed world (nested scope world).1) :
    Frame nested host (Recounts later Told seed) where
  refl world := ⟨hfollows.timeline.refl world.host, id⟩
  trans hfirst hlast :=
    ⟨hfollows.timeline.trans hfirst.1 hlast.1, hlast.2 ∘ hfirst.2⟩
  note world event hevent hnumbered :=
    ⟨hfollows.timeline.refl world.host, fun hchronicled =>
      hchronicled.note (BuildEvent.not_commit_of_isStep hevent) hnumbered⟩
  presented _ hnumbered _ := ⟨hfollows.timeline.refl _,
    fun hchronicled => hchronicled.note rfl hnumbered⟩
  asked {_ question} hasks world := by
    refine ⟨?_, fun hchronicled => ?_⟩
    · have hobeys := hfollows.asked hasks world.host
      exact (perform_obeys hfollows.timeline
        (fun scope world => (hnested scope world).1) hobeys
        world.coordinator).1
    · exact perform_keeps
        (P := fun coordinator => coordinator.IsChronicled Told seed)
        (fun _ hholds => hholds.cancelRunning)
        (fun scope world => (hnested scope world).2) (question world.host)
        hchronicled
  resetProgress total world := ⟨hfollows.resetProgress total world.host, id⟩
  countProgress world := ⟨hfollows.countProgress world.host, id⟩

theorem stable_recounts (hfollows : host.Follows later)
    (htold : ∀ {nested : Nested σ} {number : BuildId} {start ready : World σ}
      {round : Round},
      (∀ scope world, later world.host (nested scope world).1.host) →
      Gathered nested host (Recounts later Told seed) number start ready round →
      Told round) :
    Stable host (Recounts later Told seed) where
  refl world := ⟨hfollows.timeline.refl world.host, id⟩
  frame _ hnested := frame_recounts hfollows hnested
  begun world := ⟨hfollows.timeline.refl world.host,
    fun hchronicled => hchronicled.begun⟩
  finished world number state hnumber := ⟨hfollows.timeline.refl world.host,
    fun hchronicled => hchronicled.finish hnumber state⟩
  committed {nested world ready round} hnested hgathered := by
    have htold := htold (fun scope world => (hnested scope world).1) hgathered
    have hready := hgathered.passes.related
    refine ⟨hready.1, fun hchronicled => ?_⟩
    -- A build that may commit was alone, so its events close the log.
    obtain ⟨hevents, hsnapshot, _⟩ :=
      hgathered.undisturbed (inFlight_begunIn world)
    have hbaseline := hsnapshot.trans (snapshot_begunIn world)
    have hrecord : ready.coordinator.events = world.coordinator.events ++
        .began world.coordinator.nextId ::
          round.record world.coordinator.nextId := by
      rw [hevents]
      simp [begunIn, World.withCoordinator, Coordinator.begun_eq]
    have hfresh : ∀ event ∈ world.coordinator.events,
        event.build ≠ world.coordinator.nextId := by
      intro event hevent
      exact Nat.ne_of_lt (hchronicled.numbered event hevent)
    have hfits := hgathered.fits
    rw [hsnapshot.symm] at hfits
    rw [← hbaseline]
    exact (hready.2 hchronicled.begun).commit hrecord hfresh hfits htold
      (hgathered.passes.numbered (numbered_begunIn world))

/-- What holds of the coordinator of a first world and lasts through builds,
holds of every world that comes about from it. -/
theorem isChronicled_of_reaches (hfollows : host.Follows later)
    (htold : ∀ {nested : Nested σ} {number : BuildId} {start ready : World σ}
      {round : Round},
      (∀ scope world, later world.host (nested scope world).1.host) →
      Gathered nested host (Recounts later Told seed) number start ready round →
      Told round)
    {edits : σ → σ → Prop} {start world : World σ}
    (hreaches : World.Reaches host edits start world)
    (hstart : start.coordinator.IsChronicled Told seed) :
    world.coordinator.IsChronicled Told seed := by
  induction hreaches with
  | start => exact hstart
  | edit _ _ ih => exact ih
  | build _ depth scope ih =>
      exact ((stable_recounts hfollows htold).build depth scope _).2 ih
  | cancel _ ih => exact ih.cancelRunning

end Build

end CallGraph
