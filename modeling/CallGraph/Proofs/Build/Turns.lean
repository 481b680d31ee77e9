import CallGraph.Proofs.Build.Conduct

namespace CallGraph

open BuildLog (EndsAlone record)

/-! Builds take turns: whoever commits or presents has had the coordinator for
itself since it began. -/

namespace BuildEvent

def committer? : BuildEvent → Option BuildId
  | committed id _ => some id
  | _ => none

def presenter? : BuildEvent → Option BuildId
  | presented id => some id
  | _ => none

theorem committer?_eq_some_iff {event : BuildEvent} {id : BuildId} :
    event.committer? = some id ↔ ∃ snapshot, event = .committed id snapshot := by
  cases event <;> simp [committer?]

theorem presenter?_eq_some_iff {event : BuildEvent} {id : BuildId} :
    event.presenter? = some id ↔ event = .presented id := by
  cases event <;> simp [presenter?]

theorem committer?_of_isStep {event : BuildEvent}
    (hevent : event.isStep = true) : event.committer? = none := by
  cases event with
  | committed => cases hevent
  | _ => rfl

theorem presenter?_of_isStep {event : BuildEvent}
    (hevent : event.isStep = true) : event.presenter? = none := by
  cases event with
  | presented => cases hevent
  | _ => rfl

end BuildEvent

namespace BuildLog

def committers (log : List BuildEvent) : List BuildId :=
  log.filterMap BuildEvent.committer?

def presenters (log : List BuildEvent) : List BuildId :=
  log.filterMap BuildEvent.presenter?

theorem committers_append (first second : List BuildEvent) :
    committers (first ++ second) = committers first ++ committers second :=
  List.filterMap_append

theorem presenters_append (first second : List BuildEvent) :
    presenters (first ++ second) = presenters first ++ presenters second :=
  List.filterMap_append

theorem committers_note {log : List BuildEvent} {event : BuildEvent}
    (hevent : event.committer? = none) :
    committers (log ++ [event]) = committers log := by
  simp [committers, hevent]

theorem presenters_note {log : List BuildEvent} {event : BuildEvent}
    (hevent : event.presenter? = none) :
    presenters (log ++ [event]) = presenters log := by
  simp [presenters, hevent]

/-- A log in which the builds supersede each other. -/
structure IsSuperseding (log : List BuildEvent) : Prop where
  commits : (committers log).Pairwise (· < ·)
  presents : (presenters log).Pairwise (· < ·)
  superseded : ∀ {before middle after : List BuildEvent} {id other : BuildId},
    log = before ++ .began id :: middle ++ .began other :: after →
    id ∉ committers after ∧ id ∉ presenters after

/-- How a log grows: a build begins under a new number, and what it commits and
presents it adds right behind its own steps. -/
inductive TakesTurns : List BuildEvent → Prop where
  | nil : TakesTurns []
  | began {log : List BuildEvent} {id : BuildId} (hlog : TakesTurns log)
      (hnew : ∀ event ∈ log, event.build < id) :
      TakesTurns (log ++ [.began id])
  | step {log : List BuildEvent} {event : BuildEvent} (hlog : TakesTurns log)
      (hevent : event.isStep = true) : TakesTurns (log ++ [event])
  | committed {log : List BuildEvent} {id : BuildId} {snapshot : Snapshot}
      (hlog : TakesTurns log) (halone : EndsAlone id log) :
      TakesTurns (log ++ [.committed id snapshot])
  | presented {log before : List BuildEvent} {id : BuildId}
      {snapshot : Snapshot} (hlog : TakesTurns log)
      (halone : EndsAlone id before)
      (hcommitted : log = before ++ [.committed id snapshot]) :
      TakesTurns (log ++ [.presented id])
  | finished {log : List BuildEvent} {id : BuildId} {state : BuildState}
      (hlog : TakesTurns log) : TakesTurns (log ++ [.finished id state])

namespace TakesTurns

variable {log before after : List BuildEvent} {id other : BuildId}
  {snapshot : Snapshot}

theorem older_of_began (hlog : TakesTurns log)
    (hsplit : log = before ++ .began id :: after) :
    ∀ event ∈ before, event.build < id := by
  induction hlog generalizing after with
  | nil => simp at hsplit
  | began _ hnew ih =>
      rcases split_snoc hsplit with ⟨rfl, hbegan⟩ | ⟨rest, hrest⟩
      · rwa [BuildEvent.began.inj hbegan] at hnew
      · exact ih hrest
  | step _ hevent ih =>
      rcases split_snoc hsplit with ⟨_, rfl⟩ | ⟨rest, hrest⟩
      · cases hevent
      · exact ih hrest
  | committed _ _ ih | presented _ _ _ ih | finished _ ih =>
      rcases split_snoc hsplit with ⟨_, hbegan⟩ | ⟨rest, hrest⟩
      · cases hbegan
      · exact ih hrest

/-- A build that has had the coordinator for itself is the last one that
began, and all others are done with. -/
theorem older_of_endsAlone (hlog : TakesTurns log) (halone : EndsAlone id log) :
    (∀ number ∈ committers log, number < id) ∧
      (∀ number ∈ presenters log, number < id) ∧
      ∀ {number}, .began number ∈ log → number ≤ id := by
  obtain ⟨earlier, own, rfl, hown⟩ := halone
  have holder := hlog.older_of_began rfl
  have hcommitters : committers (.began id :: own) = [] := by
    refine List.filterMap_eq_nil_iff.mpr fun event hevent => ?_
    rcases List.mem_cons.mp hevent with rfl | hevent
    · rfl
    · exact BuildEvent.committer?_of_isStep (hown event hevent).1
  have hpresenters : presenters (.began id :: own) = [] := by
    refine List.filterMap_eq_nil_iff.mpr fun event hevent => ?_
    rcases List.mem_cons.mp hevent with rfl | hevent
    · rfl
    · exact BuildEvent.presenter?_of_isStep (hown event hevent).1
  refine ⟨?_, ?_, ?_⟩
  · intro number hnumber
    rw [committers_append, hcommitters, List.append_nil] at hnumber
    obtain ⟨event, hevent, hcommitter⟩ := List.mem_filterMap.mp hnumber
    obtain ⟨snapshot, rfl⟩ := BuildEvent.committer?_eq_some_iff.mp hcommitter
    exact holder _ hevent
  · intro number hnumber
    rw [presenters_append, hpresenters, List.append_nil] at hnumber
    obtain ⟨event, hevent, hpresenter⟩ := List.mem_filterMap.mp hnumber
    obtain rfl := BuildEvent.presenter?_eq_some_iff.mp hpresenter
    exact holder _ hevent
  · intro number hbegan
    rcases List.mem_append.mp hbegan with hbegan | hbegan
    · exact Nat.le_of_lt (holder _ hbegan)
    · rcases List.mem_cons.mp hbegan with hbegan | hbegan
      · exact Nat.le_of_eq (BuildEvent.began.inj hbegan)
      · cases (hown _ hbegan).1

theorem endsAlone_of_committed (hlog : TakesTurns log)
    (hsplit : log = before ++ .committed id snapshot :: after) :
    TakesTurns before ∧ EndsAlone id before := by
  induction hlog generalizing after with
  | nil => simp at hsplit
  | committed hlog halone ih =>
      rcases split_snoc hsplit with ⟨rfl, hcommit⟩ | ⟨rest, hrest⟩
      · obtain ⟨rfl, rfl⟩ := BuildEvent.committed.inj hcommit
        exact ⟨hlog, halone⟩
      · exact ih hrest
  | step _ hevent ih =>
      rcases split_snoc hsplit with ⟨_, rfl⟩ | ⟨rest, hrest⟩
      · cases hevent
      · exact ih hrest
  | began _ _ ih | presented _ _ _ ih | finished _ ih =>
      rcases split_snoc hsplit with ⟨_, hcommit⟩ | ⟨rest, hrest⟩
      · cases hcommit
      · exact ih hrest

theorem endsAlone_of_presented (hlog : TakesTurns log)
    (hsplit : log = before ++ .presented id :: after) :
    ∃ ready snapshot, before = ready ++ [.committed id snapshot] ∧
      TakesTurns ready ∧ EndsAlone id ready := by
  induction hlog generalizing after with
  | nil => simp at hsplit
  | @presented log ready _ snapshot hlog halone hcommitted ih =>
      rcases split_snoc hsplit with ⟨rfl, hpresent⟩ | ⟨rest, hrest⟩
      · obtain rfl := BuildEvent.presented.inj hpresent
        exact ⟨ready, snapshot, hcommitted,
          (hlog.endsAlone_of_committed hcommitted).1, halone⟩
      · exact ih hrest
  | step _ hevent ih =>
      rcases split_snoc hsplit with ⟨_, rfl⟩ | ⟨rest, hrest⟩
      · cases hevent
      · exact ih hrest
  | began _ _ ih | committed _ _ ih | finished _ ih =>
      rcases split_snoc hsplit with ⟨_, hpresent⟩ | ⟨rest, hrest⟩
      · cases hpresent
      · exact ih hrest

theorem committers_ascending (hlog : TakesTurns log) :
    (committers log).Pairwise (· < ·) := by
  induction hlog with
  | nil => exact .nil
  | step _ hevent ih =>
      rwa [committers_note (BuildEvent.committer?_of_isStep hevent)]
  | began _ _ ih | presented _ _ _ ih | finished _ ih =>
      rwa [committers_note rfl]
  | @committed log id _ hlog halone ih =>
      rw [committers_append]
      refine List.pairwise_append.mpr ⟨ih, List.pairwise_singleton _ _, ?_⟩
      intro number hnumber last hlast
      rw [List.mem_singleton.mp hlast]
      exact (hlog.older_of_endsAlone halone).1 number hnumber

theorem presenters_ascending (hlog : TakesTurns log) :
    (presenters log).Pairwise (· < ·) := by
  induction hlog with
  | nil => exact .nil
  | step _ hevent ih =>
      rwa [presenters_note (BuildEvent.presenter?_of_isStep hevent)]
  | began _ _ ih | committed _ _ ih | finished _ ih =>
      rwa [presenters_note rfl]
  | @presented log before id snapshot hlog halone hcommitted ih =>
      have hbefore : presenters log = presenters before := by
        rw [hcommitted, presenters_note rfl]
      have hready := (hlog.endsAlone_of_committed hcommitted).1
      rw [presenters_append]
      refine List.pairwise_append.mpr ⟨ih, List.pairwise_singleton _ _, ?_⟩
      intro number hnumber last hlast
      rw [List.mem_singleton.mp hlast]
      exact (hready.older_of_endsAlone halone).2.1 number (hbefore ▸ hnumber)

/-- Once a build has begun, those that commit or present are not older. -/
theorem not_older_after (hlog : TakesTurns log)
    (hsplit : log = before ++ .began other :: after) :
    (∀ id ∈ committers after, other ≤ id) ∧
      ∀ id ∈ presenters after, other ≤ id := by
  constructor
  · intro id hid
    obtain ⟨event, hevent, hcommitter⟩ := List.mem_filterMap.mp hid
    obtain ⟨snapshot, rfl⟩ := BuildEvent.committer?_eq_some_iff.mp hcommitter
    obtain ⟨between, rest, rfl⟩ := List.mem_iff_append.mp hevent
    rw [← List.cons_append, ← List.append_assoc] at hsplit
    obtain ⟨hready, halone⟩ := hlog.endsAlone_of_committed hsplit
    exact (hready.older_of_endsAlone halone).2.2 (by simp)
  · intro id hid
    obtain ⟨event, hevent, hpresenter⟩ := List.mem_filterMap.mp hid
    obtain rfl := BuildEvent.presenter?_eq_some_iff.mp hpresenter
    obtain ⟨between, rest, rfl⟩ := List.mem_iff_append.mp hevent
    rw [← List.cons_append, ← List.append_assoc] at hsplit
    obtain ⟨ready, snapshot, hbefore, hready, halone⟩ :=
      hlog.endsAlone_of_presented hsplit
    have hbegan : .began other ∈ ready ++ [.committed id snapshot] := by
      rw [← hbefore]
      simp
    exact (hready.older_of_endsAlone halone).2.2 (by simpa using hbegan)

theorem isSuperseding (hlog : TakesTurns log) : IsSuperseding log where
  commits := hlog.committers_ascending
  presents := hlog.presenters_ascending
  superseded {before middle after id other} hsplit := by
    have hyounger : id < other :=
      hlog.older_of_began hsplit (.began id) (by simp)
    obtain ⟨hcommitters, hpresenters⟩ := hlog.not_older_after hsplit
    exact ⟨fun hid => Nat.not_le.mpr hyounger (hcommitters id hid),
      fun hid => Nat.not_le.mpr hyounger (hpresenters id hid)⟩

end TakesTurns

end BuildLog

/-- A coordinator on which the builds have taken turns.  All that it knows of
carries a number that was given out. -/
structure Coordinator.IsTakingTurns (coordinator : Coordinator) : Prop where
  turns : BuildLog.TakesTurns coordinator.events
  numbered : ∀ event ∈ coordinator.events, event.build < coordinator.nextId
  registered : ∀ id, coordinator.inFlight = some id → id < coordinator.nextId
  cancelled : ∀ id, coordinator.isCancelled id = true → id < coordinator.nextId

namespace Coordinator.IsTakingTurns

variable {coordinator : Coordinator} {id : BuildId}

theorem startingFrom (seed : Snapshot) :
    (Coordinator.startingFrom seed).IsTakingTurns :=
  ⟨.nil, nofun, nofun, nofun⟩

theorem cancelled_of_replaced (hturns : coordinator.IsTakingTurns)
    (hmem : id ∈ coordinator.inFlight.toList ++ coordinator.cancelled) :
    id < coordinator.nextId := by
  rcases List.mem_append.mp hmem with hmem | hmem
  · exact hturns.registered id (Option.mem_toList.mp hmem)
  · exact hturns.cancelled id (List.contains_iff_mem.mpr hmem)

theorem cancelRunning (hturns : coordinator.IsTakingTurns) :
    coordinator.cancelRunning.IsTakingTurns := by
  rw [Coordinator.cancelRunning, cancelReplaced_eq]
  exact ⟨hturns.turns, hturns.numbered, hturns.registered, fun id hid =>
    hturns.cancelled_of_replaced (List.contains_iff_mem.mp hid)⟩

theorem note (hturns : coordinator.IsTakingTurns) {event : BuildEvent}
    (hevents : BuildLog.TakesTurns (coordinator.events ++ [event]))
    (hevent : event.build < coordinator.nextId) :
    (coordinator.note event).IsTakingTurns where
  turns := hevents
  numbered := by
    intro other hother
    rcases List.mem_append.mp hother with hother | hother
    · exact hturns.numbered other hother
    · rwa [List.mem_singleton.mp hother]
  registered := hturns.registered
  cancelled := hturns.cancelled

theorem begun (hturns : coordinator.IsTakingTurns) :
    coordinator.begun.IsTakingTurns := by
  rw [begun_eq]
  refine ⟨hturns.turns.began hturns.numbered, fun event hevent => ?_,
    fun id hid => ?_, fun id hid => ?_⟩
  · rcases List.mem_append.mp hevent with hevent | hevent
    · exact Nat.lt_succ_of_lt (hturns.numbered event hevent)
    · rw [List.mem_singleton.mp hevent]
      exact Nat.lt_succ_self _
  · rw [← Option.some.inj hid]
    exact Nat.lt_succ_self _
  · exact Nat.lt_succ_of_lt
      (hturns.cancelled_of_replaced (List.contains_iff_mem.mp hid))

theorem finish (hturns : coordinator.IsTakingTurns)
    (hid : id < coordinator.nextId) (state : BuildState) :
    (coordinator.finish id state).IsTakingTurns := by
  rcases coordinator.finish_eq id state with hfinish | hfinish
  · rwa [hfinish]
  · have hended : ({ coordinator with
        inFlight := none, state := state } : Coordinator).IsTakingTurns :=
      ⟨hturns.turns, hturns.numbered, nofun, hturns.cancelled⟩
    rw [hfinish]
    exact hended.note hturns.turns.finished hid

theorem committing (hturns : coordinator.IsTakingTurns)
    (halone : EndsAlone id coordinator.events)
    (hid : id < coordinator.nextId) (next : Snapshot) :
    (coordinator.committing id next).IsTakingTurns := by
  have hswapped : ({ coordinator with
      store := ⟨next⟩ } : Coordinator).IsTakingTurns :=
    ⟨hturns.turns, hturns.numbered, hturns.registered, hturns.cancelled⟩
  exact hswapped.note (hturns.turns.committed halone) hid

theorem not_cancelled_begun (hturns : coordinator.IsTakingTurns) :
    coordinator.begun.isCancelled coordinator.nextId = false := by
  rw [begun_eq]
  refine Bool.eq_false_iff.mpr fun hcancelled => ?_
  exact Nat.lt_irrefl _
    (hturns.cancelled_of_replaced (List.contains_iff_mem.mp hcancelled))

end Coordinator.IsTakingTurns

namespace Build

variable {σ : Type} {host : Host σ}

def KeepsTurns (first last : World σ) : Prop :=
  first.coordinator.IsTakingTurns → last.coordinator.IsTakingTurns

theorem frame_keepsTurns {nested : Nested σ}
    (hnested : ∀ scope world, KeepsTurns world (nested scope world).1) :
    Frame nested host KeepsTurns where
  refl _ := id
  trans hfirst hlast := hlast ∘ hfirst
  note world event hevent hnumbered hturns :=
    hturns.note (hturns.turns.step hevent) hnumbered
  presented hjust hnumbered _ hturns := by
    obtain ⟨before, snapshot, halone, hevents⟩ := hjust
    exact hturns.note (hturns.turns.presented halone hevents) hnumbered
  asked {_ question} _ world hturns :=
    perform_keeps (P := Coordinator.IsTakingTurns)
      (fun _ hturns => hturns.cancelRunning) hnested (question world.host)
      hturns
  resetProgress _ _ := id
  countProgress _ := id

theorem stable_keepsTurns (host : Host σ) : Stable host KeepsTurns where
  refl _ := id
  frame _ hnested := frame_keepsTurns hnested
  begun _ hturns := hturns.begun
  finished _ _ state hid hturns := hturns.finish hid state
  committed {_ world ready round} _ hgathered hturns := by
    obtain ⟨hevents, _, _⟩ := hgathered.undisturbed (inFlight_begunIn world)
    have halone : EndsAlone world.coordinator.nextId
        ready.coordinator.events := by
      refine ⟨world.coordinator.events, _, ?_, step_of_record round⟩
      rw [hevents, events_begunIn, List.append_assoc, List.singleton_append]
    exact (hgathered.passes.related hturns.begun).committing halone
      (hgathered.passes.numbered (numbered_begunIn world)) _

theorem record_of_committed {Rel : World σ → World σ → Prop}
    {world ready last : World σ} {round : Round} {snapshot : Snapshot}
    {own : List BuildEvent} (state : BuildState)
    (hturns : world.coordinator.IsTakingTurns)
    (hready : Passes Rel world.coordinator.nextId
      (round.record world.coordinator.nextId) (begunIn world) ready)
    (hpasses : Passes Rel world.coordinator.nextId own
      (commitIn ready world.coordinator.nextId snapshot) last)
    (hquiet : ∀ event ∈ own, event = .presented world.coordinator.nextId) :
    ∃ closing, (∀ event ∈ closing,
        event = .presented world.coordinator.nextId ∨
          event = .finished world.coordinator.nextId state) ∧
      record world.coordinator.nextId
          (last.coordinator.finish world.coordinator.nextId state).events =
        .began world.coordinator.nextId ::
          round.record world.coordinator.nextId ++
            .committed world.coordinator.nextId snapshot :: closing := by
  have hbegun : record world.coordinator.nextId
      (begunIn world).coordinator.events =
        [.began world.coordinator.nextId] := by
    rw [events_begunIn, BuildLog.record_append, BuildLog.record_eq_nil
      fun event hevent => Nat.ne_of_lt (hturns.numbered event hevent)]
    simp [record, BuildEvent.build]
  obtain ⟨earlier, hearlier, hround⟩ := hready.grows
  obtain ⟨later, hlater, rfl⟩ := hpasses.grows
  have hcommitted :
      (commitIn ready world.coordinator.nextId snapshot).coordinator.events =
        ready.coordinator.events ++
          [.committed world.coordinator.nextId snapshot] := rfl
  have hlast : record world.coordinator.nextId last.coordinator.events =
      .began world.coordinator.nextId ::
        round.record world.coordinator.nextId ++
          .committed world.coordinator.nextId snapshot ::
            record world.coordinator.nextId later := by
    rw [hlater.events, hcommitted, hearlier.events, BuildLog.record_append,
      BuildLog.record_append, BuildLog.record_append, hbegun, hround]
    simp [record, BuildEvent.build]
  rcases last.coordinator.finish_eq world.coordinator.nextId state with
    hfinish | hfinish
  · rw [hfinish]
    exact ⟨record world.coordinator.nextId later,
      fun event hevent => Or.inl (hquiet event hevent), hlast⟩
  · rw [hfinish]
    refine ⟨record world.coordinator.nextId later ++
      [.finished world.coordinator.nextId state], fun event hevent => ?_, ?_⟩
    · rcases List.mem_append.mp hevent with hevent | hevent
      · exact Or.inl (hquiet event hevent)
      · exact Or.inr (List.mem_singleton.mp hevent)
    · rw [Coordinator.events_note, BuildLog.record_append, hlast]
      simp [record, BuildEvent.build]

theorem extracted_iff_of_committed
    {Rel : World σ → World σ → Prop} {world ready last : World σ}
    {round : Round} {snapshot : Snapshot} {own : List BuildEvent}
    {source : SourceUnit} (state : BuildState)
    (hturns : world.coordinator.IsTakingTurns)
    (hready : Passes Rel world.coordinator.nextId
      (round.record world.coordinator.nextId) (begunIn world) ready)
    (hpasses : Passes Rel world.coordinator.nextId own
      (commitIn ready world.coordinator.nextId snapshot) last)
    (hquiet : ∀ event ∈ own, event = .presented world.coordinator.nextId) :
    .extracted world.coordinator.nextId source ∈
        (last.coordinator.finish world.coordinator.nextId state).events ↔
      ∃ result ∈ round.results, result.source = source := by
  obtain ⟨closing, hclosing, hrecord⟩ :=
    record_of_committed state hturns hready hpasses hquiet
  have hafter : BuildEvent.extracted world.coordinator.nextId source ∉
      closing := fun hmem => (hclosing _ hmem).elim nofun nofun
  have hmem : ∀ log, .extracted world.coordinator.nextId source ∈ log ↔
      .extracted world.coordinator.nextId source ∈
        record world.coordinator.nextId log := by
    intro log
    rw [record, List.mem_filter]
    simp [BuildEvent.build]
  rw [hmem, hrecord]
  simp [hafter, Round.record]

end Build

theorem World.Reaches.isTakingTurns {σ : Type} {host : Host σ}
    {edits : σ → σ → Prop} {start world : World σ}
    (hreaches : World.Reaches host edits start world)
    (hstart : start.coordinator.IsTakingTurns) :
    world.coordinator.IsTakingTurns := by
  induction hreaches with
  | start => exact hstart
  | edit _ _ ih => exact ih
  | build _ depth scope ih =>
      exact (Build.stable_keepsTurns host).build depth scope _ ih
  | cancel _ ih => exact ih.cancelRunning

end CallGraph
