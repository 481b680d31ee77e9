import CallGraph.Proofs.Build.Log
import CallGraph.Proofs.Build.Round

namespace CallGraph

inductive Host.Asks {σ : Type} (host : Host σ) :
    {α : Type} → (σ → Activity σ α) → Prop where
  | allUnits : host.Asks host.allUnits
  | versionOf (source : SourceUnit) : host.Asks (host.versionOf source)
  | extract (source : SourceUnit) : host.Asks (host.extract source)
  | unitsInScope (scope : ViewScope) : host.Asks (host.unitsInScope scope)
  | methodsInScope (units : UnitSet) : host.Asks (host.methodsInScope units)
  | layout (graph : Graph) : host.Asks (host.layout graph)
  | present (graph : Graph) : host.Asks (host.present graph)

namespace Build

open Coordinator (Grows)
open BuildLog (record latest)

variable {σ α : Type} {nested : Nested σ} {host : Host σ}
  {Rel : World σ → World σ → Prop} {id : BuildId} {own more : List BuildEvent}
  {first middle last : World σ}

def Orderly (nested : Nested σ) : Prop :=
  ∀ scope world, ∃ later,
    Grows none world.coordinator later (nested scope world).1.coordinator

theorem perform_grows (horderly : Orderly nested) (activity : Activity σ α)
    (coordinator : Coordinator) :
    ∃ later, Grows none coordinator later
      (perform nested activity coordinator).1.coordinator := by
  induction activity generalizing coordinator with
  | done host answer => exact ⟨[], Grows.refl coordinator⟩
  | cancelRunning next ih =>
      obtain ⟨later, hlater⟩ := ih coordinator.cancelRunning
      exact ⟨later, (Grows.cancelRunning coordinator).trans hlater⟩
  | observe next ih => exact ih coordinator coordinator
  | build host scope next ih =>
      obtain ⟨earlier, hearlier⟩ := horderly scope ⟨coordinator, host⟩
      obtain ⟨later, hlater⟩ := ih (nested scope ⟨coordinator, host⟩).1.host
        (nested scope ⟨coordinator, host⟩).2
        (nested scope ⟨coordinator, host⟩).1.coordinator
      exact ⟨earlier ++ later, hearlier.trans hlater⟩

/-- A relation between worlds that holds across all that a build does, its
commit apart.  A build presents its graph when nothing but its own round and its
commit has happened since it began. -/
structure Frame (nested : Nested σ) (host : Host σ)
    (Rel : World σ → World σ → Prop) : Prop where
  refl : ∀ world, Rel world world
  trans : ∀ {first middle last},
    Rel first middle → Rel middle last → Rel first last
  note : ∀ (world : World σ) (event : BuildEvent), event.isStep = true →
    event.build < world.coordinator.nextId → Rel world (world.note event)
  presented : ∀ {world : World σ} {id : BuildId},
    world.coordinator.HasJustCommitted id → id < world.coordinator.nextId →
    world.coordinator.isCancelled id = false →
    Rel world (world.note (.presented id))
  asked : ∀ {α : Type} {question : σ → Activity σ α}, host.Asks question →
    ∀ world, Rel world (ask nested question world).1
  resetProgress : ∀ total (world : World σ),
    Rel world (world.withHost (host.resetProgress total world.host))
  countProgress : ∀ world : World σ,
    Rel world (world.withHost (host.countProgress world.host))

/-- From `first` to `last` the build `id` noted `own`, whatever others did. -/
structure Passes (Rel : World σ → World σ → Prop) (id : BuildId)
    (own : List BuildEvent) (first last : World σ) : Prop where
  grows : ∃ later, Grows (some id) first.coordinator later last.coordinator ∧
    record id later = own
  related : Rel first last

def Answered (nested : Nested σ) (Rel : World σ → World σ → Prop)
    (question : σ → Activity σ α) (answer : α) (first last : World σ) : Prop :=
  ∃ asked, Rel first asked ∧ (ask nested question asked).2 = answer ∧
    Rel (ask nested question asked).1 last

theorem Answered.widen {question : σ → Activity σ α} {answer : α}
    {first' last' : World σ} (hframe : Frame nested host Rel)
    (hanswered : Answered nested Rel question answer first last)
    (hfirst : Rel first' first) (hlast : Rel last last') :
    Answered nested Rel question answer first' last' := by
  obtain ⟨asked, hbefore, hanswer, hafter⟩ := hanswered
  exact ⟨asked, hframe.trans hfirst hbefore, hanswer,
    hframe.trans hafter hlast⟩

structure AnsweredAtOnce (nested : Nested σ) (Rel : World σ → World σ → Prop)
    (question : σ → Activity σ α) (answer : α) (first last : World σ) :
    Prop where
  answer : (ask nested question first).2 = answer
  related : Rel (ask nested question first).1 last

namespace Passes

theorem trans (hframe : Frame nested host Rel)
    (hfirst : Passes Rel id own first middle)
    (hlast : Passes Rel id more middle last) :
    Passes Rel id (own ++ more) first last := by
  obtain ⟨earlier, hearlier, rfl⟩ := hfirst.grows
  obtain ⟨later, hlater, rfl⟩ := hlast.grows
  exact ⟨⟨earlier ++ later, hearlier.trans hlater, BuildLog.record_append⟩,
    hframe.trans hfirst.related hlast.related⟩

theorem numbered (hpasses : Passes Rel id own first last)
    (hid : id < first.coordinator.nextId) : id < last.coordinator.nextId := by
  obtain ⟨later, hlater, _⟩ := hpasses.grows
  exact Nat.lt_of_lt_of_le hid hlater.nextId

/-- A build that was in flight and is not cancelled was alone. -/
theorem undisturbed (hpasses : Passes Rel id own first last)
    (hinFlight : first.coordinator.inFlight = some id)
    (hcurrent : last.coordinator.isCancelled id = false) :
    last.coordinator.events = first.coordinator.events ++ own ∧
      last.coordinator.snapshot = latest first.coordinator.snapshot own ∧
      last.coordinator.inFlight = some id := by
  obtain ⟨later, hgrows, hrecord⟩ := hpasses.grows
  obtain ⟨hown, hkept⟩ := hgrows.undisturbed hinFlight hcurrent
  rw [BuildLog.record_eq_self hown] at hrecord
  subst hrecord
  exact ⟨hgrows.events, hgrows.snapshot, hkept⟩

theorem ofHost {state : σ} (hrelated : Rel first (first.withHost state)) :
    Passes Rel id [] first (first.withHost state) :=
  ⟨⟨[], Grows.refl first.coordinator, rfl⟩, hrelated⟩

theorem refl (hframe : Frame nested host Rel) (world : World σ) :
    Passes Rel id [] world world :=
  ofHost (hframe.refl world)

theorem noted {world : World σ} {event : BuildEvent} (hbuild : event.build = id)
    (hevent : event.isCommit = false) (hrelated : Rel world (world.note event)) :
    Passes Rel id [event] world (world.note event) := by
  refine ⟨⟨[event], Grows.note world.coordinator hbuild hevent, ?_⟩, hrelated⟩
  refine BuildLog.record_eq_self ?_
  intro other hother
  rw [List.mem_singleton.mp hother, hbuild]

theorem note (hframe : Frame nested host Rel) {world : World σ}
    {event : BuildEvent} (hid : id < world.coordinator.nextId)
    (hbuild : event.build = id) (hevent : event.isStep = true) :
    Passes Rel id [event] world (world.note event) :=
  noted hbuild (BuildEvent.not_commit_of_isStep hevent)
    (hframe.note world event hevent (hbuild ▸ hid))

theorem ask (horderly : Orderly nested) (hframe : Frame nested host Rel)
    {question : σ → Activity σ α} (hasks : host.Asks question)
    {world : World σ} (hid : id < world.coordinator.nextId) :
    Passes Rel id [] world (Build.ask nested question world).1 := by
  obtain ⟨later, hlater⟩ := perform_grows horderly (question world.host)
    world.coordinator
  refine ⟨⟨later, hlater.others, BuildLog.record_eq_nil ?_⟩,
    hframe.asked hasks world⟩
  intro event hevent hown
  have hnumbered := (hlater.numbered event hevent).resolve_left nofun
  exact absurd hid (Nat.not_lt.mpr (hown ▸ hnumbered.1))

end Passes

end Build

end CallGraph
