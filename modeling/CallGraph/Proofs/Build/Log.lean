import CallGraph.Build.Coordinator

namespace CallGraph

namespace BuildEvent

def build : BuildEvent → BuildId
  | began id => id
  | enumerated id _ => id
  | versionRead id _ => id
  | extracted id _ => id
  | committed id _ => id
  | presented id => id
  | finished id _ => id

def isCommit : BuildEvent → Bool
  | committed .. => true
  | _ => false

def isStep : BuildEvent → Bool
  | enumerated .. => true
  | versionRead .. => true
  | extracted .. => true
  | _ => false

theorem not_commit_of_isStep {event : BuildEvent}
    (hevent : event.isStep = true) : event.isCommit = false := by
  cases event with
  | committed => cases hevent
  | _ => rfl

def current (before : Snapshot) : BuildEvent → Snapshot
  | committed _ next => next
  | _ => before

theorem current_of_not_commit {event : BuildEvent}
    (hevent : event.isCommit = false) (before : Snapshot) :
    event.current before = before := by
  cases event with
  | committed => cases hevent
  | _ => rfl

end BuildEvent

namespace BuildLog

def record (id : BuildId) (log : List BuildEvent) : List BuildEvent :=
  log.filter fun event => event.build == id

def latest (seed : Snapshot) (log : List BuildEvent) : Snapshot :=
  log.foldl BuildEvent.current seed

variable {id : BuildId} {log first second : List BuildEvent} {seed : Snapshot}

@[simp] theorem record_append :
    record id (first ++ second) = record id first ++ record id second :=
  List.filter_append first second

@[simp] theorem latest_append :
    latest seed (first ++ second) = latest (latest seed first) second :=
  List.foldl_append

theorem mem_of_mem_record {event : BuildEvent} (hmem : event ∈ record id log) :
    event ∈ log :=
  (List.mem_filter.mp hmem).1

theorem record_eq_nil (hother : ∀ event ∈ log, event.build ≠ id) :
    record id log = [] := by
  simpa [record] using hother

theorem record_eq_self (hown : ∀ event ∈ log, event.build = id) :
    record id log = log := by
  simpa [record] using hown

theorem latest_of_no_commit (hlog : ∀ event ∈ log, event.isCommit = false) :
    latest seed log = seed := by
  induction log with
  | nil => rfl
  | cons event rest ih =>
      have hevent := BuildEvent.current_of_not_commit
        (hlog event List.mem_cons_self) seed
      change latest (event.current seed) rest = seed
      rw [hevent]
      exact ih fun other hother =>
        hlog other (List.mem_cons_of_mem event hother)

theorem latest_note {event : BuildEvent} (hevent : event.isCommit = false) :
    latest seed (log ++ [event]) = latest seed log := by
  rw [latest_append]
  exact BuildEvent.current_of_not_commit hevent _

@[simp] theorem latest_commit {snapshot : Snapshot} :
    latest seed (log ++ [.committed id snapshot]) = snapshot := by
  rw [latest_append]
  rfl

theorem split_snoc {before after : List BuildEvent} {event last : BuildEvent}
    (hsplit : log ++ [last] = before ++ event :: after) :
    log = before ∧ last = event ∨
      ∃ rest, log = before ++ event :: rest := by
  rcases List.eq_nil_or_concat after with rfl | ⟨rest, other, rfl⟩
  · obtain ⟨hlog, hlast⟩ := List.append_inj' hsplit rfl
    exact Or.inl ⟨hlog, List.singleton_inj.mp hlast⟩
  · rw [List.concat_eq_append, ← List.cons_append, ← List.append_assoc]
      at hsplit
    exact Or.inr ⟨rest, (List.append_inj' hsplit rfl).1⟩

/-- A log that ends with a build which has not committed yet and has had the
coordinator for itself. -/
def EndsAlone (id : BuildId) (log : List BuildEvent) : Prop :=
  ∃ earlier own, log = earlier ++ .began id :: own ∧
    ∀ event ∈ own, event.isStep = true ∧ event.build = id

def commits (id : BuildId) (log : List BuildEvent) : List BuildEvent :=
  (record id log).filter BuildEvent.isCommit

@[simp] theorem commits_append :
    commits id (first ++ second) = commits id first ++ commits id second := by
  simp [commits]

theorem commits_eq_nil (hquiet : ∀ event ∈ record id log,
    event.isCommit = false) : commits id log = [] := by
  simpa [commits] using hquiet

theorem mem_commits {event : BuildEvent} :
    event ∈ commits id log ↔
      event ∈ log ∧ event.build = id ∧ event.isCommit = true := by
  simp only [commits, record, List.mem_filter, beq_iff_eq, and_assoc]

theorem latest_filter_isCommit :
    latest seed (log.filter BuildEvent.isCommit) = latest seed log := by
  induction log generalizing seed with
  | nil => rfl
  | cons event rest ih =>
      change _ = latest (event.current seed) rest
      cases hevent : event.isCommit with
      | true =>
          rw [List.filter_cons_of_pos hevent]
          exact ih
      | false =>
          rw [List.filter_cons_of_neg (by simp [hevent]),
            BuildEvent.current_of_not_commit hevent, ih]

/-- When nobody else commits, the current snapshot is the one of the last own
commit. -/
theorem latest_of_own_commits (hown : ∀ event ∈ log,
    event.isCommit = true → event.build = id) :
    latest seed log = latest seed (commits id log) := by
  have hcommits : commits id log = log.filter BuildEvent.isCommit := by
    unfold commits record
    rw [List.filter_filter]
    refine List.filter_congr ?_
    intro event hevent
    cases hcommit : event.isCommit with
    | true => simp [hown event hevent hcommit]
    | false => rfl
  rw [hcommits, latest_filter_isCommit]

end BuildLog

namespace Coordinator

open BuildLog

variable {mine : Option BuildId} {first middle last : Coordinator}
  {later : List BuildEvent}

@[simp] theorem events_note (coordinator : Coordinator) (event : BuildEvent) :
    (coordinator.note event).events = coordinator.events ++ [event] := rfl

@[simp] theorem snapshot_note (coordinator : Coordinator) (event : BuildEvent) :
    (coordinator.note event).snapshot = coordinator.snapshot := rfl

theorem isCancelled_cancel_of {coordinator : Coordinator} {id other : BuildId}
    (hcancelled : coordinator.isCancelled id = true) :
    (coordinator.cancel other).isCancelled id = true := by
  simp only [isCancelled, cancel, List.contains_cons, Bool.or_eq_true]
  exact Or.inr hcancelled

def committing (coordinator : Coordinator) (id : BuildId) (next : Snapshot) :
    Coordinator :=
  { coordinator with store := ⟨next⟩ }.note (.committed id next)

theorem commit?_of_current {coordinator : Coordinator} {id : BuildId}
    (hcurrent : coordinator.isCancelled id = false) (next : Snapshot) :
    coordinator.commit? id next = some (coordinator.committing id
      (next.succeeding coordinator.snapshot)) := by
  simp [commit?, SnapshotStore.commit?, hcurrent, committing, snapshot]

/-- The build has committed and nothing has happened since; nor had anything
else happened since the build began. -/
def HasJustCommitted (coordinator : Coordinator) (id : BuildId) : Prop :=
  ∃ before snapshot, EndsAlone id before ∧
    coordinator.events = before ++ [.committed id snapshot]

/-- How a coordinator changes while something runs on it.  `later` is what the
log gained; of it, the events of the build `mine` are its own and all others
belong to builds that began meanwhile.  If there were any, the build that was in
flight has been cancelled. -/
structure Grows (mine : Option BuildId) (first : Coordinator)
    (later : List BuildEvent) (last : Coordinator) : Prop where
  events : last.events = first.events ++ later
  snapshot : last.snapshot = latest first.snapshot later
  nextId : first.nextId ≤ last.nextId
  numbered : ∀ event ∈ later, some event.build = mine ∨
    first.nextId ≤ event.build ∧ event.build < last.nextId
  cancelled : ∀ id, first.isCancelled id = true → last.isCancelled id = true
  inFlight : ((∀ event ∈ later, some event.build = mine) ∧
      last.inFlight = first.inFlight) ∨
    ∀ id, first.inFlight = some id → last.isCancelled id = true

namespace Grows

theorem refl (coordinator : Coordinator) :
    Grows mine coordinator [] coordinator where
  events := (List.append_nil _).symm
  snapshot := rfl
  nextId := Nat.le_refl _
  numbered := fun _ hevent => absurd hevent List.not_mem_nil
  cancelled := fun _ hcancelled => hcancelled
  inFlight := Or.inl ⟨fun _ hevent => absurd hevent List.not_mem_nil, rfl⟩

theorem trans {more : List BuildEvent} (hfirst : Grows mine first later middle)
    (hlast : Grows mine middle more last) :
    Grows mine first (later ++ more) last where
  events := by rw [hlast.events, hfirst.events, List.append_assoc]
  snapshot := by rw [hlast.snapshot, hfirst.snapshot, latest_append]
  nextId := Nat.le_trans hfirst.nextId hlast.nextId
  numbered := by
    intro event hevent
    rcases List.mem_append.mp hevent with hlater | hmore
    · rcases hfirst.numbered event hlater with hmine | ⟨hfrom, hto⟩
      · exact Or.inl hmine
      · exact Or.inr ⟨hfrom, Nat.lt_of_lt_of_le hto hlast.nextId⟩
    · rcases hlast.numbered event hmore with hmine | ⟨hfrom, hto⟩
      · exact Or.inl hmine
      · exact Or.inr ⟨Nat.le_trans hfirst.nextId hfrom, hto⟩
  cancelled := fun id hcancelled =>
    hlast.cancelled id (hfirst.cancelled id hcancelled)
  inFlight := by
    -- Once cancelled, a build stays so; else it is still the one in flight.
    rcases hfirst.inFlight with ⟨hlater, hkept⟩ | hcancelled
    · rcases hlast.inFlight with ⟨hmore, hkept'⟩ | hcancelled
      · refine Or.inl ⟨?_, hkept'.trans hkept⟩
        intro event hevent
        exact (List.mem_append.mp hevent).elim (hlater event) (hmore event)
      · exact Or.inr fun id hid => hcancelled id (hkept.trans hid)
    · exact Or.inr fun id hid => hlast.cancelled id (hcancelled id hid)

theorem others (hgrows : Grows none first later last) :
    Grows mine first later last where
  events := hgrows.events
  snapshot := hgrows.snapshot
  nextId := hgrows.nextId
  numbered := fun event hevent =>
    Or.inr ((hgrows.numbered event hevent).resolve_left nofun)
  cancelled := hgrows.cancelled
  inFlight := by
    rcases hgrows.inFlight with ⟨hnone, hkept⟩ | hcancelled
    · exact Or.inl
        ⟨fun event hevent => absurd (hnone event hevent) nofun, hkept⟩
    · exact Or.inr hcancelled

theorem note {id : BuildId} (coordinator : Coordinator) {event : BuildEvent}
    (hbuild : event.build = id) (hevent : event.isCommit = false) :
    Grows (some id) coordinator [event] (coordinator.note event) where
  events := rfl
  snapshot :=
    (BuildEvent.current_of_not_commit hevent coordinator.snapshot).symm
  nextId := Nat.le_refl _
  numbered := by
    intro other hother
    rw [List.mem_singleton.mp hother, hbuild]
    exact Or.inl rfl
  cancelled := fun _ hcancelled => hcancelled
  inFlight := by
    refine Or.inl ⟨?_, rfl⟩
    intro other hother
    rw [List.mem_singleton.mp hother, hbuild]

theorem committing {id : BuildId} (coordinator : Coordinator)
    (next : Snapshot) :
    Grows (some id) coordinator [.committed id next]
      (coordinator.committing id next) where
  events := rfl
  snapshot := rfl
  nextId := Nat.le_refl _
  numbered := by
    intro event hevent
    rw [List.mem_singleton.mp hevent]
    exact Or.inl rfl
  cancelled := fun _ hcancelled => hcancelled
  inFlight := by
    refine Or.inl ⟨?_, rfl⟩
    intro event hevent
    rw [List.mem_singleton.mp hevent]
    rfl

theorem cancelRunning (coordinator : Coordinator) :
    Grows mine coordinator [] coordinator.cancelRunning := by
  unfold Coordinator.cancelRunning cancelReplaced
  split
  · exact refl coordinator
  · rename_i running _
    exact {
      events := (List.append_nil _).symm
      snapshot := rfl
      nextId := Nat.le_refl _
      numbered := fun _ hevent => absurd hevent List.not_mem_nil
      cancelled := fun _ hcancelled => isCancelled_cancel_of hcancelled
      inFlight := Or.inl
        ⟨fun _ hevent => absurd hevent List.not_mem_nil, rfl⟩ }

/-- A build that is in flight and has not been cancelled is the only one that
wrote to the log, and is still in flight. -/
theorem undisturbed {id : BuildId} (hgrows : Grows (some id) first later last)
    (hinFlight : first.inFlight = some id)
    (hcurrent : last.isCancelled id = false) :
    (∀ event ∈ later, event.build = id) ∧ last.inFlight = some id := by
  rcases hgrows.inFlight with ⟨hown, hkept⟩ | hcancelled
  · exact ⟨fun event hevent => Option.some.inj (hown event hevent),
      hkept.trans hinFlight⟩
  · rw [hcancelled id hinFlight] at hcurrent
    contradiction

end Grows

end Coordinator

end CallGraph
