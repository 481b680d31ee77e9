import CallGraph.Build.Run

namespace CallGraph

/-! Builds with a witness.  A watched host does what the host does, and keeps
the worlds it was in: at the beginning and at the end of each of its activities,
and around the builds that it starts from inside one. -/

structure Watched (σ : Type) where
  host : σ
  moments : List (World σ)

namespace Watched

variable {σ : Type}

def see (coordinator : Coordinator) (watched : Watched σ) : Watched σ :=
  { watched with
    moments := watched.moments ++ [⟨coordinator, watched.host⟩] }

end Watched

def Activity.watched {σ α : Type} :
    List (World σ) → Activity σ α → Activity (Watched σ) α
  | moments, .done host answer => .observe fun coordinator =>
      .done ((Watched.mk host moments).see coordinator) answer
  | moments, .cancelRunning next => .cancelRunning (watched moments next)
  | moments, .observe next => .observe fun coordinator =>
      watched moments (next coordinator)
  | moments, .build host scope next => .observe fun coordinator =>
      .build ((Watched.mk host moments).see coordinator) scope
        fun after result? => .observe fun coordinator =>
          watched (after.see coordinator).moments (next after.host result?)

namespace Host

variable {σ α : Type}

def watching (question : σ → Activity σ α) (watched : Watched σ) :
    Activity (Watched σ) α :=
  .observe fun coordinator =>
    (question watched.host).watched (watched.see coordinator).moments

def watched (host : Host σ) : Host (Watched σ) where
  allUnits := watching host.allUnits
  versionOf source := watching (host.versionOf source)
  extract source := watching (host.extract source)
  unitsInScope scope := watching (host.unitsInScope scope)
  methodsInScope units := watching (host.methodsInScope units)
  layout graph := watching (host.layout graph)
  present graph := watching (host.present graph)
  resetProgress total watched :=
    { watched with host := host.resetProgress total watched.host }
  countProgress watched :=
    { watched with host := host.countProgress watched.host }

end Host

namespace World

variable {σ : Type}

def watch (world : World σ) : World (Watched σ) :=
  ⟨world.coordinator, ⟨world.host, []⟩⟩

def plain (world : World (Watched σ)) : World σ :=
  ⟨world.coordinator, world.host.host⟩

def moments (host : Host σ) (depth : Nat) (scope : ViewScope)
    (world : World σ) : List (World σ) :=
  (world.watch.build host.watched depth scope).1.host.moments

end World

namespace Build

variable {σ α : Type} {nested : Nested σ} {watched : Nested (Watched σ)}
  {host : Host σ}

def erase (outcome : World (Watched σ) × α) : World σ × α :=
  (outcome.1.plain, outcome.2)

def Erases (watched : Nested (Watched σ)) (nested : Nested σ) : Prop :=
  ∀ scope world, erase (watched scope world) = nested scope world.plain

theorem erase_perform (herases : Erases watched nested)
    (activity : Activity σ α) (moments : List (World σ))
    (coordinator : Coordinator) :
    erase (perform watched (activity.watched moments) coordinator) =
      perform nested activity coordinator := by
  induction activity generalizing moments coordinator with
  | done host answer => rfl
  | cancelRunning next ih => exact ih moments coordinator.cancelRunning
  | observe next ih => exact ih coordinator moments coordinator
  | build host scope next ih =>
      have hbuilt := herases scope
        ⟨coordinator, (Watched.mk host moments).see coordinator⟩
      simp only [Activity.watched, perform]
      cases hwatched : watched scope
          ⟨coordinator, (Watched.mk host moments).see coordinator⟩ with
      | mk world result? =>
          rw [hwatched] at hbuilt
          change (world.plain, result?) = nested scope ⟨coordinator, host⟩
            at hbuilt
          rw [← hbuilt]
          exact ih world.host.host result? _ world.coordinator

theorem erase_ask (herases : Erases watched nested)
    (question : σ → Activity σ α) (world : World (Watched σ)) :
    erase (ask watched (Host.watching question) world) =
      ask nested question world.plain :=
  erase_perform herases (question world.host.host) _ world.coordinator

theorem erase_askVersion (herases : Erases watched nested) (id : BuildId)
    (source : SourceUnit) (world : World (Watched σ)) :
    erase (askVersion watched host.watched id source world) =
      askVersion nested host id source world.plain := by
  have hask : erase (ask watched (host.watched.versionOf source) world) =
      ask nested (host.versionOf source) world.plain :=
    erase_ask herases (host.versionOf source) world
  unfold askVersion
  rw [← hask]
  cases ask watched (host.watched.versionOf source) world with
  | mk asked answer => cases answer <;> rfl

theorem erase_readVersions (herases : Erases watched nested) (id : BuildId)
    (sources : List SourceUnit) (read : VersionMap)
    (world : World (Watched σ)) :
    erase (readVersions (askVersion watched host.watched id) sources read
        world) =
      readVersions (askVersion nested host id) sources read world.plain := by
  induction sources generalizing read world with
  | nil => rfl
  | cons source rest ih =>
      have hask : erase (askVersion watched host.watched id source world) =
          askVersion nested host id source world.plain :=
        erase_askVersion herases id source world
      unfold readVersions
      rw [← hask]
      cases askVersion watched host.watched id source world with
      | mk asked answer =>
          cases answer with
          | error reason => rfl
          | ok token => exact ih (read.put ⟨source, token⟩) asked

theorem erase_survey (herases : Erases watched nested) (id : BuildId)
    (baseline : Snapshot) (world : World (Watched σ)) :
    erase (survey watched host.watched id baseline world) =
      survey nested host id baseline world.plain := by
  have hask : erase (ask watched host.watched.allUnits world) =
      ask nested host.allUnits world.plain :=
    erase_ask herases host.allUnits world
  unfold survey
  rw [← hask]
  cases ask watched host.watched.allUnits world with
  | mk asked answer =>
      cases answer with
      | error fault => rfl
      | ok units =>
          have hread : readVersions (askVersion nested host id) units.entries ∅
              (asked.plain.note (.enumerated id units)) =
                erase (readVersions (askVersion watched host.watched id)
                  units.entries ∅ (asked.note (.enumerated id units))) :=
            (erase_readVersions herases id units.entries ∅
              (asked.note (.enumerated id units))).symm
          dsimp only [erase]
          rw [hread]
          cases readVersions (askVersion watched host.watched id) units.entries
              ∅ (asked.note (.enumerated id units)) with
          | mk surveyed answer => cases answer <;> rfl

theorem erase_visit (herases : Erases watched nested) (id : BuildId)
    (source : SourceUnit) (world : World (Watched σ)) :
    erase (visit watched host.watched id source world) =
      visit nested host id source world.plain := by
  have hask : erase (ask watched (host.watched.extract source) world) =
      ask nested (host.extract source) world.plain :=
    erase_ask herases (host.extract source) world
  unfold visit
  rw [← hask]
  change _ = if world.coordinator.isCancelled id then _ else _
  split <;> rfl

theorem erase_visitEach (herases : Erases watched nested) (id : BuildId)
    (sources : List SourceUnit) (world : World (Watched σ)) :
    erase (visitEach (visit watched host.watched id) sources world) =
      visitEach (visit nested host id) sources world.plain := by
  induction sources generalizing world with
  | nil => rfl
  | cons source rest ih =>
      have hvisit : erase (visit watched host.watched id source world) =
          visit nested host id source world.plain :=
        erase_visit herases id source world
      unfold visitEach
      rw [← hvisit]
      cases visit watched host.watched id source world with
      | mk visited outcome? =>
          dsimp only [erase]
          rw [← ih visited]
          cases outcome? <;> rfl

theorem erase_recompute (herases : Erases watched nested) (id : BuildId)
    (reparse : UnitSet) (valid : EdgeSet) (versions : VersionMap)
    (world : World (Watched σ)) :
    erase (recompute watched host.watched id reparse valid versions world) =
      recompute nested host id reparse valid versions world.plain := by
  have hvisits : visitEach (visit nested host id) reparse.entries
      (world.plain.withHost
        (host.resetProgress reparse.size world.plain.host)) =
        erase (visitEach (visit watched host.watched id) reparse.entries
          (world.withHost
            (host.watched.resetProgress reparse.size world.host))) :=
    (erase_visitEach herases id reparse.entries (world.withHost
      (host.watched.resetProgress reparse.size world.host))).symm
  unfold recompute
  dsimp only
  rw [hvisits]
  cases visitEach (visit watched host.watched id) reparse.entries
      (world.withHost
        (host.watched.resetProgress reparse.size world.host)) with
  | mk visited results =>
      dsimp only [erase]
      change _ = if visited.coordinator.isCancelled id then _ else _
      split <;> rfl

theorem erase_resolve (herases : Erases watched nested) (scope : ViewScope)
    (existing : UnitSet) (world : World (Watched σ)) :
    erase (resolve watched host.watched scope existing world) =
      resolve nested host scope existing world.plain := by
  have hunits : erase (ask watched (host.watched.unitsInScope scope) world) =
      ask nested (host.unitsInScope scope) world.plain :=
    erase_ask herases (host.unitsInScope scope) world
  unfold resolve
  rw [← hunits]
  cases ask watched (host.watched.unitsInScope scope) world with
  | mk asked answer =>
      cases answer with
      | error fault => rfl
      | ok requested =>
          have hmethods : erase (ask watched (host.watched.methodsInScope
              (ScopedUnits.part existing requested).known) asked) =
                ask nested (host.methodsInScope
                  (ScopedUnits.part existing requested).known) asked.plain :=
            erase_ask herases (host.methodsInScope _) asked
          dsimp only [erase]
          rw [← hmethods]
          cases ask watched (host.watched.methodsInScope
              (ScopedUnits.part existing requested).known) asked with
          | mk resolved answer => cases answer <;> rfl

theorem plain_present (herases : Erases watched nested) (id : BuildId)
    (graph : Graph) (world : World (Watched σ)) :
    (present watched host.watched id graph world).plain =
      present nested host id graph world.plain := by
  have hask := erase_ask herases (host.present graph)
    (world.withCoordinator (world.coordinator.present id))
  unfold present
  change _ = if world.coordinator.mayPresent id then _ else _
  split
  · exact congrArg Prod.fst hask
  · rfl

theorem erase_conclude (herases : Erases watched nested) (id : BuildId)
    (scope : ViewScope) (plan : Plan) (recomputed : Recomputed)
    (world : World (Watched σ)) :
    erase (conclude watched host.watched id scope plan recomputed world) =
      conclude nested host id scope plan recomputed world.plain := by
  have hcommit : world.plain.coordinator.commit? id recomputed.snapshot =
      world.coordinator.commit? id recomputed.snapshot := rfl
  unfold conclude
  rw [hcommit]
  cases world.coordinator.commit? id recomputed.snapshot with
  | none => rfl
  | some coordinator =>
      have hresolve : resolve nested host scope plan.units
          (world.plain.withCoordinator coordinator) =
            erase (resolve watched host.watched scope plan.units
              (world.withCoordinator coordinator)) :=
        (erase_resolve herases scope plan.units
          (world.withCoordinator coordinator)).symm
      dsimp only
      rw [hresolve]
      cases resolve watched host.watched scope plan.units
          (world.withCoordinator coordinator) with
      | mk resolved answer =>
          cases answer with
          | error reason => rfl
          | ok parts =>
              have hlayout : erase (ask watched (host.watched.layout
                  (project scope parts.1 coordinator.snapshot)) resolved) =
                    ask nested (host.layout
                      (project scope parts.1 coordinator.snapshot))
                      resolved.plain :=
                erase_ask herases (host.layout _) resolved
              dsimp only [erase]
              rw [plain_present herases, ← hlayout]
              rfl

theorem erase_run (herases : Erases watched nested) (id : BuildId)
    (scope : ViewScope) (world : World (Watched σ)) :
    erase (run watched host.watched id scope world) =
      run nested host id scope world.plain := by
  have hsurvey : survey nested host id world.plain.coordinator.snapshot
      world.plain = erase (survey watched host.watched id
        world.coordinator.snapshot world) :=
    (erase_survey herases id world.coordinator.snapshot world).symm
  unfold run
  rw [hsurvey]
  cases survey watched host.watched id world.coordinator.snapshot world with
  | mk surveyed answer =>
      cases answer with
      | error reason => rfl
      | ok plan =>
          have hrecompute : erase (recompute watched host.watched id
              plan.invalidation.reparse plan.invalidation.valid
              plan.changes.current surveyed) =
                recompute nested host id plan.invalidation.reparse
                  plan.invalidation.valid plan.changes.current
                  surveyed.plain :=
            erase_recompute herases id _ _ _ surveyed
          dsimp only [erase]
          rw [← hrecompute]
          cases recompute watched host.watched id plan.invalidation.reparse
              plan.invalidation.valid plan.changes.current surveyed with
          | mk ready recomputed? =>
              cases recomputed? with
              | none => rfl
              | some recomputed =>
                  exact erase_conclude herases id scope plan recomputed ready

theorem erase_runOnce (herases : Erases watched nested) (scope : ViewScope)
    (world : World (Watched σ)) :
    erase (runOnce watched host.watched scope world) =
      runOnce nested host scope world.plain := by
  cases hbegin : world.coordinator.begin with
  | mk id coordinator =>
      have hplain : world.plain.coordinator.begin = (id, coordinator) := hbegin
      have hrun : run nested host id scope
          (world.plain.withCoordinator coordinator) =
            erase (run watched host.watched id scope
              (world.withCoordinator coordinator)) :=
        (erase_run herases id scope (world.withCoordinator coordinator)).symm
      unfold runOnce
      rw [hbegin, hplain]
      dsimp only
      rw [hrun]
      rfl

theorem erases_nestedWithin (host : Host σ) (depth : Nat) :
    Erases (nestedWithin host.watched depth) (nestedWithin host depth) := by
  induction depth with
  | zero => exact fun _ _ => rfl
  | succ depth ih =>
      intro scope world
      have hrun : erase (runOnce (nestedWithin host.watched depth) host.watched
          scope world) = runOnce (nestedWithin host depth) host scope
            world.plain :=
        erase_runOnce ih scope world
      simp only [nestedWithin]
      rw [← hrun]
      rfl

end Build

namespace World

variable {σ : Type}

theorem plain_build (host : Host σ) (depth : Nat) (scope : ViewScope)
    (world : World (Watched σ)) :
    (world.build host.watched depth scope).1.plain =
      (world.plain.build host depth scope).1 :=
  congrArg Prod.fst
    (Build.erase_runOnce (Build.erases_nestedWithin host depth) scope world)

end World

end CallGraph
