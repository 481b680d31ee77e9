import CallGraph.Proofs.Build.Frame

namespace CallGraph.Build

open BuildLog (record latest)

variable {σ : Type} {nested : Nested σ} {host : Host σ}
  {Rel : World σ → World σ → Prop} {id : BuildId}

theorem readVersions_passes (horderly : Orderly nested)
    (hframe : Frame nested host Rel) (sources : List SourceUnit)
    (read : VersionMap) {world last : World σ}
    {result : Except BuildError VersionMap}
    (hid : id < world.coordinator.nextId)
    (hread : readVersions (askVersion nested host id) sources read world =
      (last, result)) :
    ∃ reads : List UnitVersion,
      Passes Rel id (reads.map (.versionRead id)) world last ∧
      (∀ version ∈ reads, Answered nested Rel (host.versionOf version.source)
        (.ok version.token) world last) ∧
      ((∃ source fault, result = .error (.version source fault) ∧
          Answered nested Rel (host.versionOf source) (.error fault) world
            last ∧
          ∃ rest, sources = reads.map UnitVersion.source ++ source :: rest) ∨
        reads.map UnitVersion.source = sources ∧
          result = .ok (read.putAll reads)) := by
  induction sources generalizing read world with
  | nil =>
      obtain ⟨rfl, rfl⟩ := Prod.mk.inj hread
      exact ⟨[], Passes.refl hframe world, nofun, Or.inr ⟨rfl, rfl⟩⟩
  | cons source rest ih =>
      have hasks := Passes.ask horderly hframe (.versionOf source) hid
      cases hask : ask nested (host.versionOf source) world with
      | mk asked answer =>
          rw [hask] at hasks
          cases answer with
          | error fault =>
              simp only [readVersions, askVersion, hask] at hread
              obtain ⟨rfl, rfl⟩ := Prod.mk.inj hread
              refine ⟨[], hasks, nofun,
                Or.inl ⟨source, fault, rfl, ?_, rest, rfl⟩⟩
              exact ⟨world, hframe.refl world, by rw [hask],
                by rw [hask]; exact hframe.refl asked⟩
          | ok token =>
              simp only [readVersions, askVersion, hask] at hread
              have hasked := hasks.numbered hid
              have hnote : Passes Rel id [.versionRead id ⟨source, token⟩] asked
                  (asked.note (.versionRead id ⟨source, token⟩)) :=
                Passes.note hframe hasked rfl rfl
              obtain ⟨reads, hrest, hanswered, hended⟩ :=
                ih (read.put ⟨source, token⟩) (hnote.numbered hasked) hread
              have hfirst := hasks.trans hframe hnote
              refine ⟨⟨source, token⟩ :: reads, hfirst.trans hframe hrest,
                ?_, ?_⟩
              · intro version hversion
                rcases List.mem_cons.mp hversion with rfl | hversion
                · refine ⟨world, hframe.refl world, by rw [hask], ?_⟩
                  rw [hask]
                  exact hframe.trans hnote.related hrest.related
                · exact (hanswered version hversion).widen hframe
                    hfirst.related (hframe.refl last)
              · refine hended.imp ?_ ?_
                · rintro ⟨source', fault, rfl, hanswer, after, rfl⟩
                  exact ⟨source', fault, rfl, hanswer.widen hframe
                    hfirst.related (hframe.refl last), after, rfl⟩
                · rintro ⟨rfl, rfl⟩
                  exact ⟨rfl, rfl⟩

theorem survey_passes (horderly : Orderly nested)
    (hframe : Frame nested host Rel) (baseline : Snapshot)
    {world last : World σ} {result : Except BuildError Plan}
    (hid : id < world.coordinator.nextId)
    (hsurvey : survey nested host id baseline world = (last, result)) :
    (∃ fault, result = .error (.enumeration fault) ∧
      Answered nested Rel host.allUnits (.error fault) world last ∧
      Passes Rel id [] world last) ∨
    ∃ (units : UnitSet) (reads : List UnitVersion),
      Passes Rel id
        (.enumerated id units :: reads.map (.versionRead id)) world last ∧
      AnsweredAtOnce nested Rel host.allUnits (.ok units) world last ∧
      (∀ version ∈ reads, Answered nested Rel (host.versionOf version.source)
        (.ok version.token) world last) ∧
      ((∃ source fault, result = .error (.version source fault) ∧
          Answered nested Rel (host.versionOf source) (.error fault) world
            last ∧
          ∃ rest,
            units.entries = reads.map UnitVersion.source ++ source :: rest) ∨
        reads.map UnitVersion.source = units.entries ∧
          result = .ok (Plan.against baseline units
            (KeyedSet.putAll ∅ reads))) := by
  have hasks := Passes.ask horderly hframe .allUnits hid
  cases hask : ask nested host.allUnits world with
  | mk asked answer =>
      rw [hask] at hasks
      cases answer with
      | error fault =>
          simp only [survey, hask] at hsurvey
          obtain ⟨rfl, rfl⟩ := Prod.mk.inj hsurvey
          refine Or.inl ⟨fault, rfl, ⟨world, hframe.refl world, by rw [hask],
            by rw [hask]; exact hframe.refl asked⟩, hasks⟩
      | ok units =>
          have hasked := hasks.numbered hid
          have hnote : Passes Rel id [.enumerated id units] asked
              (asked.note (.enumerated id units)) :=
            Passes.note hframe hasked rfl rfl
          have hfirst := hasks.trans hframe hnote
          cases hread : readVersions (askVersion nested host id) units.entries ∅
              (asked.note (.enumerated id units)) with
          | mk read outcome =>
              obtain ⟨reads, hrest, hanswered, hended⟩ :=
                readVersions_passes horderly hframe units.entries ∅
                  (hnote.numbered hasked) hread
              have hlast : last = read := by
                cases outcome <;> simp only [survey, hask, hread] at hsurvey <;>
                  exact (Prod.mk.inj hsurvey).1.symm
              subst hlast
              refine Or.inr ⟨units, reads, hfirst.trans hframe hrest,
                ?_, ?_, ?_⟩
              · refine ⟨by rw [hask], ?_⟩
                rw [hask]
                exact hframe.trans hnote.related hrest.related
              · intro version hversion
                exact (hanswered version hversion).widen hframe hfirst.related
                  (hframe.refl last)
              · rcases hended with
                  ⟨source, fault, rfl, hanswer, hrest⟩ | ⟨hreads, rfl⟩
                · simp only [survey, hask, hread] at hsurvey
                  exact Or.inl ⟨source, fault, (Prod.mk.inj hsurvey).2.symm,
                    hanswer.widen hframe hfirst.related (hframe.refl last),
                    hrest⟩
                · simp only [survey, hask, hread] at hsurvey
                  exact Or.inr ⟨hreads, (Prod.mk.inj hsurvey).2.symm⟩

theorem visit_passes (horderly : Orderly nested)
    (hframe : Frame nested host Rel) (source : SourceUnit)
    {world last : World σ} {outcome? : Option Outcome}
    (hid : id < world.coordinator.nextId)
    (hvisit : visit nested host id source world = (last, outcome?)) :
    (outcome? = none ∧ last = world ∧
      world.coordinator.isCancelled id = true) ∨
    ∃ outcome, outcome? = some outcome ∧
      Passes Rel id [.extracted id source] world last ∧
      Answered nested Rel (host.extract source) outcome world last := by
  unfold visit at hvisit
  split at hvisit
  · rename_i hcancelled
    obtain ⟨rfl, rfl⟩ := Prod.mk.inj hvisit
    exact Or.inl ⟨rfl, rfl, hcancelled⟩
  · have hasks := Passes.ask horderly hframe (.extract source) hid
    cases hask : ask nested (host.extract source) world with
    | mk asked outcome =>
        rw [hask] at hasks
        simp only [hask] at hvisit
        obtain ⟨rfl, rfl⟩ := Prod.mk.inj hvisit
        have hcounted : Passes Rel id [] asked
            (asked.withHost (host.countProgress asked.host)) :=
          Passes.ofHost (hframe.countProgress asked)
        have hasked := hcounted.numbered (hasks.numbered hid)
        have hnote : Passes Rel id [.extracted id source]
            (asked.withHost (host.countProgress asked.host))
            ((asked.withHost (host.countProgress asked.host)).note
              (.extracted id source)) :=
          Passes.note hframe hasked rfl rfl
        have hlast := hcounted.trans hframe hnote
        refine Or.inr ⟨outcome, rfl, hasks.trans hframe hlast, world,
          hframe.refl world, by rw [hask], ?_⟩
        rw [hask]
        exact hlast.related

theorem visitEach_passes (horderly : Orderly nested)
    (hframe : Frame nested host Rel) (sources : List SourceUnit)
    {world last : World σ} {results : List UnitOutcome}
    (hid : id < world.coordinator.nextId)
    (hvisits : visitEach (visit nested host id) sources world =
      (last, results)) :
    Passes Rel id (results.map fun result => .extracted id result.source) world
      last ∧
    (∀ result ∈ results, Answered nested Rel (host.extract result.source)
      result.outcome world last) ∧
    (last.coordinator.isCancelled id = false →
      results.map UnitOutcome.source = sources) := by
  induction sources generalizing world results with
  | nil =>
      obtain ⟨rfl, rfl⟩ := Prod.mk.inj hvisits
      exact ⟨Passes.refl hframe world, nofun, fun _ => rfl⟩
  | cons source rest ih =>
      cases hvisit : visit nested host id source world with
      | mk visited outcome? =>
          cases hothers : visitEach (visit nested host id) rest visited with
          | mk after others =>
              simp only [visitEach, hvisit, hothers] at hvisits
              rcases visit_passes horderly hframe source hid hvisit with
                ⟨rfl, rfl, hcancelled⟩ | ⟨outcome, rfl, hfirst, hanswer⟩
              · obtain ⟨rfl, rfl⟩ := Prod.mk.inj hvisits
                obtain ⟨hrest, hanswered, _⟩ := ih hid hothers
                refine ⟨hrest, hanswered, fun hcurrent => ?_⟩
                obtain ⟨later, hlater, _⟩ := hrest.grows
                -- Whoever is passed over was cancelled, and stays cancelled.
                rw [hlater.cancelled id hcancelled] at hcurrent
                contradiction
              · obtain ⟨rfl, rfl⟩ := Prod.mk.inj hvisits
                obtain ⟨hrest, hanswered, hall⟩ :=
                  ih (hfirst.numbered hid) hothers
                refine ⟨hfirst.trans hframe hrest, ?_, fun hcurrent => ?_⟩
                · intro result hresult
                  rcases List.mem_cons.mp hresult with rfl | hresult
                  · exact hanswer.widen hframe (hframe.refl world) hrest.related
                  · exact (hanswered result hresult).widen hframe
                      hfirst.related (hframe.refl after)
                · exact congrArg (source :: ·) (hall hcurrent)

theorem recompute_passes (horderly : Orderly nested)
    (hframe : Frame nested host Rel) (reparse : UnitSet) (valid : EdgeSet)
    (versions : VersionMap) {world last : World σ}
    {result? : Option Recomputed} (hid : id < world.coordinator.nextId)
    (hrecompute : recompute nested host id reparse valid versions world =
      (last, result?)) :
    ∃ results : List UnitOutcome,
      Passes Rel id (results.map fun result => .extracted id result.source)
        world last ∧
      (∀ result ∈ results, Answered nested Rel (host.extract result.source)
        result.outcome world last) ∧
      (result? = none ∧ last.coordinator.isCancelled id = true ∨
        results.map UnitOutcome.source = reparse.entries ∧
          result? = some (Recomputed.merge valid versions results) ∧
          last.coordinator.isCancelled id = false) := by
  have hreset : Passes Rel id [] world
      (world.withHost (host.resetProgress reparse.size world.host)) :=
    Passes.ofHost (hframe.resetProgress reparse.size world)
  cases hvisits : visitEach (visit nested host id) reparse.entries
      (world.withHost (host.resetProgress reparse.size world.host)) with
  | mk visited results =>
      simp only [recompute, hvisits] at hrecompute
      obtain ⟨hrest, hanswered, hall⟩ := visitEach_passes horderly hframe
        reparse.entries (hreset.numbered hid) hvisits
      have hlast : last = visited := by
        split at hrecompute <;> exact (Prod.mk.inj hrecompute).1.symm
      subst hlast
      refine ⟨results, hreset.trans hframe hrest, ?_, ?_⟩
      · intro result hresult
        exact (hanswered result hresult).widen hframe hreset.related
          (hframe.refl last)
      · split at hrecompute
        · rename_i hcancelled
          exact Or.inl ⟨(Prod.mk.inj hrecompute).2.symm, hcancelled⟩
        · rename_i hcurrent
          have hcurrent := Bool.eq_false_iff.mpr hcurrent
          exact Or.inr ⟨hall hcurrent, (Prod.mk.inj hrecompute).2.symm,
            hcurrent⟩

/-- What a build has done by the time it commits. -/
structure Gathered (nested : Nested σ) (host : Host σ)
    (Rel : World σ → World σ → Prop) (id : BuildId) (start ready : World σ)
    (round : Round) : Prop where
  fits : round.Fits start.coordinator.snapshot
  passes : Passes Rel id (round.record id) start ready
  answers : ∃ surveyed, Rel start surveyed ∧ Rel surveyed ready ∧
    AnsweredAtOnce nested Rel host.allUnits (.ok round.units) start surveyed ∧
    (∀ version ∈ round.reads, Answered nested Rel
      (host.versionOf version.source) (.ok version.token) start surveyed) ∧
    ∀ result ∈ round.results, Answered nested Rel (host.extract result.source)
      result.outcome surveyed ready
  current : ready.coordinator.isCancelled id = false

inductive Resolved (nested : Nested σ) (host : Host σ)
    (Rel : World σ → World σ → Prop) (scope : ViewScope) (existing : UnitSet)
    (first last : World σ) :
    Except BuildError (List Method × Option UnknownUnits) → Prop where
  | unlisted (fault : Fault)
      (units : Answered nested Rel (host.unitsInScope scope) (.error fault)
        first last) :
      Resolved nested host Rel scope existing first last (.error (.scope fault))
  | unresolved (requested : UnitSet) (fault : Fault)
      (units : Answered nested Rel (host.unitsInScope scope) (.ok requested)
        first last)
      (methods : Answered nested Rel (host.methodsInScope
        (ScopedUnits.part existing requested).known) (.error fault) first last) :
      Resolved nested host Rel scope existing first last (.error (.scope fault))
  | resolved (requested : UnitSet) (found : List Method)
      (units : Answered nested Rel (host.unitsInScope scope) (.ok requested)
        first last)
      (methods : Answered nested Rel (host.methodsInScope
        (ScopedUnits.part existing requested).known) (.ok found) first last) :
      Resolved nested host Rel scope existing first last
        (.ok (found, (ScopedUnits.part existing requested).unknown))

theorem resolve_passes (horderly : Orderly nested)
    (hframe : Frame nested host Rel) (scope : ViewScope) (existing : UnitSet)
    {world last : World σ}
    {result : Except BuildError (List Method × Option UnknownUnits)}
    (hid : id < world.coordinator.nextId)
    (hresolve : resolve nested host scope existing world = (last, result)) :
    Passes Rel id [] world last ∧
      Resolved nested host Rel scope existing world last result := by
  have hunits := Passes.ask horderly hframe (.unitsInScope scope) hid
  cases hask : ask nested (host.unitsInScope scope) world with
  | mk asked answer =>
      rw [hask] at hunits
      have hfirst : ∀ {later}, Rel asked later →
          Answered nested Rel (host.unitsInScope scope) answer world later :=
        fun hlater => ⟨world, hframe.refl world, by rw [hask], by rwa [hask]⟩
      cases answer with
      | error fault =>
          simp only [resolve, hask] at hresolve
          obtain ⟨rfl, rfl⟩ := Prod.mk.inj hresolve
          exact ⟨hunits, .unlisted fault (hfirst (hframe.refl asked))⟩
      | ok requested =>
          have hmethods := Passes.ask horderly hframe
            (.methodsInScope (ScopedUnits.part existing requested).known)
            (hunits.numbered hid)
          have hlast := hunits.trans hframe hmethods
          cases hask' : ask nested (host.methodsInScope
              (ScopedUnits.part existing requested).known) asked with
          | mk resolved answer =>
              rw [hask'] at hlast hmethods
              have hsecond : Answered nested Rel (host.methodsInScope
                  (ScopedUnits.part existing requested).known) answer world
                  resolved :=
                ⟨asked, hunits.related, by rw [hask'],
                  by rw [hask']; exact hframe.refl resolved⟩
              cases answer with
              | error fault =>
                  simp only [resolve, hask, hask'] at hresolve
                  obtain ⟨rfl, rfl⟩ := Prod.mk.inj hresolve
                  exact ⟨hlast, .unresolved requested fault
                    (hfirst hmethods.related) hsecond⟩
              | ok methods =>
                  simp only [resolve, hask, hask'] at hresolve
                  obtain ⟨rfl, rfl⟩ := Prod.mk.inj hresolve
                  exact ⟨hlast, .resolved requested methods
                    (hfirst hmethods.related) hsecond⟩

theorem present_passes (horderly : Orderly nested)
    (hframe : Frame nested host Rel) (graph : Graph) {world : World σ}
    (hid : id < world.coordinator.nextId)
    (hcommitted : world.coordinator.isCancelled id = false →
      world.coordinator.HasJustCommitted id) :
    ∃ own, (∀ event ∈ own, event = .presented id) ∧
      Passes Rel id own world (present nested host id graph world) := by
  unfold present
  split
  · rename_i hmay
    have hcurrent : world.coordinator.isCancelled id = false := by
      simpa [Coordinator.mayPresent] using hmay
    have hnote : Passes Rel id [.presented id] world
        (world.note (.presented id)) :=
      Passes.noted rfl rfl
        (hframe.presented (hcommitted hcurrent) hid hcurrent)
    have hasks := Passes.ask horderly hframe (.present graph)
      (hnote.numbered hid)
    exact ⟨[.presented id], fun _ => List.mem_singleton.mp,
      hnote.trans hframe hasks⟩
  · exact ⟨[], nofun, Passes.refl hframe world⟩

/-- The answer of a build that has committed. -/
inductive Reported (nested : Nested σ) (host : Host σ)
    (Rel : World σ → World σ → Prop) (id : BuildId) (scope : ViewScope)
    (units : UnitSet) (snapshot : Snapshot) (stats : BuildStats)
    (failures : List AnalysisFailure) (first last : World σ) :
    BuildResult → Prop where
  | unresolved (fault : Fault)
      (resolved : Resolved nested host Rel scope units first last
        (.error (.scope fault))) :
      Reported nested host Rel id scope units snapshot stats failures first last
        (.error (.scope fault))
  | shown (methods : List Method) (unknown : Option UnknownUnits)
      (graph : Graph)
      (resolved : Resolved nested host Rel scope units first last
        (.ok (methods, unknown)))
      (laidOut : Answered nested Rel
        (host.layout (project scope methods snapshot)) graph first last) :
      Reported nested host Rel id scope units snapshot stats failures first last
        (.ok ⟨id, .committed snapshot graph, stats, failures, unknown⟩)

def commitIn (world : World σ) (id : BuildId) (next : Snapshot) : World σ :=
  world.withCoordinator (world.coordinator.committing id next)

theorem Resolved.widen {scope : ViewScope} {existing : UnitSet}
    {first last last' : World σ}
    {result : Except BuildError (List Method × Option UnknownUnits)}
    (hframe : Frame nested host Rel)
    (hresolved : Resolved nested host Rel scope existing first last result)
    (hlast : Rel last last') :
    Resolved nested host Rel scope existing first last' result := by
  have hfirst := hframe.refl first
  cases hresolved with
  | unlisted fault hunits =>
      exact .unlisted fault (hunits.widen hframe hfirst hlast)
  | unresolved requested fault hunits hmethods =>
      exact .unresolved requested fault (hunits.widen hframe hfirst hlast)
        (hmethods.widen hframe hfirst hlast)
  | resolved requested found hunits hmethods =>
      exact .resolved requested found (hunits.widen hframe hfirst hlast)
        (hmethods.widen hframe hfirst hlast)

theorem conclude_passes (horderly : Orderly nested)
    (hframe : Frame nested host Rel) (scope : ViewScope) (plan : Plan)
    (recomputed : Recomputed) {world last : World σ} {result : BuildResult}
    (hid : id < world.coordinator.nextId)
    (hinFlight : world.coordinator.inFlight = some id)
    (halone : BuildLog.EndsAlone id world.coordinator.events)
    (hcurrent : world.coordinator.isCancelled id = false)
    (hconclude : conclude nested host id scope plan recomputed world =
      (last, result)) :
    (∃ own, (∀ event ∈ own, event = .presented id) ∧
      Passes Rel id own
        (commitIn world id
          (recomputed.snapshot.succeeding world.coordinator.snapshot)) last) ∧
    Reported nested host Rel id scope plan.units
      (recomputed.snapshot.succeeding world.coordinator.snapshot)
      (plan.stats recomputed.fresh) recomputed.failures
      (commitIn world id
        (recomputed.snapshot.succeeding world.coordinator.snapshot))
      last result := by
  simp only [conclude, Coordinator.commit?_of_current hcurrent] at hconclude
  have hcommitted : id < (commitIn world id (recomputed.snapshot.succeeding
      world.coordinator.snapshot)).coordinator.nextId := hid
  cases hresolve : resolve nested host scope plan.units
      (commitIn world id (recomputed.snapshot.succeeding
        world.coordinator.snapshot)) with
  | mk resolved answer =>
      unfold commitIn at hresolve
      rw [hresolve] at hconclude
      obtain ⟨hfirst, hresolved⟩ :=
        resolve_passes horderly hframe scope plan.units hcommitted hresolve
      cases answer with
      | error reason =>
          obtain ⟨rfl, rfl⟩ := Prod.mk.inj hconclude
          refine ⟨⟨[], nofun, hfirst⟩, ?_⟩
          cases hresolved with
          | unlisted fault hunits =>
              exact .unresolved fault (.unlisted fault hunits)
          | unresolved requested fault hunits hmethods =>
              exact .unresolved fault
                (.unresolved requested fault hunits hmethods)
      | ok parts =>
          obtain ⟨methods, unknown⟩ := parts
          obtain ⟨rfl, rfl⟩ := Prod.mk.inj hconclude
          have hnumbered := hfirst.numbered hcommitted
          have hlayout := Passes.ask horderly hframe
            (.layout (project scope methods
              (recomputed.snapshot.succeeding world.coordinator.snapshot)))
            hnumbered
          have hbefore := hfirst.trans hframe hlayout
          obtain ⟨own, hquiet, hpresent⟩ := present_passes horderly hframe _
            (hlayout.numbered hnumbered) fun hstill => by
              obtain ⟨hevents, _, _⟩ := hbefore.undisturbed hinFlight hstill
              exact ⟨_, _, halone, hevents.trans (List.append_nil _)⟩
          refine ⟨⟨own, hquiet, hbefore.trans hframe hpresent⟩,
            .shown methods unknown _
              (hresolved.widen hframe
                (hframe.trans hlayout.related hpresent.related)) ?_⟩
          exact ⟨resolved, hfirst.related, rfl, hpresent.related⟩

/-- The answer of a build that ended before its commit, and why it did. -/
inductive Stopped (nested : Nested σ) (host : Host σ)
    (Rel : World σ → World σ → Prop) (id : BuildId) (first last : World σ) :
    BuildResult → Prop where
  | unlisted (fault : Fault)
      (units : Answered nested Rel host.allUnits (.error fault) first last) :
      Stopped nested host Rel id first last (.error (.enumeration fault))
  | unread (units : UnitSet) (reads : List UnitVersion) (source : SourceUnit)
      (rest : List SourceUnit) (fault : Fault)
      (enumerated : AnsweredAtOnce nested Rel host.allUnits (.ok units) first
        last)
      (before : ∀ version ∈ reads, Answered nested Rel
        (host.versionOf version.source) (.ok version.token) first last)
      (failed : Answered nested Rel (host.versionOf source) (.error fault)
        first last)
      (order : units.entries =
        reads.map UnitVersion.source ++ source :: rest) :
      Stopped nested host Rel id first last (.error (.version source fault))
  | cancelled (stats : BuildStats)
      (cancelled : last.coordinator.isCancelled id = true) :
      Stopped nested host Rel id first last (.ok (.ofCancelled id stats))

/-- A build that has begun either stops or commits what it gathered, and notes
nothing after its commit but that it presents. -/
inductive Course (nested : Nested σ) (host : Host σ)
    (Rel : World σ → World σ → Prop) (id : BuildId) (scope : ViewScope)
    (start last : World σ) : BuildResult → Prop where
  | stopped {own : List BuildEvent} {result : BuildResult}
      (passes : Passes Rel id own start last)
      (quiet : ∀ event ∈ own, event.isCommit = false)
      (answer : Stopped nested host Rel id start last result) :
      Course nested host Rel id scope start last result
  | committed {round : Round} {ready : World σ} {own : List BuildEvent}
      {result : BuildResult}
      (gathered : Gathered nested host Rel id start ready round)
      (passes : Passes Rel id own
        (commitIn ready id (round.snapshot start.coordinator.snapshot)) last)
      (quiet : ∀ event ∈ own, event = .presented id)
      (answer : Reported nested host Rel id scope round.units
        (round.snapshot start.coordinator.snapshot)
        ((round.plan start.coordinator.snapshot).stats
          (round.merged start.coordinator.snapshot).fresh)
        (round.merged start.coordinator.snapshot).failures
        (commitIn ready id (round.snapshot start.coordinator.snapshot)) last
        result) :
      Course nested host Rel id scope start last result

theorem step_of_record (round : Round) :
    ∀ event ∈ round.record id, event.isStep = true ∧ event.build = id := by
  intro event hevent
  simp only [Round.record, List.cons_append, List.mem_cons, List.mem_append,
    List.mem_map] at hevent
  rcases hevent with rfl | ⟨version, _, rfl⟩ | ⟨result, _, rfl⟩ <;>
    exact ⟨rfl, rfl⟩

theorem quiet_of_record (round : Round) :
    ∀ event ∈ round.record id, event.isCommit = false :=
  fun event hevent =>
    BuildEvent.not_commit_of_isStep (step_of_record round event hevent).1

/-- A build that is not cancelled by the time it commits was the only one at
work since it began. -/
theorem Gathered.undisturbed {start ready : World σ} {round : Round}
    (hgathered : Gathered nested host Rel id start ready round)
    (hinFlight : start.coordinator.inFlight = some id) :
    ready.coordinator.events =
        start.coordinator.events ++ round.record id ∧
      ready.coordinator.snapshot = start.coordinator.snapshot ∧
      ready.coordinator.inFlight = some id := by
  obtain ⟨hevents, hsnapshot, hkept⟩ :=
    hgathered.passes.undisturbed hinFlight hgathered.current
  exact ⟨hevents,
    hsnapshot.trans (BuildLog.latest_of_no_commit (quiet_of_record round)),
    hkept⟩

theorem run_course (horderly : Orderly nested) (hframe : Frame nested host Rel)
    (scope : ViewScope) {start last : World σ} {result : BuildResult}
    (hid : id < start.coordinator.nextId)
    (hinFlight : start.coordinator.inFlight = some id)
    (hbegan : ∃ earlier, start.coordinator.events = earlier ++ [.began id])
    (hrun : run nested host id scope start = (last, result)) :
    Course nested host Rel id scope start last result := by
  cases hsurvey : survey nested host id start.coordinator.snapshot start with
  | mk surveyed outcome =>
      rcases survey_passes horderly hframe start.coordinator.snapshot hid
          hsurvey with
        ⟨fault, rfl, hunits, hpasses⟩ |
          ⟨units, reads, hfirst, hunits, hread, hended⟩
      · simp only [run, hsurvey] at hrun
        obtain ⟨rfl, rfl⟩ := Prod.mk.inj hrun
        exact .stopped hpasses nofun (.unlisted fault hunits)
      · rcases hended with
          ⟨source, fault, rfl, hfailed, rest, horder⟩ | ⟨hreads, rfl⟩
        · simp only [run, hsurvey] at hrun
          obtain ⟨rfl, rfl⟩ := Prod.mk.inj hrun
          refine .stopped hfirst ?_
            (.unread units reads source rest fault hunits hread hfailed horder)
          simp [BuildEvent.isCommit]
        · cases hrecompute : recompute nested host id
              (Plan.against start.coordinator.snapshot units
                (KeyedSet.putAll ∅ reads)).invalidation.reparse
              (Plan.against start.coordinator.snapshot units
                (KeyedSet.putAll ∅ reads)).invalidation.valid
              (Plan.against start.coordinator.snapshot units
                (KeyedSet.putAll ∅ reads)).changes.current surveyed with
          | mk ready recomputed? =>
              simp only [run, hsurvey, hrecompute] at hrun
              obtain ⟨results, hrest, hanswered, hended⟩ :=
                recompute_passes horderly hframe _ _ _ (hfirst.numbered hid)
                  hrecompute
              have hready := hfirst.trans hframe hrest
              rcases hended with ⟨rfl, hcancelled⟩ | ⟨hresults, rfl, hcurrent⟩
              · obtain ⟨rfl, rfl⟩ := Prod.mk.inj hrun
                exact .stopped hready (quiet_of_record ⟨units, reads, results⟩)
                  (.cancelled _ hcancelled)
              · have hgathered : Gathered nested host Rel id start ready
                    ⟨units, reads, results⟩ :=
                  ⟨⟨hreads, hresults⟩, hready,
                    ⟨surveyed, hfirst.related, hrest.related, hunits, hread,
                      hanswered⟩, hcurrent⟩
                obtain ⟨hevents, hsnapshot, hkept⟩ :=
                  hgathered.undisturbed hinFlight
                have halone :
                    BuildLog.EndsAlone id ready.coordinator.events := by
                  obtain ⟨earlier, hearlier⟩ := hbegan
                  exact ⟨earlier, _, by rw [hevents, hearlier]; simp,
                    step_of_record ⟨units, reads, results⟩⟩
                obtain ⟨⟨own, hquiet, hafter⟩, hreported⟩ :=
                  conclude_passes horderly hframe scope _ _
                    (hready.numbered hid) hkept halone hcurrent hrun
                rw [hsnapshot] at hafter hreported
                exact .committed hgathered hafter hquiet hreported

end CallGraph.Build
