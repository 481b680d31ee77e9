import CallGraph.Proofs.Build.Nesting

namespace CallGraph

/-! Hosts change while they are asked, and between builds.  `later` orders the
states that a host can come to; what is said of its answers is said along that
order. -/

structure Timeline {σ : Type} (later : σ → σ → Prop) : Prop where
  refl : ∀ state, later state state
  trans : ∀ {first middle last},
    later first middle → later middle last → later first last

namespace Activity

variable {σ α : Type} {later : σ → σ → Prop} {accepts : α → σ → Prop}

/-- From `start` on, the activity moves only to later states, whatever later
state the builds that it starts leave it in, and ends in an accepted one. -/
def Obeys (later : σ → σ → Prop) (accepts : α → σ → Prop) :
    σ → Activity σ α → Prop
  | start, .done host answer => later start host ∧ accepts answer host
  | start, .cancelRunning next => Obeys later accepts start next
  | start, .observe next =>
      ∀ coordinator, Obeys later accepts start (next coordinator)
  | start, .build host _ next =>
      later start host ∧
        ∀ after result?, later host after →
          Obeys later accepts after (next after result?)

theorem Obeys.mono {accepts' : α → σ → Prop} {start : σ}
    {activity : Activity σ α} (hobeys : activity.Obeys later accepts start)
    (haccepts : ∀ answer host, accepts answer host → accepts' answer host) :
    activity.Obeys later accepts' start := by
  induction activity generalizing start with
  | done host answer => exact ⟨hobeys.1, haccepts answer host hobeys.2⟩
  | cancelRunning next ih => exact ih hobeys
  | observe next ih =>
      exact fun coordinator => ih coordinator (hobeys coordinator)
  | build host scope next ih =>
      exact ⟨hobeys.1, fun after result? hafter =>
        ih after result? (hobeys.2 after result? hafter)⟩

theorem obeys_all (activity : Activity σ α) (start : σ) :
    activity.Obeys (fun _ _ => True) (fun _ _ => True) start := by
  induction activity generalizing start with
  | done host answer => exact ⟨trivial, trivial⟩
  | cancelRunning next ih => exact ih start
  | observe next ih => exact fun coordinator => ih coordinator start
  | build host scope next ih =>
      exact ⟨trivial, fun after result? _ => ih after result? after⟩

end Activity

namespace Build

variable {σ α : Type} {nested : Nested σ} {host : Host σ}
  {later : σ → σ → Prop} {accepts : α → σ → Prop}

theorem perform_obeys (htimeline : Timeline later)
    (hnested : ∀ scope world,
      later world.host (nested scope world).1.host)
    {activity : Activity σ α} {start : σ}
    (hobeys : activity.Obeys later accepts start) (coordinator : Coordinator) :
    later start (perform nested activity coordinator).1.host ∧
      accepts (perform nested activity coordinator).2
        (perform nested activity coordinator).1.host := by
  induction activity generalizing start coordinator with
  | done host answer => exact hobeys
  | cancelRunning next ih => exact ih hobeys coordinator.cancelRunning
  | observe next ih =>
      exact ih coordinator (hobeys coordinator) coordinator
  | build host scope next ih =>
      have hafter := hnested scope ⟨coordinator, host⟩
      obtain ⟨hlast, haccepts⟩ := ih _ _ (hobeys.2 _ _ hafter)
        (nested scope ⟨coordinator, host⟩).1.coordinator
      exact ⟨htimeline.trans hobeys.1 (htimeline.trans hafter hlast), haccepts⟩

/-- What nested builds and cancellation keep, every activity keeps. -/
theorem perform_keeps {P : Coordinator → Prop}
    (hcancel : ∀ coordinator, P coordinator → P coordinator.cancelRunning)
    (hnested : ∀ scope (world : World σ),
      P world.coordinator → P (nested scope world).1.coordinator)
    (activity : Activity σ α) {coordinator : Coordinator}
    (hholds : P coordinator) :
    P (perform nested activity coordinator).1.coordinator := by
  induction activity generalizing coordinator with
  | done host answer => exact hholds
  | cancelRunning next ih => exact ih (hcancel coordinator hholds)
  | observe next ih => exact ih coordinator hholds
  | build host scope next ih => exact ih _ _ (hnested scope _ hholds)

end Build

/-- A host all of whose doings are moves along the order. -/
structure Host.Follows {σ : Type} (host : Host σ) (later : σ → σ → Prop) :
    Prop where
  timeline : Timeline later
  asked : ∀ {α : Type} {question : σ → Activity σ α}, host.Asks question →
    ∀ start, (question start).Obeys later (fun _ _ => True) start
  resetProgress : ∀ total start, later start (host.resetProgress total start)
  countProgress : ∀ start, later start (host.countProgress start)

theorem Host.follows_all {σ : Type} (host : Host σ) :
    host.Follows fun _ _ => True where
  timeline := ⟨fun _ => trivial, fun _ _ => trivial⟩
  asked _ start := Activity.obeys_all _ start
  resetProgress _ _ := trivial
  countProgress _ := trivial

/-- A host that answers for its units: a version is one that the unit has had
while it was asked for, and an extraction gives what is to be found in the unit
at a version that it has had meanwhile. -/
structure Host.Truthful {σ : Type} (host : Host σ) (later : σ → σ → Prop)
    (token? : σ → SourceUnit → Option VersionToken)
    (found : SourceUnit → VersionToken → List Edge) : Prop where
  follows : host.Follows later
  versionOf : ∀ source start,
    (host.versionOf source start).Obeys later (fun answer last =>
      ∀ token, answer = .ok token →
        ∃ moment, later start moment ∧ later moment last ∧
          token? moment source = some token) start
  extract : ∀ source start,
    (host.extract source start).Obeys later (fun outcome last =>
      ∀ extraction, outcome = .ok extraction →
        ∃ moment token, later start moment ∧ later moment last ∧
          token? moment source = some token ∧
          extraction.edges = found source token) start

/-- What comes of a round against a truthful host: all versions were read before
anything was extracted. -/
structure Round.Told {σ : Type} (later : σ → σ → Prop)
    (token? : σ → SourceUnit → Option VersionToken)
    (found : SourceUnit → VersionToken → List Edge) (start surveyed ready : σ)
    (round : Round) : Prop where
  survey : later start surveyed
  recompute : later surveyed ready
  reads : ∀ version ∈ round.reads, ∃ moment, later start moment ∧
    later moment surveyed ∧ token? moment version.source = some version.token
  results : ∀ result ∈ round.results, ∀ extraction,
    result.outcome = .ok extraction → ∃ moment token, later surveyed moment ∧
      later moment ready ∧ token? moment result.source = some token ∧
      extraction.edges = found result.source token

namespace Build

variable {σ : Type} {nested : Nested σ} {host : Host σ}
  {later : σ → σ → Prop} {token? : σ → SourceUnit → Option VersionToken}
  {found : SourceUnit → VersionToken → List Edge}
  {Rel : World σ → World σ → Prop} {id : BuildId} {start ready : World σ}
  {round : Round}

theorem Gathered.told (hhost : host.Truthful later token? found)
    (hrel : ∀ {first last}, Rel first last → later first.host last.host)
    (hnested : ∀ scope world, later world.host (nested scope world).1.host)
    (hgathered : Gathered nested host Rel id start ready round) :
    ∃ surveyed, round.Told later token? found start.host surveyed
      ready.host := by
  have htimeline := hhost.follows.timeline
  obtain ⟨surveyed, hfirst, hlast, _, hreads, hresults⟩ := hgathered.answers
  refine ⟨surveyed.host, hrel hfirst, hrel hlast, ?_, ?_⟩
  · intro version hversion
    obtain ⟨asked, hbefore, hanswer, hafter⟩ := hreads version hversion
    obtain ⟨moment, hfrom, hto, htoken⟩ := (perform_obeys htimeline hnested
      (hhost.versionOf version.source asked.host) asked.coordinator).2
      version.token hanswer
    exact ⟨moment, htimeline.trans (hrel hbefore) hfrom,
      htimeline.trans hto (hrel hafter), htoken⟩
  · intro result hresult extraction houtcome
    obtain ⟨asked, hbefore, hanswer, hafter⟩ := hresults result hresult
    obtain ⟨moment, token, hfrom, hto, htoken, hedges⟩ :=
      (perform_obeys htimeline hnested
        (hhost.extract result.source asked.host) asked.coordinator).2
        extraction (hanswer.trans houtcome)
    exact ⟨moment, token, htimeline.trans (hrel hbefore) hfrom,
      htimeline.trans hto (hrel hafter), htoken, hedges⟩

end Build

/-- The worlds that come about when builds run, and are cancelled, with edits of
the host between them. -/
inductive World.Reaches {σ : Type} (host : Host σ) (edits : σ → σ → Prop)
    (start : World σ) : World σ → Prop where
  | start : Reaches host edits start start
  | edit {world : World σ} {state : σ}
      (hreaches : Reaches host edits start world) (hedit : edits world.host state) :
      Reaches host edits start (world.withHost state)
  | build {world : World σ} (hreaches : Reaches host edits start world)
      (depth : Nat) (scope : ViewScope) :
      Reaches host edits start (world.build host depth scope).1
  | cancel {world : World σ} (hreaches : Reaches host edits start world) :
      Reaches host edits start
        (world.withCoordinator world.coordinator.cancelRunning)

end CallGraph
