import CallGraph.Proofs.Build.Consistency
import CallGraph.Proofs.Build.Table
import CallGraph.Proofs.Build.Watch

namespace CallGraph

/-- A unit does not come back to a version that it has left. -/
def NeverReturns {σ : Type} (later : σ → σ → Prop)
    (token? : σ → SourceUnit → Option VersionToken) : Prop :=
  ∀ {source first middle last token seen},
    later first middle → later middle last →
    token? first source = some token → token? middle source = some seen →
    token? last source = some token → seen = token

/-- Every call of the current snapshot whose unit has the recorded version is to
be found in the unit at that version. -/
def World.HoldsCurrentCalls {σ : Type}
    (token? : σ → SourceUnit → Option VersionToken)
    (found : SourceUnit → VersionToken → List Edge) (world : World σ) : Prop :=
  ∀ edge ∈ world.coordinator.snapshot.edges, ∀ token,
    ⟨edge.caller.source, token⟩ ∈ world.coordinator.snapshot.versions →
    token? world.host edge.caller.source = some token →
    edge ∈ found edge.caller.source token

/-- A snapshot whose calls will be right whenever, from a state of the host on,
their units have the recorded versions. -/
structure Snapshot.IsVouched {σ : Type} (later : σ → σ → Prop)
    (token? : σ → SourceUnit → Option VersionToken)
    (found : SourceUnit → VersionToken → List Edge) (state : σ)
    (snapshot : Snapshot) : Prop where
  consistent : snapshot.isSelfConsistent = true
  calls : ∀ {after}, later state after → ∀ edge ∈ snapshot.edges, ∀ token,
    ⟨edge.caller.source, token⟩ ∈ snapshot.versions →
    token? after edge.caller.source = some token →
    edge ∈ found edge.caller.source token

namespace Snapshot.IsVouched

variable {σ : Type} {later : σ → σ → Prop}
  {token? : σ → SourceUnit → Option VersionToken}
  {found : SourceUnit → VersionToken → List Edge} {state after : σ}
  {snapshot : Snapshot}

theorem initial : Snapshot.initial.IsVouched later token? found state :=
  ⟨rfl, fun _ _ hedge => absurd hedge KeyedSet.not_mem_empty⟩

theorem move (hvouched : snapshot.IsVouched later token? found state)
    (htimeline : Timeline later) (hafter : later state after) :
    snapshot.IsVouched later token? found after :=
  ⟨hvouched.consistent, fun hlast =>
    hvouched.calls (htimeline.trans hafter hlast)⟩

/-- The round keeps what has not moved.  What it found it found at the version
that it had read before, or at one that the unit had left that version for. -/
theorem round {start surveyed ready : σ} {round : Round} {baseline : Snapshot}
    (hvouched : baseline.IsVouched later token? found start)
    (htimeline : Timeline later) (hnever : NeverReturns later token?)
    (hcallers : ∀ {source token edge}, edge ∈ found source token →
      edge.caller.source = source)
    (hfits : round.Fits baseline)
    (htold : round.Told later token? found start surveyed ready) :
    (round.snapshot baseline).IsVouched later token? found ready where
  consistent := Round.snapshot_isSelfConsistent hvouched.consistent
  calls {after} hafter edge hedge token hrecorded htoken := by
    rcases Round.valid_or_found hedge with hvalid | ⟨hfound, _⟩
    · have hprior := (Round.mem_valid_iff.mp hvalid).1
      have hunmoved :=
        (Round.unmoved_of_mem_valid hvouched.consistent hvalid hrecorded).1
      have hstart : later start after := htimeline.trans
        (htimeline.trans htold.survey htold.recompute) hafter
      exact hvouched.calls hstart edge hprior token hunmoved htoken
    · obtain ⟨result, hresult, extraction, houtcome, hmem⟩ :=
        Recomputed.mem_foundEdges.mp hfound
      obtain ⟨moment, seen, hfrom, hto, hseen, hedges⟩ :=
        htold.results result hresult extraction houtcome
      rw [hedges] at hmem
      have hsource : edge.caller.source = result.source := hcallers hmem
      -- Read first, extracted then, and the recorded version again now: the unit
      -- cannot have had another version in between.
      have hread := hfits.mem_versions.mp hrecorded
      obtain ⟨earlier, _, hbefore, hearlier⟩ := htold.reads _ hread
      rw [← hsource] at hseen hmem
      have hsame : seen = token := hnever (htimeline.trans hbefore hfrom)
        (htimeline.trans hto hafter) hearlier hseen htoken
      exact hsame ▸ hmem

end Snapshot.IsVouched

theorem Host.Asks.exists_watching {σ α : Type} {host : Host σ}
    {question : Watched σ → Activity (Watched σ) α}
    (hasks : host.watched.Asks question) :
    ∃ plain, host.Asks plain ∧ question = Host.watching plain := by
  cases hasks with
  | allUnits => exact ⟨_, .allUnits, rfl⟩
  | versionOf source => exact ⟨_, .versionOf source, rfl⟩
  | extract source => exact ⟨_, .extract source, rfl⟩
  | unitsInScope scope => exact ⟨_, .unitsInScope scope, rfl⟩
  | methodsInScope units => exact ⟨_, .methodsInScope units, rfl⟩
  | layout graph => exact ⟨_, .layout graph, rfl⟩
  | present graph => exact ⟨_, .present graph, rfl⟩

namespace Watched

variable {σ α : Type} {later : σ → σ → Prop}

def Later (later : σ → σ → Prop) (first last : Watched σ) : Prop :=
  later first.host last.host

def token (token? : σ → SourceUnit → Option VersionToken)
    (watched : Watched σ) : SourceUnit → Option VersionToken :=
  token? watched.host

theorem timeline (htimeline : Timeline later) : Timeline (Later later) where
  refl watched := htimeline.refl watched.host
  trans hfirst hlast := htimeline.trans hfirst hlast

theorem obeys {accepts : α → σ → Prop} {activity : Activity σ α} {start : σ}
    (hobeys : activity.Obeys later accepts start) (kept : List (World σ))
    (moments : List (World σ)) :
    (activity.watched moments).Obeys (Later later)
      (fun answer watched => accepts answer watched.host) ⟨start, kept⟩ := by
  induction activity generalizing start kept moments with
  | done host answer => exact fun _ => hobeys
  | cancelRunning next ih => exact ih hobeys kept moments
  | observe next ih =>
      exact fun coordinator => ih coordinator (hobeys coordinator) kept moments
  | build host scope next ih =>
      intro coordinator
      refine ⟨hobeys.1, fun after result? hafter coordinator => ?_⟩
      exact ih after.host result? (hobeys.2 after.host result? hafter) _ _

theorem follows {host : Host σ} (hfollows : host.Follows later) :
    host.watched.Follows (Later later) where
  timeline := timeline hfollows.timeline
  asked hasks start := by
    obtain ⟨plain, hplain, rfl⟩ := hasks.exists_watching
    exact fun _ => obeys (hfollows.asked hplain start.host) start.moments _
  resetProgress total start := hfollows.resetProgress total start.host
  countProgress start := hfollows.countProgress start.host

theorem truthful {host : Host σ}
    {token? : σ → SourceUnit → Option VersionToken}
    {found : SourceUnit → VersionToken → List Edge}
    (hhost : host.Truthful later token? found) :
    host.watched.Truthful (Later later) (token token?) found where
  follows := follows hhost.follows
  versionOf source start _ := by
    refine (obeys (hhost.versionOf source start.host) start.moments _).mono ?_
    intro answer last haccepts version hanswer
    obtain ⟨moment, hmoment⟩ := haccepts version hanswer
    exact ⟨⟨moment, []⟩, hmoment⟩
  extract source start _ := by
    refine (obeys (hhost.extract source start.host) start.moments _).mono ?_
    intro outcome last haccepts extraction houtcome
    obtain ⟨moment, version, hmoment⟩ := haccepts extraction houtcome
    exact ⟨⟨moment, []⟩, version, hmoment⟩

end Watched

/-- A watched world whose snapshot is vouched for from now on, and was in every
moment that was kept. -/
structure World.IsSound {σ : Type} (later : σ → σ → Prop)
    (token? : σ → SourceUnit → Option VersionToken)
    (found : SourceUnit → VersionToken → List Edge)
    (world : World (Watched σ)) : Prop where
  vouched : world.coordinator.snapshot.IsVouched (Watched.Later later)
    (Watched.token token?) found world.host
  moments : ∀ moment ∈ world.host.moments,
    moment.HoldsCurrentCalls token? found

namespace World.IsSound

variable {σ α : Type} {later : σ → σ → Prop}
  {token? : σ → SourceUnit → Option VersionToken}
  {found : SourceUnit → VersionToken → List Edge}
  {world last : World (Watched σ)} {coordinator : Coordinator}

theorem congr (hsound : world.IsSound later token? found)
    (hsnapshot : coordinator.snapshot = world.coordinator.snapshot) :
    (world.withCoordinator coordinator).IsSound later token? found where
  vouched := by
    change coordinator.snapshot.IsVouched _ _ _ _
    rw [hsnapshot]
    exact hsound.vouched
  moments := hsound.moments

theorem move (hsound : world.IsSound later token? found)
    (htimeline : Timeline later) {state : σ}
    (hstate : later world.host.host state) :
    (world.withHost ⟨state, world.host.moments⟩).IsSound later token?
      found where
  vouched := hsound.vouched.move (Watched.timeline htimeline) hstate
  moments := hsound.moments

theorem see (hsound : world.IsSound later token? found)
    (htimeline : Timeline later) :
    (world.withHost (world.host.see world.coordinator)).IsSound later token?
      found where
  vouched := hsound.vouched.move (Watched.timeline htimeline)
    (htimeline.refl world.host.host)
  moments := by
    intro moment hmoment
    rcases List.mem_append.mp hmoment with hmoment | hmoment
    · exact hsound.moments moment hmoment
    · rw [List.mem_singleton.mp hmoment]
      have hnow : Watched.Later later world.host world.host :=
        htimeline.refl world.host.host
      exact hsound.vouched.calls hnow

theorem perform (htimeline : Timeline later)
    {watched : Build.Nested (Watched σ)}
    (hnested : ∀ scope world,
      Watched.Later later world.host (watched scope world).1.host ∧
        (world.IsSound later token? found →
          (watched scope world).1.IsSound later token? found))
    {accepts : α → σ → Prop} {activity : Activity σ α} {start : σ}
    (hobeys : activity.Obeys later accepts start) {moments : List (World σ)}
    (hsound : World.IsSound later token? found
      ⟨coordinator, ⟨start, moments⟩⟩) :
    (Build.perform watched (activity.watched moments)
      coordinator).1.IsSound later token? found := by
  induction activity generalizing start coordinator moments with
  | done host answer => exact (hsound.move htimeline hobeys.1).see htimeline
  | cancelRunning next ih =>
      exact ih hobeys (hsound.congr (Coordinator.snapshot_cancelRunning _))
  | observe next ih => exact ih coordinator (hobeys coordinator) hsound
  | build host scope next ih =>
      have hbefore := (hsound.move htimeline hobeys.1).see htimeline
      obtain ⟨hafter, hbuilt⟩ := hnested scope
        ⟨coordinator, (Watched.mk host moments).see coordinator⟩
      exact ih _ _ (hobeys.2 _ _ hafter) ((hbuilt hbefore).see htimeline)

end World.IsSound

namespace Build

variable {σ : Type} {host : Host σ} {later : σ → σ → Prop}
  {token? : σ → SourceUnit → Option VersionToken}
  {found : SourceUnit → VersionToken → List Edge}

/-- The host moves along the order, and a world that was sound still is. -/
def StaysSound (later : σ → σ → Prop)
    (token? : σ → SourceUnit → Option VersionToken)
    (found : SourceUnit → VersionToken → List Edge)
    (first last : World (Watched σ)) : Prop :=
  Watched.Later later first.host last.host ∧
    (first.IsSound later token? found → last.IsSound later token? found)

theorem frame_staysSound (hfollows : host.Follows later)
    {watched : Nested (Watched σ)}
    (hnested : ∀ scope world,
      StaysSound later token? found world (watched scope world).1) :
    Frame watched host.watched (StaysSound later token? found) where
  refl world := ⟨hfollows.timeline.refl world.host.host, id⟩
  trans hfirst hlast :=
    ⟨hfollows.timeline.trans hfirst.1 hlast.1, hlast.2 ∘ hfirst.2⟩
  note world event _ _ := ⟨hfollows.timeline.refl world.host.host,
    fun hsound => hsound.congr rfl⟩
  presented _ _ _ := ⟨hfollows.timeline.refl _, fun hsound => hsound.congr rfl⟩
  asked hasks world := by
    have hmoves := (perform_obeys (Watched.timeline hfollows.timeline)
      (fun scope world => (hnested scope world).1)
      ((Watched.follows hfollows).asked hasks world.host)
      world.coordinator).1
    refine ⟨hmoves, fun hsound => ?_⟩
    obtain ⟨plain, hplain, rfl⟩ := hasks.exists_watching
    exact (hsound.see hfollows.timeline).perform hfollows.timeline hnested
      (hfollows.asked hplain world.host.host)
  resetProgress total world := ⟨hfollows.resetProgress total world.host.host,
    fun hsound => hsound.move hfollows.timeline
      (hfollows.resetProgress total world.host.host)⟩
  countProgress world := ⟨hfollows.countProgress world.host.host,
    fun hsound => hsound.move hfollows.timeline
      (hfollows.countProgress world.host.host)⟩

theorem stable_staysSound (hhost : host.Truthful later token? found)
    (hnever : NeverReturns later token?)
    (hcallers : ∀ {source token edge}, edge ∈ found source token →
      edge.caller.source = source) :
    Stable host.watched (StaysSound later token? found) where
  refl world := ⟨hhost.follows.timeline.refl world.host.host, id⟩
  frame _ hnested := frame_staysSound hhost.follows hnested
  begun world := ⟨hhost.follows.timeline.refl world.host.host,
    fun hsound => hsound.congr (snapshot_begunIn world)⟩
  finished world id state _ := ⟨hhost.follows.timeline.refl world.host.host,
    fun hsound => hsound.congr (Coordinator.snapshot_finish _ id state)⟩
  committed {nested world ready round} hnested hgathered := by
    have hready := hgathered.passes.related
    refine ⟨hready.1, fun hsound => ?_⟩
    obtain ⟨surveyed, htold⟩ := hgathered.told (Watched.truthful hhost)
      And.left fun scope world => (hnested scope world).1
    have hfits := hgathered.fits
    rw [snapshot_begunIn] at hfits
    have hbegun := hready.2 (hsound.congr (snapshot_begunIn world))
    exact {
      vouched := hsound.vouched.round
        (Watched.timeline hhost.follows.timeline) hnever hcallers hfits htold
      moments := hbegun.moments }

end Build

namespace World.Reaches

variable {σ : Type} {host : Host σ} {later : σ → σ → Prop}
  {token? : σ → SourceUnit → Option VersionToken}
  {found : SourceUnit → VersionToken → List Edge} {state : σ}
  {world : World σ}

theorem isSound_watch (hhost : host.Truthful later token? found)
    (hnever : NeverReturns later token?)
    (hcallers : ∀ {source token edge}, edge ∈ found source token →
      edge.caller.source = source)
    (hreaches : World.Reaches host later ⟨.startingFrom .initial, state⟩
      world) : world.watch.IsSound later token? found := by
  induction hreaches with
  | start => exact ⟨.initial, nofun⟩
  | edit _ hedit ih => exact ih.move hhost.follows.timeline hedit
  | @build world _ depth scope ih =>
      have hbuilt := ((Build.stable_staysSound hhost hnever hcallers).build
        depth scope world.watch).2 ih
      have hplain : (world.watch.build host.watched depth scope).1.plain =
          (world.build host depth scope).1 :=
        World.plain_build host depth scope world.watch
      rw [← hplain]
      exact ⟨hbuilt.vouched.move (Watched.timeline hhost.follows.timeline)
        (hhost.follows.timeline.refl _), nofun⟩
  | cancel _ ih => exact ih.congr (Coordinator.snapshot_cancelRunning _)

/-- Units may change, vanish and appear between builds and inside every activity
of the host.  In every world between builds, and in every one that the host is
in while a build runs, the snapshot holds no call of a unit at its recorded
version that is not to be found there. -/
theorem holdsCurrentCalls (hhost : host.Truthful later token? found)
    (hnever : NeverReturns later token?)
    (hcallers : ∀ {source token edge}, edge ∈ found source token →
      edge.caller.source = source)
    (hreaches : World.Reaches host later ⟨.startingFrom .initial, state⟩
      world) :
    world.HoldsCurrentCalls token? found ∧
      ∀ depth scope, ∀ moment ∈ world.moments host depth scope,
        moment.HoldsCurrentCalls token? found := by
  have hsound := hreaches.isSound_watch hhost hnever hcallers
  constructor
  · have hnow : Watched.Later later world.watch.host world.watch.host :=
      hhost.follows.timeline.refl world.host
    exact hsound.vouched.calls hnow
  · intro depth scope
    exact (((Build.stable_staysSound hhost hnever hcallers).build depth scope
      world.watch).2 hsound).moments

end World.Reaches

namespace Sample

def Aging (first last : VersionMap) : Prop :=
  ∀ source token, first.token? source = some token →
    ∃ older, last.token? source = some older ∧ token.word ≤ older.word

theorem aging_timeline : Timeline Aging where
  refl _ _ token htoken := ⟨token, htoken, UInt64.le_refl _⟩
  trans hfirst hlast source token htoken := by
    obtain ⟨older, holder, hle⟩ := hfirst source token htoken
    obtain ⟨oldest, holdest, hle'⟩ := hlast source older holder
    exact ⟨oldest, holdest, UInt64.le_trans hle hle'⟩

theorem aging_neverReturns : NeverReturns Aging VersionMap.token? := by
  intro source first middle last token seen hfirst hlast htoken hseen hagain
  obtain ⟨older, holder, hle⟩ := hfirst source token htoken
  obtain ⟨oldest, holdest, hle'⟩ := hlast source seen hseen
  obtain rfl := Option.some.inj (holder.symm.trans hseen)
  obtain rfl := Option.some.inj (holdest.symm.trans hagain)
  exact congrArg VersionToken.mk (UInt64.le_antisymm hle' hle)

def wearOut (source : SourceUnit) (versions : VersionMap) : VersionMap :=
  if versions.token? source = some ⟨1⟩ then versions.put ⟨source, ⟨2⟩⟩
  else versions

theorem aging_wearOut (source : SourceUnit) (versions : VersionMap) :
    Aging versions (wearOut source versions) := by
  unfold wearOut
  split
  · rename_i hworn
    intro other token htoken
    by_cases hsame : other = source
    · subst hsame
      obtain rfl := Option.some.inj (htoken.symm.trans hworn)
      refine ⟨⟨2⟩, VersionMap.token?_eq_some_iff.mpr ?_, by decide⟩
      exact KeyedSet.mem_put.mpr (Or.inl rfl)
    · refine ⟨token, VersionMap.token?_eq_some_iff.mpr ?_, UInt64.le_refl _⟩
      refine KeyedSet.mem_put.mpr (Or.inr
        ⟨VersionMap.token?_eq_some_iff.mp htoken, fun hkey => ?_⟩)
      exact hsame (SourceUnit.eq_of_path_eq hkey)
  · exact aging_timeline.refl versions

def wearingHost : Host VersionMap := Host.ofTable wearOut callsOf

def wornTable : VersionMap :=
  ((∅ : VersionMap).put ⟨firstUnit, ⟨1⟩⟩).put ⟨secondUnit, ⟨1⟩⟩

def wornBuild : World VersionMap :=
  ((((⟨default, wornTable⟩ : World VersionMap).build wearingHost 0
    default).1).build wearingHost 0 default).1

theorem wornBuild_holdsCurrentCalls :
    wornBuild.coordinator.snapshot.edges.contains linkingCall = true ∧
      wornBuild.coordinator.snapshot.versions = wornBuild.host ∧
      wornBuild.HoldsCurrentCalls VersionMap.token? callsOf ∧
      ∀ depth scope, ∀ moment ∈ wornBuild.moments wearingHost depth scope,
        moment.HoldsCurrentCalls VersionMap.token? callsOf := by
  have hreaches : World.Reaches wearingHost Aging
      ⟨.startingFrom .initial, wornTable⟩ wornBuild :=
    .build (.build .start 0 default) 0 default
  have hcallers : ∀ {source token edge}, edge ∈ callsOf source token →
      edge.caller.source = source := by
    intro source token edge hedge
    obtain ⟨rfl, rfl⟩ := mem_callsOf.mp hedge
    rfl
  refine ⟨by decide, by decide, ?_⟩
  exact World.Reaches.holdsCurrentCalls
    (Host.ofTable_truthful aging_timeline aging_wearOut) aging_neverReturns
    hcallers hreaches

end Sample

end CallGraph
