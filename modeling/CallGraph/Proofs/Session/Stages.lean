import CallGraph.Proofs.Session.Build

namespace CallGraph

open Keyed (key)

/-! What the builds of a session leave in the snapshot, compared with what a
session finds that has seen nothing before. -/

def Texts.yield (texts : Texts) : Yield :=
  fun source token => (texts source token).toOption.map fun _ => []

theorem Texts.yield_eq_none_iff {texts : Texts} {source : SourceUnit}
    {token : VersionToken} :
    texts.yield source token = none ↔
      (texts source token).toOption = none := by
  simp [yield]

/-- A unit that has not failed and is recorded with the same version later. -/
def Snapshot.Keeps (before after : Snapshot) (source : SourceUnit) : Prop :=
  source ∉ before.failed ∧
    ∃ token, ⟨source, token⟩ ∈ before.versions ∧
      ⟨source, token⟩ ∈ after.versions

def Edge.IsDeclared (texts : Texts) (parser : Parser) (edge : Edge) : Prop :=
  texts.Declares parser edge.caller ∧ texts.Declares parser edge.callee

theorem Edge.IsDeclared.sources_eq {texts : Texts} {parser : Parser}
    {edge other : Edge} (hapart : texts.IsApart parser)
    (hedge : edge.IsDeclared texts parser)
    (hother : other.IsDeclared texts parser) (hkey : key edge = key other) :
    edge.caller.source = other.caller.source ∧
      edge.callee.source = other.callee.source := by
  obtain ⟨hcaller, hcallee⟩ := EdgeKey.mk.inj hkey
  exact ⟨hapart.source_eq hedge.1 hother.1 (congrArg MethodId.mk hcaller),
    hapart.source_eq hedge.2 hother.2 (congrArg MethodId.mk hcallee)⟩

theorem Round.not_invalidated_iff {round : Round} {baseline : Snapshot}
    {source : SourceUnit} (hprior : baseline.versions.records source = true) :
    (round.plan baseline).changes.invalidated.contains source = false ↔
      baseline.Keeps (round.snapshot baseline) source := by
  constructor
  · intro hnot
    obtain ⟨token, htoken⟩ := VersionMap.records_iff.mp
      (ChangeSet.recorded_of_not_invalidated hprior hnot)
    obtain ⟨hseen, hsound⟩ :=
      ChangeSet.unmoved_of_not_invalidated hprior htoken hnot
    exact ⟨hsound, token, hseen, htoken⟩
  · rintro ⟨hsound, token, hseen, htoken⟩
    refine Bool.eq_false_iff.mpr fun hinvalidated => ?_
    rcases ChangeSet.contains_invalidated.mp hinvalidated with
      hchanged | hremoved
    · obtain ⟨token', seen, htoken', hseen', hmoved⟩ :=
        ChangeSet.mem_changed.mp hchanged
      rcases hmoved with hmoved | hfailed
      · exact hmoved ((VersionMap.token_unique hseen' hseen).trans
          (VersionMap.token_unique htoken htoken'))
      · exact hsound hfailed
    · have hrecorded := VersionMap.records_of_mem htoken
      have hgone := (ChangeSet.mem_removed.mp hremoved).2
      cases hgone.symm.trans hrecorded

namespace Workspace

variable {parser : Parser} {texts : Texts} {workspace other : Workspace}
  {baseline : Snapshot} {round fresh : Round} {edge : Edge}
  {source : SourceUnit}

/-- A call that a new analyzer finds in the unit of its caller. -/
def Finds (parser : Parser) (workspace : Workspace) (edge : Edge) : Prop :=
  ∃ extraction, Analyzer.outcomeIn parser workspace.project workspace.files
    edge.caller.source = .ok extraction ∧ edge ∈ extraction.edges

namespace Supplies

theorem exists_result (hsupplies : workspace.Supplies parser .initial round)
    (hsource : round.versions.records source = true) :
    ∃ result ∈ round.results, result.source = source := by
  rw [hsupplies.fits.exists_result_iff]
  refine Invalidation.mem_reparse.mpr
    ⟨hsupplies.fits.records_iff.mp hsource, Or.inr (Or.inl ?_)⟩
  exact ChangeSet.mem_added.mpr ⟨hsource, rfl⟩

variable (hsupplies : workspace.Supplies parser baseline round)
include hsupplies

theorem units_eq :
    workspace.project.sources workspace.files = round.units :=
  Except.ok.inj hsupplies.sees.units

theorem versionOf_of_mem {token : VersionToken}
    (htoken : ⟨source, token⟩ ∈ round.versions) :
    workspace.project.versionOf source workspace.files = .ok token :=
  hsupplies.sees.versions ⟨source, token⟩
    (hsupplies.fits.mem_versions.mp htoken)

theorem exists_versionOf
    (hsource : source ∈ workspace.project.sources workspace.files) :
    ∃ token,
      workspace.project.versionOf source workspace.files = .ok token := by
  rw [hsupplies.units_eq] at hsource
  obtain ⟨token, htoken⟩ := VersionMap.records_iff.mp
    (hsupplies.fits.records_iff.mpr hsource)
  exact ⟨token, hsupplies.versionOf_of_mem htoken⟩

theorem mem_sources (hsource : round.versions.records source = true) :
    source ∈ workspace.project.sources workspace.files := by
  rw [hsupplies.units_eq]
  exact hsupplies.fits.records_iff.mp hsource

theorem not_failed_of_finds (hfinds : workspace.Finds parser edge) :
    edge.caller.source ∉ (round.snapshot baseline).failed := by
  intro hfailed
  obtain ⟨result, hresult, hsource, fault, hfault⟩ :=
    Round.mem_failed_iff.mp hfailed
  obtain ⟨extraction, houtcome, _⟩ := hfinds
  have halike := hsupplies.found result hresult
  rw [hsource, hfault, houtcome] at halike
  cases halike

section Shown

variable (hshows : workspace.project.Shows workspace.files texts)
include hshows

theorem failsAs : round.FailsAs texts.yield := by
  intro result hresult token htoken
  have hversion := hsupplies.fits.mem_versions.mpr htoken
  have halike := hsupplies.found result hresult
  rw [UnitOutcome.edges?_eq_none_iff, Texts.yield_eq_none_iff,
    ← Analyzer.outcomeIn_fails_iff parser hshows
      (hsupplies.mem_sources (VersionMap.records_of_mem hversion))
      (hsupplies.versionOf_of_mem hversion)]
  generalize result.outcome = outcome at halike
  generalize Analyzer.outcomeIn parser workspace.project workspace.files
    result.source = outcome' at halike
  cases halike <;> simp

theorem mem_foundEdges_iff (hapart : texts.IsApart parser) :
    edge ∈ Recomputed.foundEdges round.results ↔
      workspace.Finds parser edge ∧
        ∃ result ∈ round.results, result.source = edge.caller.source := by
  rw [Recomputed.mem_foundEdges]
  have hedges : ∀ result ∈ round.results,
      (∃ extraction, result.outcome = .ok extraction ∧
        edge ∈ extraction.edges) ↔
      ∃ extraction, Analyzer.outcomeIn parser workspace.project workspace.files
        result.source = .ok extraction ∧ edge ∈ extraction.edges := by
    intro result hresult
    have halike := hsupplies.found result hresult
    generalize result.outcome = outcome at halike
    generalize Analyzer.outcomeIn parser workspace.project workspace.files
      result.source = outcome' at halike
    cases halike with
    | found methods halike => simp [halike.mem_iff]
    | failed fault => simp
  constructor
  · rintro ⟨result, hresult, hmem⟩
    obtain ⟨extraction, houtcome, hedge⟩ := (hedges result hresult).mp hmem
    obtain ⟨token, htoken⟩ := VersionMap.records_iff.mp
      (hsupplies.fits.records_result hresult)
    obtain ⟨hcaller, _⟩ := Analyzer.ends_of_mem_outcomeIn hshows
      (hsupplies.mem_sources (VersionMap.records_of_mem htoken))
      (hsupplies.versionOf_of_mem htoken) hapart houtcome hedge
    exact ⟨⟨extraction, hcaller ▸ houtcome, hedge⟩, result, hresult,
      hcaller.symm⟩
  · rintro ⟨⟨extraction, houtcome, hedge⟩, result, hresult, hsource⟩
    exact ⟨result, hresult, (hedges result hresult).mpr
      ⟨extraction, hsource ▸ houtcome, hedge⟩⟩

theorem ends_declared_of_finds (hapart : texts.IsApart parser)
    (hfinds : workspace.Finds parser edge)
    (hrecorded : round.versions.records edge.caller.source = true) :
    edge.IsDeclared texts parser := by
  obtain ⟨extraction, houtcome, hedge⟩ := hfinds
  obtain ⟨token, htoken⟩ := VersionMap.records_iff.mp hrecorded
  exact (Analyzer.ends_of_mem_outcomeIn hshows
    (hsupplies.mem_sources hrecorded) (hsupplies.versionOf_of_mem htoken)
    hapart houtcome hedge).2

theorem held_or_finds_of_mem (hapart : texts.IsApart parser)
    (hedge : edge ∈ (round.snapshot baseline).edges) :
    edge ∈ baseline.edges ∨ workspace.Finds parser edge ∧
      Recomputed.isInside round.versions edge = true := by
  rcases Round.valid_or_found hedge with hheld | ⟨hfound, hinside⟩
  · exact Or.inl (Round.mem_valid_iff.mp hheld).1
  · exact Or.inr
      ⟨((hsupplies.mem_foundEdges_iff hshows hapart).mp hfound).1, hinside⟩

theorem has_iff (hapart : texts.IsApart parser)
    (hsettled : baseline.IsSettled texts.yield) {ends : EdgeKey} :
    (round.snapshot baseline).edges.has ends = true ↔
      (∃ held ∈ baseline.edges, key held = ends ∧
        baseline.Keeps (round.snapshot baseline) held.caller.source ∧
        baseline.Keeps (round.snapshot baseline) held.callee.source) ∨
      ∃ found, workspace.Finds parser found ∧
        Recomputed.isInside round.versions found = true ∧ key found = ends ∧
        ∃ result ∈ round.results, result.source = found.caller.source := by
  have hfits := hsupplies.fits
  have hfails := hsupplies.failsAs hshows
  have hvalid : ∀ {held}, held ∈ (round.plan baseline).invalidation.valid ↔
      held ∈ baseline.edges ∧
        baseline.Keeps (round.snapshot baseline) held.caller.source ∧
        baseline.Keeps (round.snapshot baseline) held.callee.source := by
    intro held
    rw [Round.mem_valid_iff]
    refine and_congr_right fun hheld => ?_
    have hcovers := Snapshot.covers_iff.mp
      (Snapshot.isSelfConsistent_iff.mp hsettled.consistent held hheld)
    exact and_congr (Round.not_invalidated_iff hcovers.1)
      (Round.not_invalidated_iff hcovers.2)
  rw [KeyedSet.has_iff]
  constructor
  · rintro ⟨edge, hedge, rfl⟩
    rcases Round.valid_or_found hedge with hheld | ⟨hfound, hinside⟩
    · obtain ⟨hmem, hkept⟩ := hvalid.mp hheld
      exact Or.inl ⟨edge, hmem, rfl, hkept⟩
    · obtain ⟨hfinds, hextracted⟩ :=
        (hsupplies.mem_foundEdges_iff hshows hapart).mp hfound
      exact Or.inr ⟨edge, hfinds, hinside, rfl, hextracted⟩
  · intro hends
    have hunion : (∃ held ∈ (round.plan baseline).invalidation.valid,
          key held = ends) ∨
        ∃ found ∈ Recomputed.foundEdges round.results,
          Recomputed.isInside round.versions found = true ∧
            key found = ends := by
      rcases hends with ⟨held, hheld, hkey, hkept⟩ |
        ⟨found, hfinds, hinside, hkey, hextracted⟩
      · exact Or.inl ⟨held, hvalid.mpr ⟨hheld, hkept⟩, hkey⟩
      · exact Or.inr ⟨found, (hsupplies.mem_foundEdges_iff hshows hapart).mpr
          ⟨hfinds, hextracted⟩, hinside, hkey⟩
    -- Whichever call of the union stands between the two methods, its caller
    -- has not failed.
    obtain ⟨edge, hedge, hkey⟩ := Recomputed.exists_mem_union_fresh.mpr hunion
    have hcurrent : edge.caller.source ∉ (round.snapshot baseline).failed := by
      rcases KeyedSet.mem_or_mem_of_mem_union hedge with hheld | hfresh
      · exact (hfails.not_failed_of_mem_valid hfits hsettled hheld).1
      · have hfound :=
          (List.mem_filter.mp (KeyedSet.mem_of_mem_ofList hfresh)).1
        exact hsupplies.not_failed_of_finds
          ((hsupplies.mem_foundEdges_iff hshows hapart).mp hfound).1
    exact ⟨edge, Recomputed.mem_merge.mpr ⟨hedge, hcurrent⟩, hkey⟩

theorem ends_declared (hapart : texts.IsApart parser)
    (hdeclared : ∀ edge ∈ baseline.edges, edge.IsDeclared texts parser) :
    ∀ edge ∈ (round.snapshot baseline).edges,
      edge.IsDeclared texts parser := by
  intro edge hedge
  rcases hsupplies.held_or_finds_of_mem hshows hapart hedge with
    hheld | ⟨hfinds, hinside⟩
  · exact hdeclared edge hheld
  · exact hsupplies.ends_declared_of_finds hshows hapart hfinds
      (Recomputed.isInside_iff.mp hinside).1

/-- Of a unit that it has extracted, a round holds the calls that a round holds
which has extracted everything. -/
theorem has_iff_of_fresh (hapart : texts.IsApart parser)
    (hsettled : baseline.IsSettled texts.yield)
    (hfresh : workspace.Supplies parser .initial fresh) {ends : EdgeKey} :
    (round.snapshot baseline).edges.has ends = true ↔
      (∃ held ∈ baseline.edges, key held = ends ∧
        baseline.Keeps (round.snapshot baseline) held.caller.source ∧
        baseline.Keeps (round.snapshot baseline) held.callee.source) ∨
      ∃ found ∈ (fresh.snapshot .initial).edges, key found = ends ∧
        ∃ result ∈ round.results, result.source = found.caller.source := by
  have hversions : round.versions = fresh.versions :=
    (hfresh.sees.repeats hsupplies.sees hfresh.fits hsupplies.fits).versions
  have hdeclared : ∀ {found}, workspace.Finds parser found →
      Recomputed.isInside fresh.versions found = true →
        found.IsDeclared texts parser := fun hfinds hinside =>
    hfresh.ends_declared_of_finds hshows hapart hfinds
      (Recomputed.isInside_iff.mp hinside).1
  have hfound : ∀ {found}, found ∈ (fresh.snapshot .initial).edges →
      workspace.Finds parser found ∧
        Recomputed.isInside fresh.versions found = true := fun hfound =>
    (hfresh.held_or_finds_of_mem hshows hapart hfound).resolve_left
      KeyedSet.not_mem_empty
  rw [hsupplies.has_iff hshows hapart hsettled, hversions]
  refine or_congr_right ⟨?_, ?_⟩
  · rintro ⟨found, hfinds, hinside, rfl, hextracted⟩
    -- The fresh round may hold another call between the two methods; it leads
    -- out of the same unit.
    have hhas : (fresh.snapshot .initial).edges.has (key found) = true :=
      (hfresh.has_iff hshows hapart (Snapshot.isSettled_initial _)).mpr
        (Or.inr ⟨found, hfinds, hinside, rfl,
          hfresh.exists_result (Recomputed.isInside_iff.mp hinside).1⟩)
    obtain ⟨held, hheld, hkey⟩ := KeyedSet.has_iff.mp hhas
    obtain ⟨hfinds', hinside'⟩ := hfound hheld
    have hsource : held.caller.source = found.caller.source :=
      ((hdeclared hfinds' hinside').sources_eq hapart
        (hdeclared hfinds hinside) hkey).1
    exact ⟨held, hheld, hkey, by rwa [hsource]⟩
  · rintro ⟨found, hmem, hkey, hextracted⟩
    obtain ⟨hfinds, hinside⟩ := hfound hmem
    exact ⟨found, hfinds, hinside, hkey, hextracted⟩

end Shown

end Supplies

end Workspace

/-- A build of a session that has committed: the snapshots before and after it,
the log in which it is found under its number, and the snapshot that a new
session commits on the same files. -/
structure Stage where
  fresh : Snapshot
  before : Snapshot
  after : Snapshot
  id : BuildId
  log : List BuildEvent

namespace Stage

def Extracts (stage : Stage) (source : SourceUnit) : Prop :=
  .extracted stage.id source ∈ stage.log

def Keeps (stage : Stage) (call : Edge) : Prop :=
  stage.before.Keeps stage.after call.caller.source ∧
    stage.before.Keeps stage.after call.callee.source

/-- A call that a fresh session found at one of the stages, in a unit that was
extracted there, and whose two units were kept at every later stage. -/
def Carries (stages : List Stage) (call : Edge) : Prop :=
  ∃ older stage newer, stages = older ++ stage :: newer ∧
    call ∈ stage.fresh.edges ∧ stage.Extracts call.caller.source ∧
      ∀ later ∈ newer, later.Keeps call

theorem not_carries_nil {call : Edge} : ¬Carries [] call := by
  rintro ⟨older, stage, newer, hstages, _⟩
  cases older <;> cases hstages

theorem carries_snoc {stages : List Stage} {stage : Stage} {call : Edge} :
    Carries (stages ++ [stage]) call ↔
      Carries stages call ∧ stage.Keeps call ∨
        call ∈ stage.fresh.edges ∧ stage.Extracts call.caller.source := by
  constructor
  · rintro ⟨older, first, newer, hstages, hfresh, hextracts, hkept⟩
    rcases List.eq_nil_or_concat newer with rfl | ⟨newer, last, rfl⟩
    · obtain ⟨_, hlast⟩ := List.append_inj' hstages rfl
      obtain rfl := List.singleton_inj.mp hlast
      exact Or.inr ⟨hfresh, hextracts⟩
    · rw [List.concat_eq_append, ← List.cons_append, ← List.append_assoc]
        at hstages
      obtain ⟨hbefore, hlast⟩ := List.append_inj' hstages rfl
      obtain rfl := List.singleton_inj.mp hlast
      exact Or.inl ⟨⟨older, first, newer, hbefore, hfresh, hextracts,
        fun later hlater => hkept later (by simp [hlater])⟩,
          hkept stage (by simp)⟩
  · rintro (⟨⟨older, first, newer, rfl, hfresh, hextracts, hkept⟩, hlast⟩ |
      ⟨hfresh, hextracts⟩)
    · refine ⟨older, first, newer ++ [stage], by simp, hfresh, hextracts,
        fun later hlater => ?_⟩
      rcases List.mem_append.mp hlater with hlater | hlater
      · exact hkept later hlater
      · rwa [List.mem_singleton.mp hlater]
    · exact ⟨stages, stage, [], rfl, hfresh, hextracts, nofun⟩

end Stage

namespace Session

variable {parser : Parser} {texts : Texts} {session fresh : Session}

theorem world_build (session : Session) (scope : ViewScope) :
    (session.build parser scope).1.world =
      (session.world.build
        (Workspace.host parser session.layout session.drawing) 0 scope).1 := by
  unfold build
  dsimp only

theorem result_build (session : Session) (scope : ViewScope) :
    (session.build parser scope).2 =
      (session.world.build
        (Workspace.host parser session.layout session.drawing) 0 scope).2 := by
  unfold build
  dsimp only

theorem files_withFiles (session : Session) (files : FileSystem) :
    (session.withFiles files).files = files := rfl

theorem project_withFiles (session : Session) (files : FileSystem) :
    (session.withFiles files).project = session.project := rfl

/-- Another session on the same project that has just been opened, with nothing
in the cache, and that finds the same in its files. -/
structure IsFreshFor (session fresh : Session) : Prop where
  opened : ∃ root config drawing files,
    openAt root config drawing files = .ok fresh
  unseen : fresh.snapshot = .initial
  project : fresh.project.asOpened = session.project.asOpened
  resembles : session.project.Resembles session.files fresh.files

/-- The stage that a build is, beside a fresh session. -/
def stageOf (parser : Parser) (session fresh : Session)
    (scope freshScope : ViewScope) : Stage where
  fresh := (fresh.build parser freshScope).1.snapshot
  before := session.snapshot
  after := (session.build parser scope).1.snapshot
  id := session.world.coordinator.nextId
  log := (session.build parser scope).1.world.coordinator.events

/-- How a session comes about that was opened with nothing in the cache: its
files are edited in any way, and built now and then.  The files read as their
versions say whenever they are built. -/
inductive Undergoes (parser : Parser) (texts : Texts) :
    Session → List Stage → Prop where
  | opened {root : Path} {config : Config} {drawing : Option Drawing}
      {files : FileSystem} {session : Session}
      (opened : openAt root config drawing files = .ok session)
      (unseen : session.snapshot = .initial) :
      Undergoes parser texts session []
  | edited {session : Session} {stages : List Stage}
      (undergoes : Undergoes parser texts session stages)
      (files : FileSystem) :
      Undergoes parser texts (session.withFiles files) stages
  | stopped {session : Session} {stages : List Stage}
      (undergoes : Undergoes parser texts session stages)
      (shows : session.project.Shows session.files texts)
      {scope : ViewScope} {error : BuildError}
      (result : (session.build parser scope).2 = .error error) :
      Undergoes parser texts (session.build parser scope).1 stages
  | committed {session fresh : Session} {stages : List Stage}
      (undergoes : Undergoes parser texts session stages)
      (shows : session.project.Shows session.files texts)
      (isFresh : session.IsFreshFor fresh)
      {scope freshScope : ViewScope} {report : BuildReport}
      (result : (session.build parser scope).2 = .ok report) :
      Undergoes parser texts (session.build parser scope).1
        (stages ++ [stageOf parser session fresh scope freshScope])

/-- What holds of a session between its builds. -/
structure IsSettled (parser : Parser) (texts : Texts) (session : Session) :
    Prop where
  sound : session.world.host.analyzer.IsSound parser texts
  turns : session.world.coordinator.IsTakingTurns
  settled : session.snapshot.IsSettled texts.yield
  declared : ∀ edge ∈ session.snapshot.edges, edge.IsDeclared texts parser

structure IsBegunOn (root : Path) (config : Config) (drawing : Option Drawing)
    (files : FileSystem) (session : Session) : Prop where
  rooted : session.root = root
  layout : session.layout = config.layout
  drawn : session.drawing = drawing
  found : session.files = files
  screen : session.screen = ""
  cached : session.snapshot = cachedSnapshot root files
  unseen : session.world.host.analyzer = .ofProject session.project
  turns : session.world.coordinator.IsTakingTurns

theorem IsBegunOn.sound {root : Path} {config : Config}
    {drawing : Option Drawing} {files : FileSystem}
    (hbegun : session.IsBegunOn root config drawing files) :
    session.world.host.analyzer.IsSound parser texts := by
  rw [hbegun.unseen]
  exact Analyzer.isSound_ofProject parser texts _

section Opened

variable {root : Path} {config : Config} {drawing : Option Drawing}
  {files : FileSystem}
  (hopened : openAt root config drawing files = .ok session)
include hopened

theorem isBegunOn_of_openAt :
    session.IsBegunOn root config drawing files := by
  unfold openAt at hopened
  split at hopened
  · cases hopened
  · obtain rfl := Except.ok.inj hopened
    exact ⟨rfl, rfl, rfl, rfl, rfl, rfl, rfl, .startingFrom _⟩

theorem isSettled_of_cached
    (hsettled : session.snapshot.IsSettled texts.yield)
    (hdeclared : ∀ edge ∈ session.snapshot.edges,
      edge.IsDeclared texts parser) :
    session.IsSettled parser texts :=
  have hbegun := isBegunOn_of_openAt hopened
  ⟨hbegun.sound, hbegun.turns, hsettled, hdeclared⟩

theorem isSettled_of_openAt (hunseen : session.snapshot = .initial) :
    session.IsSettled parser texts := by
  refine isSettled_of_cached hopened ?_ ?_ <;> rw [hunseen]
  · exact Snapshot.isSettled_initial _
  · exact fun _ hedge => absurd hedge KeyedSet.not_mem_empty

end Opened

section Build

variable (hapart : texts.IsApart parser)
  (hsettled : session.IsSettled parser texts)
  (hshows : session.project.Shows session.files texts)
include hapart hsettled hshows

theorem build_built (scope : ViewScope) :
    Workspace.Built parser texts session.layout scope session.world
        (session.build parser scope).1.world.coordinator
        (session.build parser scope).2 ∧
      (session.build parser scope).1.project.asOpened =
        session.project.asOpened ∧
      (session.build parser scope).1.world.host.analyzer.IsSound parser
        texts := by
  unfold project
  rw [world_build, result_build]
  exact Workspace.build_built hapart session.layout session.drawing scope hshows
    hsettled.sound hsettled.turns

theorem build_supplies {scope : ViewScope} {report : BuildReport}
    (hresult : (session.build parser scope).2 = .ok report) :
    ∃ round, session.world.host.Supplies parser session.snapshot round ∧
      (session.build parser scope).1.snapshot =
        round.snapshot session.snapshot ∧
      ∀ source, .extracted session.world.coordinator.nextId source ∈
          (session.build parser scope).1.world.coordinator.events ↔
        ∃ result ∈ round.results, result.source = source := by
  obtain ⟨hbuilt, _, _⟩ := build_built hapart hsettled hshows scope
  rw [hresult] at hbuilt
  cases hbuilt with
  | committed hsupplies hsnapshot hextracted =>
      exact ⟨_, hsupplies, hsnapshot, hextracted⟩

theorem build_isSettled (scope : ViewScope) :
    (session.build parser scope).1.IsSettled parser texts := by
  obtain ⟨hbuilt, _, hsound⟩ := build_built hapart hsettled hshows scope
  have hturns :
      (session.build parser scope).1.world.coordinator.IsTakingTurns := by
    rw [world_build]
    exact (Build.stable_keepsTurns _).build 0 scope session.world hsettled.turns
  generalize hresult : (session.build parser scope).2 = result at hbuilt
  cases hbuilt with
  | unread _ _ _ hsnapshot =>
      refine ⟨hsound, hturns, ?_, ?_⟩ <;> rw [snapshot, hsnapshot]
      · exact hsettled.settled
      · exact hsettled.declared
  | committed hsupplies hsnapshot _ =>
      refine ⟨hsound, hturns, ?_, ?_⟩ <;> rw [snapshot, hsnapshot]
      · exact (hsupplies.failsAs hshows).snapshot_isSettled hsupplies.fits
          hsettled.settled
      · exact hsupplies.ends_declared hshows hapart hsettled.declared

theorem build_of_isFreshFor (hfresh : session.IsFreshFor fresh)
    {scope : ViewScope} {report : BuildReport}
    (hresult : (session.build parser scope).2 = .ok report)
    (freshScope : ViewScope) :
    ∃ round, session.world.host.Supplies parser .initial round ∧
      (fresh.build parser freshScope).1.snapshot =
        round.snapshot .initial := by
  obtain ⟨round, hsupplies, _⟩ := build_supplies hapart hsettled hshows hresult
  obtain ⟨root, config, drawing, files, hopened⟩ := hfresh.opened
  have hsettled' : fresh.IsSettled parser texts :=
    isSettled_of_openAt hopened hfresh.unseen
  have hresembles := hfresh.resembles.congr hfresh.project
  have hshows' : fresh.project.Shows fresh.files texts :=
    hresembles.shows (hshows.congr hfresh.project)
  obtain ⟨hbuilt, _, _⟩ := build_built hapart hsettled' hshows' freshScope
  generalize (fresh.build parser freshScope).2 = result at hbuilt
  cases hbuilt with
  | @unread reads source rest fault horder _ hfailed _ =>
      -- The session has read the version of every unit.
      have hsource : source ∈ fresh.project.sources fresh.files := by
        refine KeyedSet.mem_def.mpr ?_
        rw [show (fresh.project.sources fresh.files).entries = _ from horder]
        exact List.mem_append_right _ List.mem_cons_self
      rw [Project.sources_congr hfresh.project,
        hfresh.resembles.sources] at hsource
      have hversion := hfresh.resembles.versions source hsource
      rw [← Project.versionOf_congr hfresh.project] at hversion
      obtain ⟨token, htoken⟩ := hsupplies.exists_versionOf hsource
      cases (hfailed.symm.trans hversion).trans htoken
  | committed hsupplies' hsnapshot _ =>
      refine ⟨_, ?_, hsnapshot.trans (congrArg _ hfresh.unseen)⟩
      have hunseen : fresh.world.coordinator.snapshot = .initial :=
        hfresh.unseen
      rw [hunseen] at hsupplies'
      exact hsupplies'.of_resembles hapart hshows' hfresh.project.symm
        hresembles.symm

/-- One step: a build keeps the calls whose units it keeps, and takes the others
from what a fresh session finds in the units that it extracts. -/
theorem has_build_iff (hfresh : session.IsFreshFor fresh)
    {scope : ViewScope} {report : BuildReport}
    (hresult : (session.build parser scope).2 = .ok report)
    {freshScope : ViewScope} {stage : Stage}
    (hstage : stageOf parser session fresh scope freshScope = stage)
    {ends : EdgeKey} :
    (session.build parser scope).1.snapshot.edges.has ends = true ↔
      (∃ held ∈ session.snapshot.edges, key held = ends ∧ stage.Keeps held) ∨
        ∃ found ∈ stage.fresh.edges, key found = ends ∧
          stage.Extracts found.caller.source := by
  obtain ⟨round, hsupplies, hsnapshot, hextracted⟩ :=
    build_supplies hapart hsettled hshows hresult
  obtain ⟨clean, hclean, hfound⟩ := build_of_isFreshFor hapart hsettled hshows
    hfresh hresult freshScope
  subst hstage
  unfold Stage.Keeps Stage.Extracts stageOf
  dsimp only
  simp only [hextracted, hfound, hsnapshot]
  exact hsupplies.has_iff_of_fresh hshows hapart hsettled.settled hclean

theorem fresh_declared (hfresh : session.IsFreshFor fresh)
    {scope freshScope : ViewScope} {report : BuildReport}
    (hresult : (session.build parser scope).2 = .ok report) :
    ∀ call ∈ (stageOf parser session fresh scope freshScope).fresh.edges,
      call.IsDeclared texts parser := by
  obtain ⟨clean, hclean, hfound⟩ := build_of_isFreshFor hapart hsettled hshows
    hfresh hresult freshScope
  unfold stageOf
  dsimp only
  rw [hfound]
  exact hclean.ends_declared hshows hapart fun _ hedge =>
    absurd hedge KeyedSet.not_mem_empty

end Build

namespace Undergoes

variable {stages : List Stage}

theorem isSettled (hapart : texts.IsApart parser)
    (hundergoes : session.Undergoes parser texts stages) :
    session.IsSettled parser texts := by
  induction hundergoes with
  | opened hopened hunseen => exact isSettled_of_openAt hopened hunseen
  | edited _ files ih => exact ⟨ih.sound, ih.turns, ih.settled, ih.declared⟩
  | stopped _ hshows _ ih => exact build_isSettled hapart ih hshows _
  | committed _ hshows _ _ ih => exact build_isSettled hapart ih hshows _

theorem declared_of_mem (hapart : texts.IsApart parser)
    (hundergoes : session.Undergoes parser texts stages) {stage : Stage}
    (hstage : stage ∈ stages) :
    ∀ call ∈ stage.fresh.edges, call.IsDeclared texts parser := by
  induction hundergoes with
  | opened => cases hstage
  | edited _ _ ih => exact ih hstage
  | stopped _ _ _ ih => exact ih hstage
  | committed hundergoes hshows hfresh hresult ih =>
      rcases List.mem_append.mp hstage with hstage | hstage
      · exact ih hstage
      · rw [List.mem_singleton.mp hstage]
        exact fresh_declared hapart (hundergoes.isSettled hapart) hshows hfresh
          hresult

theorem declared_of_carries (hapart : texts.IsApart parser)
    (hundergoes : session.Undergoes parser texts stages) {call : Edge}
    (hcarried : Stage.Carries stages call) : call.IsDeclared texts parser := by
  obtain ⟨older, stage, newer, rfl, hcall, _⟩ := hcarried
  exact hundergoes.declared_of_mem hapart (by simp) call hcall

theorem snapshot_of_stopped (hapart : texts.IsApart parser)
    (hsettled : session.IsSettled parser texts)
    (hshows : session.project.Shows session.files texts) {scope : ViewScope}
    {error : BuildError}
    (hresult : (session.build parser scope).2 = .error error) :
    (session.build parser scope).1.snapshot = session.snapshot := by
  obtain ⟨hbuilt, _, _⟩ := build_built hapart hsettled hshows scope
  rw [hresult] at hbuilt
  cases hbuilt with
  | unread _ _ _ hsnapshot => exact hsnapshot

/-- Which calls the builds of a session leave in the snapshot, told by what
fresh sessions find on the same files. -/
theorem has_iff (hapart : texts.IsApart parser)
    (hundergoes : session.Undergoes parser texts stages) {ends : EdgeKey} :
    session.snapshot.edges.has ends = true ↔
      ∃ call, Stage.Carries stages call ∧ key call = ends := by
  induction hundergoes generalizing ends with
  | opened _ hunseen =>
      rw [hunseen]
      refine iff_of_false (fun hhas => ?_)
        fun ⟨_, hcarried, _⟩ => Stage.not_carries_nil hcarried
      obtain ⟨_, hmem, _⟩ := KeyedSet.has_iff.mp hhas
      exact KeyedSet.not_mem_empty hmem
  | edited _ _ ih => exact ih
  | stopped hundergoes hshows hresult ih =>
      rw [snapshot_of_stopped hapart (hundergoes.isSettled hapart) hshows
        hresult]
      exact ih
  | @committed session fresh stages hundergoes hshows hfresh scope freshScope
      report hresult ih =>
      have hsettled := hundergoes.isSettled hapart
      rw [has_build_iff hapart hsettled hshows hfresh hresult rfl]
      simp only [Stage.carries_snoc]
      constructor
      · rintro (⟨held, hheld, rfl, hkept⟩ | ⟨found, hfound, hkey, hextracts⟩)
        · obtain ⟨call, hcarried, hkey⟩ :=
            ih.mp (KeyedSet.has_iff.mpr ⟨held, hheld, rfl⟩)
          obtain ⟨hcaller, hcallee⟩ :=
            (hundergoes.declared_of_carries hapart hcarried).sources_eq hapart
              (hsettled.declared held hheld) hkey
          refine ⟨call, Or.inl ⟨hcarried, ?_⟩, hkey⟩
          rwa [Stage.Keeps, hcaller, hcallee]
        · exact ⟨found, Or.inr ⟨hfound, hextracts⟩, hkey⟩
      · rintro ⟨call, ⟨hcarried, hkept⟩ | ⟨hfound, hextracts⟩, rfl⟩
        · obtain ⟨held, hheld, hkey⟩ :=
            KeyedSet.has_iff.mp (ih.mpr ⟨call, hcarried, rfl⟩)
          obtain ⟨hcaller, hcallee⟩ :=
            (hsettled.declared held hheld).sources_eq hapart
              (hundergoes.declared_of_carries hapart hcarried) hkey
          refine Or.inl ⟨held, hheld, hkey, ?_⟩
          rwa [Stage.Keeps, hcaller, hcallee]
        · exact Or.inr ⟨call, hfound, rfl, hextracts⟩

/-- The last build leaves the calls that a fresh session finds just when none is
missed in a unit that was left alone, and none is carried along although it is
not found any more.  That a unit is left alone depends on its own version and on
those of the units it calls; what is found in it depends on the declarations in
all of them. -/
theorem matches_fresh_iff (hapart : texts.IsApart parser) {last : Stage}
    (hundergoes : session.Undergoes parser texts (stages ++ [last])) :
    (∀ ends, session.snapshot.edges.has ends = last.fresh.edges.has ends) ↔
      (∀ call ∈ last.fresh.edges, ¬last.Extracts call.caller.source →
        ∃ carried, Stage.Carries stages carried ∧ last.Keeps carried ∧
          key carried = key call) ∧
      ∀ carried, Stage.Carries stages carried → last.Keeps carried →
        last.fresh.edges.has (key carried) = true := by
  have hhas : ∀ ends, session.snapshot.edges.has ends = true ↔
      ∃ call, (Stage.Carries stages call ∧ last.Keeps call ∨
        call ∈ last.fresh.edges ∧ last.Extracts call.caller.source) ∧
          key call = ends := fun ends => by
    simp only [hundergoes.has_iff hapart, Stage.carries_snoc]
  have hfresh : ∀ {call}, call ∈ last.fresh.edges →
      last.fresh.edges.has (key call) = true := fun hcall =>
    KeyedSet.has_iff.mpr ⟨_, hcall, rfl⟩
  constructor
  · intro hsame
    refine ⟨fun call hcall hleft => ?_, fun carried hcarried hkept => ?_⟩
    · obtain ⟨held, hheld | ⟨hheld, hextracts⟩, hkey⟩ :=
        (hhas (key call)).mp ((hsame _).trans (hfresh hcall))
      · exact ⟨held, hheld.1, hheld.2, hkey⟩
      · have hdeclared := hundergoes.declared_of_mem hapart
          (List.mem_append_right stages (List.mem_singleton_self last))
        have hsource := ((hdeclared held hheld).sources_eq hapart
          (hdeclared call hcall) hkey).1
        exact absurd (hsource ▸ hextracts) hleft
    · rw [← hsame]
      exact (hhas _).mpr ⟨carried, Or.inl ⟨hcarried, hkept⟩, rfl⟩
  · rintro ⟨hmissed, hstale⟩ ends
    rw [Bool.eq_iff_iff, hhas]
    constructor
    · rintro ⟨call, ⟨hcarried, hkept⟩ | ⟨hcall, _⟩, rfl⟩
      · exact hstale call hcarried hkept
      · exact hfresh hcall
    · intro hends
      obtain ⟨call, hcall, rfl⟩ := KeyedSet.has_iff.mp hends
      by_cases hextracts : last.Extracts call.caller.source
      · exact ⟨call, Or.inr ⟨hcall, hextracts⟩, rfl⟩
      · obtain ⟨carried, hcarried, hkept, hkey⟩ :=
          hmissed call hcall hextracts
        exact ⟨carried, Or.inl ⟨hcarried, hkept⟩, hkey⟩

end Undergoes

end Session

namespace Sample

def newSession (files : FileSystem) : Session where
  root := ⟨"/p"⟩
  layout := Config.empty.layout
  drawing := none
  world := ⟨.startingFrom .initial,
    ⟨.ofProject ⟨⟨"/p"⟩, ⟨"/p"⟩, [], 0, ∅⟩, ⟨files, ""⟩⟩⟩

def calleeWritten : Session :=
  ((newSession callerFile).build classParser default).1.withFiles bothFiles

def calleeBuilt : Session := (calleeWritten.build classParser default).1

theorem openAt_newSession {files : FileSystem}
    (hroot : (files.locate true ⟨"/p"⟩).toOption = some (["p"], .directory))
    (hcache : Session.cachedSnapshot ⟨"/p"⟩ files = .initial) :
    Session.openAt ⟨"/p"⟩ .empty none files = .ok (newSession files) := by
  unfold Session.openAt Project.openAt
  rw [eq_ok_of_toOption hroot, hcache]
  rfl

theorem classFiles_read : ∀ files ∈ [callerFile, bothFiles],
    (files.locate true ⟨"/p"⟩).toOption = some (["p"], .directory) ∧
      Session.cachedSnapshot ⟨"/p"⟩ files = .initial ∧
      ∀ source ∈ ((newSession files).project.sources files).entries,
        ((newSession files).project.textOf files source).toOption =
            (classTexts source ⟨0⟩).toOption ∧
          (classTexts source ⟨0⟩).toOption.isSome = true := by
  decide +kernel

theorem openAt_callerFile :
    Session.openAt ⟨"/p"⟩ .empty none callerFile =
      .ok (newSession callerFile) := by
  obtain ⟨hroot, hcache, -⟩ := classFiles_read callerFile (by simp)
  exact openAt_newSession hroot hcache

theorem openAt_bothFiles :
    Session.openAt ⟨"/p"⟩ .empty none bothFiles =
      .ok (newSession bothFiles) := by
  obtain ⟨hroot, hcache, -⟩ := classFiles_read bothFiles (by simp)
  exact openAt_newSession hroot hcache

/-- A build after the second file was written leaves no call, and a session that
is opened then finds one. -/
theorem calleeBuilt_misses_call :
    Session.openAt ⟨"/p"⟩ .empty none callerFile =
        .ok (newSession callerFile) ∧
      Session.openAt ⟨"/p"⟩ .empty none bothFiles =
        .ok (newSession bothFiles) ∧
      calleeBuilt.snapshot.edges.entries = [] ∧
      ((newSession bothFiles).build classParser
        default).1.snapshot.edges.entries.map (fun call =>
          (call.caller.signature, call.callee.signature)) =
        [("A::a()", "B::b()")] :=
  ⟨openAt_callerFile, openAt_bothFiles, by decide +kernel, by decide +kernel⟩

theorem files_newSession (files : FileSystem) :
    (newSession files).files = files := rfl

theorem shows_newSession {files : FileSystem}
    (hread : ∀ source ∈ ((newSession files).project.sources files).entries,
      ((newSession files).project.textOf files source).toOption =
          (classTexts source ⟨0⟩).toOption ∧
        (classTexts source ⟨0⟩).toOption.isSome = true) :
    (newSession files).project.Shows (newSession files).files classTexts := by
  rw [files_newSession]
  exact fun source hsource => tells_of_read (hread source hsource)

theorem shows_callerFile :
    (newSession callerFile).project.Shows (newSession callerFile).files
      classTexts :=
  shows_newSession (classFiles_read callerFile (by simp)).2.2

theorem shows_bothFiles :
    (newSession bothFiles).project.Shows (newSession bothFiles).files
      classTexts :=
  shows_newSession (classFiles_read bothFiles (by simp)).2.2

theorem isFreshFor_newSession {files : FileSystem} {session : Session}
    (hopened : Session.openAt ⟨"/p"⟩ .empty none files =
      .ok (newSession files))
    (hproject : session.project.asOpened =
      (newSession files).project.asOpened)
    (hfiles : session.files = files) :
    session.IsFreshFor (newSession files) where
  opened := ⟨_, _, _, _, hopened⟩
  unseen := rfl
  project := hproject.symm
  resembles := by
    rw [hfiles]
    exact .refl _ files

theorem classFiles_build : ∀ session ∈ [newSession callerFile, calleeWritten],
    (session.build classParser default).2.toOption.isSome = true := by
  decide +kernel

theorem exists_report {session : Session}
    (hmem : session ∈ [newSession callerFile, calleeWritten]) :
    ∃ report, (session.build classParser default).2 = .ok report := by
  obtain ⟨report, hreport⟩ :=
    Option.isSome_iff_exists.mp (classFiles_build session hmem)
  exact ⟨report, eq_ok_of_toOption hreport⟩

def firstStage : Stage :=
  Session.stageOf classParser (newSession callerFile) (newSession callerFile)
    default default

def lastStage : Stage :=
  Session.stageOf classParser calleeWritten (newSession bothFiles) default
    default

theorem calleeWritten_undergoes :
    calleeWritten.Undergoes classParser classTexts [firstStage] := by
  have hnew : (newSession callerFile).Undergoes classParser classTexts [] :=
    .opened openAt_callerFile rfl
  obtain ⟨report, hreport⟩ :=
    @exists_report (newSession callerFile) (by simp)
  have hbuilt : ((newSession callerFile).build classParser
      default).1.Undergoes classParser classTexts ([] ++ [firstStage]) :=
    .committed hnew shows_callerFile
      (isFreshFor_newSession openAt_callerFile rfl (files_newSession _))
      hreport
  exact .edited hbuilt bothFiles

theorem files_calleeWritten : calleeWritten.files = bothFiles :=
  Session.files_withFiles _ _

theorem project_calleeWritten :
    calleeWritten.project.asOpened =
      (newSession bothFiles).project.asOpened := by
  have hnew : (newSession callerFile).IsSettled classParser classTexts :=
    Session.isSettled_of_openAt openAt_callerFile rfl
  obtain ⟨_, hproject, _⟩ :=
    Session.build_built classTexts_isApart hnew shows_callerFile default
  rw [calleeWritten, Session.project_withFiles, hproject]
  rfl

theorem shows_calleeWritten :
    calleeWritten.project.Shows calleeWritten.files classTexts := by
  have hshows := shows_bothFiles
  rw [files_calleeWritten]
  rw [files_newSession] at hshows
  exact hshows.congr project_calleeWritten

theorem isFreshFor_calleeWritten :
    calleeWritten.IsFreshFor (newSession bothFiles) :=
  isFreshFor_newSession openAt_bothFiles project_calleeWritten
    files_calleeWritten

theorem calleeBuilt_undergoes :
    calleeBuilt.Undergoes classParser classTexts
      ([firstStage] ++ [lastStage]) := by
  obtain ⟨report, hreport⟩ := @exists_report calleeWritten (by simp)
  unfold calleeBuilt
  exact .committed calleeWritten_undergoes shows_calleeWritten
    isFreshFor_calleeWritten hreport

theorem calleeBuilt_matches_fresh_iff :
    (∀ ends, calleeBuilt.snapshot.edges.has ends =
        lastStage.fresh.edges.has ends) ↔
      (∀ call ∈ lastStage.fresh.edges,
        ¬lastStage.Extracts call.caller.source →
          ∃ carried, Stage.Carries [firstStage] carried ∧
            lastStage.Keeps carried ∧ key carried = key call) ∧
      ∀ carried, Stage.Carries [firstStage] carried →
        lastStage.Keeps carried →
          lastStage.fresh.edges.has (key carried) = true :=
  Session.Undergoes.matches_fresh_iff classTexts_isApart calleeBuilt_undergoes

end Sample

end CallGraph
