import CallGraph.Proofs.Cache
import CallGraph.Proofs.Project
import CallGraph.Proofs.Session.Stages

namespace CallGraph

open Keyed (key)

/-! A session that is kept open, and one that is opened anew before each build
from what the one before has left in the cache. -/

namespace BuildReport

/-- A report without the number that its session gave to the build. -/
def unnumbered (report : BuildReport) : BuildReport := { report with id := 0 }

end BuildReport

namespace Workspace

variable {parser : Parser} {texts : Texts} {workspace : Workspace}
  {baseline : Snapshot} {round other : Round}

theorem Supplies.merged_eq (hround : workspace.Supplies parser baseline round)
    (hother : workspace.Supplies parser baseline other) :
    other.units = round.units ∧ other.plan baseline = round.plan baseline ∧
      other.merged baseline = round.merged baseline := by
  have hrepeats := hround.sees.repeats hother.sees hround.fits hother.fits
  have hunits : other.units = round.units := hrepeats.units
  have hversions : other.versions = round.versions := hrepeats.versions
  have hplan : other.plan baseline = round.plan baseline := by
    rw [Round.plan, hunits, hversions, Round.plan]
  have hsources : other.results.map UnitOutcome.source =
      round.results.map UnitOutcome.source := by
    rw [hother.fits.results, hplan, hround.fits.results]
  refine ⟨hunits, hplan, ?_⟩
  rw [Round.merged, Round.merged, Recomputed.merge_congr hround.found,
    Recomputed.merge_congr hother.found, hplan, hversions, hsources]

/-- The first unit without a version is found whichever way the units are read.
-/
theorem first_unread_unique {version : SourceUnit → Except Fault VersionToken}
    {units : List SourceUnit} {reads reads' : List UnitVersion}
    {source source' : SourceUnit} {rest rest' : List SourceUnit}
    {fault fault' : Fault}
    (horder : units = reads.map UnitVersion.source ++ source :: rest)
    (hbefore : ∀ read ∈ reads, version read.source = .ok read.token)
    (hfailed : version source = .error fault)
    (horder' : units = reads'.map UnitVersion.source ++ source' :: rest')
    (hbefore' : ∀ read ∈ reads', version read.source = .ok read.token)
    (hfailed' : version source' = .error fault') :
    source' = source ∧ fault' = fault := by
  have hfirst : ∀ {reads : List UnitVersion} {source rest fault},
      units = reads.map UnitVersion.source ++ source :: rest →
      (∀ read ∈ reads, version read.source = .ok read.token) →
      version source = .error fault →
      units.find? (fun unit => (version unit).toOption.isNone) =
        some source := by
    intro reads source rest fault horder hbefore hfailed
    rw [List.find?_eq_some_iff_append]
    refine ⟨by rw [hfailed]; rfl, _, _, horder, fun unit hunit => ?_⟩
    obtain ⟨read, hread, rfl⟩ := List.mem_map.mp hunit
    rw [hbefore read hread]
    rfl
  have hsame : source' = source := Option.some.inj
    ((hfirst horder' hbefore' hfailed').symm.trans
      (hfirst horder hbefore hfailed))
  refine ⟨hsame, ?_⟩
  rw [hsame, hfailed] at hfailed'
  exact (Except.error.inj hfailed').symm

theorem Supplies.version_ne_error
    (hsupplies : workspace.Supplies parser baseline round)
    {source : SourceUnit} (hsource : source ∈ workspace.project.sources
      workspace.files) {fault : Fault} :
    sight.version workspace source ≠ .error fault := by
  intro hfailed
  obtain ⟨token, htoken⟩ := hsupplies.exists_versionOf hsource
  cases hfailed.symm.trans htoken

section Agree

variable {layout : LayeredLayout} {scope : ViewScope}
  {start start' : World Workspace} {last last' : Coordinator}
  (hsnapshot : start'.coordinator.snapshot = start.coordinator.snapshot)
  (hopened : start'.host.project.asOpened = start.host.project.asOpened)
  (hresembles : start.host.project.Resembles start.host.files start'.host.files)

include hopened hresembles in
theorem sight_agrees :
    start'.host.project.sources start'.host.files =
        start.host.project.sources start.host.files ∧
      ∀ source ∈ start.host.project.sources start.host.files,
        sight.version start'.host source = sight.version start.host source :=
  ⟨(Project.sources_congr hopened _).trans hresembles.sources,
    fun source hsource => (Project.versionOf_congr hopened source _).trans
      (hresembles.versions source hsource)⟩

include hopened hresembles in
theorem Supplies.of_agrees (hapart : texts.IsApart parser)
    (hshows : start.host.project.Shows start.host.files texts)
    (hsupplies : start'.host.Supplies parser baseline round) :
    start.host.Supplies parser baseline round := by
  have hresembles' := hresembles.congr hopened
  exact hsupplies.of_resembles hapart
    (hresembles'.shows (hshows.congr hopened)) hopened.symm hresembles'.symm

include hopened hresembles in
theorem scope_agrees (scope : ViewScope) :
    start'.host.project.requestedIn scope start'.host.files =
        start.host.project.requestedIn scope start.host.files ∧
      texts.methodsNow parser start'.host.project start'.host.files =
        texts.methodsNow parser start.host.project start.host.files :=
  ⟨(Project.requestedIn_congr hopened scope _).trans
      (Project.requestedIn_of_resembles scope hresembles),
    (Texts.methodsNow_congr hopened _).trans
      (Texts.methodsNow_of_resembles hresembles)⟩

include hsnapshot hopened hresembles

theorem unnumbered_reportOf
    (hunits : other.units = round.units)
    (hplan : other.plan start.coordinator.snapshot =
      round.plan start.coordinator.snapshot)
    (hmerged : other.merged start.coordinator.snapshot =
      round.merged start.coordinator.snapshot) :
    (reportOf parser texts layout scope start' other).unnumbered =
      (reportOf parser texts layout scope start round).unnumbered := by
  obtain ⟨hrequested, hmethods⟩ := @scope_agrees parser texts _ _ hopened
    hresembles scope
  unfold reportOf BuildReport.unnumbered Round.snapshot
  dsimp only
  rw [hsnapshot, hunits, hplan, hmerged, hrequested, hmethods]

theorem Built.agree (hapart : texts.IsApart parser)
    (hshows : start.host.project.Shows start.host.files texts)
    {result result' : BuildResult}
    (hbuilt : Built parser texts layout scope start last result)
    (hbuilt' : Built parser texts layout scope start' last' result') :
    last'.snapshot = last.snapshot ∧
      result'.map BuildReport.unnumbered =
        result.map BuildReport.unnumbered := by
  obtain ⟨hsources, hversion⟩ := sight_agrees hopened hresembles
  have hsupplied : ∀ {round}, start'.host.Supplies parser
      start'.coordinator.snapshot round →
        start.host.Supplies parser start.coordinator.snapshot round :=
    fun hsupplies => (hsnapshot ▸ hsupplies).of_agrees hopened hresembles hapart
      hshows
  have hmem : ∀ {units : UnitSet} {front : List SourceUnit} {source rest},
      units.entries = front ++ source :: rest → source ∈ units := by
    intro units front source rest horder
    rw [KeyedSet.mem_def, horder]
    exact List.mem_append_right _ List.mem_cons_self
  cases hbuilt with
  | @unread reads source rest fault horder hbefore hfailed hlast =>
    cases hbuilt' with
    | @unread reads' source' rest' fault' horder' hbefore' hfailed' hlast' =>
      rw [hsources] at horder'
      have hbefore'' : ∀ read ∈ reads',
          sight.version start.host read.source = .ok read.token := by
        intro read hread
        rw [← hbefore' read hread, hversion]
        rw [KeyedSet.mem_def, horder']
        exact List.mem_append_left _ (List.mem_map_of_mem hread)
      rw [hversion source' (hmem horder')] at hfailed'
      obtain ⟨rfl, rfl⟩ := first_unread_unique horder hbefore hfailed horder'
        hbefore'' hfailed'
      exact ⟨hlast'.trans (hsnapshot.trans hlast.symm), rfl⟩
    | committed hround =>
      exact absurd hfailed ((hsupplied hround).version_ne_error (hmem horder))
  | committed hround hlast =>
    cases hbuilt' with
    | @unread _ source' _ _ horder' _ hfailed' =>
      rw [hsources] at horder'
      rw [hversion source' (hmem horder')] at hfailed'
      exact absurd hfailed' (hround.version_ne_error (hmem horder'))
    | committed hround' hlast' =>
      obtain ⟨hunits, hplan, hmerged⟩ := hround.merged_eq (hsupplied hround')
      rw [hlast, hlast', hsnapshot]
      exact ⟨congrArg (fun recomputed : Recomputed =>
          recomputed.snapshot.succeeding start.coordinator.snapshot) hmerged,
        congrArg Except.ok (unnumbered_reportOf hsnapshot hopened hresembles
          hunits hplan hmerged)⟩

end Agree

def KeepsFiles (first last : World Workspace) : Prop :=
  last.host.files = first.host.files

theorem stable_keepsFiles {drawing : Option Drawing} {layout : LayeredLayout}
    (hscreen : ∀ drawn ∈ drawing, drawn.target = none) :
    Build.Stable (host parser layout drawing) KeepsFiles := by
  refine @stable_of_step parser layout drawing
    (fun first last => last.files = first.files) (fun _ => rfl)
    (fun hfirst hlast => hlast.trans hfirst) fun {first last} hstep => ?_
  cases hstep with
  | drawn graph =>
      cases drawing with
      | none => rfl
      | some drawn =>
          unfold draw Drawing.draw files
          dsimp only
          rw [hscreen drawn rfl]
  | _ => rfl

end Workspace

namespace Session

open FileSystem
open CallGraph.Path (IsName Component)

/-- What happens between two builds and with the second one: the files are
edited, a build is asked for, and if the session ends with it the snapshot is
stored under a time. -/
structure Visit where
  edits : List Edit
  scope : ViewScope
  time : String

structure Seen where
  snapshot : Snapshot
  result : BuildResult

def seenOf (built : Session × BuildResult) : Seen :=
  ⟨built.1.snapshot, built.2.map BuildReport.unnumbered⟩

theorem snapshot_seenOf (built : Session × BuildResult) :
    (seenOf built).snapshot = built.1.snapshot := rfl

def visited (parser : Parser) (session : Session) (visit : Visit) :
    Session × BuildResult :=
  (session.withFiles (session.files.edited visit.edits)).build parser
    visit.scope

/-- What is seen of a session that is kept open throughout. -/
def keptOpen (parser : Parser) : Session → List Visit → List Seen
  | _, [] => []
  | session, visit :: rest =>
      seenOf (session.visited parser visit) ::
        keptOpen parser (session.visited parser visit).1 rest

inductive RestartError where
  | notOpened (error : ProjectError)
  | notStored (error : CacheError)
  deriving DecidableEq

def storedAfter (time : String) (built : Session × BuildResult) :
    Except RestartError (FileSystem × Seen) :=
  match built.1.persist time with
  | (_, .error error) => .error (.notStored error)
  | (stored, .ok _) => .ok (stored.files, seenOf built)

/-- A build of a session that is opened after the files were edited, and that
stores its snapshot in the end. -/
def renewed (parser : Parser) (root : Path) (config : Config)
    (drawing : Option Drawing) (files : FileSystem) (visit : Visit) :
    Except RestartError (FileSystem × Seen) :=
  match openAt root config drawing (files.edited visit.edits) with
  | .error error => .error (.notOpened error)
  | .ok session => storedAfter visit.time (session.build parser visit.scope)

/-- What is seen of sessions each of which is opened on what the one before has
left, builds once, and stores its snapshot. -/
def startedOver (parser : Parser) (root : Path) (config : Config)
    (drawing : Option Drawing) :
    FileSystem → List Visit → Except RestartError (List Seen)
  | _, [] => .ok []
  | files, visit :: rest => do
      let left ← renewed parser root config drawing files visit
      return left.2 :: (← startedOver parser root config drawing left.1 rest)

def treesOf : FileSystem → List Visit → List FileSystem
  | _, [] => []
  | files, visit :: rest =>
      files.edited visit.edits :: treesOf (files.edited visit.edits) rest

/-- A tree as a project is worked on in it: the root stands where it did, the
links in the tree do not name the cache, and files read as their versions say.
-/
structure IsWorkedOn (texts : Texts) (root : Path) (home : Location)
    (project : Project) (files : FileSystem) : Prop where
  located : files.locate true root = .ok (home, .directory)
  clear : files.KeepsClearOf ".callweave"
  shows : project.Shows files texts

variable {parser : Parser} {texts : Texts} {root : Path} {config : Config}
  {drawing : Option Drawing} {files : FileSystem} {session : Session}
  {home : Location}

def newAt (root : Path) (config : Config) (drawing : Option Drawing)
    (exclude : List Glob) (home : Location) (files : FileSystem) : Session :=
  ⟨root, config.layout, drawing,
    ⟨Coordinator.startingFrom (cachedSnapshot root files),
      ⟨Analyzer.ofProject ⟨home.path, root, exclude, 0, ∅⟩, ⟨files, ""⟩⟩⟩⟩

theorem openAt_eq {exclude : List Glob}
    (hexclude : Project.parseExcludes config.exclude = .ok exclude)
    (hlocated : files.locate true root = .ok (home, .directory)) :
    openAt root config drawing files =
      .ok (newAt root config drawing exclude home files) := by
  unfold openAt Project.openAt
  rw [hlocated]
  dsimp only
  rw [hexclude]
  rfl

theorem newAt_isBegunOn (exclude : List Glob) (home : Location) :
    (newAt root config drawing exclude home files).IsBegunOn root config
      drawing files :=
  ⟨rfl, rfl, rfl, rfl, rfl, rfl, rfl, .startingFrom _⟩

theorem exists_exclude
    (hopened : openAt root config drawing files = .ok session) :
    ∃ exclude, Project.parseExcludes config.exclude = .ok exclude := by
  unfold openAt Project.openAt at hopened
  split at hopened
  · cases hopened
  · rename_i hproject
    split at hproject
    · split at hproject
      · cases hproject
      · rename_i exclude hexclude
        exact ⟨exclude, hexclude⟩
    · cases hproject

section Renewed

variable {visit : Visit} {after : Session}
  (hopened : openAt root config drawing (files.edited visit.edits) =
    .ok session)
include hopened

theorem renewed_of_failed {error : CacheError}
    (hpersist : (session.build parser visit.scope).1.persist visit.time =
      (after, .error error)) :
    renewed parser root config drawing files visit =
      .error (.notStored error) := by
  unfold renewed
  rw [hopened]
  dsimp only
  unfold storedAfter
  rw [hpersist]

theorem renewed_of_stored
    (hpersist : (session.build parser visit.scope).1.persist visit.time =
      (after, .ok ())) :
    renewed parser root config drawing files visit =
      .ok (after.files, seenOf (session.build parser visit.scope)) := by
  unfold renewed
  rw [hopened]
  dsimp only
  unfold storedAfter
  rw [hpersist]

end Renewed

theorem startedOver_of_failed {visit : Visit} {error : RestartError}
    (hrenewed : renewed parser root config drawing files visit = .error error)
    (rest : List Visit) :
    startedOver parser root config drawing files (visit :: rest) =
      .error error := by
  rw [startedOver, hrenewed]
  rfl

theorem startedOver_of_renewed {visit : Visit} {after : FileSystem}
    {seen : Seen}
    (hrenewed : renewed parser root config drawing files visit =
      .ok (after, seen)) (rest : List Visit) :
    startedOver parser root config drawing files (visit :: rest) =
      (startedOver parser root config drawing after rest).map (seen :: ·) := by
  rw [startedOver, hrenewed]
  rfl

theorem files_build (hscreen : ∀ drawn ∈ session.drawing, drawn.target = none)
    (scope : ViewScope) :
    (session.build parser scope).1.files = session.files := by
  have hstable : Build.Stable
      (Workspace.host parser session.layout session.drawing)
      Workspace.KeepsFiles := Workspace.stable_keepsFiles hscreen
  unfold files
  rw [world_build]
  exact hstable.build 0 scope session.world

theorem opened_build (session : Session) (scope : ViewScope) :
    (session.build parser scope).1.root = session.root ∧
      (session.build parser scope).1.layout = session.layout ∧
        (session.build parser scope).1.drawing = session.drawing := by
  unfold build
  exact ⟨rfl, rfl, rfl⟩

/-- Two sessions with the same snapshot and the same found in their files show
the same, whatever they have been through. -/
theorem seenOf_build (hapart : texts.IsApart parser) {fresh : Session}
    (hlayout : fresh.layout = session.layout)
    (hsnapshot : fresh.snapshot = session.snapshot)
    (hopened : fresh.project.asOpened = session.project.asOpened)
    (hresembles : session.project.Resembles session.files fresh.files)
    (hshows : session.project.Shows session.files texts)
    (hsession : session.world.host.analyzer.IsSound parser texts ∧
      session.world.coordinator.IsTakingTurns)
    (hfresh : fresh.world.host.analyzer.IsSound parser texts ∧
      fresh.world.coordinator.IsTakingTurns)
    (scope : ViewScope) :
    seenOf (fresh.build parser scope) =
      seenOf (session.build parser scope) := by
  have hshows' : fresh.project.Shows fresh.files texts :=
    (hresembles.congr hopened).shows (hshows.congr hopened)
  obtain ⟨hbuilt, -, -⟩ := Workspace.build_built hapart session.layout
    session.drawing scope hshows hsession.1 hsession.2
  obtain ⟨hbuilt', -, -⟩ := Workspace.build_built hapart session.layout
    fresh.drawing scope hshows' hfresh.1 hfresh.2
  obtain ⟨hleft, hresult⟩ := Workspace.Built.agree hsnapshot hopened
    hresembles hapart hshows hbuilt hbuilt'
  unfold seenOf snapshot
  rw [world_build, result_build, world_build, result_build, hlayout]
  exact congr (congrArg Seen.mk hleft) hresult

theorem sound_build (hapart : texts.IsApart parser)
    (hshows : session.project.Shows session.files texts)
    (hsession : session.world.host.analyzer.IsSound parser texts ∧
      session.world.coordinator.IsTakingTurns)
    (scope : ViewScope) :
    ((session.build parser scope).1.world.host.analyzer.IsSound parser texts ∧
      (session.build parser scope).1.world.coordinator.IsTakingTurns) ∧
        (session.build parser scope).1.project.asOpened =
          session.project.asOpened := by
  obtain ⟨-, hopened, hsound⟩ := Workspace.build_built hapart session.layout
    session.drawing scope hshows hsession.1 hsession.2
  unfold project
  rw [world_build]
  exact ⟨⟨hsound, (Build.stable_keepsTurns _).build 0 scope session.world
    hsession.2⟩, hopened⟩

theorem save_of_persist {time : String} {after : Session}
    (hpersist : session.persist time = (after, .ok ())) :
    Cache.save session.snapshot session.root time session.files =
      (after.files, .ok ()) := by
  unfold persist at hpersist
  obtain ⟨hafter, hresult⟩ := Prod.mk.inj hpersist
  rw [← hafter]
  exact Prod.ext rfl hresult

theorem stored_of_persist {scope : ViewScope} {time : String} {after : Session}
    (hbegun : session.IsBegunOn root config drawing files)
    (hclear : files.KeepsClearOf ".callweave")
    (hroot : Component.named ".callweave" ∉ root.components)
    (hhome : Cache.IsHome root home files)
    (hscreen : ∀ drawn ∈ drawing, drawn.target = none)
    (hstorable : (session.build parser scope).1.snapshot.IsStorable)
    (hpersist : (session.build parser scope).1.persist time =
      (after, .ok ())) :
    Cache.IsSavedIn root home files after.files ∧
      cachedSnapshot root after.files =
        (session.build parser scope).1.snapshot := by
  have hsave := save_of_persist hpersist
  rw [files_build (hbegun.drawn ▸ hscreen), (opened_build _ _).1, hbegun.rooted,
    hbegun.found] at hsave
  obtain ⟨hsaved, hholds⟩ := Cache.save_spec hclear hroot hhome hsave
  refine ⟨hsaved, ?_⟩
  unfold cachedSnapshot
  rw [Cache.load_of_holds hsaved.isHome hstorable hholds]

theorem files_visited (hscreen : ∀ drawn ∈ session.drawing, drawn.target = none)
    (visit : Visit) :
    (session.visited parser visit).1.files =
      session.files.edited visit.edits := by
  unfold visited
  exact @files_build parser
    (session.withFiles (session.files.edited visit.edits)) hscreen visit.scope

theorem opened_visited (session : Session) (visit : Visit) :
    (session.visited parser visit).1.layout = session.layout ∧
      (session.visited parser visit).1.drawing = session.drawing := by
  unfold visited
  exact (@opened_build parser
    (session.withFiles (session.files.edited visit.edits)) visit.scope).2

theorem sound_visited (hapart : texts.IsApart parser) {visit : Visit}
    (hshows : session.project.Shows (session.files.edited visit.edits) texts)
    (hsession : session.world.host.analyzer.IsSound parser texts ∧
      session.world.coordinator.IsTakingTurns) :
    ((session.visited parser visit).1.world.host.analyzer.IsSound parser texts ∧
      (session.visited parser visit).1.world.coordinator.IsTakingTurns) ∧
        (session.visited parser visit).1.project.asOpened =
          session.project.asOpened := by
  unfold visited
  exact @sound_build parser texts
    (session.withFiles (session.files.edited visit.edits)) hapart hshows
    hsession visit.scope

/-! Between two builds: a session that is kept open, and the tree in which the
other one has left its snapshot. -/

def projectAt (root : Path) (exclude : List Glob) (home : Location) : Project :=
  ⟨home.path, root, exclude, 0, ∅⟩

theorem project_of_openAt
    (hlocated : files.locate true root = .ok (home, .directory))
    (hopened : openAt root config drawing files = .ok session) :
    ∃ exclude, Project.parseExcludes config.exclude = .ok exclude ∧
      session.project = projectAt root exclude home := by
  obtain ⟨exclude, hexclude⟩ := exists_exclude hopened
  obtain rfl : newAt root config drawing exclude home files = session :=
    Except.ok.inj ((openAt_eq hexclude hlocated).symm.trans hopened)
  exact ⟨exclude, hexclude, rfl⟩

theorem liesClear_projectAt (hclear : files.KeepsClearOf ".callweave")
    (hroot : Component.named ".callweave" ∉ root.components)
    (hlocated : files.locate true root = .ok (home, .directory))
    (exclude : List Glob) : (projectAt root exclude home).LiesClear :=
  have hplace := (locate_agrees hclear (.refl _ _) hroot).2 _ _ hlocated
  ⟨⟨home, hplace, rfl⟩, (isPlain_of_locate hlocated).some, hroot⟩

structure Resumes (parser : Parser) (texts : Texts) (root : Path)
    (config : Config) (drawing : Option Drawing) (exclude : List Glob)
    (home : Location) (session : Session) (stored : FileSystem) : Prop where
  sound : session.world.host.analyzer.IsSound parser texts
  turns : session.world.coordinator.IsTakingTurns
  opened : session.project.asOpened = projectAt root exclude home
  layout : session.layout = config.layout
  drawn : session.drawing = drawing
  agrees : AgreesOutside (Cache.placeIn home) session.files stored
  names : stored.IsNamed
  isHome : Cache.IsHome root home stored
  cached : cachedSnapshot root stored = session.snapshot

section Visit

variable {exclude : List Glob} {stored : FileSystem} {visit : Visit}
  (hroot : Component.named ".callweave" ∉ root.components)
  (hresumes : Resumes parser texts root config drawing exclude home session
    stored)
  (hspares : ∀ edit ∈ visit.edits, edit.Spares (Cache.placeIn home))
  (htree : IsWorkedOn texts root home (projectAt root exclude home)
    (session.files.edited visit.edits))
include hroot hresumes hspares htree

theorem Resumes.edited :
    (stored.edited visit.edits).KeepsClearOf ".callweave" ∧
      AgreesOutside (Cache.placeIn home) (session.files.edited visit.edits)
        (stored.edited visit.edits) ∧
      Cache.IsHome root home (stored.edited visit.edits) ∧
      cachedSnapshot root (stored.edited visit.edits) = session.snapshot := by
  have hagrees := hresumes.agrees.edited visit.edits
  have hwithin : ∀ location, Cache.placeIn home <+: location →
      FileSystem.entry? (stored.edited visit.edits) location =
        stored.entry? location :=
    fun _ => entry?_edited hspares Cache.placeIn_ne_nil
  have hclear := htree.clear.of_agrees (hagrees.but Cache.mem_placeIn)
    (hagrees.names hwithin htree.clear.names hresumes.names)
  have hhome : Cache.IsHome root home (stored.edited visit.edits) := by
    refine ⟨?_, fun location target hlocation => ?_⟩
    · rw [(locate_agrees htree.clear (hagrees.but Cache.mem_placeIn) hroot).1]
      exact htree.located
    · rw [hwithin location hlocation]
      exact hresumes.isHome.unlinked location target hlocation
  refine ⟨hclear, hagrees, hhome, ?_⟩
  rw [← hresumes.cached]
  unfold cachedSnapshot
  rw [Cache.load_congr hresumes.isHome hhome hwithin]

theorem Resumes.resembles :
    (projectAt root exclude home).Resembles
      (session.files.edited visit.edits) (stored.edited visit.edits) := by
  obtain ⟨hclear, hagrees, hhome, -⟩ :=
    hresumes.edited hroot hspares htree
  have hlies :=
    liesClear_projectAt htree.clear hroot htree.located exclude
  exact hlies.resembles_of_agrees htree.clear hclear
    (hagrees.but Cache.mem_placeIn)

variable (hapart : texts.IsApart parser)
include hapart

theorem Resumes.seen :
    seenOf ((newAt root config drawing exclude home
        (stored.edited visit.edits)).build parser visit.scope) =
      seenOf (session.visited parser visit) := by
  obtain ⟨-, -, -, hcached⟩ := hresumes.edited hroot hspares htree
  have hresembles := hresumes.resembles hroot hspares htree
  have hopened : (session.withFiles
      (session.files.edited visit.edits)).project.asOpened =
        (projectAt root exclude home).asOpened := hresumes.opened
  have hsnapshot : (newAt root config drawing exclude home
      (stored.edited visit.edits)).snapshot = (session.withFiles
        (session.files.edited visit.edits)).snapshot := hcached
  have hproject : (newAt root config drawing exclude home
      (stored.edited visit.edits)).project = projectAt root exclude home := rfl
  exact seenOf_build hapart hresumes.layout.symm hsnapshot
    (by rw [hproject, hopened]) (hresembles.congr hopened)
    (htree.shows.congr hopened) ⟨hresumes.sound, hresumes.turns⟩
    ⟨Analyzer.isSound_ofProject parser texts _, .startingFrom _⟩ visit.scope

theorem Resumes.next (hscreen : ∀ drawn ∈ drawing, drawn.target = none)
    (hstorable : (session.visited parser visit).1.snapshot.IsStorable)
    {after : Session}
    (hpersist : ((newAt root config drawing exclude home
      (stored.edited visit.edits)).build parser visit.scope).1.persist
        visit.time = (after, .ok ())) :
    Resumes parser texts root config drawing exclude home
      (session.visited parser visit).1 after.files := by
  obtain ⟨hclear, hagrees, hhome, -⟩ := hresumes.edited hroot hspares htree
  have hsnapshot : ((newAt root config drawing exclude home
      (stored.edited visit.edits)).build parser visit.scope).1.snapshot =
        (session.visited parser visit).1.snapshot := by
    rw [← snapshot_seenOf, hresumes.seen hroot hspares htree hapart,
      snapshot_seenOf]
  rw [← hsnapshot] at hstorable
  have hbegun : (newAt root config drawing exclude home
      (stored.edited visit.edits)).IsBegunOn root config drawing
        (stored.edited visit.edits) := newAt_isBegunOn exclude home
  obtain ⟨hsaved, hcached⟩ :=
    stored_of_persist hbegun hclear hroot hhome hscreen hstorable hpersist
  have hscreen' : ∀ drawn ∈ session.drawing, drawn.target = none :=
    hresumes.drawn ▸ hscreen
  obtain ⟨hsound, hopened⟩ := sound_visited hapart
    (htree.shows.congr hresumes.opened) ⟨hresumes.sound, hresumes.turns⟩
  obtain ⟨hlayout, hdrawn⟩ := @opened_visited parser session visit
  exact {
    sound := hsound.1
    turns := hsound.2
    opened := hopened.trans hresumes.opened
    layout := hlayout.trans hresumes.layout
    drawn := hdrawn.trans hresumes.drawn
    agrees := by
      rw [files_visited hscreen']
      exact hagrees.trans hsaved.agrees
    names := hsaved.names
    isHome := hsaved.isHome
    cached := hcached.trans hsnapshot }

end Visit

section Run

variable {exclude : List Glob} (hapart : texts.IsApart parser)
  (hroot : Component.named ".callweave" ∉ root.components)
  (hscreen : ∀ drawn ∈ drawing, drawn.target = none)
  (hexclude : Project.parseExcludes config.exclude = .ok exclude)
include hapart hroot hscreen hexclude

/-- The induction is on the visits: each step leaves a tree on which the next
session begins with the snapshot of the one that was kept open. -/
theorem Resumes.run {stored : FileSystem} {visits : List Visit}
    (hresumes : Resumes parser texts root config drawing exclude home session
      stored)
    (hspares : ∀ visit ∈ visits, ∀ edit ∈ visit.edits,
      edit.Spares (Cache.placeIn home))
    (htrees : ∀ tree ∈ treesOf session.files visits,
      IsWorkedOn texts root home (projectAt root exclude home) tree)
    (hstorable : ∀ seen ∈ keptOpen parser session visits,
      seen.snapshot.IsStorable) :
    startedOver parser root config drawing stored visits =
        .ok (keptOpen parser session visits) ∨
      ∃ error, startedOver parser root config drawing stored visits =
        .error (.notStored error) := by
  induction visits generalizing session stored with
  | nil => exact Or.inl rfl
  | cons visit rest ih =>
      have hedits := hspares visit List.mem_cons_self
      have htree := htrees _ List.mem_cons_self
      obtain ⟨-, -, hhome, -⟩ := hresumes.edited hroot hedits htree
      have hseen := hresumes.seen hroot hedits htree hapart
      have hfirst := hstorable _ List.mem_cons_self
      rw [snapshot_seenOf] at hfirst
      have hopened : openAt root config drawing (stored.edited visit.edits) =
          .ok (newAt root config drawing exclude home
            (stored.edited visit.edits)) :=
        openAt_eq hexclude hhome.located
      cases hpersist : ((newAt root config drawing exclude home
          (stored.edited visit.edits)).build parser visit.scope).1.persist
            visit.time with
      | mk after result =>
          cases result with
          | error error =>
              exact Or.inr ⟨error, startedOver_of_failed
                (renewed_of_failed hopened hpersist) rest⟩
          | ok =>
              have hnext := hresumes.next hroot hedits htree hapart hscreen
                hfirst hpersist
              have hfiles : (session.visited parser visit).1.files =
                  session.files.edited visit.edits :=
                files_visited (hresumes.drawn ▸ hscreen) visit
              have hrest := ih hnext
                (fun other hother =>
                  hspares other (List.mem_cons_of_mem _ hother))
                (fun tree htree => htrees tree (List.mem_cons_of_mem _
                  (hfiles ▸ htree)))
                (fun seen hseen =>
                  hstorable seen (List.mem_cons_of_mem _ hseen))
              rw [startedOver_of_renewed (renewed_of_stored hopened hpersist),
                hseen]
              rcases hrest with hrest | ⟨error, hrest⟩
              · exact Or.inl (by rw [hrest]; rfl)
              · exact Or.inr ⟨error, by rw [hrest]; rfl⟩

end Run

end Session

namespace Sample

open Session
open FileSystem (Edit IsNamed)

theorem entry?_ne_link {files : FileSystem}
    (hnone : files.stored.entries.all (fun stored => match stored.entry with
      | .link _ => false
      | _ => true) = true)
    (location : Location) (target : Path) :
    files.entry? location ≠ some (.link target) := by
  intro hlink
  rcases FileSystem.entry?_eq_some_iff.mp hlink with ⟨-, hroot⟩ | ⟨-, hmem⟩
  · cases hroot
  · have hentry := List.all_eq_true.mp hnone _ hmem
    cases hentry

theorem isWorkedOn_of_checks {files : FileSystem}
    (hlocated : (files.locate true ⟨"/p"⟩).toOption = some (["p"], .directory))
    (hnamed : ∀ stored ∈ files.stored.entries, ∀ part ∈ stored.location,
      Path.IsPiece (.named part))
    (hworking : files.workingDirectory = [])
    (hnone : files.stored.entries.all (fun stored => match stored.entry with
      | .link _ => false
      | _ => true) = true)
    (hshows : (newSession files).project.Shows (newSession files).files
      classTexts) :
    IsWorkedOn classTexts ⟨"/p"⟩ ["p"] (newSession callerFile).project files :=
  ⟨eq_ok_of_toOption hlocated,
    ⟨hnamed, by rw [hworking]; exact FileSystem.spares_nil _,
      fun location target _ hlink =>
        absurd hlink (entry?_ne_link hnone location target)⟩,
    hshows⟩

theorem isWorkedOn_bothFiles :
    IsWorkedOn classTexts ⟨"/p"⟩ ["p"] (newSession callerFile).project
      bothFiles :=
  isWorkedOn_of_checks (by decide +kernel) (by decide +kernel) rfl
    (by decide +kernel) shows_bothFiles

def calleeFollows : List Visit :=
  [⟨[], default, "now"⟩,
    ⟨[.put ["p", "B.java"] (.file (Utf8.encode calleeText) 5)], default,
      "later"⟩]

/-- Where the record of the cache is a link to a file with rules for the walk,
the rules are overwritten. -/
def linkedRecord : FileSystem :=
  ((bothFiles.set ["p", ".ignore"] (.file (Utf8.encode "A.java\n") 5)).set
    ["p", ".callweave"] .directory).set
      ["p", ".callweave", "snapshot.json"] (.link ⟨"../.ignore"⟩)

def nothingEdited : List Visit := [⟨[], default, "now"⟩, ⟨[], default, "later"⟩]

end Sample

end CallGraph
