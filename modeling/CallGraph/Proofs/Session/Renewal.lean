import CallGraph.Proofs.Session.Restart

namespace CallGraph

theorem Build.project_congr {snapshot other : Snapshot}
    (hedges : other.edges = snapshot.edges) (scope : ViewScope)
    (methods : List Method) :
    Build.project scope methods other =
      Build.project scope methods snapshot := by
  unfold Build.project Projection.ofFocus Projection.ofScope Projection.chains
    Projection.upLinks Projection.downLinks
  rw [hedges]

namespace Workspace

variable {parser : Parser} {texts : Texts} {workspace : Workspace}
  {baseline : Snapshot} {round again : Round}

section Supplied

variable (hapart : texts.IsApart parser)
  (hsettled : baseline.IsSettled texts.yield)
  (hshows : workspace.project.Shows workspace.files texts)
  (hsupplies : workspace.Supplies parser baseline round)
include hapart hsettled hshows hsupplies

/-- A call that was found leads to a method of a unit that can be read; one that
stayed valid leads to a unit that has not failed before either. -/
theorem Supplies.callee_not_failed :
    ∀ edge ∈ (round.snapshot baseline).edges,
      edge.callee.source ∉ (round.snapshot baseline).failed := by
  intro edge hedge
  have hfails := hsupplies.failsAs hshows
  rcases Round.valid_or_found hedge with hvalid | ⟨hfound, hinside⟩
  · exact (hfails.not_failed_of_mem_valid hsupplies.fits hsettled hvalid).2
  · obtain ⟨⟨extraction, houtcome, hmem⟩, _⟩ :=
      (hsupplies.mem_foundEdges_iff hshows hapart).mp hfound
    obtain ⟨hcaller, hcallee⟩ := Recomputed.isInside_iff.mp hinside
    obtain ⟨token, htoken⟩ := VersionMap.records_iff.mp hcaller
    obtain ⟨seen, hseen⟩ := VersionMap.records_iff.mp hcallee
    obtain ⟨_, hnow⟩ := Analyzer.resolved_of_mem_outcomeIn hshows
      (hsupplies.mem_sources hcaller) (hsupplies.versionOf_of_mem htoken)
      hapart houtcome hmem
    obtain ⟨read, methods, hread, hdeclared, _⟩ :=
      Texts.declared_of_mem_methodsNow hnow
    obtain rfl : read = seen := Except.ok.inj
      (hread.symm.trans (hsupplies.versionOf_of_mem hseen))
    have hyields :=
      (hfails.snapshot_isSettled hsupplies.fits hsettled).yields hseen
    rw [hyields, Texts.yield_eq_none_iff]
    intro hnone
    rw [Texts.declared, hnone] at hdeclared
    cases hdeclared

theorem Supplies.snapshot_again
    (hagain : workspace.Supplies parser (round.snapshot baseline) again) :
    again.snapshot (round.snapshot baseline) =
      (round.snapshot baseline).succeeding (round.snapshot baseline) :=
  (hsupplies.sees.repeats hagain.sees hsupplies.fits
    hagain.fits).snapshot_eq_of_clean hsettled hsupplies.fits
      (hsupplies.failsAs hshows) hagain.fits (hagain.failsAs hshows)
      (hsupplies.callee_not_failed hapart hsettled hshows)

end Supplied

section Built

variable {layout : LayeredLayout} {scope : ViewScope}
  {start start' : World Workspace} {last last' : Coordinator}
  {report : BuildReport} {result : BuildResult}

theorem Built.shows_again (hapart : texts.IsApart parser)
    (hsettled : start.coordinator.snapshot.IsSettled texts.yield)
    (hshows : start.host.project.Shows start.host.files texts)
    (hsnapshot : start'.coordinator.snapshot = last.snapshot)
    (hopened : start'.host.project.asOpened = start.host.project.asOpened)
    (hresembles : start.host.project.Resembles start.host.files
      start'.host.files)
    (hbuilt : Built parser texts layout scope start last (.ok report))
    (hbuilt' : Built parser texts layout scope start' last' result) :
    ∃ report', result = .ok report' ∧ report'.graph? = report.graph? ∧
      last'.snapshot = last.snapshot.succeeding last.snapshot := by
  cases hbuilt with
  | @committed round hround hlast =>
      cases hbuilt' with
      | @unread reads source rest fault horder hbefore hfailed =>
          obtain ⟨hsources, hversion⟩ := sight_agrees hopened hresembles
          rw [hsources] at horder
          have hsource : source ∈
              start.host.project.sources start.host.files := by
            rw [KeyedSet.mem_def, horder]
            exact List.mem_append_right _ List.mem_cons_self
          rw [hversion source hsource] at hfailed
          exact absurd hfailed (hround.version_ne_error hsource)
      | @committed again hagain hlast' =>
          rw [hsnapshot, hlast] at hagain hlast'
          have hagain := hagain.of_agrees hopened hresembles hapart hshows
          have hsame :=
            hround.snapshot_again hapart hsettled hshows hagain
          have hunits : again.units = round.units :=
            (hround.sees.repeats hagain.sees hround.fits hagain.fits).units
          obtain ⟨hrequested, hmethods⟩ :=
            @scope_agrees parser texts _ _ hopened hresembles scope
          refine ⟨_, rfl, ?_, ?_⟩
          · have hedges : (again.snapshot (round.snapshot
                start.coordinator.snapshot)).edges =
                  (round.snapshot start.coordinator.snapshot).edges := by
              rw [hsame]
              rfl
            unfold reportOf BuildReport.graph?
            dsimp only
            rw [hsnapshot, hlast, Build.project_congr hedges, hunits,
              hrequested, hmethods]
          · rw [hlast', hsame, hlast]

end Built

end Workspace

namespace Session

variable {parser : Parser} {texts : Texts} {session next : Session}

/-- A session that begins with what another one has built on the same files shows
the same graph, and leaves the same snapshot but for its number. -/
theorem build_again {scope : ViewScope} {report : BuildReport}
    (hapart : texts.IsApart parser)
    (hsettled : session.IsSettled parser texts)
    (hshows : session.project.Shows session.files texts)
    (hresult : (session.build parser scope).2 = .ok report)
    (hlayout : next.layout = session.layout)
    (hsnapshot : next.snapshot = (session.build parser scope).1.snapshot)
    (hopened : next.project.asOpened = session.project.asOpened)
    (hresembles : session.project.Resembles session.files next.files)
    (hnext : next.world.host.analyzer.IsSound parser texts ∧
      next.world.coordinator.IsTakingTurns) :
    ∃ report', (next.build parser scope).2 = .ok report' ∧
      report'.graph? = report.graph? ∧
        (next.build parser scope).1.snapshot =
          next.snapshot.succeeding next.snapshot := by
  obtain ⟨hbuilt, -, -⟩ := build_built hapart hsettled hshows scope
  have hshows' : next.project.Shows next.files texts :=
    (hresembles.congr hopened).shows (hshows.congr hopened)
  obtain ⟨hbuilt', -, -⟩ := Workspace.build_built hapart next.layout
    next.drawing scope hshows' hnext.1 hnext.2
  rw [hresult] at hbuilt
  rw [hlayout] at hbuilt'
  obtain ⟨report', hresult', hgraph, hleft⟩ := Workspace.Built.shows_again hapart
    hsettled.settled hshows hsnapshot hopened hresembles hbuilt hbuilt'
  rw [← hlayout] at hresult' hleft
  refine ⟨report', ?_, hgraph, ?_⟩
  · rw [result_build]
    exact hresult'
  · rw [snapshot, world_build, hsnapshot]
    exact hleft

/-- A session of the tool on any tree at all: it was opened with nothing in the
cache, or with what such a session has left there; its files are edited in any
way and built now and then, and read as their versions say whenever they are
built. -/
inductive Arises (parser : Parser) (texts : Texts) : Session → Prop where
  | first {root : Path} {config : Config} {drawing : Option Drawing}
      {files : FileSystem} {session : Session}
      (opened : openAt root config drawing files = .ok session)
      (unseen : session.snapshot = .initial) : Arises parser texts session
  | resumed {root : Path} {config : Config} {drawing : Option Drawing}
      {files : FileSystem} {earlier session : Session}
      (arises : Arises parser texts earlier)
      (opened : openAt root config drawing files = .ok session)
      (cached : session.snapshot = earlier.snapshot) :
      Arises parser texts session
  | edited {session : Session} (arises : Arises parser texts session)
      (files : FileSystem) : Arises parser texts (session.withFiles files)
  | built {session : Session} (arises : Arises parser texts session)
      (shows : session.project.Shows session.files texts)
      (scope : ViewScope) : Arises parser texts (session.build parser scope).1

theorem Arises.isSettled (hapart : texts.IsApart parser)
    (harises : session.Arises parser texts) :
    session.IsSettled parser texts := by
  induction harises with
  | first hopened hunseen => exact isSettled_of_openAt hopened hunseen
  | resumed _ hopened hcached ih =>
      refine isSettled_of_cached hopened ?_ ?_ <;> rw [hcached]
      · exact ih.settled
      · exact ih.declared
  | edited _ files ih => exact ⟨ih.sound, ih.turns, ih.settled, ih.declared⟩
  | built _ hshows scope ih => exact build_isSettled hapart ih hshows scope

end Session

/-- A snapshot that the cache may hold: the one that there is without a cache, or
what a session of the tool has come to. -/
def Snapshot.IsLeft (parser : Parser) (texts : Texts) (snapshot : Snapshot) :
    Prop :=
  snapshot = .initial ∨
    ∃ session, Session.Arises parser texts session ∧
      session.snapshot = snapshot

namespace Session

open CallGraph.Path (Component)

variable {parser : Parser} {texts : Texts} {root : Path} {home : Location}
  {config : Config} {drawing : Option Drawing} {files : FileSystem}

theorem arises_of_isLeft {session : Session}
    (hopened : openAt root config drawing files = .ok session)
    (hleft : (cachedSnapshot root files).IsLeft parser texts) :
    session.Arises parser texts := by
  have hcached := (isBegunOn_of_openAt hopened).cached
  rcases hleft with hunseen | ⟨earlier, harises, hsnapshot⟩
  · exact .first hopened (hcached.trans hunseen)
  · exact .resumed harises hopened (hcached.trans hsnapshot.symm)

theorem snapshot_of_persist {session after : Session} {time : String}
    {result : Except CacheError Unit}
    (hpersist : session.persist time = (after, result)) :
    after.snapshot = session.snapshot := by
  unfold persist at hpersist
  rw [← (Prod.mk.inj hpersist).1]
  rfl

section Stored

variable {session next after : Session} {scope : ViewScope} {time : String}
  (hroot : Component.named ".callweave" ∉ root.components)
  (hhome : Cache.IsHome root home files)
  (hclear : files.KeepsClearOf ".callweave")
include hroot hhome hclear

theorem resembles_of_saved {files' : FileSystem}
    (hsaved : Cache.IsSavedIn root home files files') (exclude : List Glob) :
    (projectAt root exclude home).Resembles files files' := by
  have hagrees := hsaved.agrees.but Cache.mem_placeIn
  have hlies := liesClear_projectAt hclear hroot hhome.located exclude
  exact hlies.resembles_of_agrees hclear
    (hclear.of_agrees hagrees hsaved.names) hagrees

variable (hopened : openAt root config drawing files = .ok session)
include hopened

theorem project_of_saved {files' : FileSystem}
    (hsaved : Cache.IsSavedIn root home files files')
    (hnext : openAt root config drawing files' = .ok next) :
    next.project = session.project ∧
      session.project.Resembles files files' := by
  obtain ⟨exclude, hexclude, hproject⟩ :=
    project_of_openAt hhome.located hopened
  obtain ⟨exclude', hexclude', hproject'⟩ :=
    project_of_openAt hsaved.isHome.located hnext
  obtain rfl : exclude' = exclude :=
    Except.ok.inj (hexclude'.symm.trans hexclude)
  rw [hproject', hproject]
  exact ⟨rfl, resembles_of_saved hroot hhome hclear hsaved exclude'⟩

variable (hscreen : ∀ drawn ∈ drawing, drawn.target = none)
  (hstorable : (session.build parser scope).1.snapshot.IsStorable)
  (hpersist : (session.build parser scope).1.persist time = (after, .ok ()))
include hscreen hstorable hpersist

theorem openAt_again {report : BuildReport} (hapart : texts.IsApart parser)
    (hleft : (cachedSnapshot root files).IsLeft parser texts)
    (hshows : session.project.Shows files texts)
    (hresult : (session.build parser scope).2 = .ok report) :
    ∃ next report', openAt root config drawing after.files = .ok next ∧
      (next.build parser scope).2 = .ok report' ∧
        report'.graph? = report.graph? ∧
          (next.build parser scope).1.snapshot =
            after.snapshot.succeeding after.snapshot := by
  have hbegun := isBegunOn_of_openAt hopened
  obtain ⟨hsaved, hcached⟩ := stored_of_persist hbegun hclear hroot hhome
    hscreen hstorable hpersist
  obtain ⟨next, hnext⟩ : ∃ next,
      openAt root config drawing after.files = .ok next := by
    obtain ⟨exclude, hexclude⟩ := exists_exclude hopened
    exact ⟨_, openAt_eq hexclude hsaved.isHome.located⟩
  have hbegun' := isBegunOn_of_openAt hnext
  obtain ⟨hproject, hresembles⟩ :=
    project_of_saved hroot hhome hclear hopened hsaved hnext
  have hsettled := (arises_of_isLeft hopened hleft).isSettled hapart
  have hkept := snapshot_of_persist hpersist
  have hsnapshot : next.snapshot = after.snapshot :=
    hbegun'.cached.trans (hcached.trans hkept.symm)
  obtain ⟨report', hresult', hgraph, hagain⟩ := build_again hapart hsettled
    (hbegun.found.symm ▸ hshows) hresult
    (hbegun'.layout.trans hbegun.layout.symm) (hsnapshot.trans hkept)
    (congrArg Project.asOpened hproject)
    (by rw [hbegun.found, hbegun'.found]; exact hresembles)
    ⟨hbegun'.sound, hbegun'.turns⟩
  rw [hsnapshot] at hagain
  exact ⟨next, report', hnext, hresult', hgraph, hagain⟩

end Stored

end Session

end CallGraph
