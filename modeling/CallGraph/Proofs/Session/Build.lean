import CallGraph.Proofs.Analyzer.History
import CallGraph.Proofs.Build.Steady
import CallGraph.Session

namespace CallGraph

namespace Project

variable {project other : Project} {files files' : FileSystem}

def requestedIn (project : Project) (scope : ViewScope) (files : FileSystem) :
    UnitSet :=
  ((project.asOpened.enumerate files).1.unitsInScope scope files).2

theorem unitsInScope_opened (project : Project) (scope : ViewScope)
    (files : FileSystem) :
    (project.unitsInScope scope files).1 = project ∨
      (project.unitsInScope scope files).1 =
        (project.enumerate files).1 := by
  have hcurrent : (project.currentUnits files).1 = project ∨
      (project.currentUnits files).1 = (project.enumerate files).1 := by
    unfold currentUnits
    split
    · exact Or.inr rfl
    · exact Or.inl rfl
  cases scope with
  | wholeProject => exact hcurrent
  | inModule => exact hcurrent
  | inDirectory path =>
      unfold unitsInScope
      dsimp only
      split
      · exact hcurrent
      · exact Or.inl rfl
  | listed => exact Or.inl rfl
  | callChains => exact hcurrent

theorem unitsInScope_eq (scope : ViewScope)
    (henumerated : 0 < project.epoch)
    (hunits : project.units = project.sources files) :
    (project.unitsInScope scope files).2 = project.requestedIn scope files := by
  have hcurrent : (project.currentUnits files).2 = project.sources files := by
    rw [currentUnits_of_epoch_pos henumerated]
    exact hunits
  cases scope with
  | wholeProject includeTests =>
      exact congrArg (KeyedSet.filter fun source =>
        includeTests || !source.isTest) hcurrent
  | inModule name =>
      exact congrArg (KeyedSet.filter (isInModule name)) hcurrent
  | inDirectory path =>
      cases hrelative : project.relative? (project.root.join ⟨path⟩) with
      | none =>
          have hrelative' : (project.asOpened.enumerate files).1.relative?
              ((project.asOpened.enumerate files).1.root.join ⟨path⟩) =
                none := hrelative
          simp only [requestedIn, unitsInScope, hrelative, hrelative']
          rfl
      | some relative =>
          have hrelative' : (project.asOpened.enumerate files).1.relative?
              ((project.asOpened.enumerate files).1.root.join ⟨path⟩) =
                some relative := hrelative
          simp only [requestedIn, unitsInScope, hrelative, hrelative']
          exact congrArg (KeyedSet.filter _) hcurrent
  | listed => rfl
  | callChains => exact hcurrent

theorem requestedIn_congr (hopened : other.asOpened = project.asOpened)
    (scope : ViewScope) (files : FileSystem) :
    other.requestedIn scope files = project.requestedIn scope files :=
  congrArg
    (fun opened => ((opened.enumerate files).1.unitsInScope scope files).2)
    hopened

theorem requestedIn_of_resembles (scope : ViewScope)
    (hresembles : project.Resembles files files') :
    project.requestedIn scope files' = project.requestedIn scope files := by
  have hsources := hresembles.sources
  cases scope with
  | wholeProject includeTests =>
      exact congrArg (KeyedSet.filter fun source =>
        includeTests || !source.isTest) hsources
  | inModule name =>
      exact congrArg (KeyedSet.filter (isInModule name)) hsources
  | inDirectory path =>
      cases hrelative : project.relative? (project.root.join ⟨path⟩) with
      | none =>
          have hrelative' : ∀ tree, (project.asOpened.enumerate tree).1.relative?
              ((project.asOpened.enumerate tree).1.root.join ⟨path⟩) =
                none := fun _ => hrelative
          simp only [requestedIn, unitsInScope, hrelative']
          exact hresembles.walks _
      | some relative =>
          have hrelative' : ∀ tree, (project.asOpened.enumerate tree).1.relative?
              ((project.asOpened.enumerate tree).1.root.join ⟨path⟩) =
                some relative := fun _ => hrelative
          simp only [requestedIn, unitsInScope, hrelative']
          exact congrArg (KeyedSet.filter _) hsources
  | listed => rfl
  | callChains => exact hsources

end Project

namespace Workspace

open Build (ask Answered AnsweredAtOnce Frame Nested Stable)

variable {parser : Parser} {texts : Texts} {layout : LayeredLayout}
  {drawing : Option Drawing} {first middle last workspace : Workspace}

def project (workspace : Workspace) : Project := workspace.analyzer.project

def sight : Sight Workspace where
  units workspace := .ok (workspace.project.sources workspace.files)
  version workspace source :=
    workspace.project.versionOf source workspace.files

inductive Step (parser : Parser) (drawing : Option Drawing)
    (workspace : Workspace) : Workspace → Prop where
  | answered : Step parser drawing workspace workspace
  | enumerated : Step parser drawing workspace
      (workspace.withProject
        (workspace.project.enumerate workspace.files).1)
  | asked (request : Analyzer.Request) : Step parser drawing workspace
      (workspace.withAnalyzer
        (workspace.analyzer.asked parser workspace.files request))
  | drawn (graph : Graph) :
      Step parser drawing workspace (workspace.draw drawing graph)

theorem exists_step_of_asks {α : Type}
    {question : Workspace → Activity Workspace α}
    (hasks : (host parser layout drawing).Asks question)
    (workspace : Workspace) :
    ∃ next answer, question workspace = .done next answer ∧
      Step parser drawing workspace next := by
  cases hasks with
  | allUnits => exact ⟨_, _, rfl, .enumerated⟩
  | versionOf source => exact ⟨_, _, rfl, .answered⟩
  | extract source => exact ⟨_, _, rfl, .asked (.extract source)⟩
  | unitsInScope scope =>
      refine ⟨workspace.withProject
        (workspace.project.unitsInScope scope workspace.files).1, _, rfl, ?_⟩
      rcases workspace.project.unitsInScope_opened scope workspace.files with
        hsame | henumerated
      · rw [hsame]
        exact .answered
      · rw [henumerated]
        exact .enumerated
  | methodsInScope units => exact ⟨_, _, rfl, .asked (.methodsInScope units)⟩
  | layout graph => exact ⟨_, _, rfl, .answered⟩
  | present graph => exact ⟨_, _, rfl, .drawn graph⟩

theorem host_isQuiet (parser : Parser) (layout : LayeredLayout)
    (drawing : Option Drawing) : (host parser layout drawing).IsQuiet := by
  intro α question hasks start
  obtain ⟨next, answer, hanswer, _⟩ := exists_step_of_asks hasks start
  rw [hanswer]
  exact trivial

section Steps

variable {Rel : Workspace → Workspace → Prop}
  (hrefl : ∀ workspace, Rel workspace workspace)
  (htrans : ∀ {first middle last},
    Rel first middle → Rel middle last → Rel first last)
  (hstep : ∀ {first last}, Step parser drawing first last → Rel first last)
include hrefl htrans hstep

/-- What holds across each step holds across all that a build does. -/
theorem frame_of_step (nested : Nested Workspace) :
    Frame nested (host parser layout drawing) fun first last =>
      Rel first.host last.host where
  refl world := hrefl world.host
  trans := htrans
  note world _ _ _ := hrefl world.host
  presented _ _ _ := hrefl _
  asked {_ question} hasks world := by
    obtain ⟨next, answer, hanswer, hnext⟩ :=
      exists_step_of_asks hasks world.host
    unfold ask
    rw [hanswer]
    exact hstep hnext
  resetProgress _ world := hrefl world.host
  countProgress world := hrefl world.host

theorem stable_of_step :
    Stable (host parser layout drawing) fun first last =>
      Rel first.host last.host where
  refl world := hrefl world.host
  frame nested _ := frame_of_step hrefl htrans hstep nested
  begun world := hrefl world.host
  finished world _ _ _ := hrefl world.host
  committed _ hgathered := hgathered.passes.related

end Steps

/-- Everything has been enumerated, and the index is up to date or will be
brought up to date when it is needed. -/
structure IsReady (parser : Parser) (texts : Texts) (workspace : Workspace) :
    Prop where
  shows : workspace.project.Shows workspace.files texts
  sound : workspace.analyzer.IsSound parser texts
  current : workspace.analyzer.IsCurrent parser texts workspace.files

/-- What a question leaves behind: the files as they were, and a workspace that
is ready if it was. -/
structure Follows (parser : Parser) (texts : Texts) (first last : Workspace) :
    Prop where
  files : last.files = first.files
  opened : last.project.asOpened = first.project.asOpened
  ready : first.IsReady parser texts → last.IsReady parser texts

namespace Follows

theorem refl (parser : Parser) (texts : Texts) (workspace : Workspace) :
    workspace.Follows parser texts workspace :=
  ⟨rfl, rfl, id⟩

theorem trans (hfirst : first.Follows parser texts middle)
    (hlast : middle.Follows parser texts last) :
    first.Follows parser texts last :=
  ⟨hlast.files.trans hfirst.files, hlast.opened.trans hfirst.opened,
    hlast.ready ∘ hfirst.ready⟩

theorem same (hfollows : first.Follows parser texts last) :
    sight.Same first last := by
  constructor
  · change Except.ok (last.project.sources last.files) = _
    rw [hfollows.files, Project.sources_congr hfollows.opened]
    rfl
  · funext source
    change last.project.versionOf source last.files = _
    rw [hfollows.files, Project.versionOf_congr hfollows.opened]
    rfl

theorem enumerate (workspace : Workspace) :
    workspace.Follows parser texts (workspace.withProject
      (workspace.project.enumerate workspace.files).1) where
  files := rfl
  opened := rfl
  ready hready :=
    have hcurrent := Analyzer.enumerate_spec hready.sound workspace.files
    ⟨hready.shows.congr rfl, hcurrent.1, hcurrent.2⟩

theorem asked (hapart : texts.IsApart parser) (workspace : Workspace)
    (request : Analyzer.Request) :
    workspace.Follows parser texts (workspace.withAnalyzer
      (workspace.analyzer.asked parser workspace.files request)) := by
  have hopened : (workspace.withAnalyzer (workspace.analyzer.asked parser
      workspace.files request)).project.asOpened =
        workspace.project.asOpened :=
    (congrArg Project.asOpened (Analyzer.project_asked _ request)).trans
      (Project.asOpened_currentUnits _ _)
  refine ⟨rfl, hopened, fun hready => ?_⟩
  obtain ⟨hsound, hcurrent⟩ := Analyzer.asked_isCurrent hapart hready.sound
    hready.current hready.shows request
  exact ⟨hready.shows.congr hopened, hsound, hcurrent⟩

end Follows

def undrawn (parser : Parser) (layout : LayeredLayout) : Host Workspace :=
  host parser layout none

theorem Step.follows (hapart : texts.IsApart parser)
    (hstep : Step parser none first last) :
    first.Follows parser texts last := by
  cases hstep with
  | answered => exact .refl parser texts first
  | enumerated => exact .enumerate first
  | asked request => exact .asked hapart first request
  | drawn graph => exact .refl parser texts first

theorem frame_follows (hapart : texts.IsApart parser)
    (nested : Nested Workspace) :
    Frame nested (undrawn parser layout) fun first last =>
      first.host.Follows parser texts last.host :=
  frame_of_step (Follows.refl parser texts) Follows.trans
    (Step.follows hapart) nested

/-- Two worlds that differ in their files and in the screen at most. -/
structure SameButDrawn (first last : World Workspace) : Prop where
  coordinator : last.coordinator = first.coordinator
  analyzer : last.host.analyzer = first.host.analyzer

theorem conclude_drawn (nested : Nested Workspace) (drawing : Option Drawing)
    (id : BuildId) (scope : ViewScope) (plan : Build.Plan)
    (recomputed : Recomputed) (world : World Workspace) :
    SameButDrawn
        (Build.conclude nested (undrawn parser layout) id scope plan recomputed
          world).1
        (Build.conclude nested (host parser layout drawing) id scope plan
          recomputed world).1 ∧
      (Build.conclude nested (host parser layout drawing) id scope plan
          recomputed world).2 =
        (Build.conclude nested (undrawn parser layout) id scope plan recomputed
          world).2 := by
  have hpresent : ∀ (graph : Graph) (world : World Workspace), SameButDrawn
      (Build.present nested (undrawn parser layout) id graph world)
      (Build.present nested (host parser layout drawing) id graph world) := by
    intro graph world
    unfold Build.present
    split
    · refine ⟨rfl, ?_⟩
      cases drawing <;> rfl
    · exact ⟨rfl, rfl⟩
  have hresolve : Build.resolve nested (host parser layout drawing) =
      Build.resolve nested (undrawn parser layout) := rfl
  unfold Build.conclude
  dsimp only
  rw [hresolve]
  split
  · exact ⟨⟨rfl, rfl⟩, rfl⟩
  · split
    · exact ⟨⟨rfl, rfl⟩, rfl⟩
    · exact ⟨hpresent _ _, rfl⟩

theorem build_drawn (drawing : Option Drawing) (scope : ViewScope)
    (world : World Workspace) :
    SameButDrawn (world.build (undrawn parser layout) 0 scope).1
        (world.build (host parser layout drawing) 0 scope).1 ∧
      (world.build (host parser layout drawing) 0 scope).2 =
        (world.build (undrawn parser layout) 0 scope).2 := by
  have hrun : ∀ id world, SameButDrawn
        (Build.run (Build.nestedWithin (undrawn parser layout) 0)
          (undrawn parser layout) id scope world).1
        (Build.run (Build.nestedWithin (host parser layout drawing) 0)
          (host parser layout drawing) id scope world).1 ∧
      (Build.run (Build.nestedWithin (host parser layout drawing) 0)
          (host parser layout drawing) id scope world).2 =
        (Build.run (Build.nestedWithin (undrawn parser layout) 0)
          (undrawn parser layout) id scope world).2 := by
    intro id world
    have hnested : Build.nestedWithin (host parser layout drawing) 0 =
        Build.nestedWithin (undrawn parser layout) 0 := rfl
    have hsurvey : ∀ nested, Build.survey nested (host parser layout drawing) =
        Build.survey nested (undrawn parser layout) := fun _ => rfl
    have hrecompute : ∀ nested,
        Build.recompute nested (host parser layout drawing) =
          Build.recompute nested (undrawn parser layout) := fun _ => rfl
    unfold Build.run
    rw [hnested, hsurvey, hrecompute]
    split
    · exact ⟨⟨rfl, rfl⟩, rfl⟩
    · split
      · exact ⟨⟨rfl, rfl⟩, rfl⟩
      · exact conclude_drawn _ drawing id scope _ _ _
  have hsame := hrun world.coordinator.nextId (Build.begunIn world)
  cases hplain : Build.run (Build.nestedWithin (undrawn parser layout) 0)
      (undrawn parser layout) world.coordinator.nextId scope
      (Build.begunIn world) with
  | mk plain result =>
      cases hdrawn : Build.run
          (Build.nestedWithin (host parser layout drawing) 0)
          (host parser layout drawing) world.coordinator.nextId scope
          (Build.begunIn world) with
      | mk drawn result' =>
          rw [hplain, hdrawn] at hsame
          obtain ⟨⟨hcoordinator, hanalyzer⟩, hresult⟩ := hsame
          obtain rfl : result' = result := hresult
          unfold World.build
          rw [Build.runOnce_of_run hplain, Build.runOnce_of_run hdrawn]
          refine ⟨⟨?_, hanalyzer⟩, rfl⟩
          exact congrArg (fun coordinator => coordinator.finish
            world.coordinator.nextId (BuildState.ofResult result')) hcoordinator

def reportOf (parser : Parser) (texts : Texts) (layout : LayeredLayout)
    (scope : ViewScope) (start : World Workspace) (round : Round) :
    BuildReport :=
  let baseline := start.coordinator.snapshot
  let parts := Build.ScopedUnits.part round.units
    (start.host.project.requestedIn scope start.host.files)
  let methods := parts.known.entries.flatMap
    (texts.methodsNow parser start.host.project start.host.files)
  { id := start.coordinator.nextId
    outcome := .committed (round.snapshot baseline)
      (layout.apply (Build.project scope methods (round.snapshot baseline)))
    stats := (round.plan baseline).stats (round.merged baseline).fresh
    failures := (round.merged baseline).failures
    unknown := parts.unknown }

/-- A round over the units as they are found now, in which each unit that is not
up to date has yielded what a new analyzer extracts. -/
structure Supplies (parser : Parser) (workspace : Workspace)
    (baseline : Snapshot) (round : Round) : Prop where
  fits : round.Fits baseline
  sees : round.Sees sight workspace
  found : ∀ result ∈ round.results, Recomputed.IsAlike result.outcome
    (Analyzer.outcomeIn parser workspace.project workspace.files result.source)

/-- What a round is made of does not show in the files which it was made from.
-/
theorem Supplies.of_resembles {other : Workspace} {baseline : Snapshot}
    {round : Round} (hapart : texts.IsApart parser)
    (hshows : workspace.project.Shows workspace.files texts)
    (hsupplies : workspace.Supplies parser baseline round)
    (hopened : other.project.asOpened = workspace.project.asOpened)
    (hresembles : workspace.project.Resembles workspace.files other.files) :
    other.Supplies parser baseline round := by
  have hunits : workspace.project.sources workspace.files = round.units :=
    Except.ok.inj hsupplies.sees.units
  have hunit : ∀ {source}, round.versions.records source = true →
      source ∈ workspace.project.sources workspace.files := by
    intro source hrecorded
    rw [hunits]
    exact hsupplies.fits.records_iff.mp hrecorded
  refine ⟨hsupplies.fits, ⟨?_, fun version hversion => ?_⟩,
    fun result hresult => ?_⟩
  · change Except.ok (other.project.sources other.files) = _
    rw [Project.sources_congr hopened, hresembles.sources, hunits]
  · have hrecorded := VersionMap.records_of_mem
      (hsupplies.fits.mem_versions.mpr hversion)
    change other.project.versionOf version.source other.files = _
    rw [Project.versionOf_congr hopened,
      hresembles.versions _ (hunit hrecorded)]
    exact hsupplies.sees.versions version hversion
  · have halike := Analyzer.extract_alike_outcomeIn hapart
      (Analyzer.isSound_enumerated parser texts workspace.project
        workspace.files)
      (Analyzer.isCurrent_enumerated parser texts _ _) (hshows.congr rfl)
      (hresembles.congr rfl) (hunit (hsupplies.fits.records_result hresult))
    rw [Analyzer.outcomeIn_congr hopened]
    exact (hsupplies.found result hresult).trans halike

/-- A build ends at the first unit that has no version, or it commits a round.
-/
inductive Built (parser : Parser) (texts : Texts) (layout : LayeredLayout)
    (scope : ViewScope) (start : World Workspace) (last : Coordinator) :
    BuildResult → Prop where
  | unread {reads : List UnitVersion} {source : SourceUnit}
      {rest : List SourceUnit} {fault : Fault}
      (order : (start.host.project.sources start.host.files).entries =
        reads.map UnitVersion.source ++ source :: rest)
      (before : ∀ version ∈ reads,
        sight.version start.host version.source = .ok version.token)
      (failed : sight.version start.host source = .error fault)
      (snapshot : last.snapshot = start.coordinator.snapshot) :
      Built parser texts layout scope start last (.error (.version source fault))
  | committed {round : Round}
      (supplies : start.host.Supplies parser start.coordinator.snapshot round)
      (snapshot : last.snapshot = round.snapshot start.coordinator.snapshot)
      (extracted : ∀ source,
        .extracted start.coordinator.nextId source ∈ last.events ↔
          ∃ result ∈ round.results, result.source = source) :
      Built parser texts layout scope start last
        (.ok (reportOf parser texts layout scope start round))

theorem isReady_of_enumerated (workspace : Workspace)
    (hshows : workspace.project.Shows workspace.files texts)
    (hsound : workspace.analyzer.IsSound parser texts) :
    (workspace.withProject
      (workspace.project.enumerate workspace.files).1).IsReady parser texts :=
  have hcurrent := Analyzer.enumerate_spec hsound workspace.files
  ⟨hshows.congr rfl, hcurrent.1, hcurrent.2⟩

section Built

variable {nested : Nested Workspace} {scope : ViewScope}
  {start finish : World Workspace} {origin : Workspace}
  {Rel : World Workspace → World Workspace → Prop}
  (hapart : texts.IsApart parser)
  (hrel : ∀ {first last}, Rel first last →
    first.host.Follows parser texts last.host)
include hrel

theorem answered_versionOf {source : SourceUnit}
    {answer : Except Fault VersionToken}
    (hanswered : Answered nested Rel
      ((undrawn parser layout).versionOf source) answer start finish) :
    sight.version start.host source = answer := by
  obtain ⟨asked, hbefore, hanswer, _⟩ := hanswered
  rw [← (hrel hbefore).same.2]
  exact hanswer

include hapart

theorem answered_extract {source : SourceUnit} {outcome : Outcome}
    (horigin : origin.Follows parser texts start.host)
    (hready : start.host.IsReady parser texts)
    (hsource : source ∈ origin.project.sources origin.files)
    (hanswered : Answered nested Rel
      ((undrawn parser layout).extract source) outcome start finish) :
    Recomputed.IsAlike outcome
      (Analyzer.outcomeIn parser origin.project origin.files source) := by
  obtain ⟨asked, hbefore, hanswer, _⟩ := hanswered
  have hasked := (hrel hbefore).ready hready
  have hfollows := horigin.trans (hrel hbefore)
  have hsource' : source ∈ asked.host.project.sources asked.host.files := by
    rw [hfollows.files, Project.sources_congr hfollows.opened]
    exact hsource
  have halike := Analyzer.extract_alike_outcomeIn hapart hasked.sound
    hasked.current hasked.shows (.refl _ _) hsource'
  have houtcome : (asked.host.analyzer.extract parser asked.host.files
      source).2 = outcome := hanswer
  have hopened : asked.host.analyzer.project.asOpened =
      origin.project.asOpened := hfollows.opened
  rw [houtcome, Analyzer.outcomeIn_congr hopened, hfollows.files] at halike
  exact halike

theorem resolved_of_ready {existing : UnitSet}
    {answer : Except BuildError (List Method × Option UnknownUnits)}
    (horigin : origin.Follows parser texts start.host)
    (hready : start.host.IsReady parser texts)
    (hresolved : Build.Resolved nested (undrawn parser layout) Rel scope
      existing start finish answer) :
    let parts := Build.ScopedUnits.part existing
      (origin.project.requestedIn scope origin.files)
    answer = .ok (parts.known.entries.flatMap
      (texts.methodsNow parser origin.project origin.files),
        parts.unknown) := by
  have hunits : ∀ {answer}, Answered nested Rel
      ((undrawn parser layout).unitsInScope scope) answer start finish →
        answer = .ok (origin.project.requestedIn scope origin.files) := by
    rintro answer ⟨asked, hbefore, hanswer, _⟩
    have hasked := (hrel hbefore).ready hready
    have hfollows := horigin.trans (hrel hbefore)
    have hrequested := Project.unitsInScope_eq scope hasked.current.enumerated
      hasked.current.units
    rw [← Project.requestedIn_congr hfollows.opened, ← hfollows.files]
    exact hanswer.symm.trans (congrArg Except.ok hrequested)
  have hmethods : ∀ {units answer}, Answered nested Rel
      ((undrawn parser layout).methodsInScope units) answer start finish →
        answer = .ok (units.entries.flatMap
          (texts.methodsNow parser origin.project origin.files)) := by
    rintro units answer ⟨asked, hbefore, hanswer, _⟩
    have hasked := (hrel hbefore).ready hready
    have hfollows := horigin.trans (hrel hbefore)
    obtain ⟨_, _, _, hmethods⟩ := Analyzer.sync_spec hapart hasked.sound
      hasked.current hasked.shows
    rw [← Texts.methodsNow_congr hfollows.opened, ← hfollows.files]
    refine hanswer.symm.trans ?_
    exact congrArg (fun methodsIn => Except.ok (units.entries.flatMap methodsIn))
      hmethods
  cases hresolved with
  | unlisted fault hanswer => cases hunits hanswer
  | unresolved requested fault hanswer hfault => cases hmethods hfault
  | resolved requested found hanswer hfound =>
      obtain rfl := Except.ok.inj (hunits hanswer)
      rw [Except.ok.inj (hmethods hfound)]

/-- What a build that has committed reports is told by the files alone. -/
theorem reported_of_ready {world : World Workspace} {round : Round}
    {result : BuildResult}
    (hreported : Build.Reported nested (undrawn parser layout) Rel
      world.coordinator.nextId scope round.units
      (round.snapshot world.coordinator.snapshot)
      ((round.plan world.coordinator.snapshot).stats
        (round.merged world.coordinator.snapshot).fresh)
      (round.merged world.coordinator.snapshot).failures start finish result)
    (hfollows : world.host.Follows parser texts start.host)
    (hready : start.host.IsReady parser texts) :
    result = .ok (reportOf parser texts layout scope world round) := by
  cases hreported with
  | unresolved fault hresolved =>
      cases resolved_of_ready hapart hrel hfollows hready hresolved
  | shown methods unknown graph hresolved hlaidOut =>
      have hparts := Except.ok.inj
        (resolved_of_ready hapart hrel hfollows hready hresolved)
      obtain ⟨rfl, rfl⟩ := Prod.mk.inj hparts
      obtain ⟨asked, _, hanswer, _⟩ := hlaidOut
      obtain rfl : layout.apply (Build.project scope _ _) = graph := hanswer
      rfl

theorem gathered_supplies {id : BuildId} {round : Round}
    (hgathered : Build.Gathered nested (undrawn parser layout) Rel id start
      finish round)
    (hshows : start.host.project.Shows start.host.files texts)
    (hsound : start.host.analyzer.IsSound parser texts) :
    start.host.Supplies parser start.coordinator.snapshot round ∧
      start.host.Follows parser texts finish.host ∧
      finish.host.IsReady parser texts := by
  obtain ⟨surveyed, hfirst, hmore, hunits, hreads, hresults⟩ :=
    hgathered.answers
  have hfits := hgathered.fits
  have hsees : round.Sees sight start.host := ⟨hunits.answer,
    fun version hversion => answered_versionOf hrel (hreads version hversion)⟩
  have hsurveyed := (hrel hunits.related).ready
    (isReady_of_enumerated start.host hshows hsound)
  refine ⟨⟨hfits, hsees, fun result hresult => ?_⟩,
    (hrel hfirst).trans (hrel hmore), (hrel hmore).ready hsurveyed⟩
  have hunits : start.host.project.sources start.host.files = round.units :=
    Except.ok.inj hsees.units
  have hsource : result.source ∈
      start.host.project.sources start.host.files := by
    rw [hunits]
    exact hfits.records_iff.mp (hfits.records_result hresult)
  exact answered_extract hapart hrel (hrel hfirst) hsurveyed hsource
    (hresults result hresult)

end Built

theorem undrawn_built (hapart : texts.IsApart parser) (layout : LayeredLayout)
    (scope : ViewScope) {world : World Workspace}
    (hshows : world.host.project.Shows world.host.files texts)
    (hsound : world.host.analyzer.IsSound parser texts)
    (hturns : world.coordinator.IsTakingTurns) :
    Built parser texts layout scope world
        (world.build (undrawn parser layout) 0 scope).1.coordinator
        (world.build (undrawn parser layout) 0 scope).2 ∧
      (world.build (undrawn parser layout) 0 scope).1.host.project.asOpened =
        world.host.project.asOpened ∧
      (world.build (undrawn parser layout) 0
        scope).1.host.analyzer.IsSound parser texts := by
  have hframe := (frame_follows hapart (Build.nestedWithin
    (undrawn parser layout) 0)).and
      (Build.frame_undisturbed _ (undrawn parser layout))
  have hquiet : (undrawn parser layout).IsQuiet :=
    host_isQuiet parser layout none
  have hrel : ∀ {first last : World Workspace},
      first.host.Follows parser texts last.host ∧
        Build.Undisturbed (undrawn parser layout) first last →
      first.host.Follows parser texts last.host := And.left
  obtain ⟨last, result, hcourse, hrunOnce⟩ := Build.runOnce_course
    (Build.orderly_nestedWithin (undrawn parser layout) 0) hframe scope world
  unfold World.build
  rw [hrunOnce]
  have hfinish : ∀ state, (last.coordinator.finish world.coordinator.nextId
      state).snapshot = last.coordinator.snapshot := fun state =>
    Coordinator.snapshot_finish last.coordinator world.coordinator.nextId state
  cases hcourse with
  | stopped hpasses _ hstopped =>
      have hstill := hpasses.related.2 hquiet
      rw [Build.snapshot_begunIn] at hstill
      cases hstopped with
      | unlisted fault hfault =>
          obtain ⟨asked, _, hanswer, _⟩ := hfault
          cases hanswer
      | cancelled stats hcancelled =>
          have hcurrent := hpasses.related.2.not_cancelled hquiet hturns
          cases hcancelled.symm.trans hcurrent
      | unread units reads source rest fault hunits hbefore hfailed horder =>
          obtain rfl := Except.ok.inj hunits.answer
          have hfailed := answered_versionOf hrel hfailed
          have hbefore := fun version hversion =>
            answered_versionOf hrel (hbefore version hversion)
          exact ⟨.unread horder hbefore hfailed
            ((hfinish _).trans hstill.2), hpasses.related.1.opened,
            (hunits.related.1.ready
              (isReady_of_enumerated world.host hshows hsound)).sound⟩
  | @committed round ready own _ hgathered hpasses hown hreported =>
      obtain ⟨hsupplies, hfollows, hready⟩ :=
        gathered_supplies hapart hrel hgathered hshows hsound
      rw [Build.snapshot_begunIn] at hsupplies hpasses hreported
      obtain rfl := reported_of_ready hapart hrel hreported hfollows hready
      refine ⟨.committed hsupplies ?_ fun source =>
        Build.extracted_iff_of_committed _ hturns hgathered.passes hpasses hown,
        (hfollows.trans hpasses.related.1).opened,
        (hpasses.related.1.ready hready).sound⟩
      exact (hfinish _).trans (hpasses.related.2 hquiet).2

theorem build_built (hapart : texts.IsApart parser) (layout : LayeredLayout)
    (drawing : Option Drawing)
    (scope : ViewScope) {world : World Workspace}
    (hshows : world.host.project.Shows world.host.files texts)
    (hsound : world.host.analyzer.IsSound parser texts)
    (hturns : world.coordinator.IsTakingTurns) :
    Built parser texts layout scope world
        (world.build (host parser layout drawing) 0 scope).1.coordinator
        (world.build (host parser layout drawing) 0 scope).2 ∧
      (world.build (host parser layout drawing) 0
        scope).1.host.project.asOpened = world.host.project.asOpened ∧
      (world.build (host parser layout drawing) 0
        scope).1.host.analyzer.IsSound parser texts := by
  obtain ⟨⟨hcoordinator, hanalyzer⟩, hresult⟩ :=
    @build_drawn parser layout drawing scope world
  obtain ⟨hbuilt, hopened, hsound⟩ := undrawn_built hapart layout scope
    hshows hsound hturns
  unfold project at *
  rw [hcoordinator, hresult, hanalyzer]
  exact ⟨hbuilt, hopened, hsound⟩

end Workspace

end CallGraph
