import CallGraph.CommandLine.Run
import CallGraph.Proofs.Session.Drawn
import CallGraph.Proofs.Session.Renewal

namespace CallGraph

open FileSystem
open CallGraph.Path (Component)

/-! A command that prints what it has built, and the same command once more. -/

namespace Config

theorem load_agrees {root : Path} {home : Location} {files files' : FileSystem}
    (hclear : files.KeepsClearOf ".callweave")
    (hagrees : AgreesBut ".callweave" files files')
    (hroot : Component.named ".callweave" ∉ root.components)
    (hlocated : files.locate true root = .ok (home, .directory)) :
    load root files' = load root files := by
  have hname : ("callweave.toml" : String) ≠ ".callweave" := by decide
  have hpath : Component.named ".callweave" ∉ (path root).components := by
    have hcomponents : (path root).components =
        root.components ++ [.named "callweave.toml"] :=
      Path.components_join (isPlain_of_locate hlocated).some (by decide)
    rw [hcomponents, List.mem_append, not_or]
    exact ⟨hroot, by simp [hname.symm]⟩
  unfold load isFile exists? readText FileSystem.read
  rw [(locate_agrees hclear hagrees hpath).1]

end Config

namespace Command

variable {parser : Parser} {texts : Texts} {root : Path} {home : Location}
  {files : FileSystem} {command : Command} {config : Config}
  {session built : Session}

/-- The commands that print what they have built. -/
inductive Prints : Command → Prop where
  | graph (scope : ScopeChoice) (format : Option OutputFormat) :
      Prints (.build scope ⟨format, none⟩)
  | calls : Prints .dump

def drawing? (config : Config) : Command → Option Drawing
  | .build _ choice => some (choice.drawing config)
  | _ => none

def viewScope (config : Config) : Command → ViewScope
  | .build choice _ => choice.scope config
  | _ => default

def shown (session : Session) : Command → String
  | .dump => Render.pairs session.snapshot
  | _ => session.screen

def built? (parser : Parser) (root : Path) (files : FileSystem)
    (command : Command) : Option Session :=
  match Config.load root files with
  | .error _ => none
  | .ok config =>
      match Session.openAt root config (command.drawing? config) files with
      | .error _ => none
      | .ok session =>
          match session.build parser (command.viewScope config) with
          | (_, .error _) => none
          | (built, .ok _) => some built

structure Ran (parser : Parser) (root : Path) (files : FileSystem)
    (command : Command) (config : Config) (session : Session)
    (report : BuildReport) : Prop where
  settings : Config.load root files = .ok config
  opened : Session.openAt root config (command.drawing? config) files =
    .ok session
  result : (session.build parser (command.viewScope config)).2 = .ok report

theorem Ran.built? {report : BuildReport}
    (hran : command.Ran parser root files config session report) :
    command.built? parser root files =
      some (session.build parser (command.viewScope config)).1 := by
  have hresult := hran.result
  unfold Command.built?
  rw [hran.settings]
  dsimp only
  rw [hran.opened]
  dsimp only
  generalize session.build parser (command.viewScope config) = build
    at hresult ⊢
  obtain ⟨built, result⟩ := build
  obtain rfl : result = .ok report := hresult
  rfl

theorem exists_ran (hbuilt : command.built? parser root files = some built) :
    ∃ config session report,
      command.Ran parser root files config session report ∧
        (session.build parser (command.viewScope config)).1 = built := by
  unfold built? at hbuilt
  split at hbuilt
  · cases hbuilt
  · rename_i config hconfig
    split at hbuilt
    · cases hbuilt
    · rename_i session hopened
      split at hbuilt
      · cases hbuilt
      · rename_i built report hbuild
        obtain rfl := Option.some.inj hbuilt
        exact ⟨config, session, report,
          ⟨hconfig, hopened, congrArg Prod.snd hbuild⟩,
          congrArg Prod.fst hbuild⟩

/-- A command fails and prints nothing, or it prints what it has built. -/
theorem run_eq (hprints : command.Prints) (time : String) :
    command.run ⟨parser, time⟩ root files =
      match command.built? parser root files with
      | none => .failed files
      | some built =>
          .ofSession (built.persist time).1 (command.shown built) := by
  have hrun : command.run ⟨parser, time⟩ root files =
      withConfig root files fun config =>
        match buildOnce ⟨parser, time⟩ root config (command.drawing? config)
            (command.viewScope config) files with
        | none => .failed files
        | some session => .ofSession session (command.shown session) := by
    cases hprints with
    | graph scope format => rfl
    | calls => rfl
  rw [hrun]
  unfold withConfig built? buildOnce
  cases Config.load root files with
  | error fault => rfl
  | ok config =>
      dsimp only
      cases Session.openAt root config (command.drawing? config) files with
      | error fault => rfl
      | ok session =>
          dsimp only
          generalize session.build parser (command.viewScope config) = build
          rcases build with ⟨built, error | report⟩
          · rfl
          · cases hprints with
            | graph scope format => rfl
            | calls => rfl

/-- The links in the tree do not name the cache, which holds what builds have
left there, if anything, and files read as their versions say. -/
structure Meets (parser : Parser) (texts : Texts) (root : Path)
    (home : Location) (files : FileSystem) (command : Command) : Prop where
  isHome : Cache.IsHome root home files
  clear : files.KeepsClearOf ".callweave"
  left : (Session.cachedSnapshot root files).IsLeft parser texts
  shows : ∀ config session, Config.load root files = .ok config →
    Session.openAt root config (command.drawing? config) files = .ok session →
      session.project.Shows files texts

/-- What the command has built can be stored, and is. -/
def Stores (parser : Parser) (root : Path) (files : FileSystem) (time : String)
    (command : Command) : Prop :=
  ∀ built ∈ command.built? parser root files,
    built.snapshot.IsStorable ∧ (built.persist time).2 = .ok ()

theorem Prints.drawing (hprints : command.Prints) :
    ∀ drawn ∈ command.drawing? config, drawn.target = none := by
  cases hprints with
  | graph scope format => simp [drawing?, DrawingChoice.drawing]
  | calls => simp [drawing?]

theorem Prints.shown_congr (hprints : command.Prints)
    {next : Session} {files' : FileSystem} {report report' : BuildReport}
    (hran : command.Ran parser root files config session report)
    (hran' : command.Ran parser root files' config next report')
    (hgraph : report'.graph? = report.graph?)
    (hedges : (next.build parser
        (command.viewScope config)).1.snapshot.edges =
      (session.build parser (command.viewScope config)).1.snapshot.edges) :
    command.shown (next.build parser (command.viewScope config)).1 =
      command.shown (session.build parser (command.viewScope config)).1 := by
  cases hprints with
  | graph choice format =>
      have hbegun := Session.isBegunOn_of_openAt hran.opened
      have hbegun' := Session.isBegunOn_of_openAt hran'.opened
      have hshown := Session.screen_build hbegun.drawn hran.result
      have hshown' := Session.screen_build hbegun'.drawn hran'.result
      rw [hbegun.screen] at hshown
      rw [hbegun'.screen, hgraph] at hshown'
      exact hshown'.trans hshown.symm
  | calls =>
      simp only [shown, Render.pairs]
      rw [hedges]

section Again

variable {time : String} {report : BuildReport}
  (hprints : command.Prints)
  (hroot : Component.named ".callweave" ∉ root.components)
  (hmeets : command.Meets parser texts root home files)

include hroot hmeets in
theorem Meets.load_eq {files' : FileSystem}
    (hsaved : Cache.IsSavedIn root home files files') :
    Config.load root files' = Config.load root files :=
  Config.load_agrees hmeets.clear (hsaved.agrees.but Cache.mem_placeIn) hroot
    hmeets.isHome.located

variable (hran : command.Ran parser root files config session report)
include hprints hroot hmeets hran

theorem Meets.exists_stored
    (hstores : command.Stores parser root files time) :
    ∃ after, (session.build parser (command.viewScope config)).1.persist time =
        (after, .ok ()) ∧
      Cache.IsSavedIn root home files after.files ∧
        Session.cachedSnapshot root after.files =
          (session.build parser (command.viewScope config)).1.snapshot := by
  obtain ⟨hstorable, hstored⟩ := hstores _ hran.built?
  cases hpersist : Session.persist time
      (session.build parser (command.viewScope config)).1 with
  | mk after stored =>
      rw [hpersist] at hstored
      obtain rfl : stored = .ok () := hstored
      obtain ⟨hsaved, hcached⟩ := Session.stored_of_persist
        (Session.isBegunOn_of_openAt hran.opened) hmeets.clear hroot
        hmeets.isHome hprints.drawing hstorable hpersist
      exact ⟨after, rfl, hsaved, hcached⟩

theorem Meets.built?_again (hapart : texts.IsApart parser)
    (hstores : command.Stores parser root files time) :
    ∃ next, command.built? parser root ((session.build parser
        (command.viewScope config)).1.persist time).1.files = some next ∧
      command.shown next =
        command.shown (session.build parser (command.viewScope config)).1 := by
  obtain ⟨after, hpersist, hsaved, _⟩ :=
    hmeets.exists_stored hprints hroot hran hstores
  obtain ⟨next, report', hopened', hresult', hgraph, hagain⟩ :=
    Session.openAt_again hroot hmeets.isHome hmeets.clear hran.opened
      hprints.drawing (hstores _ hran.built?).1 hpersist hapart hmeets.left
      (hmeets.shows config session hran.settings hran.opened) hran.result
  have hran' : command.Ran parser root after.files config next report' :=
    ⟨(hmeets.load_eq hroot hsaved).trans hran.settings, hopened', hresult'⟩
  have hedges : (next.build parser
      (command.viewScope config)).1.snapshot.edges =
        (session.build parser (command.viewScope config)).1.snapshot.edges := by
    rw [hagain, ← Session.snapshot_of_persist hpersist]
    rfl
  rw [hpersist]
  exact ⟨_, hran'.built?, hprints.shown_congr hran hran' hgraph hedges⟩

/-- What a command leaves is what it may find. -/
theorem Meets.again (hstores : command.Stores parser root files time) :
    command.Meets parser texts root home ((session.build parser
      (command.viewScope config)).1.persist time).1.files := by
  obtain ⟨after, hpersist, hsaved, hcached⟩ :=
    hmeets.exists_stored hprints hroot hran hstores
  have hfound := (Session.isBegunOn_of_openAt hran.opened).found
  have hshows := hmeets.shows config session hran.settings hran.opened
  have harises := Session.arises_of_isLeft hran.opened hmeets.left
  rw [hpersist]
  constructor
  case isHome => exact hsaved.isHome
  case clear =>
    exact hmeets.clear.of_agrees (hsaved.agrees.but Cache.mem_placeIn)
      hsaved.names
  case left =>
    rw [hcached]
    exact Or.inr ⟨_, .built harises (hfound.symm ▸ hshows) _, rfl⟩
  case shows =>
    intro config' next hload hopened
    rw [hmeets.load_eq hroot hsaved, hran.settings] at hload
    obtain rfl := Except.ok.inj hload
    obtain ⟨hproject, hresembles⟩ := Session.project_of_saved hroot
      hmeets.isHome hmeets.clear hran.opened hsaved hopened
    rw [hproject]
    exact hresembles.shows hshows

end Again

end Command

namespace Sample

def dumpWords : List String := ["--root", "/p", "dump"]

theorem bothFiles_meets :
    Command.dump.Meets classParser classTexts ⟨"/p"⟩ ["p"] bothFiles where
  isHome := ⟨isWorkedOn_bothFiles.located, fun location target _ =>
    entry?_ne_link (by decide +kernel) location target⟩
  clear := isWorkedOn_bothFiles.clear
  left := Or.inl (by decide +kernel)
  shows config session hconfig hopened := by
    have hdefault : Config.load ⟨"/p"⟩ bothFiles = .ok .empty := by
      unfold Config.load
      rw [if_neg (by decide +kernel)]
    obtain rfl : Config.empty = config :=
      Except.ok.inj (hdefault.symm.trans hconfig)
    obtain rfl : newSession bothFiles = session :=
      Except.ok.inj (openAt_bothFiles.symm.trans hopened)
    exact isWorkedOn_bothFiles.shows

/-- The settings are a link to the record that a run leaves in the cache, which
there is not yet. -/
def linkedSettings : FileSystem :=
  bothFiles.set ["p", "callweave.toml"] (.link ⟨".callweave/snapshot.json"⟩)

end Sample

end CallGraph
