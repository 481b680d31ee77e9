import CallGraph.Proofs.Analyzer.History

namespace CallGraph

/-- The units that are known, or would be enumerated now, read as their versions
say. -/
def Texts.TellsKnown (texts : Texts) (project : Project)
    (files : FileSystem) : Prop :=
  ∀ source ∈ (project.currentUnits files).2,
    project.Tells files texts source

namespace Analyzer

variable {parser : Parser} {texts : Texts} {files : FileSystem}
  {analyzer : Analyzer}

/-- An index of what the known units declare in the files as they are, and of
nothing else. -/
def HoldsFiles (parser : Parser) (files : FileSystem) (analyzer : Analyzer) :
    Prop :=
  ∀ source, analyzer.symbols.methodsIn source =
    if analyzer.project.units.contains source then
      analyzer.project.methodsAt parser files source
    else []

/-- The index holds the files, and under each name the same methods as one that
a new analyzer of the project makes of them. -/
structure MatchesNew (parser : Parser) (files : FileSystem)
    (analyzer : Analyzer) : Prop where
  holds : analyzer.HoldsFiles parser files
  found : ∀ name, (analyzer.symbols.lookup name).Perm
    (((ofProject analyzer.project).sync parser files).symbols.lookup name)

theorem isSound_currentUnits (hsound : analyzer.IsSound parser texts)
    (files : FileSystem) :
    (analyzer.withProject (analyzer.project.currentUnits files).1).IsSound
      parser texts := by
  unfold Project.currentUnits
  split
  · exact (enumerate_spec hsound files).1
  · exact ⟨hsound.index, hsound.synced⟩

section Sync

variable (hapart : texts.IsApart parser)
  (hsound : analyzer.IsSound parser texts)
  (htells : texts.TellsKnown analyzer.project files)
include hapart hsound htells

theorem sync_holdsFiles (hbehind : analyzer.IsBehind) :
    (analyzer.sync parser files).symbols.IsIndexOf (texts.declared parser) ∧
      (analyzer.sync parser files).HoldsFiles parser files := by
  have hopened := analyzer.project.asOpened_currentUnits files
  obtain ⟨hindex, hmethods⟩ := refresh_holds hapart
    (isSound_currentUnits hsound files) fun source hsource =>
      (htells source (Project.units_currentUnits _ files ▸ hsource)).congr
        hopened
  rw [sync_of_isBehind hsound.synced hbehind]
  refine ⟨hindex, fun source => ?_⟩
  rw [project_refresh]
  exact hmethods source

theorem isSound_sync : (analyzer.sync parser files).IsSound parser texts := by
  by_cases hbehind : analyzer.IsBehind
  · exact ⟨(sync_holdsFiles hapart hsound htells hbehind).1,
      Nat.le_of_eq (syncedEpoch_sync analyzer)⟩
  · rw [sync_of_not_isBehind hbehind]
    exact hsound

theorem isSound_asked (request : Request) :
    (analyzer.asked parser files request).IsSound parser texts := by
  obtain ⟨kept, hasked⟩ := @exists_asked_eq parser files analyzer request
  have hsync := isSound_sync hapart hsound htells
  rw [hasked]
  exact ⟨hsync.index, hsync.synced⟩

end Sync

theorem Reached.isSound (hapart : texts.IsApart parser)
    (hreached : Reached parser texts.TellsKnown analyzer files) :
    analyzer.IsSound parser texts := by
  induction hreached with
  | opened => exact isSound_ofProject parser texts _
  | edited _ _ ih => exact ih
  | enumerated _ ih => exact (enumerate_spec ih _).1
  | asked _ htells request ih => exact isSound_asked hapart ih htells request

/-- A new analyzer of the same project, with the index of the moment. -/
theorem new_holdsFiles (hapart : texts.IsApart parser)
    (htells : texts.TellsKnown analyzer.project files) :
    ((ofProject (analyzer.sync parser files).project).sync parser
        files).symbols.IsIndexOf (texts.declared parser) ∧
      ((ofProject (analyzer.sync parser files).project).sync parser
        files).HoldsFiles parser files ∧
      ((ofProject (analyzer.sync parser files).project).sync parser
        files).project = (analyzer.sync parser files).project := by
  have hepoch : 0 < (analyzer.sync parser files).project.epoch := by
    rw [project_sync]
    exact analyzer.project.epoch_currentUnits_pos files
  have hknown : texts.TellsKnown
      (ofProject (analyzer.sync parser files).project).project files := by
    intro source hsource
    have hcurrent : (analyzer.sync parser files).project.currentUnits files =
        ((analyzer.sync parser files).project, _) :=
      Project.currentUnits_of_epoch_pos hepoch
    change source ∈
      ((analyzer.sync parser files).project.currentUnits files).2 at hsource
    rw [hcurrent, project_sync, Project.units_currentUnits] at hsource
    change (analyzer.sync parser files).project.Tells files texts source
    rw [project_sync]
    exact (htells source hsource).congr
      (analyzer.project.asOpened_currentUnits files)
  obtain ⟨hindex, hholds⟩ := sync_holdsFiles hapart
    (isSound_ofProject parser texts _) hknown (Or.inr (Nat.ne_of_lt hepoch))
  refine ⟨hindex, hholds, ?_⟩
  rw [project_sync]
  exact congrArg Prod.fst (Project.currentUnits_of_epoch_pos hepoch)

/-- Right after a question that has brought the index up to date. -/
theorem Reached.asked_matchesNew (hapart : texts.IsApart parser)
    (hreached : Reached parser texts.TellsKnown analyzer files)
    (htells : texts.TellsKnown analyzer.project files)
    (hbehind : analyzer.IsBehind) (request : Request) :
    (analyzer.asked parser files request).MatchesNew parser files := by
  obtain ⟨kept, hasked⟩ := @exists_asked_eq parser files analyzer request
  obtain ⟨hindex, hholds⟩ := sync_holdsFiles hapart
    (hreached.isSound hapart) htells hbehind
  obtain ⟨hindex', hholds', hsame⟩ := new_holdsFiles hapart htells
  rw [hasked]
  refine ⟨hholds, fun name => ?_⟩
  refine (SymbolTable.IsIndexOf.lookup_alike hapart.declared hindex hindex'
    (fun source => ?_) name).perm
  rw [hholds, hholds', hsame]

end Analyzer

namespace Sample

open Analyzer (Reached)

theorem tellsKnown_of_read {project : Project} {files : FileSystem}
    (hread : ∀ source ∈ (project.currentUnits files).2.entries,
      (project.textOf files source).toOption =
          (classTexts source ⟨0⟩).toOption ∧
        (classTexts source ⟨0⟩).toOption.isSome = true) :
    classTexts.TellsKnown project files :=
  fun source hsource => tells_of_read (hread source hsource)

def callerIndexed : Analyzer :=
  newAnalyzer.asked classParser callerFile .sync

def calleeFound : Analyzer :=
  callerIndexed.withProject (callerIndexed.project.enumerate bothFiles).1

theorem calleeFound_matchesNew :
    calleeFound.IsBehind ∧
      (calleeFound.asked classParser bothFiles
        (.methodsOf ⟨"B.java"⟩)).MatchesNew classParser bothFiles ∧
      (callerIndexed.symbols.lookup "b").length = 0 ∧
      ((calleeFound.asked classParser bothFiles
        (.methodsOf ⟨"B.java"⟩)).symbols.lookup "b").length = 1 := by
  have hopened : Reached classParser classTexts.TellsKnown newAnalyzer
      callerFile := .opened (openAt_newAnalyzer (by decide +kernel))
  have hindexed : Reached classParser classTexts.TellsKnown callerIndexed
      callerFile :=
    hopened.asked (tellsKnown_of_read (by decide +kernel)) .sync
  have hfound : Reached classParser classTexts.TellsKnown calleeFound
      bothFiles := (hindexed.edited bothFiles).enumerated
  have hbehind : calleeFound.IsBehind := Or.inr (by decide +kernel)
  exact ⟨hbehind, hfound.asked_matchesNew classTexts_isApart
    (tellsKnown_of_read (by decide +kernel)) hbehind _, by decide +kernel,
    by decide +kernel⟩

end Sample

end CallGraph
