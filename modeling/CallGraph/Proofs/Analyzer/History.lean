import CallGraph.Proofs.Analyzer

namespace CallGraph

namespace Analyzer

variable {parser : Parser} {files : FileSystem} {analyzer : Analyzer}

/-- What an analyzer is asked. -/
inductive Request where
  | sync
  | methodsOf (source : SourceUnit)
  | methodsInScope (units : UnitSet)
  | extract (source : SourceUnit)
  | dependenciesOf (method : Method)

def asked (parser : Parser) (files : FileSystem) (analyzer : Analyzer) :
    Request → Analyzer
  | .sync => analyzer.sync parser files
  | .methodsOf source => (analyzer.methodsOf parser files source).1
  | .methodsInScope units => (analyzer.methodsInScope parser files units).1
  | .extract source => (analyzer.extract parser files source).1
  | .dependenciesOf method => (analyzer.dependenciesOf parser files method).1

/-- The project was enumerated after the index was brought up to date, or it was
never enumerated. -/
def IsBehind (analyzer : Analyzer) : Prop :=
  analyzer.project.epoch = 0 ∨
    analyzer.syncedEpoch ≠ analyzer.project.epoch

theorem sync_of_not_isBehind (hbehind : ¬analyzer.IsBehind) :
    analyzer.sync parser files = analyzer := by
  obtain ⟨hepoch, hsynced⟩ := not_or.mp hbehind
  have hsame : analyzer.withProject
      (analyzer.project.currentUnits files).1 = analyzer := by
    rw [Project.currentUnits_of_epoch_pos (Nat.pos_of_ne_zero hepoch)]
    rfl
  unfold sync
  rw [hsame]
  exact if_pos (Decidable.not_not.mp hsynced)

theorem sync_of_isBehind
    (hsynced : analyzer.syncedEpoch ≤ analyzer.project.epoch)
    (hbehind : analyzer.IsBehind) :
    analyzer.sync parser files =
      (analyzer.withProject (analyzer.project.currentUnits files).1).refresh
        parser files := by
  have hmoved : analyzer.syncedEpoch ≠
      (analyzer.project.currentUnits files).1.epoch := by
    rcases Nat.eq_zero_or_pos analyzer.project.epoch with hepoch | hepoch
    · have hpos := analyzer.project.epoch_currentUnits_pos files
      omega
    · rw [Project.currentUnits_of_epoch_pos hepoch]
      exact hbehind.resolve_left (Nat.ne_of_gt hepoch)
  exact if_neg hmoved

theorem syncedEpoch_sync (analyzer : Analyzer) :
    (analyzer.sync parser files).syncedEpoch =
      (analyzer.sync parser files).project.epoch := by
  rw [project_sync]
  unfold sync
  dsimp only
  split
  · assumption
  · exact congrArg Project.epoch (project_refresh _)

theorem not_isBehind_sync (analyzer : Analyzer) :
    ¬(analyzer.sync parser files).IsBehind := by
  rintro (hepoch | hsynced)
  · rw [project_sync] at hepoch
    exact Nat.ne_of_gt (analyzer.project.epoch_currentUnits_pos files) hepoch
  · exact hsynced (syncedEpoch_sync analyzer)

theorem sync_sync (analyzer : Analyzer) :
    (analyzer.sync parser files).sync parser files =
      analyzer.sync parser files :=
  sync_of_not_isBehind (not_isBehind_sync analyzer)

theorem extract_cases (analyzer : Analyzer) (source : SourceUnit) :
    (analyzer.extract parser files source).1 = analyzer.sync parser files ∨
      ∃ token extraction,
        (analyzer.sync parser files).yieldOf parser files source =
            .ok (token, extraction) ∧
          (analyzer.extract parser files source).1 =
            (analyzer.sync parser files).keepEdges source token
              extraction.edges := by
  unfold extract
  dsimp only
  split
  · exact Or.inl rfl
  · rename_i token extraction hyield
    exact Or.inr ⟨token, extraction, hyield, rfl⟩

theorem asked_cases (analyzer : Analyzer) (request : Request) :
    analyzer.asked parser files request = analyzer.sync parser files ∨
      ∃ source token extraction,
        (analyzer.sync parser files).yieldOf parser files source =
            .ok (token, extraction) ∧
          analyzer.asked parser files request =
            (analyzer.sync parser files).keepEdges source token
              extraction.edges := by
  cases request with
  | sync => exact Or.inl rfl
  | methodsOf => exact Or.inl rfl
  | methodsInScope => exact Or.inl rfl
  | extract source =>
      exact (extract_cases analyzer source).imp_right fun hkept =>
        ⟨source, hkept⟩
  | dependenciesOf method =>
      unfold asked dependenciesOf
      dsimp only
      split
      · exact Or.inl rfl
      · split
        · exact Or.inl rfl
        · have hcases :=
            @extract_cases parser files (analyzer.sync parser files)
              method.source
          rw [sync_sync] at hcases
          exact hcases.imp_right fun hkept => ⟨method.source, hkept⟩

theorem exists_asked_eq (analyzer : Analyzer) (request : Request) :
    ∃ kept, analyzer.asked parser files request =
      { analyzer.sync parser files with extracted := kept } := by
  rcases asked_cases analyzer request with hasked | ⟨_, _, _, _, hasked⟩ <;>
    exact ⟨_, hasked⟩

theorem project_asked (analyzer : Analyzer) (request : Request) :
    (analyzer.asked parser files request).project =
      (analyzer.project.currentUnits files).1 := by
  obtain ⟨kept, hasked⟩ := @exists_asked_eq parser files analyzer request
  rw [hasked]
  exact project_sync analyzer

theorem asked_isCurrent {texts : Texts} (hapart : texts.IsApart parser)
    (hsound : analyzer.IsSound parser texts)
    (hcurrent : analyzer.IsCurrent parser texts files)
    (hshows : analyzer.project.Shows files texts) (request : Request) :
    (analyzer.asked parser files request).IsSound parser texts ∧
      (analyzer.asked parser files request).IsCurrent parser texts files := by
  obtain ⟨kept, hasked⟩ := @exists_asked_eq parser files analyzer request
  obtain ⟨-, hsync, -, -⟩ := sync_spec hapart hsound hcurrent hshows
  have hready := sync_isCurrent hapart hsound hcurrent hshows
  rw [hasked]
  exact ⟨⟨hsync.index, hsync.synced⟩,
    ⟨hready.enumerated, hready.units, hready.ready⟩⟩

/-- How an analyzer and its files come about: a project is opened, its files are
edited in any way and enumerated, and the analyzer is asked now and then.
Whenever it is, something holds of the project and its files. -/
inductive Reached (parser : Parser) (Holds : Project → FileSystem → Prop) :
    Analyzer → FileSystem → Prop where
  | opened {path : Path} {patterns : List String} {files : FileSystem}
      {project : Project}
      (opened : Project.openAt path patterns files = .ok project) :
      Reached parser Holds (ofProject project) files
  | edited {analyzer : Analyzer} {files : FileSystem}
      (reached : Reached parser Holds analyzer files) (edited : FileSystem) :
      Reached parser Holds analyzer edited
  | enumerated {analyzer : Analyzer} {files : FileSystem}
      (reached : Reached parser Holds analyzer files) :
      Reached parser Holds
        (analyzer.withProject (analyzer.project.enumerate files).1) files
  | asked {analyzer : Analyzer} {files : FileSystem}
      (reached : Reached parser Holds analyzer files)
      (holds : Holds analyzer.project files) (request : Request) :
      Reached parser Holds (analyzer.asked parser files request) files

end Analyzer

namespace Sample

def newAnalyzer : Analyzer := .ofProject ⟨⟨"/p"⟩, ⟨"/p"⟩, [], 0, ∅⟩

theorem openAt_newAnalyzer {files : FileSystem}
    (hroot : (files.locate true ⟨"/p"⟩).toOption = some (["p"], .directory)) :
    Project.openAt ⟨"/p"⟩ [] files = .ok newAnalyzer.project := by
  unfold Project.openAt
  rw [eq_ok_of_toOption hroot]
  rfl

end Sample

end CallGraph
