import CallGraph.Proofs.Analyzer.History

namespace CallGraph

/-- Whatever can be named as a unit reads as its version says. -/
def Texts.TellsAll (texts : Texts) (project : Project)
    (files : FileSystem) : Prop :=
  ∀ source, project.Tells files texts source

namespace Analyzer

variable {parser : Parser} {texts : Texts} {files : FileSystem}
  {analyzer : Analyzer} {source : SourceUnit} {token : VersionToken}

def Fits (parser : Parser) (texts : Texts) (symbols : SymbolTable)
    (kept : UnitEdges) : Prop :=
  ∃ text, texts kept.source kept.token = .ok text ∧
    (extractionOf parser symbols kept.source text).edges = kept.edges

/-- Edges were kept at this state of the index or at an earlier one.  Those of
this state fit. -/
structure KeepsFitting (parser : Parser) (texts : Texts)
    (analyzer : Analyzer) : Prop where
  synced : analyzer.syncedEpoch ≤ analyzer.project.epoch
  earlier : ∀ kept ∈ analyzer.extracted, kept.epoch ≤ analyzer.syncedEpoch
  fits : ∀ kept ∈ analyzer.extracted, kept.epoch = analyzer.syncedEpoch →
    Fits parser texts analyzer.symbols kept

theorem keepsFitting_ofProject (parser : Parser) (texts : Texts)
    (project : Project) : (ofProject project).KeepsFitting parser texts :=
  ⟨Nat.zero_le _, fun _ hkept => absurd hkept KeyedSet.not_mem_empty,
    fun _ hkept => absurd hkept KeyedSet.not_mem_empty⟩

/-- An index that is brought up to date is at a new state, which nothing that
was kept before belongs to. -/
theorem KeepsFitting.sync (hkeeps : analyzer.KeepsFitting parser texts) :
    (analyzer.sync parser files).KeepsFitting parser texts := by
  by_cases hbehind : analyzer.IsBehind
  · have hsynced := @syncedEpoch_sync parser files analyzer
    have hlater : analyzer.syncedEpoch <
        (analyzer.sync parser files).syncedEpoch := by
      rw [hsynced, project_sync]
      have hpos := analyzer.project.epoch_currentUnits_pos files
      rcases Nat.eq_zero_or_pos analyzer.project.epoch with hepoch | hepoch
      · have hle := hkeeps.synced
        omega
      · rw [Project.currentUnits_of_epoch_pos hepoch]
        exact Nat.lt_of_le_of_ne hkeeps.synced
          (hbehind.resolve_left (Nat.ne_of_gt hepoch))
    have hkept : ∀ kept ∈ (analyzer.sync parser files).extracted,
        kept ∈ analyzer.extracted := by
      rw [sync_of_isBehind hkeeps.synced hbehind, extracted_refresh]
      exact fun kept hkept => (KeyedSet.mem_filter.mp hkept).1
    have hbefore : ∀ kept ∈ (analyzer.sync parser files).extracted,
        kept.epoch < (analyzer.sync parser files).syncedEpoch :=
      fun kept hmem =>
        Nat.lt_of_le_of_lt (hkeeps.earlier kept (hkept kept hmem)) hlater
    exact ⟨Nat.le_of_eq hsynced, fun kept hmem =>
      Nat.le_of_lt (hbefore kept hmem), fun kept hmem hepoch =>
        absurd hepoch (Nat.ne_of_lt (hbefore kept hmem))⟩
  · rw [sync_of_not_isBehind hbehind]
    exact hkeeps

theorem KeepsFitting.keepEdges (hkeeps : analyzer.KeepsFitting parser texts)
    (htells : analyzer.project.Tells files texts source)
    {extraction : Extraction}
    (hyield : analyzer.yieldOf parser files source = .ok (token, extraction)) :
    (analyzer.keepEdges source token extraction.edges).KeepsFitting parser
      texts := by
  obtain ⟨hversion, text, htext, rfl⟩ := yieldOf_eq_ok_iff.mp hyield
  have hread : texts source token = .ok text :=
    (htells token hversion).symm.trans htext
  refine ⟨hkeeps.synced, fun kept hkept => ?_, fun kept hkept hepoch => ?_⟩
  · rcases KeyedSet.mem_put.mp hkept with rfl | ⟨hold, -⟩
    · exact Nat.le_refl _
    · exact hkeeps.earlier kept hold
  · rcases KeyedSet.mem_put.mp hkept with rfl | ⟨hold, -⟩
    · exact ⟨text, hread, rfl⟩
    · exact hkeeps.fits kept hold hepoch

theorem KeepsFitting.asked (hkeeps : analyzer.KeepsFitting parser texts)
    (htells : texts.TellsAll analyzer.project files) (request : Request) :
    (analyzer.asked parser files request).KeepsFitting parser texts := by
  rcases asked_cases analyzer request with
    hasked | ⟨source, token, extraction, hyield, hasked⟩
  · rw [hasked]
    exact hkeeps.sync
  · have htells' : (analyzer.sync parser files).project.Tells files texts
        source := by
      rw [project_sync]
      exact (htells source).congr
        (analyzer.project.asOpened_currentUnits files)
    rw [hasked]
    exact hkeeps.sync.keepEdges htells' hyield

theorem Reached.keepsFitting
    (hreached : Reached parser texts.TellsAll analyzer files) :
    analyzer.KeepsFitting parser texts := by
  induction hreached with
  | opened => exact keepsFitting_ofProject parser texts _
  | edited _ _ ih => exact ih
  | enumerated _ ih =>
      exact ⟨Nat.le_succ_of_le ih.synced, ih.earlier, ih.fits⟩
  | asked _ htells request ih => exact ih.asked htells request

theorem KeepsFitting.yieldOf_of_keptEdges?
    (hkeeps : analyzer.KeepsFitting parser texts)
    (htells : analyzer.project.Tells files texts source)
    (hversion : analyzer.project.versionOf source files = .ok token)
    {edges : List Edge}
    (hkept : analyzer.keptEdges? source token = some edges) :
    ∃ extraction, analyzer.yieldOf parser files source =
      .ok (token, extraction) ∧ extraction.edges = edges := by
  unfold keptEdges? at hkept
  split at hkept
  · cases hkept
  · rename_i kept hfound
    split at hkept
    · rename_i hfresh
      obtain ⟨hepoch, rfl⟩ := hfresh
      obtain rfl := Option.some.inj hkept
      obtain ⟨hmem, hpath⟩ := KeyedSet.find?_eq_some_iff.mp hfound
      obtain rfl : kept.source = source := SourceUnit.eq_of_path_eq hpath
      obtain ⟨text, htext, hedges⟩ := hkeeps.fits kept hmem hepoch
      exact ⟨_, yieldOf_eq_ok_iff.mpr
        ⟨hversion, text, (htells _ hversion).trans htext, rfl⟩, hedges⟩
    · cases hkept

/-- The edges of a method are those of its unit that begin in it, whether they
were kept or are extracted now, and they fail when the extraction does. -/
theorem Reached.dependenciesOf_matchesExtract
    (hreached : Reached parser texts.TellsAll analyzer files)
    (htells : texts.TellsAll analyzer.project files) (method : Method) :
    (analyzer.dependenciesOf parser files method).2 =
      (analyzer.extract parser files method.source).2.map fun extraction =>
        edgesFrom method extraction.edges := by
  have htells' : (analyzer.sync parser files).project.Tells files texts
      method.source := by
    rw [project_sync]
    exact (htells method.source).congr
      (analyzer.project.asOpened_currentUnits files)
  have houtcome := @extract_outcome parser files analyzer method.source
  unfold dependenciesOf
  dsimp only
  cases hversion : (analyzer.sync parser files).project.versionOf method.source
      files with
  | error fault =>
      have hyield : (analyzer.sync parser files).yieldOf parser files
          method.source = .error fault := by
        unfold yieldOf
        rw [hversion]
        rfl
      rw [houtcome, hyield]
      rfl
  | ok token =>
      dsimp only
      cases hkept : (analyzer.sync parser files).keptEdges? method.source
          token with
      | none =>
          have hagain : ((analyzer.sync parser files).extract parser files
              method.source).2 =
                (analyzer.extract parser files method.source).2 := by
            rw [extract_outcome, sync_sync, houtcome]
          exact congrArg (Except.map fun extraction =>
            edgesFrom method extraction.edges) hagain
      | some edges =>
          obtain ⟨extraction, hyield, rfl⟩ :=
            hreached.keepsFitting.sync.yieldOf_of_keptEdges? htells' hversion
              hkept
          rw [houtcome, hyield]
          rfl

end Analyzer

namespace Sample

open Analyzer (Reached)

def bothTexts : Texts := fun source _ =>
  newAnalyzer.project.textOf bothFiles source

def callerExtracted : Analyzer :=
  newAnalyzer.asked classParser bothFiles (.extract ⟨"A.java"⟩)

def callingMethod : Method :=
  (methodsIn ⟨"A.java"⟩ callerText).headD default

theorem dependenciesOf_callingMethod :
    (callerExtracted.dependenciesOf classParser bothFiles callingMethod).2 =
        (callerExtracted.extract classParser bothFiles
          callingMethod.source).2.map (fun extraction =>
            Analyzer.edgesFrom callingMethod extraction.edges) ∧
      (callerExtracted.dependenciesOf classParser bothFiles
          callingMethod).2.toOption.map (List.map fun edge =>
            (edge.caller.signature, edge.callee.signature)) =
        some [("A::a()", "B::b()")] := by
  have htells : ∀ {project : Project},
      project.asOpened = newAnalyzer.project.asOpened →
        bothTexts.TellsAll project bothFiles :=
    fun hopened source => Project.Tells.congr (fun _ _ => rfl) hopened
  have hopened : Reached classParser bothTexts.TellsAll newAnalyzer
      callerFile := .opened (openAt_newAnalyzer (by decide +kernel))
  have hextracted : Reached classParser bothTexts.TellsAll callerExtracted
      bothFiles := (hopened.edited bothFiles).asked (htells rfl) _
  have hproject : callerExtracted.project.asOpened =
      newAnalyzer.project.asOpened := by
    unfold callerExtracted
    rw [Analyzer.project_asked, Project.asOpened_currentUnits]
  exact ⟨hextracted.dependenciesOf_matchesExtract (htells hproject) _,
    by decide +kernel⟩

end Sample

end CallGraph
