import CallGraph.Proofs.Analyzer.History

namespace CallGraph.Analyzer

variable {parser : Parser} {files : FileSystem} {analyzer : Analyzer}
  {source other : SourceUnit} {method : Method}

structure IsConfined (analyzer : Analyzer) : Prop where
  owned : analyzer.symbols.IsOwned
  synced : analyzer.syncedEpoch ≤ analyzer.project.epoch
  known : ¬analyzer.IsBehind → ∀ {source method},
    method ∈ analyzer.symbols.methodsIn source →
      source ∈ analyzer.project.units

theorem isConfined_ofProject {project : Project}
    (hunseen : project.epoch = 0) : (ofProject project).IsConfined where
  owned := SymbolTable.isOwned_empty
  synced := Nat.zero_le _
  known hready := absurd (Or.inl hunseen) hready

theorem isOwned_refreshUnit (howned : analyzer.symbols.IsOwned)
    (source : SourceUnit) :
    (analyzer.refreshUnit parser files source).symbols.IsOwned := by
  have hdropped := howned.removeUnit source
  unfold refreshUnit
  dsimp only
  split
  · exact hdropped
  · split
    · exact howned
    · split
      · exact hdropped
      · refine howned.replaceUnit fun method hmethod => ?_
        obtain ⟨declaration, hdeclaration, rfl⟩ := List.mem_map.mp hmethod
        exact Declaration.source_of_mem_ofRoot hdeclaration

theorem methodsIn_refreshUnit (hother : other ≠ source) :
    (analyzer.refreshUnit parser files source).symbols.methodsIn other =
      analyzer.symbols.methodsIn other := by
  have hdropped := SymbolTable.methodsIn_removeUnit analyzer.symbols source
    other
  rw [if_neg hother] at hdropped
  unfold refreshUnit
  dsimp only
  split
  · exact hdropped
  · split
    · rfl
    · split
      · exact hdropped
      · exact (SymbolTable.methodsIn_replaceUnit analyzer.symbols source other
          _ _).trans (if_neg hother)

theorem confined_refreshUnits (sources : List SourceUnit)
    (howned : analyzer.symbols.IsOwned) :
    (sources.foldl (refreshUnit parser files) analyzer).symbols.IsOwned ∧
      ∀ other ∉ sources,
        (sources.foldl (refreshUnit parser files)
            analyzer).symbols.methodsIn other =
          analyzer.symbols.methodsIn other := by
  induction sources generalizing analyzer with
  | nil => exact ⟨howned, fun _ _ => rfl⟩
  | cons first rest ih =>
      obtain ⟨hlast, hmethods⟩ :=
        ih (@isOwned_refreshUnit parser files analyzer howned first)
      refine ⟨hlast, fun other hother => ?_⟩
      rw [List.mem_cons, not_or] at hother
      obtain ⟨hfirst, hrest⟩ := hother
      exact (hmethods other hrest).trans (methodsIn_refreshUnit hfirst)

theorem confined_refresh (howned : analyzer.symbols.IsOwned) :
    (analyzer.refresh parser files).symbols.IsOwned ∧
      ∀ {source method},
        method ∈ (analyzer.refresh parser files).symbols.methodsIn source →
          source ∈ analyzer.project.units := by
  obtain ⟨hlast, hmethods⟩ := @confined_refreshUnits parser files
    analyzer.forgetMissing analyzer.project.units.entries
      (howned.removeUnits _)
  refine ⟨hlast, fun {source method} hmethod => ?_⟩
  refine Decidable.byContradiction fun hmissing => ?_
  have hunknown : analyzer.project.units.contains source = false := by
    rwa [Bool.eq_false_iff, ne_eq, SourceUnit.contains_iff_mem]
  have hnone := (hmethods source hmissing).trans
    (methodsIn_forgetMissing analyzer source)
  rw [hunknown, if_neg Bool.false_ne_true] at hnone
  exact List.not_mem_nil (hnone ▸ hmethod)

theorem IsConfined.sync (hconfined : analyzer.IsConfined) :
    (analyzer.sync parser files).IsConfined := by
  by_cases hbehind : analyzer.IsBehind
  · obtain ⟨howned, hknown⟩ := @confined_refresh parser files
      (analyzer.withProject (analyzer.project.currentUnits files).1)
        hconfined.owned
    have hsynced := @syncedEpoch_sync parser files analyzer
    have hproject := @project_sync parser files analyzer
    rw [← sync_of_isBehind hconfined.synced hbehind] at howned hknown
    refine ⟨howned, Nat.le_of_eq hsynced, fun _ {source method} hmethod => ?_⟩
    rw [hproject]
    exact hknown hmethod
  · rw [sync_of_not_isBehind hbehind]
    exact hconfined

theorem IsConfined.asked (hconfined : analyzer.IsConfined)
    (request : Request) :
    (analyzer.asked parser files request).IsConfined := by
  obtain ⟨kept, hasked⟩ := @exists_asked_eq parser files analyzer request
  have hsync := @IsConfined.sync parser files analyzer hconfined
  rw [hasked]
  exact ⟨hsync.owned, hsync.synced, hsync.known⟩

theorem Reached.isConfined {Holds : Project → FileSystem → Prop}
    (hreached : Reached parser Holds analyzer files) :
    analyzer.IsConfined := by
  induction hreached with
  | opened hopened =>
      refine isConfined_ofProject ?_
      unfold Project.openAt at hopened
      split at hopened
      · split at hopened
        · cases hopened
        · obtain rfl := Except.ok.inj hopened
          rfl
      · cases hopened
  | edited _ _ ih => exact ih
  | @enumerated analyzer files _ ih =>
      refine ⟨ih.owned, Nat.le_succ_of_le ih.synced, fun hready => ?_⟩
      exact absurd (Or.inr (Nat.ne_of_lt (Nat.lt_succ_of_le ih.synced))) hready
  | asked _ _ request ih => exact ih.asked request

/-- An edge that begins in the unit that yields it, and that leads to a method
which the index holds for a known unit and which takes as many parameters as the
call has arguments. -/
structure LeadsInside (parser : Parser) (files : FileSystem)
    (project : Project) (symbols : SymbolTable) (source : SourceUnit)
    (extraction : Extraction) (edge : Edge) : Prop where
  returned : edge.caller ∈ extraction.methods
  own : edge.caller.source = source
  indexed : edge.callee ∈ symbols.methodsIn edge.callee.source
  known : edge.callee.source ∈ project.units
  called : ∃ text, project.textOf files source = .ok text ∧
    ∃ declaration ∈ declarationsOf parser source text,
      edge.caller = declaration.method ∧
        ∃ body, declaration.body = some body ∧
          ∃ site ∈ CallSite.within (SourceText.ofText text) body,
            edge.callee ∈ Resolution.targets symbols edge.caller site ∧
              edge.callee.params.length = site.arity

theorem IsConfined.leadsInside_of_mem (hconfined : analyzer.IsConfined)
    (hready : ¬analyzer.IsBehind) {text : String}
    (htext : analyzer.project.textOf files source = .ok text) {edge : Edge}
    (hedge : edge ∈
      (extractionOf parser analyzer.symbols source text).edges) :
    LeadsInside parser files analyzer.project analyzer.symbols source
      (extractionOf parser analyzer.symbols source text) edge := by
  obtain ⟨declaration, hdeclaration, hfound⟩ := List.mem_flatMap.mp hedge
  obtain ⟨hcaller, body, hbody, site, hsite, hcallee⟩ :=
    Resolution.exists_site_of_mem_edgesOf hfound
  obtain ⟨name, hcandidate⟩ :=
    Resolution.mem_candidates_of_mem_targets hcallee
  obtain ⟨hlookup, harity⟩ := List.mem_filter.mp hcandidate
  obtain ⟨hindexed, -⟩ := hconfined.owned hlookup
  rw [← hcaller] at hcallee
  constructor
  case returned =>
    rw [hcaller]
    exact List.mem_map_of_mem hdeclaration
  case own =>
    rw [hcaller]
    exact Declaration.source_of_mem_ofRoot hdeclaration
  case indexed => exact hindexed
  case known => exact hconfined.known hready hindexed
  case called =>
    exact ⟨text, htext, declaration, hdeclaration, hcaller, body, hbody, site,
      hsite, hcallee, beq_iff_eq.mp harity⟩

theorem IsConfined.extract_leadsInside (hconfined : analyzer.IsConfined)
    {extraction : Extraction}
    (houtcome : (analyzer.extract parser files source).2 = .ok extraction) :
    ∀ edge ∈ extraction.edges,
      LeadsInside parser files
        (analyzer.extract parser files source).1.project
        (analyzer.extract parser files source).1.symbols source extraction
        edge := by
  obtain ⟨kept, (hasked : (analyzer.extract parser files source).1 = _)⟩ :=
    @exists_asked_eq parser files analyzer (.extract source)
  rw [hasked]
  rw [extract_outcome] at houtcome
  cases hyield : (analyzer.sync parser files).yieldOf parser files source with
  | error fault =>
      rw [hyield] at houtcome
      cases houtcome
  | ok yielded =>
      rw [hyield] at houtcome
      obtain rfl := Except.ok.inj houtcome
      obtain ⟨-, text, htext, hextraction⟩ := yieldOf_eq_ok_iff.mp hyield
      rw [← hextraction]
      intro edge hedge
      exact hconfined.sync.leadsInside_of_mem (not_isBehind_sync analyzer)
        htext hedge

end CallGraph.Analyzer
