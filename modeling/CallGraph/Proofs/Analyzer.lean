import CallGraph.Analyzer
import CallGraph.Proofs.Extraction
import CallGraph.Proofs.Resolution

namespace CallGraph

open Keyed (key)

namespace Declaration

mutual

theorem source_of_mem_ofMember {owner : SourceUnit} {source : SourceText}
    {types : List String} :
    ∀ {tree : Tree}, ∀ declaration ∈ ofMember owner source types tree,
      declaration.method.source = owner
  | .node kind field span children, declaration, hmem => by
      have hdeclared : declaration ∈ (declared? owner source types
          (.node kind field span children)).toList →
            declaration.method.source = owner := by
        intro hmem
        rw [Option.mem_toList, declared?, Option.map_eq_some_iff] at hmem
        obtain ⟨name, _, rfl⟩ := hmem
        rfl
      unfold ofMember at hmem
      split at hmem
      · exact hdeclared hmem
      · exact hdeclared hmem
      · exact source_of_mem_ofMembers declaration hmem
      · split at hmem
        · exact source_of_mem_ofBody declaration hmem
        · cases hmem
      · cases hmem

theorem source_of_mem_ofMembers {owner : SourceUnit} {source : SourceText}
    {types : List String} :
    ∀ {members : List Tree}, ∀ declaration ∈ ofMembers owner source types members,
      declaration.method.source = owner
  | [], _, hmem => by cases hmem
  | member :: rest, declaration, hmem => by
      unfold ofMembers at hmem
      rcases List.mem_append.mp hmem with hmember | hrest
      · exact source_of_mem_ofMember declaration hmember
      · exact source_of_mem_ofMembers declaration hrest

theorem source_of_mem_ofBodyNode {owner : SourceUnit} {source : SourceText}
    {types : List String} :
    ∀ {tree : Tree}, ∀ declaration ∈ ofBodyNode owner source types tree,
      declaration.method.source = owner
  | .node _ _ _ _, declaration, hmem => by
      unfold ofBodyNode at hmem
      exact source_of_mem_ofMembers declaration hmem

theorem source_of_mem_ofBody {owner : SourceUnit} {source : SourceText}
    {types : List String} :
    ∀ {children : List Tree}, ∀ declaration ∈ ofBody owner source types children,
      declaration.method.source = owner
  | [], _, hmem => by cases hmem
  | child :: rest, declaration, hmem => by
      unfold ofBody at hmem
      split at hmem
      · exact source_of_mem_ofBodyNode declaration hmem
      · exact source_of_mem_ofBody declaration hmem

end

theorem source_of_mem_ofRoot {owner : SourceUnit} {source : SourceText}
    {root : Tree} {declaration : Declaration}
    (hmem : declaration ∈ ofRoot owner source root) :
    declaration.method.source = owner :=
  source_of_mem_ofMembers declaration hmem

end Declaration

/-- What each version of a unit reads as. -/
abbrev Texts := SourceUnit → VersionToken → Except Fault String

namespace Project

variable {project other : Project} {files : FileSystem} {texts : Texts}
  {source : SourceUnit} {token : VersionToken}

/-- A project as it was when it was opened: what was found in it does not
count. -/
def asOpened (project : Project) : Project :=
  { project with epoch := 0, units := ∅ }

def sources (project : Project) (files : FileSystem) : UnitSet :=
  project.walk project.root files

def textOf (project : Project) (files : FileSystem) (source : SourceUnit) :
    Except Fault String :=
  (Analyzer.ofProject project).readUnit files source

theorem epoch_currentUnits_pos (project : Project) (files : FileSystem) :
    0 < (project.currentUnits files).1.epoch := by
  unfold currentUnits
  split
  · exact Nat.succ_pos _
  · rename_i hepoch
    exact Nat.pos_of_ne_zero hepoch

theorem currentUnits_of_epoch_pos (hepoch : 0 < project.epoch) :
    project.currentUnits files = (project, project.units) := by
  unfold currentUnits
  rw [if_neg (Nat.ne_of_gt hepoch)]

theorem units_currentUnits (project : Project) (files : FileSystem) :
    (project.currentUnits files).1.units =
      (project.currentUnits files).2 := by
  unfold currentUnits
  split <;> rfl

theorem asOpened_currentUnits (project : Project) (files : FileSystem) :
    (project.currentUnits files).1.asOpened = project.asOpened := by
  unfold currentUnits
  split <;> rfl

theorem sources_congr (hopened : other.asOpened = project.asOpened)
    (files : FileSystem) : other.sources files = project.sources files :=
  congrArg (fun opened => opened.sources files) hopened

theorem walk_congr (hopened : other.asOpened = project.asOpened)
    (directory : Path) (files : FileSystem) :
    other.walk directory files = project.walk directory files :=
  congrArg (fun opened => opened.walk directory files) hopened

theorem versionOf_congr (hopened : other.asOpened = project.asOpened)
    (source : SourceUnit) (files : FileSystem) :
    other.versionOf source files = project.versionOf source files :=
  congrArg (fun opened => opened.versionOf source files) hopened

theorem textOf_congr (hopened : other.asOpened = project.asOpened)
    (files : FileSystem) (source : SourceUnit) :
    other.textOf files source = project.textOf files source :=
  congrArg (fun opened => opened.textOf files source) hopened

/-- Whatever is found in the files reads as its version says. -/
def Shows (project : Project) (files : FileSystem) (texts : Texts) : Prop :=
  ∀ source ∈ project.sources files, ∀ token,
    project.versionOf source files = .ok token →
      project.textOf files source = texts source token

theorem Shows.congr (hshows : project.Shows files texts)
    (hopened : other.asOpened = project.asOpened) :
    other.Shows files texts := by
  intro source hsource token
  rw [sources_congr hopened] at hsource
  rw [versionOf_congr hopened, textOf_congr hopened]
  exact hshows source hsource token

/-- Whatever stands at the path of the unit reads as its version says. -/
def Tells (project : Project) (files : FileSystem) (texts : Texts)
    (source : SourceUnit) : Prop :=
  ∀ token, project.versionOf source files = .ok token →
    project.textOf files source = texts source token

theorem Tells.congr (htells : project.Tells files texts source)
    (hopened : other.asOpened = project.asOpened) :
    other.Tells files texts source := by
  intro token
  rw [versionOf_congr hopened, textOf_congr hopened]
  exact htells token

theorem textOf_eq_error {fault : Fault}
    (hversion : project.versionOf source files = .error fault) :
    ∃ fault, project.textOf files source = .error fault := by
  have hpath : (Analyzer.ofProject project).project.pathOf source =
      project.pathOf source := rfl
  unfold versionOf FileSystem.stat at hversion
  cases hlocated : files.locate true (project.pathOf source) with
  | error reason =>
      have hread : files.readText (project.pathOf source) =
          .error (.os reason) := by
        unfold FileSystem.readText FileSystem.read
        rw [hlocated]
      unfold textOf Analyzer.readUnit
      dsimp only
      rw [hpath, hread]
      exact ⟨_, rfl⟩
  | ok found =>
      obtain ⟨location, entry⟩ := found
      rw [hlocated] at hversion
      cases entry <;> cases hversion

/-- What a unit declares as it stands in the files.  One that cannot be read
declares nothing. -/
def methodsAt (parser : Parser) (project : Project) (files : FileSystem)
    (source : SourceUnit) : List Method :=
  match project.textOf files source with
  | .error _ => []
  | .ok text =>
      (Analyzer.declarationsOf parser source text).map Declaration.method

theorem methodsAt_eq_nil {parser : Parser} {fault : Fault}
    (hversion : project.versionOf source files = .error fault) :
    project.methodsAt parser files source = [] := by
  obtain ⟨fault, htext⟩ := textOf_eq_error hversion
  unfold methodsAt
  rw [htext]

/-- Two trees of files in which the project finds the same: the same units below
every directory, with the same versions and texts. -/
structure Resembles (project : Project) (files files' : FileSystem) : Prop where
  walks : ∀ directory,
    project.walk directory files' = project.walk directory files
  versions : ∀ source ∈ project.sources files,
    project.versionOf source files' = project.versionOf source files
  texts : ∀ source ∈ project.sources files,
    project.textOf files' source = project.textOf files source

namespace Resembles

theorem refl (project : Project) (files : FileSystem) :
    project.Resembles files files :=
  ⟨fun _ => rfl, fun _ _ => rfl, fun _ _ => rfl⟩

variable {files' : FileSystem}

theorem sources (hresembles : project.Resembles files files') :
    project.sources files' = project.sources files :=
  hresembles.walks project.root

theorem symm (hresembles : project.Resembles files files') :
    project.Resembles files' files where
  walks directory := (hresembles.walks directory).symm
  versions source hsource := by
    rw [hresembles.sources] at hsource
    exact (hresembles.versions source hsource).symm
  texts source hsource := by
    rw [hresembles.sources] at hsource
    exact (hresembles.texts source hsource).symm

theorem congr (hresembles : project.Resembles files files')
    (hopened : other.asOpened = project.asOpened) :
    other.Resembles files files' where
  walks directory := by
    rw [walk_congr hopened, walk_congr hopened, hresembles.walks]
  versions source hsource := by
    rw [sources_congr hopened] at hsource
    rw [versionOf_congr hopened, versionOf_congr hopened,
      hresembles.versions source hsource]
  texts source hsource := by
    rw [sources_congr hopened] at hsource
    rw [textOf_congr hopened, textOf_congr hopened,
      hresembles.texts source hsource]

theorem shows (hresembles : project.Resembles files files')
    (hshows : project.Shows files texts) : project.Shows files' texts := by
  intro source hsource token hversion
  rw [hresembles.sources] at hsource
  rw [hresembles.versions source hsource] at hversion
  rw [hresembles.texts source hsource]
  exact hshows source hsource token hversion

end Resembles

end Project

namespace Texts

def declared (texts : Texts) (parser : Parser) : Declared :=
  fun source token => (texts source token).toOption.map fun text =>
    (Analyzer.declarationsOf parser source text).map Declaration.method

/-- No two units declare methods of one identity. -/
def IsApart (texts : Texts) (parser : Parser) : Prop :=
  ∀ {source token methods source' token' methods'},
    texts.declared parser source token = some methods →
    texts.declared parser source' token' = some methods' →
    ∀ method ∈ methods, ∀ method' ∈ methods', method.id = method'.id →
      source = source'

theorem IsApart.declared {texts : Texts} {parser : Parser}
    (hapart : texts.IsApart parser) : (texts.declared parser).IsApart where
  source hdeclared method hmethod := by
    obtain ⟨text, _, rfl⟩ := Option.map_eq_some_iff.mp hdeclared
    obtain ⟨declaration, hdeclaration, rfl⟩ := List.mem_map.mp hmethod
    exact Declaration.source_of_mem_ofRoot hdeclaration
  apart := hapart

def Declares (texts : Texts) (parser : Parser) (method : Method) : Prop :=
  ∃ token methods,
    texts.declared parser method.source token = some methods ∧
      method ∈ methods

theorem declares_of_mem {texts : Texts} {parser : Parser}
    (hapart : texts.IsApart parser) {source : SourceUnit}
    {token : VersionToken} {methods : List Method}
    (hdeclared : texts.declared parser source token = some methods)
    {method : Method} (hmethod : method ∈ methods) :
    texts.Declares parser method := by
  obtain rfl := hapart.declared.source hdeclared method hmethod
  exact ⟨token, methods, hdeclared, hmethod⟩

theorem IsApart.source_eq {texts : Texts} {parser : Parser}
    (hapart : texts.IsApart parser) {method method' : Method}
    (hmethod : texts.Declares parser method)
    (hmethod' : texts.Declares parser method')
    (hid : method.id = method'.id) : method.source = method'.source := by
  obtain ⟨_, _, hdeclared, hmem⟩ := hmethod
  obtain ⟨_, _, hdeclared', hmem'⟩ := hmethod'
  exact hapart hdeclared hdeclared' method hmem method' hmem' hid

def methodsNow (texts : Texts) (parser : Parser) (project : Project)
    (files : FileSystem) (source : SourceUnit) : List Method :=
  if project.sources files |>.contains source then
    match project.versionOf source files with
    | .error _ => []
    | .ok token => (texts.declared parser source token).getD []
  else []

theorem getD_declared {texts : Texts} {project : Project}
    {files : FileSystem} {source : SourceUnit} {token : VersionToken}
    (parser : Parser) (htells : project.Tells files texts source)
    (hversion : project.versionOf source files = .ok token) :
    (texts.declared parser source token).getD [] =
      project.methodsAt parser files source := by
  unfold declared Project.methodsAt
  rw [htells token hversion]
  cases texts source token <;> rfl

theorem methodsNow_eq {texts : Texts} {project : Project}
    {files : FileSystem} (parser : Parser)
    (hshows : project.Shows files texts) (source : SourceUnit) :
    texts.methodsNow parser project files source =
      if (project.sources files).contains source then
        project.methodsAt parser files source
      else [] := by
  unfold methodsNow
  split
  · rename_i hsource
    cases hversion : project.versionOf source files with
    | error fault => exact (Project.methodsAt_eq_nil hversion).symm
    | ok token =>
        exact getD_declared parser
          (hshows source (SourceUnit.contains_iff_mem.mp hsource)) hversion
  · rfl

theorem declared_of_mem_methodsNow {texts : Texts} {parser : Parser}
    {project : Project} {files : FileSystem} {source : SourceUnit}
    {method : Method}
    (hmethod : method ∈ texts.methodsNow parser project files source) :
    ∃ token methods, project.versionOf source files = .ok token ∧
      texts.declared parser source token = some methods ∧
        method ∈ methods := by
  unfold methodsNow at hmethod
  split at hmethod
  · split at hmethod
    · cases hmethod
    · rename_i token htoken
      cases hdeclared : texts.declared parser source token with
      | none => simp [hdeclared] at hmethod
      | some methods =>
          rw [hdeclared] at hmethod
          exact ⟨token, methods, htoken, hdeclared, hmethod⟩
  · cases hmethod

theorem declares_of_mem_methodsNow {texts : Texts} {parser : Parser}
    (hapart : texts.IsApart parser) {project : Project} {files : FileSystem}
    {source : SourceUnit} {method : Method}
    (hmethod : method ∈ texts.methodsNow parser project files source) :
    texts.Declares parser method := by
  obtain ⟨token, methods, _, hdeclared, hmem⟩ :=
    declared_of_mem_methodsNow hmethod
  exact declares_of_mem hapart hdeclared hmem

theorem methodsNow_congr {texts : Texts} {parser : Parser}
    {project other : Project} (hopened : other.asOpened = project.asOpened)
    (files : FileSystem) :
    texts.methodsNow parser other files =
      texts.methodsNow parser project files := by
  funext source
  unfold methodsNow
  rw [Project.sources_congr hopened, Project.versionOf_congr hopened]

theorem methodsNow_of_resembles {texts : Texts} {parser : Parser}
    {project : Project} {files files' : FileSystem}
    (hresembles : project.Resembles files files') :
    texts.methodsNow parser project files' =
      texts.methodsNow parser project files := by
  funext source
  unfold methodsNow
  rw [hresembles.sources]
  split
  · rename_i hsource
    rw [hresembles.versions source (SourceUnit.contains_iff_mem.mp hsource)]
  · rfl

end Texts

namespace Analyzer

open SymbolTable (IsIndexOf)

variable {parser : Parser} {texts : Texts} {files : FileSystem}
  {analyzer : Analyzer} {source : SourceUnit}

theorem readUnit_eq (analyzer : Analyzer) (files : FileSystem)
    (source : SourceUnit) :
    analyzer.readUnit files source =
      analyzer.project.textOf files source := by
  unfold Project.textOf readUnit ofProject
  rfl

/-- An index of declarations that were all read at some time, and not after the
last enumeration. -/
structure IsSound (parser : Parser) (texts : Texts) (analyzer : Analyzer) :
    Prop where
  index : analyzer.symbols.IsIndexOf (texts.declared parser)
  synced : analyzer.syncedEpoch ≤ analyzer.project.epoch

/-- The files were enumerated as they are now, and an index that has been brought
up to date since then holds what they declare. -/
structure IsCurrent (parser : Parser) (texts : Texts) (files : FileSystem)
    (analyzer : Analyzer) : Prop where
  enumerated : 0 < analyzer.project.epoch
  units : analyzer.project.units = analyzer.project.sources files
  ready : analyzer.syncedEpoch = analyzer.project.epoch →
    analyzer.symbols.methodsIn =
      texts.methodsNow parser analyzer.project files

theorem isSound_ofProject (parser : Parser) (texts : Texts)
    (project : Project) : (ofProject project).IsSound parser texts :=
  ⟨SymbolTable.isIndexOf_empty _, Nat.zero_le _⟩

section Refresh

variable (hapart : texts.IsApart parser)
include hapart

omit hapart in
theorem methodsIn_forgetMissing (analyzer : Analyzer) (source : SourceUnit) :
    analyzer.forgetMissing.symbols.methodsIn source =
      if analyzer.project.units.contains source then
        analyzer.symbols.methodsIn source
      else [] := by
  refine (SymbolTable.methodsIn_removeUnits _ _ source).trans ?_
  simp only [List.mem_filter]
  cases hknown : analyzer.project.units.contains source with
  | true => simp
  | false =>
      by_cases hrow : source ∈ analyzer.symbols.units
      · simp [hrow]
      · rw [if_neg fun hgone => hrow hgone.1, if_neg Bool.false_ne_true,
          SymbolTable.methodsIn_eq_nil hrow]

theorem refreshUnit_spec (hindex : analyzer.symbols.IsIndexOf
    (texts.declared parser))
    (htells : analyzer.project.Tells files texts source) :
    (analyzer.refreshUnit parser files source).symbols.IsIndexOf
        (texts.declared parser) ∧
      ∀ other, (analyzer.refreshUnit parser files source).symbols.methodsIn
          other =
        if other = source then
          analyzer.project.methodsAt parser files source
        else analyzer.symbols.methodsIn other := by
  have hdropped := hindex.removeUnit hapart.declared source
  have hmethods := SymbolTable.methodsIn_removeUnit analyzer.symbols source
  unfold refreshUnit
  cases hversion : analyzer.project.versionOf source files with
  | error fault =>
      rw [Project.methodsAt_eq_nil hversion]
      exact ⟨hdropped, hmethods⟩
  | ok token =>
    have hread := htells token hversion
    have hat := Texts.getD_declared parser htells hversion
    rw [← readUnit_eq] at hread
    rw [← hat]
    dsimp only
    split
    · rename_i hseen
      refine ⟨hindex, fun other => ?_⟩
      split
      · rename_i heq
        subst heq
        obtain ⟨row, hrow, rfl⟩ :=
          Option.map_eq_some_iff.mp (beq_iff_eq.mp hseen)
        rw [(hindex.rows hrow).2]
        simp [SymbolTable.methodsIn, hrow]
      · rfl
    · split
      · rename_i fault hfault
        have hnone : texts.declared parser source token = none := by
          simp [Texts.declared, ← hread, hfault, Except.toOption]
        rw [hnone]
        exact ⟨hdropped, hmethods⟩
      · rename_i text htext
        have hsome : texts.declared parser source token =
            some ((declarationsOf parser source text).map
              Declaration.method) := by
          simp [Texts.declared, ← hread, htext, Except.toOption]
        rw [hsome]
        exact ⟨hindex.replaceUnit hapart.declared hsome, fun other =>
          SymbolTable.methodsIn_replaceUnit analyzer.symbols source other _ _⟩

omit hapart in
theorem refreshUnit_frame (analyzer : Analyzer) (source : SourceUnit) :
    ∃ symbols, analyzer.refreshUnit parser files source =
      analyzer.withSymbols symbols := by
  unfold refreshUnit
  dsimp only
  split
  · exact ⟨_, rfl⟩
  · split
    · exact ⟨analyzer.symbols, rfl⟩
    · split <;> exact ⟨_, rfl⟩

omit hapart in
theorem refreshUnits_frame (sources : List SourceUnit)
    (analyzer : Analyzer) :
    ∃ symbols, sources.foldl (refreshUnit parser files) analyzer =
      analyzer.withSymbols symbols := by
  induction sources generalizing analyzer with
  | nil => exact ⟨analyzer.symbols, rfl⟩
  | cons first rest ih =>
      obtain ⟨symbols, hfirst⟩ :=
        @refreshUnit_frame parser files analyzer first
      obtain ⟨symbols', hrest⟩ := ih (analyzer.withSymbols symbols)
      exact ⟨symbols', by rw [List.foldl_cons, hfirst, hrest]; rfl⟩

omit hapart in
theorem project_refreshUnit (analyzer : Analyzer) (source : SourceUnit) :
    (analyzer.refreshUnit parser files source).project = analyzer.project := by
  obtain ⟨symbols, hunit⟩ := @refreshUnit_frame parser files analyzer source
  rw [hunit]
  rfl

omit hapart in
theorem project_refresh (analyzer : Analyzer) :
    (analyzer.refresh parser files).project = analyzer.project := by
  obtain ⟨symbols, hunits⟩ := @refreshUnits_frame parser files
    analyzer.project.units.entries analyzer.forgetMissing
  unfold refresh
  dsimp only
  rw [hunits]
  rfl

omit hapart in
theorem extracted_refresh (analyzer : Analyzer) :
    (analyzer.refresh parser files).extracted =
      analyzer.extracted.filter fun unit =>
        analyzer.project.units.contains unit.source := by
  obtain ⟨symbols, hunits⟩ := @refreshUnits_frame parser files
    analyzer.project.units.entries analyzer.forgetMissing
  unfold refresh
  dsimp only
  rw [hunits]
  rfl

omit hapart in
theorem project_sync (analyzer : Analyzer) :
    (analyzer.sync parser files).project =
      (analyzer.project.currentUnits files).1 := by
  unfold sync
  dsimp only
  split
  · rfl
  · exact project_refresh _

theorem refreshUnits_spec (sources : List SourceUnit)
    (hindex : analyzer.symbols.IsIndexOf (texts.declared parser))
    (htells : ∀ source ∈ sources,
      analyzer.project.Tells files texts source) :
    (sources.foldl (refreshUnit parser files) analyzer).symbols.IsIndexOf
        (texts.declared parser) ∧
      ∀ other, (sources.foldl (refreshUnit parser files)
          analyzer).symbols.methodsIn other =
        if other ∈ sources then
          analyzer.project.methodsAt parser files other
        else analyzer.symbols.methodsIn other := by
  induction sources generalizing analyzer with
  | nil => exact ⟨hindex, fun _ => rfl⟩
  | cons first rest ih =>
      obtain ⟨hfirst, hmethods⟩ :=
        refreshUnit_spec hapart hindex (htells first (by simp))
      have hproject := @project_refreshUnit parser files analyzer first
      obtain ⟨hlast, hmethods'⟩ := ih hfirst fun source hsource =>
        hproject ▸ htells source (by simp [hsource])
      refine ⟨hlast, fun other => ?_⟩
      rw [List.foldl_cons, hmethods', hmethods, hproject]
      by_cases heq : other = first <;> simp [heq]

/-- After a refresh the index holds what the units of the last enumeration
declare in the files, whatever it held before. -/
theorem refresh_holds (hsound : analyzer.IsSound parser texts)
    (htells : ∀ source ∈ analyzer.project.units,
      analyzer.project.Tells files texts source) :
    (analyzer.refresh parser files).symbols.IsIndexOf
        (texts.declared parser) ∧
      ∀ source, (analyzer.refresh parser files).symbols.methodsIn source =
        if analyzer.project.units.contains source then
          analyzer.project.methodsAt parser files source
        else [] := by
  have hkept : analyzer.forgetMissing.symbols.IsIndexOf
      (texts.declared parser) :=
    hsound.index.removeUnits hapart.declared _
  obtain ⟨hindex, hmethods⟩ := refreshUnits_spec hapart
    analyzer.project.units.entries hkept htells
  refine ⟨hindex, fun source => (hmethods source).trans ?_⟩
  cases hknown : analyzer.project.units.contains source with
  | true =>
      have hmem : source ∈ analyzer.project.units.entries :=
        SourceUnit.contains_iff_mem.mp hknown
      rw [if_pos hmem, if_pos rfl]
      rfl
  | false =>
      have hmem : source ∉ analyzer.project.units.entries := fun hmem =>
        Bool.eq_false_iff.mp hknown (SourceUnit.contains_iff_mem.mpr hmem)
      rw [if_neg hmem, methodsIn_forgetMissing, hknown,
        if_neg Bool.false_ne_true, if_neg Bool.false_ne_true]

theorem refresh_spec (hsound : analyzer.IsSound parser texts)
    (hshows : analyzer.project.Shows files texts)
    (hunits : analyzer.project.units = analyzer.project.sources files) :
    (analyzer.refresh parser files).symbols.IsIndexOf
        (texts.declared parser) ∧
      (analyzer.refresh parser files).symbols.methodsIn =
        texts.methodsNow parser analyzer.project files := by
  obtain ⟨hindex, hmethods⟩ := refresh_holds hapart hsound
    fun source hsource => hshows source (hunits ▸ hsource)
  refine ⟨hindex, funext fun source => ?_⟩
  rw [hmethods, Texts.methodsNow_eq parser hshows, hunits]

/-- The first question after an enumeration brings the index up to date, and it
stays so until the next one. -/
theorem sync_spec (hsound : analyzer.IsSound parser texts)
    (hcurrent : analyzer.IsCurrent parser texts files)
    (hshows : analyzer.project.Shows files texts) :
    (analyzer.sync parser files).project = analyzer.project ∧
      (analyzer.sync parser files).IsSound parser texts ∧
      (analyzer.sync parser files).syncedEpoch = analyzer.project.epoch ∧
      (analyzer.sync parser files).symbols.methodsIn =
        texts.methodsNow parser analyzer.project files := by
  have hsame : analyzer.withProject
      (analyzer.project.currentUnits files).1 = analyzer := by
    rw [Project.currentUnits_of_epoch_pos hcurrent.enumerated]
    rfl
  unfold sync
  rw [hsame]
  dsimp only
  split
  · rename_i hsynced
    exact ⟨rfl, hsound, hsynced, hcurrent.ready hsynced⟩
  · obtain ⟨hindex, hmethods⟩ :=
      refresh_spec hapart hsound hshows hcurrent.units
    have hproject := @project_refresh parser files analyzer
    have hsynced : (analyzer.refresh parser files).syncedEpoch =
        analyzer.project.epoch := congrArg Project.epoch hproject
    refine ⟨hproject, ⟨hindex, ?_⟩, hsynced, hmethods⟩
    exact Nat.le_of_eq (hsynced.trans (congrArg Project.epoch hproject).symm)

end Refresh

variable {other : Analyzer} {files' : FileSystem}

theorem extract_outcome (analyzer : Analyzer) (source : SourceUnit) :
    (analyzer.extract parser files source).2 =
      ((analyzer.sync parser files).yieldOf parser files source).map
        Prod.snd := by
  unfold extract
  dsimp only
  split <;> rename_i hyield <;> rw [hyield] <;> rfl

def extractionOf (parser : Parser) (symbols : SymbolTable)
    (source : SourceUnit) (text : String) : Extraction :=
  let declarations := declarationsOf parser source text
  ⟨declarations.map Declaration.method, declarations.flatMap
    (Resolution.edgesOf symbols (SourceText.ofText text))⟩

theorem yieldOf_eq {token : VersionToken}
    (hversion : analyzer.project.versionOf source files = .ok token) :
    (analyzer.yieldOf parser files source).map Prod.snd =
      (analyzer.project.textOf files source).map
        (extractionOf parser analyzer.symbols source) := by
  unfold yieldOf
  rw [hversion, readUnit_eq]
  cases analyzer.project.textOf files source <;> rfl

theorem yieldOf_eq_ok_iff {token : VersionToken} {extraction : Extraction} :
    analyzer.yieldOf parser files source = .ok (token, extraction) ↔
      analyzer.project.versionOf source files = .ok token ∧
        ∃ text, analyzer.project.textOf files source = .ok text ∧
          extractionOf parser analyzer.symbols source text = extraction := by
  unfold yieldOf
  rw [readUnit_eq]
  cases analyzer.project.versionOf source files with
  | error fault => exact iff_of_false nofun fun hok => nomatch hok.1
  | ok read =>
      cases analyzer.project.textOf files source with
      | error fault => exact iff_of_false nofun fun hok => nomatch hok.2
      | ok text =>
          constructor
          · intro hok
            obtain ⟨rfl, rfl⟩ := Prod.mk.inj (Except.ok.inj hok)
            exact ⟨rfl, text, rfl, rfl⟩
          · rintro ⟨hread, seen, hseen, rfl⟩
            obtain rfl := Except.ok.inj hread
            obtain rfl := Except.ok.inj hseen
            rfl

theorem yieldOf_alike
    (hversion : other.project.versionOf source files' =
      analyzer.project.versionOf source files)
    (htext : other.project.textOf files' source =
      analyzer.project.textOf files source)
    (halike : ∀ name, AlikeBy Method.id (analyzer.symbols.lookup name)
      (other.symbols.lookup name)) :
    Recomputed.IsAlike
      ((analyzer.yieldOf parser files source).map Prod.snd)
      ((other.yieldOf parser files' source).map Prod.snd) := by
  cases htoken : analyzer.project.versionOf source files with
  | error fault =>
      unfold yieldOf
      rw [hversion, htoken]
      exact .failed fault
  | ok token =>
      rw [yieldOf_eq htoken, yieldOf_eq (hversion.trans htoken), htext]
      cases analyzer.project.textOf files source with
      | error fault => exact .failed fault
      | ok text =>
          exact .found _ (AlikeBy.flatMap fun declaration _ =>
            Resolution.edgesOf_alike halike _ declaration)

/-- Two analyzers that are current find the same in every unit, whatever each of
them has seen before. -/
theorem extract_alike (hapart : texts.IsApart parser)
    (hsound : analyzer.IsSound parser texts)
    (hcurrent : analyzer.IsCurrent parser texts files)
    (hshows : analyzer.project.Shows files texts)
    (hsound' : other.IsSound parser texts)
    (hcurrent' : other.IsCurrent parser texts files')
    (hopened : other.project.asOpened = analyzer.project.asOpened)
    (hresembles : analyzer.project.Resembles files files')
    (hsource : source ∈ analyzer.project.sources files) :
    Recomputed.IsAlike (analyzer.extract parser files source).2
      (other.extract parser files' source).2 := by
  have hshows' := (hresembles.shows hshows).congr hopened
  obtain ⟨hproject, ⟨hindex, _⟩, _, hmethods⟩ :=
    sync_spec hapart hsound hcurrent hshows
  obtain ⟨hproject', ⟨hindex', _⟩, _, hmethods'⟩ :=
    sync_spec hapart hsound' hcurrent' hshows'
  rw [extract_outcome, extract_outcome]
  refine yieldOf_alike ?_ ?_ fun name => ?_
  · rw [hproject, hproject', Project.versionOf_congr hopened,
      hresembles.versions source hsource]
  · rw [hproject, hproject', Project.textOf_congr hopened,
      hresembles.texts source hsource]
  · refine SymbolTable.IsIndexOf.lookup_alike hapart.declared hindex hindex'
      (fun unit => ?_) name
    rw [hmethods, hmethods', Texts.methodsNow_congr hopened,
      Texts.methodsNow_of_resembles hresembles]

def enumerated (project : Project) (files : FileSystem) : Analyzer :=
  ofProject (project.asOpened.enumerate files).1

theorem isSound_enumerated (parser : Parser) (texts : Texts)
    (project : Project) (files : FileSystem) :
    (enumerated project files).IsSound parser texts :=
  isSound_ofProject parser texts _

theorem isCurrent_enumerated (parser : Parser) (texts : Texts)
    (project : Project) (files : FileSystem) :
    (enumerated project files).IsCurrent parser texts files where
  enumerated := Nat.zero_lt_one
  units := rfl
  ready hsynced := absurd hsynced Nat.zero_ne_one

/-- What a new analyzer extracts. -/
def outcomeIn (parser : Parser) (project : Project) (files : FileSystem)
    (source : SourceUnit) : Outcome :=
  ((enumerated project files).extract parser files source).2

theorem outcomeIn_congr {project other : Project}
    (hopened : other.asOpened = project.asOpened) (files : FileSystem) :
    outcomeIn parser other files = outcomeIn parser project files :=
  congrArg (fun opened source => ((ofProject
    (Project.enumerate opened files).1).extract parser files source).2) hopened

theorem extract_alike_outcomeIn (hapart : texts.IsApart parser)
    (hsound : analyzer.IsSound parser texts)
    (hcurrent : analyzer.IsCurrent parser texts files)
    (hshows : analyzer.project.Shows files texts)
    (hresembles : analyzer.project.Resembles files files')
    (hsource : source ∈ analyzer.project.sources files) :
    Recomputed.IsAlike (analyzer.extract parser files source).2
      (outcomeIn parser analyzer.project files' source) :=
  extract_alike hapart hsound hcurrent hshows
    (isSound_ofProject parser texts _)
    (isCurrent_enumerated parser texts analyzer.project files') rfl hresembles
    hsource

section Found

variable {project : Project} {token : VersionToken}
  (hshows : project.Shows files texts)
  (hsource : source ∈ project.sources files)
  (hversion : project.versionOf source files = .ok token)
include hshows hsource hversion

variable (parser) in
theorem outcomeIn_eq :
    ∃ symbols : SymbolTable,
      outcomeIn parser project files source =
          (texts source token).map (extractionOf parser symbols source) ∧
        (texts.IsApart parser → symbols.IsIndexOf (texts.declared parser) ∧
          symbols.methodsIn = texts.methodsNow parser project files) := by
  refine ⟨((enumerated project files).sync parser files).symbols, ?_,
    fun hapart => ?_⟩
  · have hproject : ((enumerated project files).sync parser files).project =
        (enumerated project files).project := by
      rw [project_sync]
      rfl
    have hversion' : ((enumerated project files).sync parser
        files).project.versionOf source files = .ok token := by
      rw [hproject]
      exact hversion
    unfold outcomeIn
    rw [extract_outcome, yieldOf_eq hversion', hproject,
      ← hshows source hsource token hversion]
    rfl
  · obtain ⟨_, ⟨hindex, _⟩, _, hmethods⟩ := sync_spec hapart
      (isSound_ofProject parser texts _)
      (isCurrent_enumerated parser texts project files) (hshows.congr rfl)
    exact ⟨hindex, hmethods⟩

variable (parser) in
theorem outcomeIn_fails_iff :
    (∃ fault, outcomeIn parser project files source = .error fault) ↔
      (texts source token).toOption = none := by
  obtain ⟨symbols, houtcome, _⟩ :=
    outcomeIn_eq parser hshows hsource hversion
  rw [houtcome]
  cases texts source token <;> simp [Except.map, Except.toOption]

theorem resolved_of_mem_outcomeIn (hapart : texts.IsApart parser)
    {extraction : Extraction}
    (houtcome : outcomeIn parser project files source = .ok extraction)
    {edge : Edge} (hedge : edge ∈ extraction.edges) :
    (∃ text, texts source token = .ok text ∧
      ∃ declaration ∈ declarationsOf parser source text,
        edge.caller = declaration.method) ∧
      edge.callee ∈
        texts.methodsNow parser project files edge.callee.source := by
  obtain ⟨symbols, heq, hsymbols⟩ :=
    outcomeIn_eq parser hshows hsource hversion
  obtain ⟨hindex, hmethods⟩ := hsymbols hapart
  rw [houtcome] at heq
  cases htext : texts source token with
  | error fault =>
      rw [htext] at heq
      cases heq
  | ok text =>
      rw [htext] at heq
      obtain rfl := Except.ok.inj heq
      obtain ⟨declaration, hdeclaration, hfound⟩ := List.mem_flatMap.mp hedge
      obtain ⟨hcaller, name, hcallee⟩ :=
        Resolution.ends_of_mem_edgesOf hfound
      have hnow := (hindex.mem_lookup_iff.mp hcallee).1
      rw [hmethods] at hnow
      exact ⟨⟨text, rfl, declaration, hdeclaration, hcaller⟩, hnow⟩

theorem ends_of_mem_outcomeIn (hapart : texts.IsApart parser)
    {extraction : Extraction}
    (houtcome : outcomeIn parser project files source = .ok extraction)
    {edge : Edge} (hedge : edge ∈ extraction.edges) :
    edge.caller.source = source ∧ texts.Declares parser edge.caller ∧
      texts.Declares parser edge.callee := by
  obtain ⟨⟨text, htext, declaration, hdeclaration, hcaller⟩, hcallee⟩ :=
    resolved_of_mem_outcomeIn hshows hsource hversion hapart houtcome hedge
  have hdeclared : texts.declared parser source token =
      some ((declarationsOf parser source text).map Declaration.method) := by
    simp [Texts.declared, htext, Except.toOption]
  refine ⟨?_, ?_, Texts.declares_of_mem_methodsNow hapart hcallee⟩
  · rw [hcaller]
    exact Declaration.source_of_mem_ofRoot hdeclaration
  · rw [hcaller]
    exact Texts.declares_of_mem hapart hdeclared
      (List.mem_map_of_mem hdeclaration)

end Found

theorem sync_isCurrent (hapart : texts.IsApart parser)
    (hsound : analyzer.IsSound parser texts)
    (hcurrent : analyzer.IsCurrent parser texts files)
    (hshows : analyzer.project.Shows files texts) :
    (analyzer.sync parser files).IsCurrent parser texts files := by
  obtain ⟨hproject, _, _, hmethods⟩ :=
    sync_spec hapart hsound hcurrent hshows
  refine ⟨?_, ?_, fun _ => ?_⟩ <;> rw [hproject]
  · exact hcurrent.enumerated
  · exact hcurrent.units
  · exact hmethods

theorem enumerate_spec (hsound : analyzer.IsSound parser texts)
    (files : FileSystem) :
    (analyzer.withProject (analyzer.project.enumerate files).1).IsSound parser
        texts ∧
      (analyzer.withProject (analyzer.project.enumerate files).1).IsCurrent
        parser texts files :=
  ⟨⟨hsound.index, Nat.le_succ_of_le hsound.synced⟩,
    ⟨Nat.zero_lt_succ _, rfl, fun hsynced =>
      absurd hsynced (Nat.ne_of_lt (Nat.lt_succ_of_le hsound.synced))⟩⟩

end Analyzer

namespace Sample

def callerText : String := "class A { void a() { b(); c(); } }"

def calleeText : String := "class B { void b() {} }"

def identifier (field : NodeField) (first last : Nat) : Tree :=
  .node .identifier field ⟨first, last⟩ []

def callAt (first : Nat) : Tree :=
  .node .other .none ⟨first, first + 4⟩
    [.node .methodInvocation .none ⟨first, first + 3⟩
      [identifier .name first (first + 1),
        .node .other .arguments ⟨first + 1, first + 3⟩ []]]

def classOf (methodEnd : Nat) (calls : List Tree) : Tree :=
  .node .other .none ⟨0, methodEnd + 2⟩
    [.node .typeDeclaration .none ⟨0, methodEnd + 2⟩
      [identifier .name 6 7,
        .node .other .body ⟨8, methodEnd + 2⟩
          [.node .methodDeclaration .none ⟨10, methodEnd⟩
            [.node .other .type ⟨10, 14⟩ [], identifier .name 15 16,
              .node .other .parameters ⟨16, 18⟩ [],
              .node .other .body ⟨19, methodEnd⟩ calls]]]]

def classParser : Parser := fun text =>
  if text = callerText then classOf 32 [callAt 21, callAt 26]
  else classOf 21 []

def callerFile : FileSystem :=
  (FileSystem.empty.set ["p"] .directory).set ["p", "A.java"]
    (.file (Utf8.encode callerText) 5)

def bothFiles : FileSystem :=
  callerFile.set ["p", "B.java"] (.file (Utf8.encode calleeText) 5)

def classTexts : Texts := fun source _ =>
  if source = ⟨"A.java"⟩ then .ok callerText
  else if source = ⟨"B.java"⟩ then .ok calleeText
  else .error (.because "no such class")

def methodsIn (source : SourceUnit) (text : String) : List Method :=
  (Analyzer.declarationsOf classParser source text).map Declaration.method

theorem declared_classTexts {source : SourceUnit} {token : VersionToken}
    {methods : List Method}
    (hdeclared : classTexts.declared classParser source token = some methods) :
    source = ⟨"A.java"⟩ ∧ methods = methodsIn ⟨"A.java"⟩ callerText ∨
      source = ⟨"B.java"⟩ ∧ methods = methodsIn ⟨"B.java"⟩ calleeText := by
  obtain ⟨text, htext, rfl⟩ := Option.map_eq_some_iff.mp hdeclared
  unfold classTexts at htext
  split at htext
  · rename_i hsource
    obtain rfl := Option.some.inj htext
    exact Or.inl ⟨hsource, by rw [hsource, methodsIn]⟩
  · split at htext
    · rename_i hsource
      obtain rfl := Option.some.inj htext
      exact Or.inr ⟨hsource, by rw [hsource, methodsIn]⟩
    · cases htext

theorem classTexts_isApart : classTexts.IsApart classParser := by
  have hids : ∀ method ∈ methodsIn ⟨"A.java"⟩ callerText,
      ∀ method' ∈ methodsIn ⟨"B.java"⟩ calleeText, method.id ≠ method'.id := by
    decide +kernel
  intro source token methods source' token' methods' hmethods hmethods'
    method hmethod method' hmethod' hid
  rcases declared_classTexts hmethods with ⟨rfl, rfl⟩ | ⟨rfl, rfl⟩ <;>
    rcases declared_classTexts hmethods' with ⟨rfl, rfl⟩ | ⟨rfl, rfl⟩
  · rfl
  · exact absurd hid (hids method hmethod method' hmethod')
  · exact absurd hid.symm (hids method' hmethod' method hmethod)
  · rfl

theorem eq_ok_of_toOption {ε α : Type} {result : Except ε α} {value : α}
    (hresult : result.toOption = some value) : result = .ok value := by
  cases result with
  | error => cases hresult
  | ok found => exact congrArg _ (Option.some.inj hresult)

theorem tells_of_read {project : Project} {files : FileSystem}
    {source : SourceUnit}
    (hread : (project.textOf files source).toOption =
          (classTexts source ⟨0⟩).toOption ∧
        (classTexts source ⟨0⟩).toOption.isSome = true) :
    project.Tells files classTexts source := by
  intro token _
  obtain ⟨htext, hsome⟩ := hread
  obtain ⟨text, hknown⟩ := Option.isSome_iff_exists.mp hsome
  rw [eq_ok_of_toOption (htext.trans hknown)]
  exact (eq_ok_of_toOption hknown).symm

end Sample

end CallGraph
