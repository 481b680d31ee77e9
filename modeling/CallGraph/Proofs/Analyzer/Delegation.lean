import CallGraph.Proofs.Analyzer.History
import CallGraph.Proofs.Syntax.Declaration

namespace CallGraph

/-! Constructors that pass on to another one of their type by `this(...)`.  Such a
call is resolved by the simple name of the type, which other types may share. -/

/-- One of the known units declares the method as it stands in the files. -/
def Project.Declares (parser : Parser) (files : FileSystem) (project : Project)
    (method : Method) : Prop :=
  ∃ source ∈ (project.currentUnits files).2,
    method ∈ project.methodsAt parser files source

theorem CallSite.eq_of_constructorInvocation {source : SourceText}
    {call : Tree} {site : CallSite} (hkind : call.kind = .constructorInvocation)
    (hcall : ofNode? source call = some site) :
    site = ⟨"", argumentCount call, .construct⟩ := by
  unfold ofNode? at hcall
  rw [hkind] at hcall
  dsimp only at hcall
  split at hcall
  · exact (Option.some.inj hcall).symm
  · cases hcall

/-- A construction without a name is looked up by the simple name of the caller's
type, and nothing but simple names is compared. -/
theorem Resolution.mem_targets_unnamed {symbols : SymbolTable}
    {caller callee : Method} {arity : Nat} :
    callee ∈ targets symbols caller ⟨"", arity, .construct⟩ ↔
      callee ∈ symbols.lookup (simpleName caller.enclosingType) ∧
        callee.params.length = arity ∧
          simpleName callee.enclosingType =
            simpleName caller.enclosingType := by
  have htype : constructedType caller ⟨"", arity, .construct⟩ =
      simpleName caller.enclosingType := rfl
  unfold targets constructors
  dsimp only
  rw [htype, List.mem_filter, candidates, List.mem_filter, isInTypeNamed,
    beq_iff_eq, beq_iff_eq, and_assoc]

namespace Analyzer

variable {parser : Parser} {files : FileSystem} {analyzer : Analyzer}
  {project : Project} {source : SourceUnit} {caller callee method : Method}
  {site : CallSite} {request : Request}

theorem lookup_refreshUnit
    (hrow : analyzer.symbols.byUnit.find? source.path = none)
    (name : String) :
    (analyzer.refreshUnit parser files source).symbols.lookup name =
      analyzer.symbols.lookup name ++
        (analyzer.project.methodsAt parser files source).filter
          fun method => method.name == name := by
  have hsame := SymbolTable.removeUnit_of_no_row hrow
  have hdropped : (analyzer.symbols.removeUnit source).lookup name =
      analyzer.symbols.lookup name ++
        ([] : List Method).filter fun method => method.name == name := by
    rw [hsame, List.filter_nil, List.append_nil]
  unfold refreshUnit
  cases hversion : analyzer.project.versionOf source files with
  | error fault =>
      rw [Project.methodsAt_eq_nil hversion]
      exact hdropped
  | ok token =>
      have hunseen : (analyzer.symbols.token? source == some token) = false := by
        rw [SymbolTable.token?, hrow]
        rfl
      unfold Project.methodsAt
      dsimp only
      rw [hunseen, if_neg Bool.false_ne_true, readUnit_eq]
      cases analyzer.project.textOf files source with
      | error fault => exact hdropped
      | ok text =>
          refine (SymbolTable.lookup_replaceUnit ..).trans ?_
          rw [hsame]

theorem row?_refreshUnit {other : SourceUnit} (hother : other ≠ source) :
    (analyzer.refreshUnit parser files source).symbols.byUnit.find?
        other.path = analyzer.symbols.byUnit.find? other.path := by
  have hdropped := SymbolTable.row?_removeUnit analyzer.symbols source other
  rw [if_neg hother] at hdropped
  unfold refreshUnit
  dsimp only
  split
  · exact hdropped
  · split
    · rfl
    · split
      · exact hdropped
      · exact (SymbolTable.row?_replaceUnit ..).trans (if_neg hother)

theorem lookup_refreshUnits {sources : List SourceUnit}
    (hdistinct : sources.Nodup)
    (hrows : ∀ source ∈ sources,
      analyzer.symbols.byUnit.find? source.path = none) (name : String) :
    (sources.foldl (refreshUnit parser files) analyzer).symbols.lookup name =
      analyzer.symbols.lookup name ++
        (sources.flatMap (analyzer.project.methodsAt parser files)).filter
          fun method => method.name == name := by
  induction sources generalizing analyzer with
  | nil => simp
  | cons first rest ih =>
      obtain ⟨hfirst, hrest⟩ := List.nodup_cons.mp hdistinct
      -- No unit comes twice, so the units left still have no rows.
      have hrows' : ∀ source ∈ rest,
          (analyzer.refreshUnit parser files first).symbols.byUnit.find?
            source.path = none := by
        intro source hsource
        have hother : source ≠ first := fun heq => hfirst (heq ▸ hsource)
        rw [row?_refreshUnit hother]
        exact hrows source (List.mem_cons_of_mem first hsource)
      rw [List.foldl_cons, ih hrest hrows', project_refreshUnit,
        lookup_refreshUnit (hrows first List.mem_cons_self),
        List.flatMap_cons, List.filter_append, List.append_assoc]

theorem symbols_asked_new (project : Project) (request : Request) :
    ((ofProject project).asked parser files request).symbols =
      ((ofProject (project.currentUnits files).1).refresh parser
        files).symbols := by
  obtain ⟨kept, hasked⟩ :=
    @exists_asked_eq parser files (ofProject project) request
  have hbehind : (ofProject project).IsBehind :=
    (Nat.eq_zero_or_pos project.epoch).imp id fun hepoch =>
      Nat.ne_of_lt hepoch
  rw [hasked, sync_of_isBehind (Nat.zero_le _) hbehind]
  rfl

theorem lookup_asked_new (project : Project) (request : Request)
    (name : String) :
    ((ofProject project).asked parser files request).symbols.lookup name =
      ((project.currentUnits files).2.entries.flatMap
        (project.methodsAt parser files)).filter
          fun method => method.name == name := by
  have hsame : (project.currentUnits files).1.methodsAt parser files =
      project.methodsAt parser files := by
    funext source
    unfold Project.methodsAt
    rw [Project.textOf_congr (project.asOpened_currentUnits files)]
  have hdistinct : (project.currentUnits files).2.entries.Nodup :=
    List.Pairwise.of_map Keyed.key
      (fun _ _ hkeys heq => hkeys (congrArg Keyed.key heq))
      (KeyedSet.nodup_keys _)
  rw [symbols_asked_new]
  unfold refresh
  dsimp only
  refine (lookup_refreshUnits ?_ ?_ name).trans ?_
  · change (project.currentUnits files).1.units.entries.Nodup
    rw [Project.units_currentUnits]
    exact hdistinct
  · intro source _
    rfl
  · change [] ++ ((project.currentUnits files).1.units.entries.flatMap
      ((project.currentUnits files).1.methodsAt parser files)).filter _ = _
    rw [hsame, Project.units_currentUnits, List.nil_append]

theorem mem_lookup_asked_new {name : String} :
    method ∈ ((ofProject project).asked parser files
        request).symbols.lookup name ↔
      project.Declares parser files method ∧ method.name = name := by
  rw [lookup_asked_new, List.mem_filter, List.mem_flatMap, beq_iff_eq]
  rfl

/-- A constructor that a known unit declares, with a call by `this(...)` directly
in its body. -/
inductive Delegates (parser : Parser) (files : FileSystem)
    (project : Project) : Method → CallSite → Prop where
  | intro {source : SourceUnit} {text : String} {place : List Nat}
      {names : List Tree} {node body call : Tree}
      {declaration : Declaration} {site : CallSite}
      (known : source ∈ (project.currentUnits files).2)
      (reads : project.textOf files source = .ok text)
      (declares : Declaration.Declares (parser text) place names node)
      (constructs : node.kind = .constructorDeclaration)
      (declared : Declaration.declared? source (SourceText.ofText text)
        (names.map (SourceText.ofText text).textOf) node = some declaration)
      (embodied : declaration.body = some body) (inside : call ∈ body.children)
      (kind : call.kind = .constructorInvocation)
      (calls : CallSite.ofNode? (SourceText.ofText text) call = some site) :
      Delegates parser files project declaration.method site

/-- Whatever a constructor may pass on to stays in its own type. -/
def KeepsDelegations (parser : Parser) (files : FileSystem)
    (project : Project) (request : Request) : Prop :=
  ∀ caller site, Delegates parser files project caller site →
    ∀ callee ∈ Resolution.targets ((ofProject project).asked parser files
      request).symbols caller site,
        Resolution.isInSameType caller callee = true

/-- A declared method with the simple name of the caller's type, in a type with
this simple name, that takes so many arguments. -/
structure IsNamesake (parser : Parser) (files : FileSystem)
    (project : Project) (caller : Method) (arity : Nat) (method : Method) :
    Prop where
  declared : project.Declares parser files method
  name : method.name = Resolution.simpleName caller.enclosingType
  arity : method.params.length = arity
  type : Resolution.simpleName method.enclosingType =
    Resolution.simpleName caller.enclosingType

theorem Delegates.mem_targets_iff
    (hdelegates : Delegates parser files project caller site) :
    callee ∈ Resolution.targets ((ofProject project).asked parser files
        request).symbols caller site ↔
      IsNamesake parser files project caller site.arity callee := by
  obtain ⟨-, -, -, -, -, -, -, hkind, hcalls⟩ := hdelegates
  rw [CallSite.eq_of_constructorInvocation hkind hcalls,
    Resolution.mem_targets_unnamed, mem_lookup_asked_new]
  exact ⟨fun ⟨⟨hdeclared, hname⟩, harity, htype⟩ =>
      ⟨hdeclared, hname, harity, htype⟩,
    fun ⟨hdeclared, hname, harity, htype⟩ =>
      ⟨⟨hdeclared, hname⟩, harity, htype⟩⟩

/-- A constructor may pass on to the namesakes of its type and to nothing else,
wherever they are declared.  So delegation stays in its own type exactly when
there are no namesakes elsewhere. -/
theorem delegation_reachesNamesakes (parser : Parser) (files : FileSystem)
    (project : Project) (request : Request) :
    (∀ caller site, Delegates parser files project caller site →
      ∀ callee, callee ∈ Resolution.targets ((ofProject project).asked parser
          files request).symbols caller site ↔
        IsNamesake parser files project caller site.arity callee) ∧
      (KeepsDelegations parser files project request ↔
        ∀ caller site, Delegates parser files project caller site →
          ∀ method, IsNamesake parser files project caller site.arity method →
            Resolution.isInSameType caller method = true) := by
  refine ⟨fun caller site hdelegates callee => hdelegates.mem_targets_iff, ?_⟩
  constructor
  · intro hkeeps caller site hdelegates method hnamesake
    exact hkeeps caller site hdelegates method
      (hdelegates.mem_targets_iff.mpr hnamesake)
  · intro hown caller site hdelegates callee hcallee
    exact hown caller site hdelegates callee
      (hdelegates.mem_targets_iff.mp hcallee)

end Analyzer

namespace Sample

open Analyzer (Delegates IsNamesake KeepsDelegations)

def delegatingText : String := "class N { N() { this(1); } N(int n) {} }"

def namesakeText : String := "class N { N(int n) {} }"

def constructorAt (first : Nat) : Tree :=
  .node .constructorDeclaration .none ⟨first, first + 11⟩
    [identifier .name first (first + 1),
      .node .other .parameters ⟨first + 1, first + 8⟩
        [.node .formalParameter .none ⟨first + 2, first + 7⟩
          [.node .other .type ⟨first + 2, first + 5⟩ [],
            identifier .name (first + 6) (first + 7)]],
      .node .other .body ⟨first + 9, first + 11⟩ []]

def delegation : Tree :=
  .node .constructorInvocation .none ⟨16, 24⟩
    [.node .thisExpression .constructor ⟨16, 20⟩ [],
      .node .other .arguments ⟨20, 23⟩ [.node .other .none ⟨21, 22⟩ []]]

def delegatingBody : Tree := .node .other .body ⟨14, 26⟩ [delegation]

def delegatingConstructor : Tree :=
  .node .constructorDeclaration .none ⟨10, 26⟩
    [identifier .name 10 11, .node .other .parameters ⟨11, 13⟩ [],
      delegatingBody]

def classAround (stop : Nat) (members : List Tree) : Tree :=
  .node .other .none ⟨0, stop⟩
    [.node .typeDeclaration .none ⟨0, stop⟩
      [identifier .name 6 7, .node .other .body ⟨8, stop⟩ members]]

def namesakeParser : Parser := fun text =>
  if text = delegatingText then
    classAround 40 [delegatingConstructor, constructorAt 27]
  else classAround 23 [constructorAt 10]

def namesakeFiles : FileSystem :=
  ((((FileSystem.empty.set ["p"] .directory).set ["p", "a"] .directory).set
    ["p", "b"] .directory).set ["p", "a", "N.java"]
      (.file (Utf8.encode delegatingText) 5)).set ["p", "b", "N.java"]
        (.file (Utf8.encode namesakeText) 5)

def delegating : Method := .declare ⟨"a/N.java"⟩ "N" "N" []

def namesake : Method := .declare ⟨"b/N.java"⟩ "N" "N" [⟨"int", "n"⟩]

theorem namesakeFiles_known : ∀ source ∈ [⟨"a/N.java"⟩, ⟨"b/N.java"⟩],
    source ∈ (newAnalyzer.project.currentUnits namesakeFiles).2 := by
  decide +kernel

theorem delegating_delegates :
    Delegates namesakeParser namesakeFiles newAnalyzer.project delegating
      ⟨"", 1, .construct⟩ := by
  have hdeclared : Declaration.declared? ⟨"a/N.java"⟩
      (SourceText.ofText delegatingText)
        ([identifier .name 6 7].map (SourceText.ofText delegatingText).textOf)
          delegatingConstructor =
      some ⟨delegating, some delegatingBody⟩ := by
    have hmethod : Method.declare ⟨"a/N.java"⟩
        (Declaration.typeName ([identifier .name 6 7].map
          (SourceText.ofText delegatingText).textOf))
        ((SourceText.ofText delegatingText).textOf (identifier .name 10 11))
        (Declaration.params (SourceText.ofText delegatingText)
          delegatingConstructor) = delegating := by
      decide +kernel
    rw [← hmethod]
    rfl
  have hdeclares : Declaration.Declares (namesakeParser delegatingText)
      [0, 1, 0] [identifier .name 6 7] delegatingConstructor := by
    rw [namesakeParser, if_pos rfl]
    exact .intro rfl ⟨rfl, rfl, rfl, rfl⟩ (.member rfl) (Or.inr rfl) rfl
  exact .intro (namesakeFiles_known _ (by simp))
    (eq_ok_of_toOption (by decide +kernel)) hdeclares rfl hdeclared rfl
    List.mem_cons_self rfl rfl

theorem delegating_leavesType :
    ¬KeepsDelegations namesakeParser namesakeFiles newAnalyzer.project
      (.extract ⟨"a/N.java"⟩) := by
  intro hkeeps
  have hdeclared : newAnalyzer.project.Declares namesakeParser namesakeFiles
      namesake :=
    ⟨⟨"b/N.java"⟩, namesakeFiles_known _ (by simp), by decide +kernel⟩
  have hnamesake : IsNamesake namesakeParser namesakeFiles newAnalyzer.project
      delegating 1 namesake :=
    ⟨hdeclared, by decide +kernel, rfl, rfl⟩
  have hkept := hkeeps _ _ delegating_delegates namesake
    ((Delegates.mem_targets_iff delegating_delegates).mpr hnamesake)
  have hleft : Resolution.isInSameType delegating namesake = false := by
    decide
  rw [hleft] at hkept
  cases hkept

end Sample

end CallGraph
