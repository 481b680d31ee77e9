import CallGraph.Proofs.Analyzer
import CallGraph.Proofs.Ignore.Walk

namespace CallGraph

open FileSystem
open CallGraph.Path (IsName Component)

namespace Project

variable {project : Project} {files files' : FileSystem}

/-- A project that does not lie in a directory named like the cache, nor is
reached through one. -/
structure LiesClear (project : Project) : Prop where
  root : ∃ home, Spares ".callweave" home ∧ project.root = home.path
  openedAs : project.openedAs.text ≠ "" ∧
    Component.named ".callweave" ∉ project.openedAs.components

theorem mem_below {base path relative : Path} (hbase : base.text ≠ "")
    (hclear : Component.named ".callweave" ∉ base.components)
    (hrelative : Path.below? base path = some relative)
    (hmem : Component.named ".callweave" ∈ path.components) :
    Component.named ".callweave" ∈ relative.components := by
  unfold Path.below? at hrelative
  split at hrelative
  · rename_i hstarts
    obtain rfl := Option.some.inj hrelative
    obtain ⟨rest, hrest⟩ := List.isPrefixOf_iff_prefix.mp hstarts
    have hsome : 0 < base.components.length :=
      List.length_pos_iff.mpr (Path.components_ne_nil hbase)
    rw [Path.components_behind path hsome]
    rw [← hrest, List.mem_append] at hmem
    rw [← hrest, List.drop_left]
    exact hmem.resolve_left hclear
  · cases hrelative

section Clear

variable (hlies : project.LiesClear)
include hlies

theorem LiesClear.root_components :
    project.root.text ≠ "" ∧
      Component.named ".callweave" ∉ project.root.components := by
  obtain ⟨home, hhome, hroot⟩ := hlies.root
  refine ⟨by rw [hroot]; simp [Location.path], ?_⟩
  rw [hroot, Path.components_location fun part hpart => (hhome part hpart).1]
  simp only [List.mem_cons, reduceCtorEq, false_or, List.mem_map, not_exists,
    not_and]
  exact fun part hpart heq => (hhome part hpart).2 (Component.named.inj heq)

theorem LiesClear.excludes_of_mem {path : Path}
    (hmem : Component.named ".callweave" ∈ path.components) :
    project.excludes path = true := by
  have hrelative : Component.named ".callweave" ∈
      ((project.relative? path).getD path).components := by
    obtain ⟨hroot, hclear⟩ := hlies.root_components
    unfold relative?
    cases hbelow : Path.below? project.root path with
    | some relative => exact mem_below hroot hclear hbelow hmem
    | none =>
        dsimp only
        cases hbelow' : Path.below? project.openedAs path with
        | some relative =>
            exact mem_below hlies.openedAs.1 hlies.openedAs.2 hbelow' hmem
        | none => exact hmem
  unfold excludes
  dsimp only
  rw [Bool.or_eq_true]
  exact Or.inl (List.any_eq_true.mpr ⟨_, hrelative, by decide⟩)

theorem LiesClear.walk_agrees (hclear : files.KeepsClearOf ".callweave")
    (hclear' : files'.KeepsClearOf ".callweave")
    (hagrees : AgreesBut ".callweave" files files') (directory : Path) :
    project.walk directory files' = project.walk directory files := by
  unfold walk
  rw [FileSystem.walk_agrees hclear hagrees hclear'.names directory
    fun path hmem => ?_]
  rw [hlies.excludes_of_mem hmem, Bool.not_true, Bool.and_false]

theorem LiesClear.exists_path_of_mem_sources
    (hclear : files.KeepsClearOf ".callweave")
    {source : SourceUnit} (hsource : source ∈ project.sources files) :
    ∃ components : List Component,
      source.path = String.intercalate "/" (components.map Component.text) ∧
        (∀ component ∈ components, Path.IsPiece component) ∧
          Component.named ".callweave" ∉ components := by
  obtain ⟨hroot, hrootClear⟩ := hlies.root_components
  obtain ⟨path, hpath, rfl⟩ :=
    List.mem_map.mp (KeyedSet.mem_of_mem_ofList hsource)
  obtain ⟨hpath, hkept⟩ := List.mem_filter.mp hpath
  obtain ⟨below, hcomponents⟩ := components_of_mem_walk hclear.names hpath
  have hsome : 0 < project.root.components.length :=
    List.length_pos_iff.mpr (Path.components_ne_nil hroot)
  have hrelative : Path.below? project.root path =
      some (path.behind project.root.components.length) := by
    unfold Path.below? Path.startsWith
    rw [if_pos]
    rw [hcomponents]
    exact List.isPrefixOf_iff_prefix.mpr (List.prefix_append _ _)
  have hbehind := Path.components_behind path hsome
  refine ⟨path.components.drop project.root.components.length, ?_,
    fun _ => Path.isPiece_of_mem_drop hsome, fun hmem => ?_⟩
  · unfold SourceUnit.ofPath
    rw [hrelative, ← hbehind, Option.getD_some]
  · have hexcluded := hlies.excludes_of_mem (List.mem_of_mem_drop hmem)
    rw [hexcluded, Bool.not_true, Bool.and_false] at hkept
    cases hkept

theorem LiesClear.pathOf_clear (hclear : files.KeepsClearOf ".callweave")
    {source : SourceUnit} (hsource : source ∈ project.sources files) :
    Component.named ".callweave" ∉ (project.pathOf source).components := by
  obtain ⟨hroot, hrootClear⟩ := hlies.root_components
  obtain ⟨components, hpath, hpieces, haway⟩ :=
    hlies.exists_path_of_mem_sources hclear hsource
  have htext : (Path.mk source.path).text.toList =
      Path.joined components := by
    rw [hpath]
    exact Path.toList_intercalate_text components
  have hrelative : (Path.mk source.path).isAbsolute = false := by
    have hofList : Path.mk source.path =
        ⟨String.ofList (Path.joined components)⟩ := Path.eq_ofList htext
    rw [hofList]
    exact Path.isAbsolute_of_isLoose (Path.isLoose_joined hpieces)
  unfold pathOf SourceUnit.toPath
  rw [Path.components_join hroot hrelative, htext, Path.named_joined hpieces,
    List.mem_append, not_or]
  exact ⟨hrootClear, haway⟩

theorem LiesClear.resembles_of_agrees (hclear : files.KeepsClearOf ".callweave")
    (hclear' : files'.KeepsClearOf ".callweave")
    (hagrees : AgreesBut ".callweave" files files') :
    project.Resembles files files' where
  walks := hlies.walk_agrees hclear hclear' hagrees
  versions source hsource := by
    unfold versionOf
    rw [stat_agrees hclear hagrees (hlies.pathOf_clear hclear hsource)]
  texts source hsource := by
    have hread := read_agrees hclear hagrees
      (hlies.pathOf_clear hclear hsource)
    have htext : files'.readText (project.pathOf source) =
        files.readText (project.pathOf source) := by
      unfold readText
      rw [hread]
    have hpath : (Analyzer.ofProject project).project.pathOf source =
        project.pathOf source := rfl
    unfold textOf Analyzer.readUnit
    dsimp only
    rw [hpath, htext]

end Clear

end Project

end CallGraph
