import CallGraph.Proofs.Project.Tracked
import CallGraph.Proofs.SourceUnit

namespace CallGraph

open FileSystem
open CallGraph.Path (IsName IsPiece Component)

/-! What a scope of a directory finds, by the spelling of the directory. -/

namespace FileSystem

variable {files : FileSystem} {base path : Path} {top place : Location}
  {names : List String}

/-- No link stands anywhere in a directory. -/
def HoldsNoLink (files : FileSystem) (top : Location) : Prop :=
  ∀ below target, files.entry? (top ++ below) ≠ some (.link target)

theorem follow_components_here
    (hpath : files.locate true path = .ok (place, .directory)) :
    files.follow true linkLimit files.workingDirectory
      (path.components ++ [.here]) = .ok (.present place .directory) := by
  have hfind := find_of_locate hpath
  rw [find_of_isPlain (isPlain_of_locate hpath), steps] at hfind
  obtain ⟨left, hleft⟩ := goesOn (by split <;> simp) hfind
  exact (hleft true [.here] (List.cons_ne_nil _ _)).trans
    (follow_here.trans follow_nil)

theorem place_of_names_behind
    (hbase : files.locate true base = .ok (top, .directory))
    (hpath : files.locate true path = .ok (place, .directory))
    (hcomponents : path.components = base.components ++ names.map .named)
    (hunlinked : ∀ below target, below <+: names →
      files.entry? (top ++ below) ≠ some (.link target)) :
    place = top ++ names := by
  have hfollow := follow_components_here hpath
  obtain ⟨left, hleft⟩ := goesOn (Or.inr rfl) (follow_components_here hbase)
  have hsome : names.map Component.named ++ [.here] ≠ [] := by simp
  rw [hcomponents, List.append_assoc] at hfollow
  exact place_of_follow_names (Or.inr rfl) hunlinked
    ((hleft true _ hsome).symm.trans hfollow)

end FileSystem

namespace Project

variable {opened project : Project} {files : FileSystem} {path : Path}
  {patterns : List String} {top below : Location} {spelling : String}
  {relative : Path} {source : SourceUnit}

/-- The units below a directory, by whole components of their paths. -/
def unitsWithin (project : Project) (below : Location) : UnitSet :=
  project.units.filter fun source =>
    (below.map .named).isPrefixOf (Path.mk source.path).components

/-- The directory is spelled as a way from the root that has no step upwards. -/
def SpellsDirectly (project : Project) (spelling : String) : Prop :=
  ∃ relative, project.relative? (project.root.join ⟨spelling⟩) =
    some relative ∧ .above ∉ relative.components

theorem LiesAt.spellsDirectly_iff_of_components
    (hlies : project.LiesAt top files) {rest : List Component}
    (hcomponents : (project.root.join ⟨spelling⟩).components =
      project.root.components ++ rest) :
    project.SpellsDirectly spelling ↔ .above ∉ rest := by
  obtain ⟨relative, hrelative, hrest⟩ :=
    hlies.relative?_of_components hcomponents
  unfold SpellsDirectly
  rw [hrelative]
  simp [hrest]

theorem LiesAt.spellsDirectly_iff_of_openedAs
    (hlies : project.LiesAt top files) {rest : List Component}
    (hother : (project.root.join ⟨spelling⟩).startsWith project.root = false)
    (hcomponents : (project.root.join ⟨spelling⟩).components =
      project.openedAs.components ++ rest) :
    project.SpellsDirectly spelling ↔ .above ∉ rest := by
  obtain ⟨relative, hrelative, hrest⟩ := Path.below?_of_components
    (Path.components_ne_nil (isPlain_of_locate hlies.opened).some) hcomponents
  unfold SpellsDirectly relative?
  rw [Path.below?, hother, if_neg Bool.false_ne_true, hrelative]
  simp [hrest]

theorem LiesAt.spellsDirectly_iff_of_isRelative
    (hlies : project.LiesAt top files)
    (hrelative : (Path.mk spelling).isAbsolute = false) :
    project.SpellsDirectly spelling ↔
      .above ∉ Path.named spelling.toList :=
  hlies.spellsDirectly_iff_of_components
    (Path.components_join hlies.root_text hrelative)

theorem unitsInScope_inDirectory (hepoch : project.epoch ≠ 0) :
    (project.unitsInScope (.inDirectory spelling) files).2 =
      match project.relative? (project.root.join ⟨spelling⟩) with
      | some relative => project.units.filter (isInDirectory relative)
      | none => project.walk (project.root.join ⟨spelling⟩) files := by
  unfold unitsInScope currentUnits
  rw [if_neg hepoch]
  dsimp only
  cases project.relative? (project.root.join ⟨spelling⟩) <;> rfl

theorem LiesAt.exists_base (hlies : project.LiesAt top files)
    (hrelative : project.relative? path = some relative) :
    ∃ base, files.locate true base = .ok (top, .directory) ∧
      path.components = base.components ++ relative.components ∧
        ∀ component ∈ relative.components, IsPiece component := by
  obtain ⟨base, hbase, hbelow⟩ : ∃ base,
      files.locate true base = .ok (top, .directory) ∧
        Path.below? base path = some relative := by
    unfold relative? at hrelative
    split at hrelative
    · rename_i hbelow
      exact ⟨_, hlies.located true, hbelow.trans hrelative⟩
    · exact ⟨_, hlies.opened, hrelative⟩
  have hsome : 0 < base.components.length := List.length_pos_iff.mpr
    (Path.components_ne_nil (isPlain_of_locate hbase).some)
  unfold Path.below? at hbelow
  split at hbelow
  · rename_i hstarts
    obtain rfl := Option.some.inj hbelow
    obtain ⟨rest, hrest⟩ := List.isPrefixOf_iff_prefix.mp hstarts
    have hcomponents := Path.components_behind path hsome
    refine ⟨base, hbase, ?_, fun component hcomponent => ?_⟩
    · rw [hcomponents, ← hrest, List.drop_left]
    · rw [hcomponents] at hcomponent
      exact Path.isPiece_of_mem_drop hsome hcomponent
  · cases hbelow

theorem exists_names {components : List Component}
    (hpieces : ∀ component ∈ components, IsPiece component)
    (hdirect : .above ∉ components) :
    ∃ names : List String, components = names.map .named := by
  refine ⟨components.map Component.text, ?_⟩
  rw [List.map_map]
  refine ((List.map_congr_left fun component hcomponent => ?_).trans
    (List.map_id _)).symm
  have hpiece := hpieces component hcomponent
  cases component with
  | root => exact absurd hpiece (by decide)
  | here => exact absurd hpiece (by decide)
  | above => exact absurd hcomponent hdirect
  | named name => rfl

section Enumerated

variable (hlies : opened.LiesAt top files)
  (hproject : (opened.enumerate files).1 = project)
include hlies hproject

theorem LiesAt.enumerated : project.LiesAt top files := by
  subst hproject
  exact ⟨hlies.tree, hlies.root, hlies.opened⟩

theorem LiesAt.exists_unitBelow (hsource : source ∈ project.units) :
    ∃ below : Location, (∀ part ∈ below, IsName part) ∧
      unitBelow below = source := by
  subst hproject
  obtain ⟨below, hbelow, hunit, -⟩ := hlies.mem_enumerate_iff.mp hsource
  exact ⟨below, isName_of_mem_walkBelow hlies.tree.isNamed hbelow, hunit⟩

theorem LiesAt.unit_not_above (hsource : source ∈ project.units) :
    .above ∉ (Path.mk source.path).components := by
  obtain ⟨below, hnames, rfl⟩ := hlies.exists_unitBelow hproject hsource
  have hloose := Path.isLoose_joined (Path.isPiece_named hnames)
  have hpath : Path.mk (unitBelow below).path =
      ⟨String.ofList (Path.joined (below.map .named))⟩ :=
    Path.eq_ofList (Path.intercalate_eq_joined below)
  rw [hpath, Path.components_of_isLoose hloose,
    Path.named_joined (Path.isPiece_named hnames)]
  simp

theorem LiesAt.unit_isRelative (hsource : source ∈ project.units) :
    (Path.mk source.path).isAbsolute = false := by
  obtain ⟨below, hnames, rfl⟩ := hlies.exists_unitBelow hproject hsource
  exact Path.isAbsolute_intercalate hnames

end Enumerated

section Astray

variable (hlies : project.LiesAt top files)
include hlies

theorem LiesAt.isAbsolute_join :
    (project.root.join ⟨spelling⟩).isAbsolute = true := by
  unfold Path.join
  split
  · assumption
  · rw [hlies.root]
    split <;> simp [Location.path, Path.isAbsolute]

/-- Nothing above the root leads back into the root, unless by a step upwards
or a link. -/
theorem LiesAt.not_startsWith_of_walk
    (hpath : files.locate true path = .ok (top ++ below, .directory))
    (habsolute : path.isAbsolute = true)
    (hastray : path.startsWith project.root = false)
    {file : Path} (hfile : file ∈ files.walk path) :
    file.startsWith project.root = false := by
  obtain ⟨rest, hrest⟩ := components_of_mem_walk hlies.tree.isNamed hfile
  have hnot : ¬project.root.components <+: path.components := by
    rw [← List.isPrefixOf_iff_prefix]
    exact Bool.eq_false_iff.mp hastray
  rw [← Bool.not_eq_true, Path.startsWith, List.isPrefixOf_iff_prefix, hrest]
  intro hstarts
  rcases List.prefix_or_prefix_of_prefix hstarts (List.prefix_append _ _) with
    hbelow | habove
  · exact hnot hbelow
  · obtain ⟨pieces, hpieces, -⟩ := Path.components_of_isAbsolute habsolute
    rw [hlies.root_components, hpieces] at habove
    obtain ⟨above, hprefix, rfl⟩ :=
      List.prefix_map_iff.mp (List.cons_prefix_cons.mp habove).2
    have hslash : files.locate true (Location.path []) =
        .ok ([], .directory) := hlies.tree.locate_location rfl
    have hunlinked : ∀ front target, front <+: above →
        files.entry? ([] ++ front) ≠ some (.link target) := by
      intro front target hfront
      have hfront := hfront.trans hprefix
      rw [List.nil_append]
      by_cases hsame : front = top
      · rw [hsame, hlies.standing]
        exact nofun
      · rw [hlies.tree.above hlies.standing hfront hsame]
        exact nofun
    have hplace : top ++ below = above := place_of_names_behind hslash hpath
      (hpieces.trans (by rw [Path.components_location (by simp)]; rfl))
      hunlinked
    have hsame : top = above :=
      (hplace ▸ List.prefix_append top below).eq_of_length_le hprefix.length_le
    refine hnot ⟨[], ?_⟩
    rw [List.append_nil, hlies.root_components, hpieces, hsame]

theorem LiesAt.isAbsolute_of_mem_walk
    (hpath : files.locate true path = .ok (top ++ below, .directory))
    (habsolute : path.isAbsolute = true)
    (hastray : path.startsWith project.root = false)
    (hsource : source ∈ project.walk path files) :
    (Path.mk source.path).isAbsolute = true := by
  obtain ⟨file, hfile, rfl⟩ :=
    List.mem_map.mp (SourceUnit.mem_ofList.mp hsource)
  have hfile := (List.mem_filter.mp hfile).1
  have hoff := hlies.not_startsWith_of_walk hpath habsolute hastray hfile
  obtain ⟨rest, hrest⟩ := components_of_mem_walk hlies.tree.isNamed hfile
  obtain ⟨pieces, hpieces, -⟩ := Path.components_of_isAbsolute habsolute
  have hroot : project.root.isAbsolute = true := by
    rw [hlies.root]
    simp [Location.path, Path.isAbsolute]
  have hrelative : Path.relativeComponents project.root file =
      .root :: (pieces ++ rest) := by
    unfold Path.relativeComponents
    rw [hoff, hrest, hpieces]
    rfl
  obtain ⟨text, htext, -⟩ := Path.joined_root (pieces ++ rest)
  rw [SourceUnit.ofPath_eq hroot, hrelative]
  unfold Path.isAbsolute
  rw [Path.toList_intercalate_text, htext]
  rfl

end Astray

theorem LiesAt.found_of_spellsDirectly (hlies : project.LiesAt top files)
    (hunlinked : files.HoldsNoLink top) (hepoch : project.epoch ≠ 0)
    (hdirectory : files.locate true (project.root.join ⟨spelling⟩) =
      .ok (top ++ below, .directory))
    (hspells : project.SpellsDirectly spelling) :
    (project.unitsInScope (.inDirectory spelling) files).2 =
      project.unitsWithin below := by
  obtain ⟨relative, hrelative, hdirect⟩ := hspells
  obtain ⟨base, hbase, hcomponents, hpieces⟩ := hlies.exists_base hrelative
  obtain ⟨names, hnames⟩ := exists_names hpieces hdirect
  rw [hnames] at hcomponents
  have hplace := place_of_names_behind hbase hdirectory hcomponents
    fun front target _ => hunlinked front target
  obtain rfl := List.append_cancel_left hplace
  rw [unitsInScope_inDirectory hepoch, hrelative]
  dsimp only
  unfold unitsWithin isInDirectory Path.startsWith
  rw [hnames]

theorem LiesAt.not_unit_of_found (hlies : opened.LiesAt top files)
    (hproject : (opened.enumerate files).1 = project)
    (hepoch : project.epoch ≠ 0)
    (hdirectory : files.locate true (project.root.join ⟨spelling⟩) =
      .ok (top ++ below, .directory))
    (hspells : ¬project.SpellsDirectly spelling)
    (hsource :
      source ∈ (project.unitsInScope (.inDirectory spelling) files).2) :
    source ∉ project.units := by
  intro hunit
  rw [unitsInScope_inDirectory hepoch] at hsource
  cases hrelative : project.relative? (project.root.join ⟨spelling⟩) with
  | some relative =>
      rw [hrelative] at hsource
      have hstarts := List.isPrefixOf_iff_prefix.mp
        (KeyedSet.mem_filter.mp hsource).2
      have habove : .above ∈ relative.components := by
        by_contra hdirect
        exact hspells ⟨relative, hrelative, hdirect⟩
      exact hlies.unit_not_above hproject hunit (hstarts.subset habove)
  | none =>
      rw [hrelative] at hsource
      have hastray : (project.root.join ⟨spelling⟩).startsWith project.root =
          false := by
        unfold relative? Path.below? at hrelative
        by_contra hstarts
        rw [Bool.not_eq_false] at hstarts
        rw [if_pos hstarts] at hrelative
        cases hrelative
      have hlies' := hlies.enumerated hproject
      have habsolute := hlies'.isAbsolute_of_mem_walk hdirectory
        hlies'.isAbsolute_join hastray hsource
      rw [hlies.unit_isRelative hproject hunit] at habsolute
      cases habsolute

/-- A directory of the project that is spelled directly has the units below it,
whichever way it is spelled. Spelled otherwise it has none of the units of the
project. -/
theorem inDirectory_findsWithin_iff (htree : files.IsTree)
    (hopened : openAt path patterns files = .ok opened)
    (htop : files.locate true path = .ok (top, .directory))
    (hunlinked : files.HoldsNoLink top)
    (hproject : (opened.enumerate files).1 = project)
    (hdirectory : files.locate true (project.root.join ⟨spelling⟩) =
      .ok (top ++ below, .directory)) :
    ((project.unitsInScope (.inDirectory spelling) files).2 =
        project.unitsWithin below ↔
      project.SpellsDirectly spelling ∨
        (project.unitsInScope (.inDirectory spelling) files).2 = ∅ ∧
          project.unitsWithin below = ∅) ∧
      (¬project.SpellsDirectly spelling →
        ∀ source ∈ (project.unitsInScope (.inDirectory spelling) files).2,
          source ∉ project.units) := by
  have hlies := liesAt_of_openAt htree hopened htop
  have hepoch : project.epoch ≠ 0 := by
    subst hproject
    exact Nat.succ_ne_zero _
  have hastray : ¬project.SpellsDirectly spelling →
      ∀ source ∈ (project.unitsInScope (.inDirectory spelling) files).2,
        source ∉ project.units := fun hspells _ =>
    hlies.not_unit_of_found hproject hepoch hdirectory hspells
  refine ⟨⟨fun hsame => ?_, ?_⟩, hastray⟩
  · by_cases hspells : project.SpellsDirectly spelling
    · exact Or.inl hspells
    · have hnone : project.unitsWithin below = ∅ := by
        refine KeyedSet.ext_of_mem fun source => ⟨fun hwithin => ?_,
          fun hmem => absurd hmem KeyedSet.not_mem_empty⟩
        exact absurd (KeyedSet.mem_filter.mp hwithin).1
          (hastray hspells source (hsame ▸ hwithin))
      exact Or.inr ⟨hsame.trans hnone, hnone⟩
  · rintro (hspells | ⟨hfound, hnone⟩)
    · exact (hlies.enumerated hproject).found_of_spellsDirectly hunlinked
        hepoch hdirectory hspells
    · exact hfound.trans hnone.symm

end Project

namespace Sample

def twoDirectories : FileSystem :=
  (((((FileSystem.empty.set ["p"] .directory).set ["p", "core"] .directory).set
    ["p", "core", "A.java"] (.file [] 5)).set ["p", "lib"] .directory).set
      ["p", "lib", "B.java"] (.file [] 5)).set ["way"] (.link ⟨"p"⟩)

def linkedProject : Project := ⟨⟨"/p"⟩, ⟨"/way"⟩, [], 0, ∅⟩

def enumeratedProject : Project := (linkedProject.enumerate twoDirectories).1

theorem linkedProject_isOpened :
    Project.openAt ⟨"/way"⟩ [] twoDirectories = .ok linkedProject := by
  have hroot : twoDirectories.locate true ⟨"/way"⟩ =
      .ok (["p"], .directory) := by
    decide +kernel
  unfold Project.openAt
  rw [hroot]
  rfl

theorem twoDirectories_holdsNoLink : twoDirectories.HoldsNoLink ["p"] := by
  intro below target hlink
  rcases entry?_eq_some_iff.mp hlink with ⟨htop, -⟩ | ⟨-, hmem⟩
  · cases htop
  · have honly : ∀ stored ∈ twoDirectories.stored.entries,
        stored.location = ["way"] ∨
          stored.entry ∈ [.directory, .file [] 5] := by
      decide +kernel
    rcases honly _ hmem with hway | hentry
    · simp at hway
    · simp at hentry

/-- The root is spelled like the link by which the project was opened. -/
theorem linkedSpelling_findsWithin :
    (enumeratedProject.unitsInScope (.inDirectory "/way//core/.")
        twoDirectories).2 = enumeratedProject.unitsWithin ["core"] ∧
      (enumeratedProject.unitsWithin ["core"]).entries =
        [⟨"core/A.java"⟩] := by
  have hdirectory : twoDirectories.locate true
      (enumeratedProject.root.join ⟨"/way//core/."⟩) =
        .ok (["p"] ++ ["core"], .directory) := by
    decide +kernel
  have hspells : enumeratedProject.SpellsDirectly "/way//core/." :=
    ⟨⟨"core"⟩, by decide +kernel, by decide +kernel⟩
  exact ⟨(Project.inDirectory_findsWithin_iff (by decide +kernel)
    linkedProject_isOpened (by decide +kernel) twoDirectories_holdsNoLink rfl
    hdirectory).1.mpr (Or.inl hspells), by decide +kernel⟩

/-- A way to a directory through the one beside it misses what stands there. -/
theorem roundaboutSpelling_findsNothing :
    twoDirectories.locate true ⟨"/p/lib/../core"⟩ =
        .ok (["p", "core"], .directory) ∧
      ((enumeratedProject.unitsInScope (.inDirectory "core")
        twoDirectories).2).entries = [⟨"core/A.java"⟩] ∧
        ((enumeratedProject.unitsInScope (.inDirectory "lib/../core")
          twoDirectories).2).entries = [] := by
  exact ⟨by decide +kernel, by decide +kernel, by decide +kernel⟩

end Sample

end CallGraph
